import Mathlib.Data.List.DropRight

/-! Two lists joined by a separator that is not escaped. When the parts can be read back: always if
the last part never holds the separator, and otherwise only if the separator is nowhere but at the
outer ends of the two parts. And the splitting of a list at its separators. -/
namespace Separator
variable {α : Type*} {sep : α} {a b a' b' : List α}

/-- No other two nonempty lists are joined to the same list. -/
def Unambiguous (sep : α) (a b : List α) : Prop :=
  ∀ a' b', a' ≠ [] → b' ≠ [] → a' ++ sep :: b' = a ++ sep :: b → a' = a ∧ b' = b

theorem inj_of_notMem_right (hb : sep ∉ b) (hb' : sep ∉ b')
    (h : a ++ sep :: b = a' ++ sep :: b') : a = a' ∧ b = b' := by
  rcases List.append_eq_append_iff.mp h with ⟨c, rfl, hc⟩ | ⟨c, rfl, hc⟩
  · cases c with
    | nil =>
      cases hc
      exact ⟨(List.append_nil a).symm, rfl⟩
    | cons x c =>
      obtain ⟨rfl, rfl⟩ := List.cons.inj hc
      exact absurd (List.mem_append_right c List.mem_cons_self) hb
  · cases c with
    | nil =>
      cases hc
      exact ⟨List.append_nil a', rfl⟩
    | cons x c =>
      obtain ⟨rfl, rfl⟩ := List.cons.inj hc
      exact absurd (List.mem_append_right c List.mem_cons_self) hb'

/-- Two pairs are joined to the same list if they are the same, or differ by what is between two
separators and belongs to the first part of one and to the second part of the other. -/
theorem append_cons_eq_iff : a ++ sep :: b = a' ++ sep :: b' ↔
    (a = a' ∧ b = b') ∨ (∃ m, a = a' ++ sep :: m ∧ b' = m ++ sep :: b) ∨
      ∃ m, a' = a ++ sep :: m ∧ b = m ++ sep :: b' := by
  constructor
  · intro h
    rcases List.append_eq_append_iff.mp h with ⟨c, rfl, hc⟩ | ⟨c, rfl, hc⟩
    · cases c with
      | nil =>
        cases hc
        exact Or.inl ⟨(List.append_nil a).symm, rfl⟩
      | cons x m =>
        obtain ⟨rfl, rfl⟩ := List.cons.inj hc
        exact Or.inr (Or.inr ⟨m, rfl, rfl⟩)
    · cases c with
      | nil =>
        cases hc
        exact Or.inl ⟨List.append_nil a', rfl⟩
      | cons x m =>
        obtain ⟨rfl, rfl⟩ := List.cons.inj hc
        exact Or.inr (Or.inl ⟨m, rfl, rfl⟩)
  · rintro (⟨rfl, rfl⟩ | ⟨m, rfl, rfl⟩ | ⟨m, rfl, rfl⟩)
    · rfl
    · simp
    · simp

theorem mem_tail_of_append (ha : a ≠ []) (c : List α) : sep ∈ (a ++ sep :: c).tail := by
  obtain ⟨x, t, rfl⟩ := List.exists_cons_of_ne_nil ha
  exact List.mem_append_right t List.mem_cons_self

theorem mem_dropLast_of_append (hb : b ≠ []) (c : List α) : sep ∈ (c ++ sep :: b).dropLast := by
  obtain ⟨t, x, rfl⟩ := (List.eq_nil_or_concat b).resolve_left hb
  rw [List.concat_eq_append, ← List.cons_append, ← List.append_assoc, List.dropLast_concat]
  exact List.mem_append_right c List.mem_cons_self

theorem unambiguous_iff (ha : a ≠ []) (hb : b ≠ []) :
    Unambiguous sep a b ↔ sep ∉ a.tail ∧ sep ∉ b.dropLast := by
  constructor
  · intro h
    constructor
    · intro hmem
      obtain ⟨x, t, rfl⟩ := List.exists_cons_of_ne_nil ha
      obtain ⟨u, v, rfl⟩ := List.append_of_mem hmem
      -- the separator inside the first part could be the one between the parts
      have hsplit := h (x :: u) (v ++ sep :: b) (List.cons_ne_nil x u) (by simp) (by simp)
      exact absurd hsplit.1 (by simp)
    · intro hmem
      obtain ⟨t, x, rfl⟩ := (List.eq_nil_or_concat b).resolve_left hb
      rw [List.concat_eq_append, List.dropLast_concat] at hmem
      obtain ⟨u, v, rfl⟩ := List.append_of_mem hmem
      have hsplit := h (a ++ sep :: u) (v ++ [x]) (by simp) (by simp) (by simp)
      exact absurd hsplit.1 (by simp)
  · rintro ⟨htail, hlast⟩ a' b' ha' hb' h
    rcases List.append_eq_append_iff.mp h with ⟨c, rfl, hc⟩ | ⟨c, rfl, hc⟩
    · cases c with
      | nil =>
        cases hc
        exact ⟨(List.append_nil a').symm, rfl⟩
      | cons x c =>
        obtain ⟨rfl, -⟩ := List.cons.inj hc
        exact absurd (mem_tail_of_append ha' c) htail
    · cases c with
      | nil =>
        cases hc
        exact ⟨List.append_nil a, rfl⟩
      | cons x c =>
        obtain ⟨rfl, rfl⟩ := List.cons.inj hc
        exact absurd (mem_dropLast_of_append hb' c) hlast

section Split
variable [DecidableEq α]

/-- The list without the separators at its two ends. -/
def trim (sep : α) (l : List α) : List α := (l.dropWhile (· = sep)).rdropWhile (· = sep)

/-- The parts between the separators, at most `n` of them; the last one is not split. -/
def splitN (sep : α) : ℕ → List α → List (List α)
  | 0, _ => []
  | 1, l => [l]
  | n + 2, l =>
    if sep ∈ l then l.takeWhile (· ≠ sep) :: splitN sep (n + 1) (l.dropWhile (· ≠ sep)).tail
    else [l]

theorem trim_cons (l : List α) : trim sep (sep :: l) = trim sep l := by
  simp [trim]

theorem trim_eq_self {l : List α} (hhead : ∀ x ∈ l.head?, x ≠ sep)
    (hlast : ∀ x ∈ l.getLast?, x ≠ sep) : trim sep l = l := by
  have hdrop : l.dropWhile (· = sep) = l := by
    cases l with
    | nil => rfl
    | cons x l =>
      have hx : x ≠ sep := hhead x rfl
      simp [hx]
  rw [trim, hdrop, List.rdropWhile_eq_self_iff]
  intro hne
  have hx := hlast (l.getLast hne) (List.getLast?_eq_getLast_of_ne_nil hne)
  simpa using hx

theorem splitN_of_notMem (n : ℕ) {l : List α} (h : sep ∉ l) : splitN sep (n + 1) l = [l] := by
  cases n with
  | zero => rfl
  | succ n => rw [splitN, if_neg h]

theorem takeWhile_append_cons (ha : sep ∉ a) (l : List α) :
    (a ++ sep :: l).takeWhile (· ≠ sep) = a ∧ (a ++ sep :: l).dropWhile (· ≠ sep) = sep :: l := by
  have hne : ∀ x ∈ a, decide (x ≠ sep) = true := by
    intro x hx
    exact decide_eq_true fun heq => ha (heq ▸ hx)
  rw [List.takeWhile_append_of_pos hne, List.dropWhile_append_of_pos hne]
  simp

theorem splitN_append (n : ℕ) (ha : sep ∉ a) (l : List α) :
    splitN sep (n + 2) (a ++ sep :: l) = a :: splitN sep (n + 1) l := by
  have hmem : sep ∈ a ++ sep :: l := List.mem_append_right a List.mem_cons_self
  obtain ⟨htake, hdrop⟩ := takeWhile_append_cons ha l
  rw [splitN, if_pos hmem, htake, hdrop, List.tail_cons]

/-- A part that is followed by the separator can be read off the beginning. -/
theorem append_prefix_iff (ha : sep ∉ a) (hb : sep ∉ b) (l : List α) :
    b ++ [sep] <+: a ++ sep :: l ↔ b = a := by
  constructor
  · rintro ⟨l', h⟩
    rw [List.append_assoc, List.singleton_append] at h
    have htake := congrArg (List.takeWhile (· ≠ sep)) h
    rwa [(takeWhile_append_cons hb l').1, (takeWhile_append_cons ha l).1] at htake
  · rintro rfl
    exact ⟨l, by simp⟩

end Split

end Separator
