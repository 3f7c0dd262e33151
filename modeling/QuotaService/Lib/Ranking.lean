import Mathlib.Data.List.Sort

/-! The first elements of a list in the order of decreasing scores. The order of elements with the same
score is open, so that there are several such lists; their scores are the same. -/
namespace Ranking
variable {α ι : Type*} [LinearOrder ι] {score : α → ι} {k k' : ℕ} {l l' r r' : List α}

/-- `r` has the first `k` of the elements of `l`, in some order of decreasing scores. -/
def IsTop (score : α → ι) (k : ℕ) (l r : List α) : Prop :=
  ∃ arr : List α, arr.Perm l ∧ (arr.map score).Pairwise (· ≥ ·) ∧ r = arr.take k

theorem IsTop.length (h : IsTop score k l r) : r.length = min k l.length := by
  obtain ⟨arr, hperm, -, rfl⟩ := h
  rw [List.length_take, hperm.length_eq]

theorem IsTop.sorted (h : IsTop score k l r) : (r.map score).Pairwise (· ≥ ·) := by
  obtain ⟨arr, -, hsorted, rfl⟩ := h
  rw [List.map_take]
  exact hsorted.sublist (List.take_sublist k _)

/-- The scores do not depend on the order. -/
theorem IsTop.scores_eq (h : IsTop score k l r) (h' : IsTop score k' l' r')
    (hscores : (l.map score).Perm (l'.map score)) (hk : k ≤ k') :
    r.map score = (r'.map score).take k := by
  obtain ⟨arr, hperm, hsorted, rfl⟩ := h
  obtain ⟨arr', hperm', hsorted', rfl⟩ := h'
  have hsame : (arr.map score).Perm (arr'.map score) :=
    (hperm.map score).trans (hscores.trans (hperm'.map score).symm)
  rw [List.map_take, List.map_take, List.take_take, min_eq_left hk,
    hsame.eq_of_pairwise' hsorted hsorted']

/-- What is left out scores no more than what is not. -/
theorem IsTop.left_out (h : IsTop score k l r) {a : α} (ha : a ∈ l) (hout : a ∉ r) :
    ∀ b ∈ r, score a ≤ score b := by
  obtain ⟨arr, hperm, hsorted, rfl⟩ := h
  intro b hb
  have hrest : a ∈ arr.drop k := by
    have hmem : a ∈ arr.take k ++ arr.drop k := by
      rw [List.take_append_drop]
      exact hperm.mem_iff.mpr ha
    exact (List.mem_append.mp hmem).resolve_left hout
  have hsplit := List.pairwise_map.mp hsorted
  rw [← List.take_append_drop k arr, List.pairwise_append] at hsplit
  exact hsplit.2.2 b hb a hrest

theorem IsTop.perm (h : IsTop score k l r) (hperm : l.Perm l') : IsTop score k l' r := by
  obtain ⟨arr, harr, hsorted, rfl⟩ := h
  exact ⟨arr, harr.trans hperm, hsorted, rfl⟩

theorem IsTop.map {β : Type*} {f : α → β} {score' : β → ι} (h : IsTop score k l r)
    (hf : ∀ a ∈ l, score' (f a) = score a) : IsTop score' k (l.map f) (r.map f) := by
  obtain ⟨arr, harr, hsorted, rfl⟩ := h
  have hscores : (arr.map f).map score' = arr.map score := by
    rw [List.map_map]
    apply List.map_congr_left
    intro a ha
    exact hf a (harr.mem_iff.mp ha)
  refine ⟨arr.map f, harr.map f, ?_, List.map_take⟩
  rw [hscores]
  exact hsorted

/-- Sorting by a relation that decreases the scores. -/
theorem isTop_insertionSort {rel : α → α → Prop} [DecidableRel rel] [Std.Total rel]
    [IsTrans α rel] (hrel : ∀ a b, rel a b → score b ≤ score a) (k : ℕ) (l : List α) :
    IsTop score k l ((l.insertionSort rel).take k) := by
  refine ⟨l.insertionSort rel, List.perm_insertionSort rel l, ?_, rfl⟩
  rw [List.pairwise_map]
  exact (List.pairwise_insertionSort rel l).imp fun hab => hrel _ _ hab

theorem exists_isTop (score : α → ι) (k : ℕ) (l : List α) : ∃ r, IsTop score k l r := by
  have htotal : Std.Total fun a b : α => score b ≤ score a := ⟨fun a b => le_total _ _⟩
  have htrans : IsTrans α fun a b : α => score b ≤ score a := ⟨fun _ _ _ hab hbc => hbc.trans hab⟩
  exact ⟨_, isTop_insertionSort (fun _ _ hab => hab) k l⟩

/-- `r` is `l` in some order of decreasing scores. -/
def IsSorted (score : α → ι) (l r : List α) : Prop :=
  r.Perm l ∧ r.Pairwise fun a b => score b ≤ score a

section Keys
variable {κ : Type*} [LinearOrder κ] {key : α → κ}

/-- Elements with the same score may come in the order of increasing keys. -/
theorem exists_isSorted (score : α → ι) (key : α → κ) (l : List α) :
    ∃ r, IsSorted score l r ∧ r.Pairwise fun a b => score a = score b → key a ≤ key b := by
  let rel : α → α → Prop := fun a b => score b < score a ∨ (score a = score b ∧ key a ≤ key b)
  have hdec : DecidableRel rel := fun a b => inferInstanceAs (Decidable (_ ∨ _))
  have htotal : Std.Total rel := by
    constructor
    intro a b
    rcases lt_trichotomy (score a) (score b) with hlt | heq | hlt
    · exact Or.inr (Or.inl hlt)
    · rcases le_total (key a) (key b) with hle | hle
      · exact Or.inl (Or.inr ⟨heq, hle⟩)
      · exact Or.inr (Or.inr ⟨heq.symm, hle⟩)
    · exact Or.inl (Or.inl hlt)
  have htrans : IsTrans α rel := by
    constructor
    rintro a b c (hab | ⟨hab, hkab⟩) (hbc | ⟨hbc, hkbc⟩)
    · exact Or.inl (hbc.trans hab)
    · exact Or.inl (hbc ▸ hab)
    · exact Or.inl (hab ▸ hbc)
    · exact Or.inr ⟨hab.trans hbc, hkab.trans hkbc⟩
  have hsorted := List.pairwise_insertionSort rel l
  refine ⟨l.insertionSort rel, ⟨List.perm_insertionSort rel l, ?_⟩, ?_⟩
  · apply hsorted.imp
    rintro a b (hlt | ⟨heq, -⟩)
    · exact hlt.le
    · exact heq.ge
  · apply hsorted.imp
    rintro a b (hlt | ⟨-, hle⟩) heq
    · exact absurd heq hlt.ne'
    · exact hle

/-- Every order of decreasing scores is one of decreasing keys, exactly if greater keys have greater
scores. -/
theorem isSorted_decreasing_iff (hdistinct : (l.map key).Nodup) :
    (∀ r, IsSorted score l r → (r.map key).Pairwise (· > ·)) ↔
      ∀ a ∈ l, ∀ b ∈ l, key a < key b → score a < score b := by
  constructor
  · intro h a ha b hb hkey
    obtain ⟨r, hr, hties⟩ := exists_isSorted score key l
    have hkeys := List.pairwise_iff_getElem.mp (List.pairwise_map.mp (h r hr))
    have hscores := List.pairwise_iff_getElem.mp (hr.2.and hties)
    obtain ⟨i, hi, rfl⟩ := List.getElem_of_mem (hr.1.mem_iff.mpr ha)
    obtain ⟨j, hj, rfl⟩ := List.getElem_of_mem (hr.1.mem_iff.mpr hb)
    rcases lt_trichotomy i j with hlt | rfl | hlt
    · exact absurd (hkeys i j hi hj hlt) hkey.not_gt
    · exact absurd hkey (lt_irrefl _)
    · obtain ⟨hle, htie⟩ := hscores j i hj hi hlt
      -- with the same score the greater key would not come first
      exact lt_of_le_of_ne hle fun heq => absurd (htie heq.symm) hkey.not_ge
  · intro h r hr
    have hnodup : (r.map key).Nodup := (hr.1.map key).nodup_iff.mpr hdistinct
    rw [List.pairwise_map]
    have hkeys := List.pairwise_map.mp hnodup
    refine (hr.2.and hkeys).imp_of_mem fun {a b} ha hb hab => ?_
    by_contra hnot
    have hlt : key a < key b := lt_of_le_of_ne (not_lt.mp hnot) hab.2
    exact absurd (h a (hr.1.mem_iff.mp ha) b (hr.1.mem_iff.mp hb) hlt) hab.1.not_gt

end Keys

end Ranking
