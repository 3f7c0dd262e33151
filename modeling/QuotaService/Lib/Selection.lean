import Mathlib.Data.List.Induction
import Mathlib.Data.List.Perm.Basic
import Mathlib.Order.Lattice

/-! Scanning a list for its largest element. Of several elements with the largest key the scan
keeps the last, so what it selects depends on the order of the list unless the elements with the
largest key agree on what is asked of them. -/
namespace Selection

variable {α β ι : Type*} [LinearOrder ι]

/-- One step of the scan: the largest key so far, and the element that has it. -/
def step (key : α → ι) (best : ι × Option α) (a : α) : ι × Option α :=
  if best.1 ≤ key a then (key a, some a) else best

/-- The last of the elements with the largest key, of those whose key is not below `lo`. -/
def select (key : α → ι) (lo : ι) (l : List α) : Option α := (l.foldl (step key) (lo, none)).2

/-- An element whose key is largest. -/
def Largest (key : α → ι) (l : List α) (a : α) : Prop := a ∈ l ∧ ∀ b ∈ l, key b ≤ key a

variable {key : α → ι} {lo : ι} {l : List α}

theorem largest_of_perm {l' : List α} (h : l'.Perm l) {a : α} :
    Largest key l' a ↔ Largest key l a := by
  simp only [Largest, h.mem_iff]

theorem select_append_singleton (l : List α) (a : α) :
    select key lo (l ++ [a]) =
      if (l.foldl (step key) (lo, none)).1 ≤ key a then some a else select key lo l := by
  simp only [select, List.foldl_append, List.foldl_cons, List.foldl_nil]
  conv_lhs => rw [step]
  split_ifs <;> rfl

theorem mem_of_select {a : α} (ha : select key lo l = some a) : a ∈ l := by
  induction l using List.reverseRecOn with
  | nil => cases ha
  | append_singleton l b ih =>
    rw [select_append_singleton] at ha
    split_ifs at ha with hb
    · cases ha
      simp
    · exact List.mem_append_left _ (ih ha)

theorem best_of_select_none (h : select key lo l = none) :
    (l.foldl (step key) (lo, none)).1 = lo := by
  induction l using List.reverseRecOn with
  | nil => rfl
  | append_singleton l b ih =>
    rw [select_append_singleton] at h
    split_ifs at h with hb
    rw [List.foldl_append, List.foldl_cons, List.foldl_nil, step, if_neg hb]
    exact ih h

/-- The scan selects nothing when all elements are below `lo`. -/
theorem select_eq_none_iff : select key lo l = none ↔ ∀ a ∈ l, key a < lo := by
  induction l using List.reverseRecOn with
  | nil => simp [select]
  | append_singleton l b ih =>
    rw [select_append_singleton, List.forall_mem_append, List.forall_mem_singleton]
    constructor
    · intro h
      split_ifs at h with hb
      rw [best_of_select_none h] at hb
      exact ⟨ih.mp h, not_le.mp hb⟩
    · rintro ⟨hl, hb⟩
      have hrest := ih.mpr hl
      rw [best_of_select_none hrest, if_neg (not_le.mpr hb)]
      exact hrest

/-- The invariant of the scan. -/
theorem foldl_step_spec (key : α → ι) (lo : ι) (l : List α) :
    (∀ a ∈ l, key a ≤ (l.foldl (step key) (lo, none)).1) ∧
      (l.foldl (step key) (lo, none) = (lo, none) ∨
        ∃ a ∈ l, lo ≤ key a ∧ l.foldl (step key) (lo, none) = (key a, some a)) := by
  induction l using List.reverseRecOn with
  | nil => exact ⟨by simp, Or.inl rfl⟩
  | append_singleton l a ih =>
    obtain ⟨hle, hcase⟩ := ih
    simp only [List.foldl_append, List.foldl_cons, List.foldl_nil]
    generalize l.foldl (step key) (lo, none) = best at hle hcase ⊢
    unfold step
    split_ifs with hbest
    · refine ⟨fun b hb => ?_, Or.inr ⟨a, by simp, ?_, rfl⟩⟩
      · rcases List.mem_append.mp hb with hb | hb
        · exact (hle b hb).trans hbest
        · rw [List.mem_singleton.mp hb]
      · rcases hcase with rfl | ⟨b, -, hlo, rfl⟩
        · exact hbest
        · exact hlo.trans hbest
    · refine ⟨fun b hb => ?_, ?_⟩
      · rcases List.mem_append.mp hb with hb | hb
        · exact hle b hb
        · rw [List.mem_singleton.mp hb]
          exact (not_le.mp hbest).le
      · exact hcase.imp id fun ⟨b, hb, hb'⟩ => ⟨b, by simp [hb], hb'⟩

theorem select_largest {a : α} (ha : select key lo l = some a) : lo ≤ key a ∧ Largest key l a := by
  obtain ⟨hle, heq | ⟨b, hb, hlo, heq⟩⟩ := foldl_step_spec key lo l
  · simp [select, heq] at ha
  · rw [select, heq] at ha
    cases ha
    rw [heq] at hle
    exact ⟨hlo, hb, hle⟩

theorem select_eq_none (h : ∀ a ∈ l, lo ≤ key a) : select key lo l = none ↔ l = [] := by
  rw [select_eq_none_iff, List.eq_nil_iff_forall_not_mem]
  apply forall_congr'
  intro a
  constructor
  · intro hlt ha
    exact absurd (hlt ha) (not_lt.mpr (h a ha))
  · intro hnot ha
    exact absurd ha hnot

/-- What is selected in some order are the largest elements: put one last. -/
theorem exists_perm_select_iff {a : α} :
    (∃ l', l'.Perm l ∧ select key lo l' = some a) ↔ lo ≤ key a ∧ Largest key l a := by
  constructor
  · rintro ⟨l', hl', ha⟩
    obtain ⟨hlo, hlargest⟩ := select_largest ha
    exact ⟨hlo, (largest_of_perm hl').mp hlargest⟩
  · rintro ⟨hlo, hmem, hle⟩
    obtain ⟨pre, post, rfl⟩ := List.append_of_mem hmem
    refine ⟨(pre ++ post) ++ [a], ?_, ?_⟩
    · exact (List.perm_append_singleton a _).trans List.perm_middle.symm
    · rw [select_append_singleton, if_pos]
      obtain ⟨-, heq | ⟨b, hb, -, heq⟩⟩ := foldl_step_spec key lo (pre ++ post)
      · rw [heq]
        exact hlo
      · rw [heq]
        exact hle b (by simp at hb ⊢; tauto)

/-- The scan does not depend on the order exactly when all largest elements agree. -/
theorem select_perm_iff (h : ∀ a ∈ l, lo ≤ key a) (f : α → β) :
    (∀ l₁ l₂, l₁.Perm l → l₂.Perm l → (select key lo l₁).map f = (select key lo l₂).map f) ↔
      ∀ a b, Largest key l a → Largest key l b → f a = f b := by
  constructor
  · intro hall a b ha hb
    obtain ⟨l₁, hl₁, h₁⟩ := exists_perm_select_iff.mpr ⟨h a ha.1, ha⟩
    obtain ⟨l₂, hl₂, h₂⟩ := exists_perm_select_iff.mpr ⟨h b hb.1, hb⟩
    have heq := hall l₁ l₂ hl₁ hl₂
    rw [h₁, h₂] at heq
    exact Option.some.inj heq
  · intro hall l₁ l₂ hl₁ hl₂
    have h₁ : ∀ a ∈ l₁, lo ≤ key a := fun a ha => h a (hl₁.mem_iff.mp ha)
    have h₂ : ∀ a ∈ l₂, lo ≤ key a := fun a ha => h a (hl₂.mem_iff.mp ha)
    cases hs₁ : select key lo l₁ with
    | none =>
      have hl₂ : l₂ = [] := by
        have := (select_eq_none h₁).mp hs₁
        exact (hl₂.trans (this ▸ hl₁).symm).eq_nil
      rw [(select_eq_none h₂).mpr hl₂]
    | some a =>
      cases hs₂ : select key lo l₂ with
      | none =>
        have hl₁ : l₁ = [] := by
          have := (select_eq_none h₂).mp hs₂
          exact (hl₁.trans (this ▸ hl₂).symm).eq_nil
        rw [(select_eq_none h₁).mpr hl₁] at hs₁
        cases hs₁
      | some b =>
        have ha := (largest_of_perm hl₁).mp (select_largest hs₁).2
        have hb := (largest_of_perm hl₂).mp (select_largest hs₂).2
        exact congrArg some (hall a b ha hb)

end Selection
