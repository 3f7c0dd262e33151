import Mathlib.Logic.Function.Iterate
import Mathlib.Tactic.Common

/-! Undo and redo over a timeline: the present state, the states before it and the undone states
after it, nearest first, each with a label on the change between it and the next state. -/

structure Timeline (σ δ : Type*) where
  present : σ
  past : List (δ × σ)
  future : List (δ × σ)

namespace Timeline
variable {σ δ : Type*} {t : Timeline σ δ} {n : ℕ}

/-- The same timeline in the other direction. -/
def flip (t : Timeline σ δ) : Timeline σ δ := ⟨t.present, t.future, t.past⟩

def undo (t : Timeline σ δ) : Timeline σ δ :=
  match t.past with
  | [] => t
  | (d, s) :: past => ⟨s, past, (d, t.present) :: t.future⟩

def redo (t : Timeline σ δ) : Timeline σ δ := t.flip.undo.flip

/-- A change that is remembered by itself. -/
def record (d : δ) (next : σ) (t : Timeline σ δ) : Timeline σ δ :=
  ⟨next, (d, t.present) :: t.past, []⟩

/-- A change that is remembered together with the one before it. -/
def amend (d : δ) (next : σ) (t : Timeline σ δ) : Timeline σ δ :=
  match t.past with
  | [] => t.record d next
  | (_, s) :: past => ⟨next, (d, s) :: past, []⟩

/-- The earliest of a state and those before it. -/
def earliest : σ → List (δ × σ) → σ
  | s, [] => s
  | _, (_, s) :: past => earliest s past

/-- The state that everything in the past comes from. -/
def origin (t : Timeline σ δ) : σ := earliest t.present t.past

@[simp] theorem future_amend (d : δ) (next : σ) (t : Timeline σ δ) :
    (t.amend d next).future = [] := by
  unfold amend
  split
  · rfl
  · rfl

theorem length_past_amend (d : δ) (next : σ) (t : Timeline σ δ) :
    (t.amend d next).past.length ≤ t.past.length + 1 := by
  obtain ⟨present, past, future⟩ := t
  cases past with
  | nil => exact Nat.le_refl _
  | cons e past => exact Nat.le_succ _

@[simp] theorem flip_flip (t : Timeline σ δ) : t.flip.flip = t := rfl

theorem redo_undo (h : t.past ≠ []) : t.undo.redo = t := by
  obtain ⟨present, past, future⟩ := t
  cases past with
  | nil => exact absurd rfl h
  | cons e past => rfl

theorem undo_redo (h : t.future ≠ []) : t.redo.undo = t := by
  have hflip : t.flip.undo.redo = t.flip := redo_undo h
  exact congrArg flip hflip

theorem length_past_undo (t : Timeline σ δ) : t.undo.past.length = t.past.length - 1 := by
  obtain ⟨present, past, future⟩ := t
  cases past with
  | nil => rfl
  | cons e past => rfl

theorem length_past_undo_iterate (t : Timeline σ δ) (n : ℕ) :
    (undo^[n] t).past.length = t.past.length - n := by
  induction n with
  | zero => rfl
  | succ n ih =>
    rw [Function.iterate_succ_apply', length_past_undo, ih]
    omega

/-- As many steps back as there are, and as many forward again. -/
theorem redo_iterate_undo_iterate (h : n ≤ t.past.length) : redo^[n] (undo^[n] t) = t := by
  induction n with
  | zero => rfl
  | succ n ih =>
    have hpast : (undo^[n] t).past ≠ [] := by
      have hlength := length_past_undo_iterate t n
      intro hnil
      rw [hnil, List.length_nil] at hlength
      omega
    rw [Function.iterate_succ_apply' undo, Function.iterate_succ_apply redo, redo_undo hpast]
    exact ih (by omega)

@[simp] theorem origin_undo (t : Timeline σ δ) : t.undo.origin = t.origin := by
  obtain ⟨present, past, future⟩ := t
  cases past with
  | nil => rfl
  | cons e past => rfl

@[simp] theorem origin_redo (t : Timeline σ δ) : t.redo.origin = t.origin := by
  by_cases h : t.future = []
  · have hredo : t.redo = t := by
      obtain ⟨present, past, future⟩ := t
      cases h
      rfl
    rw [hredo]
  · rw [← origin_undo, undo_redo h]

@[simp] theorem origin_record (d : δ) (next : σ) (t : Timeline σ δ) :
    (t.record d next).origin = t.origin := rfl

@[simp] theorem origin_amend (d : δ) (next : σ) (t : Timeline σ δ) :
    (t.amend d next).origin = t.origin := by
  obtain ⟨present, past, future⟩ := t
  cases past with
  | nil => rfl
  | cons e past => rfl

@[simp] theorem origin_undo_iterate (t : Timeline σ δ) (n : ℕ) :
    (undo^[n] t).origin = t.origin := by
  induction n with
  | zero => rfl
  | succ n ih => rw [Function.iterate_succ_apply', origin_undo, ih]

/-- All the way back is the origin. -/
theorem present_undo_iterate (t : Timeline σ δ) :
    (undo^[t.past.length] t).present = t.origin := by
  have hlength := length_past_undo_iterate t t.past.length
  have hpast : (undo^[t.past.length] t).past = [] := by
    rw [Nat.sub_self] at hlength
    exact List.length_eq_zero_iff.mp hlength
  rw [← origin_undo_iterate t t.past.length, origin, hpast]
  rfl

end Timeline
