import Mathlib.Data.List.AList
import Mathlib.Data.List.Perm.Basic

/-! Values that are shared under keys and counted by those who hold them. A value is made for the first
holder of its key and dropped with the last one. -/
namespace RefCount

structure Table (κ ν : Type*) [DecidableEq κ] where
  counts : AList fun _ : κ => ℤ
  shared : AList fun _ : κ => ν

namespace Table
variable {κ ν : Type*} [DecidableEq κ] (t : Table κ ν)

/-- One more holder of a key, and the value that it is given. -/
def acquire (k : κ) (v : ν) : Table κ ν × ν :=
  match t.shared.lookup k with
  | some w => (⟨t.counts.insert k ((t.counts.lookup k).getD 0 + 1), t.shared⟩, w)
  | none => (⟨t.counts.insert k 1, t.shared.insert k v⟩, v)

/-- One holder less; `none` when the count would be negative. -/
def release (k : κ) : Option (Table κ ν) :=
  let count := (t.counts.lookup k).getD 0 - 1
  if count < 0 then none
  else if count = 0 then some ⟨t.counts.erase k, t.shared.erase k⟩
  else some ⟨t.counts.insert k count, t.shared⟩

end Table

variable {κ ν : Type*} [DecidableEq κ]

/-- The number of holders of a key. -/
def holders (held : List (κ × ν)) (k : κ) : ℕ := held.countP fun h => h.1 = k

/-- The table is that of the holders: their numbers are counted, keys without holders are not there, and
the holders of a key have the value that is shared under it. -/
structure Held (t : Table κ ν) (held : List (κ × ν)) : Prop where
  counts : ∀ k, t.counts.lookup k = if holders held k = 0 then none else some (holders held k : ℤ)
  shared : ∀ k, (t.shared.lookup k).isSome = decide (holders held k ≠ 0)
  same : ∀ h ∈ held, t.shared.lookup h.1 = some h.2

theorem holders_cons (h : κ × ν) (held : List (κ × ν)) (k : κ) :
    holders (h :: held) k = holders held k + if h.1 = k then 1 else 0 := by
  simp [holders, List.countP_cons]

@[simp] theorem holders_cons_self (h : κ × ν) (held : List (κ × ν)) :
    holders (h :: held) h.1 = holders held h.1 + 1 := by
  rw [holders_cons, if_pos rfl]

theorem holders_cons_ne {h : κ × ν} {k : κ} (hk : k ≠ h.1) (held : List (κ × ν)) :
    holders (h :: held) k = holders held k := by
  rw [holders_cons, if_neg fun heq => hk heq.symm, Nat.add_zero]

theorem holders_pos {held : List (κ × ν)} {h : κ × ν} (hh : h ∈ held) : 0 < holders held h.1 :=
  List.countP_pos_iff.mpr ⟨h, hh, by simp⟩

theorem ne_of_holders_eq_zero {held : List (κ × ν)} {k : κ} (hzero : holders held k = 0)
    {h : κ × ν} (hh : h ∈ held) : h.1 ≠ k := by
  intro heq
  have hpos := holders_pos hh
  rw [heq, hzero] at hpos
  omega

theorem held_empty : Held (⟨∅, ∅⟩ : Table κ ν) [] where
  counts k := by simp [holders]
  shared k := by simp [holders]
  same h hh := by cases hh

namespace Held
variable {t : Table κ ν} {held held' : List (κ × ν)}

theorem perm (h : Held t held) (hperm : held.Perm held') : Held t held' := by
  have hcount : ∀ k, holders held' k = holders held k := fun k => (hperm.countP_eq _).symm
  exact ⟨fun k => by rw [hcount]; exact h.counts k, fun k => by rw [hcount]; exact h.shared k,
    fun x hx => h.same x (hperm.mem_iff.mpr hx)⟩

/-- The counts as integers, absent ones being zero. -/
theorem count_eq (h : Held t held) (k : κ) : (t.counts.lookup k).getD 0 = holders held k := by
  rw [h.counts k]
  split_ifs with hzero <;> simp [hzero]

/-- A counter is there exactly with the value that it counts. -/
theorem isSome_counts (h : Held t held) (k : κ) :
    (t.counts.lookup k).isSome = (t.shared.lookup k).isSome := by
  rw [h.counts k, h.shared k]
  split_ifs with hzero <;> simp [hzero]

theorem holders_eq_zero_iff (h : Held t held) (k : κ) :
    t.shared.lookup k = none ↔ holders held k = 0 := by
  have hshared := h.shared k
  by_cases hzero : holders held k = 0
  · simpa [hzero] using hshared
  · apply iff_of_false _ hzero
    intro hnone
    simp [hnone, hzero] at hshared

/-- The count of a key without holders starts from zero in either case. -/
theorem acquire_counts (h : Held t held) (k : κ) (v : ν) :
    (t.acquire k v).1.counts = t.counts.insert k ((holders held k : ℤ) + 1) := by
  unfold Table.acquire
  cases hk : t.shared.lookup k with
  | some w =>
    rw [h.count_eq]
  | none =>
    rw [(h.holders_eq_zero_iff k).mp hk]
    rfl

theorem acquire (h : Held t held) (k : κ) (v : ν) :
    Held (t.acquire k v).1 ((k, (t.acquire k v).2) :: held) := by
  have hcounts : ∀ j, (t.acquire k v).1.counts.lookup j =
      if holders ((k, (t.acquire k v).2) :: held) j = 0 then none
      else some (holders ((k, (t.acquire k v).2) :: held) j : ℤ) := by
    intro j
    rw [h.acquire_counts]
    by_cases hj : j = k
    · subst hj
      simp [holders_cons]
    · rw [AList.lookup_insert_ne hj, h.counts j, holders_cons_ne hj]
  unfold Table.acquire at hcounts ⊢
  cases hk : t.shared.lookup k with
  | some w =>
    simp only [hk] at hcounts
    refine ⟨hcounts, fun j => ?_, fun x hx => ?_⟩
    · by_cases hj : j = k
      · subst hj
        simp [holders_cons, hk]
      · rw [h.shared j, holders_cons_ne hj]
    · rcases List.mem_cons.mp hx with rfl | hx
      · exact hk
      · exact h.same x hx
  | none =>
    simp only [hk] at hcounts
    have hzero := (h.holders_eq_zero_iff k).mp hk
    refine ⟨hcounts, fun j => ?_, fun x hx => ?_⟩
    · by_cases hj : j = k
      · subst hj
        simp [holders_cons]
      · rw [AList.lookup_insert_ne hj, h.shared j, holders_cons_ne hj]
    · rcases List.mem_cons.mp hx with rfl | hx
      · exact AList.lookup_insert _
      · rw [AList.lookup_insert_ne (ne_of_holders_eq_zero hzero hx)]
        exact h.same x hx

/-- A holder can let go, and the count is right without it. -/
theorem release {x : κ × ν} (h : Held t (x :: held)) :
    ∃ t', t.release x.1 = some t' ∧ Held t' held := by
  have hleft : (t.counts.lookup x.1).getD 0 - 1 = holders held x.1 := by
    rw [h.count_eq, holders_cons_self]
    omega
  unfold Table.release
  rw [hleft]
  by_cases hzero : holders held x.1 = 0
  · refine ⟨⟨t.counts.erase x.1, t.shared.erase x.1⟩, by simp [hzero], ?_, ?_, ?_⟩
    · intro j
      by_cases hj : j = x.1
      · subst hj
        simp [hzero]
      · rw [AList.lookup_erase_ne hj, h.counts j, holders_cons_ne hj]
    · intro j
      by_cases hj : j = x.1
      · subst hj
        simp [hzero]
      · rw [AList.lookup_erase_ne hj, h.shared j, holders_cons_ne hj]
    · intro y hy
      rw [AList.lookup_erase_ne (ne_of_holders_eq_zero hzero hy)]
      exact h.same y (List.mem_cons_of_mem _ hy)
  · refine ⟨⟨t.counts.insert x.1 (holders held x.1), t.shared⟩, ?_, ?_, ?_, ?_⟩
    · have hpos : ¬(holders held x.1 : ℤ) < 0 := by omega
      have hne : ¬(holders held x.1 : ℤ) = 0 := by omega
      rw [if_neg hpos, if_neg hne]
    · intro j
      by_cases hj : j = x.1
      · subst hj
        simp [hzero]
      · rw [AList.lookup_insert_ne hj, h.counts j, holders_cons_ne hj]
    · intro j
      rw [h.shared j]
      by_cases hj : j = x.1
      · subst hj
        simp [hzero]
      · rw [holders_cons_ne hj]
    · intro y hy
      exact h.same y (List.mem_cons_of_mem _ hy)

/-- What a new holder is given: the value that the others have, or the one made for it. -/
theorem acquire_snd (h : Held t held) (k : κ) (v : ν) :
    (∃ x ∈ held, x.1 = k ∧ (t.acquire k v).2 = x.2) ∨
      (∀ x ∈ held, x.1 ≠ k) ∧ (t.acquire k v).2 = v := by
  unfold Table.acquire
  cases hk : t.shared.lookup k with
  | some w =>
    have hpos : holders held k ≠ 0 := by
      rw [ne_eq, ← h.holders_eq_zero_iff, hk]
      exact Option.some_ne_none w
    obtain ⟨x, hx, hxk⟩ := List.countP_pos_iff.mp (Nat.pos_of_ne_zero hpos)
    have hxk : x.1 = k := by simpa using hxk
    have hsame := h.same x hx
    rw [hxk, hk] at hsame
    exact Or.inl ⟨x, hx, hxk, Option.some.inj hsame⟩
  | none =>
    have hzero := (h.holders_eq_zero_iff k).mp hk
    exact Or.inr ⟨fun x hx => ne_of_holders_eq_zero hzero hx, rfl⟩

end Held

end RefCount
