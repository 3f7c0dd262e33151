import Mathlib.Algebra.Order.BigOperators.Group.List
import Mathlib.Algebra.Order.Group.Multiset
import Mathlib.Data.List.AList

/-! Directories: names that refer to objects in a store. A directory hands out references that
stay valid when the name is rebound or removed, so that whoever holds one keeps seeing the old
object. Totals are sums over the entries of an association list, or over the objects that are
bound to a name. -/

namespace AList
variable {κ α M : Type*} [DecidableEq κ] [AddCommMonoid M]

/-- The sum of what the entries weigh. -/
def total (w : κ → α → M) (t : AList fun _ : κ => α) : M := (t.entries.map fun e => w e.1 e.2).sum

omit [DecidableEq κ] in
@[simp] theorem total_empty (w : κ → α → M) : total w ∅ = 0 := rfl

theorem total_erase (w : κ → α → M) {t : AList fun _ : κ => α} {k : κ} {v : α}
    (h : t.lookup k = some v) : total w t = w k v + total w (t.erase k) := by
  have hkeys : k ∈ t.entries.keys := List.dlookup_isSome.mp (Option.isSome_iff_exists.mpr ⟨v, h⟩)
  obtain ⟨b, l₁, l₂, -, heq, herase⟩ := List.exists_of_kerase hkeys
  have hv : b = v := by
    have hmem : (⟨k, b⟩ : Sigma fun _ : κ => α) ∈ t.entries := by simp [heq]
    have hb : t.lookup k = some b := AList.mem_lookup_iff.mpr hmem
    exact Option.some.inj (hb.symm.trans h)
  subst hv
  have he : (t.erase k).entries = l₁ ++ l₂ := herase
  simp only [total, heq, he, List.map_append, List.map_cons, List.sum_append, List.sum_cons]
  exact add_left_comm _ _ _

theorem lookup_insert_cases {t : AList fun _ : κ => α} {k k' : κ} {v v' : α}
    (h : (t.insert k v).lookup k' = some v') :
    (k' = k ∧ v' = v) ∨ (k' ≠ k ∧ t.lookup k' = some v') := by
  by_cases hk : k' = k
  · rw [hk, AList.lookup_insert] at h
    exact Or.inl ⟨hk, (Option.some.inj h).symm⟩
  · exact Or.inr ⟨hk, (AList.lookup_insert_ne hk).symm.trans h⟩

theorem lookup_erase_cases {t : AList fun _ : κ => α} {k k' : κ} {v' : α}
    (h : (t.erase k).lookup k' = some v') : k' ≠ k ∧ t.lookup k' = some v' := by
  by_cases hk : k' = k
  · rw [hk] at h
    cases h.symm.trans (AList.lookup_erase ..)
  · exact ⟨hk, (AList.lookup_erase_ne hk).symm.trans h⟩

theorem erase_of_lookup_none {t : AList fun _ : κ => α} {k : κ} (h : t.lookup k = none) :
    t.erase k = t :=
  AList.ext (List.kerase_of_notMem_keys (List.dlookup_eq_none.mp h))

theorem total_insert (w : κ → α → M) (t : AList fun _ : κ => α) (k : κ) (v : α) :
    total w (t.insert k v) = w k v + total w (t.erase k) := by
  have h := total_erase w (t.lookup_insert (a := k) (b := v))
  have he : (t.insert k v).erase k = t.erase k :=
    AList.ext (List.kerase_cons_eq rfl)
  rwa [he] at h

theorem total_insert_of_none (w : κ → α → M) {t : AList fun _ : κ => α} {k : κ} (v : α)
    (h : t.lookup k = none) : total w (t.insert k v) = w k v + total w t := by
  rw [total_insert, erase_of_lookup_none h]

theorem total_congr {w w' : κ → α → M} {t : AList fun _ : κ => α}
    (h : ∀ k v, t.lookup k = some v → w k v = w' k v) : total w t = total w' t := by
  refine congrArg List.sum (List.map_congr_left fun e he => ?_)
  exact h e.1 e.2 (AList.mem_lookup_iff.mpr he)

theorem mem_total {γ : Type*} {w : κ → α → Multiset γ} {t : AList fun _ : κ => α} {x : γ} :
    x ∈ total w t ↔ ∃ k v, t.lookup k = some v ∧ x ∈ w k v := by
  have hsum : ∀ l : List (Multiset γ), x ∈ l.sum ↔ ∃ m ∈ l, x ∈ m := by
    intro l
    induction l with
    | nil => simp
    | cons m l ih => simp [ih]
  rw [total, hsum]
  constructor
  · rintro ⟨m, hm, hx⟩
    obtain ⟨e, he, rfl⟩ := List.mem_map.mp hm
    exact ⟨e.1, e.2, AList.mem_lookup_iff.mpr he, hx⟩
  · rintro ⟨k, v, hv, hx⟩
    exact ⟨w k v, List.mem_map.mpr ⟨⟨k, v⟩, AList.mem_lookup_iff.mp hv, rfl⟩, hx⟩

end AList

/-- Names bound to references into a list of objects. Every name refers to an object, and no two
names to the same one. -/
structure Directory (κ α : Type*) [DecidableEq κ] where
  table : AList fun _ : κ => ℕ
  objects : List α
  bound : ∀ k r, table.lookup k = some r → r < objects.length
  inj : ∀ k k' r, table.lookup k = some r → table.lookup k' = some r → k = k'

namespace Directory
variable {κ α M : Type*} [DecidableEq κ]

def empty : Directory κ α := ⟨∅, [], by simp, by simp⟩

def ref? (d : Directory κ α) (k : κ) : Option ℕ := d.table.lookup k

def deref (d : Directory κ α) (r : ℕ) : Option α := d.objects[r]?

def get? (d : Directory κ α) (k : κ) : Option α := (d.ref? k).bind d.deref

def keys (d : Directory κ α) : List κ := d.table.keys

/-- Binding a name to a new object. -/
def bind (d : Directory κ α) (k : κ) (a : α) : Directory κ α where
  table := d.table.insert k d.objects.length
  objects := d.objects ++ [a]
  bound k' r h := by
    by_cases hk : k' = k
    · subst hk
      simp only [AList.lookup_insert, Option.some.injEq] at h
      simp [← h]
    · rw [AList.lookup_insert_ne hk] at h
      have := d.bound k' r h
      simp
      omega
  inj k₁ k₂ r h₁ h₂ := by
    by_cases hk₁ : k₁ = k <;> by_cases hk₂ : k₂ = k
    · rw [hk₁, hk₂]
    · subst hk₁
      rw [AList.lookup_insert_ne hk₂] at h₂
      simp only [AList.lookup_insert, Option.some.injEq] at h₁
      exact absurd h₁ (d.bound k₂ r h₂).ne'
    · subst hk₂
      rw [AList.lookup_insert_ne hk₁] at h₁
      simp only [AList.lookup_insert, Option.some.injEq] at h₂
      exact absurd h₂ (d.bound k₁ r h₁).ne'
    · rw [AList.lookup_insert_ne hk₁] at h₁
      rw [AList.lookup_insert_ne hk₂] at h₂
      exact d.inj k₁ k₂ r h₁ h₂

/-- Changing an object in place. -/
def modify (d : Directory κ α) (r : ℕ) (f : α → α) : Directory κ α where
  table := d.table
  objects := d.objects.modify r f
  bound k r' h := by simpa using d.bound k r' h
  inj := d.inj

/-- Removing a name; the object stays. -/
def unbind (d : Directory κ α) (k : κ) : Directory κ α where
  table := d.table.erase k
  objects := d.objects
  bound k' r h := by
    by_cases hk : k' = k
    · subst hk
      rw [AList.lookup_erase] at h
      cases h
    · rw [AList.lookup_erase_ne hk] at h
      exact d.bound k' r h
  inj k₁ k₂ r h₁ h₂ := by
    have hne : ∀ k', (d.table.erase k).lookup k' = some r → d.table.lookup k' = some r := by
      intro k' h
      by_cases hk : k' = k
      · subst hk
        rw [AList.lookup_erase] at h
        cases h
      · rwa [AList.lookup_erase_ne hk] at h
    exact d.inj k₁ k₂ r (hne k₁ h₁) (hne k₂ h₂)

section Lookup
variable {d : Directory κ α} {k k' : κ} {r : ℕ} {a : α} {f : α → α}

theorem mem_keys : k ∈ d.keys ↔ ∃ r, d.ref? k = some r := by
  rw [← Option.isSome_iff_exists]
  exact AList.lookup_isSome.symm

theorem exists_deref (h : d.ref? k = some r) : ∃ a, d.deref r = some a :=
  ⟨_, List.getElem?_eq_getElem (d.bound k r h)⟩

theorem get?_eq_some : d.get? k = some a ↔ ∃ r, d.ref? k = some r ∧ d.deref r = some a :=
  Option.bind_eq_some_iff

theorem get?_eq_none : d.get? k = none ↔ d.ref? k = none := by
  cases h : d.ref? k with
  | none => simp [get?, h]
  | some r =>
    obtain ⟨a, ha⟩ := exists_deref h
    simp [get?, h, ha]

@[simp] theorem ref?_empty : (empty : Directory κ α).ref? k = none := by simp [empty, ref?]

@[simp] theorem deref_empty : (empty : Directory κ α).deref r = none := by simp [empty, deref]

@[simp] theorem get?_empty : (empty : Directory κ α).get? k = none := by simp [get?]

@[simp] theorem ref?_bind_self : (d.bind k a).ref? k = some d.objects.length := by
  simp [bind, ref?]

theorem ref?_bind_ne (h : k' ≠ k) : (d.bind k a).ref? k' = d.ref? k' :=
  AList.lookup_insert_ne h

theorem deref_bind_of_lt (h : r < d.objects.length) : (d.bind k a).deref r = d.deref r :=
  List.getElem?_append_left h

@[simp] theorem deref_bind_length : (d.bind k a).deref d.objects.length = some a := by
  simp [bind, deref]

@[simp] theorem get?_bind_self : (d.bind k a).get? k = some a := by simp [get?]

theorem get?_bind_ne (h : k' ≠ k) : (d.bind k a).get? k' = d.get? k' := by
  unfold get?
  rw [ref?_bind_ne h]
  cases hr : d.ref? k' with
  | none => rfl
  | some r => exact deref_bind_of_lt (d.bound k' r hr)

theorem deref_bind_eq_some {b : α} (h : (d.bind k a).deref r = some b) :
    d.deref r = some b ∨ r = d.objects.length ∧ b = a := by
  by_cases hr : r < d.objects.length
  · rw [deref_bind_of_lt hr] at h
    exact Or.inl h
  · have hlen := (List.getElem?_eq_some_iff.mp h).1
    simp only [bind, List.length_append, List.length_cons, List.length_nil] at hlen
    have hr' : r = d.objects.length := by omega
    subst hr'
    rw [deref_bind_length] at h
    exact Or.inr ⟨rfl, (Option.some.inj h).symm⟩

@[simp] theorem ref?_modify : (d.modify r f).ref? k = d.ref? k := rfl

theorem deref_modify {r' : ℕ} :
    (d.modify r f).deref r' = if r = r' then (d.deref r').map f else d.deref r' := by
  simp only [modify, deref, List.getElem?_modify]
  split_ifs <;> cases d.objects[r']? <;> rfl

@[simp] theorem deref_modify_self : (d.modify r f).deref r = (d.deref r).map f := by
  simp [deref_modify]

theorem deref_modify_ne {r' : ℕ} (h : r ≠ r') : (d.modify r f).deref r' = d.deref r' := by
  simp [deref_modify, h]

theorem get?_modify_self (h : d.ref? k = some r) :
    (d.modify r f).get? k = (d.get? k).map f := by
  simp [get?, h]

theorem get?_modify_ne (h : d.ref? k ≠ some r) : (d.modify r f).get? k = d.get? k := by
  unfold get?
  rw [ref?_modify]
  cases hr : d.ref? k with
  | none => rfl
  | some r' => exact deref_modify_ne (fun heq => h (by rw [hr, heq]))

theorem ref?_ne_of_ne (h : d.ref? k = some r) (hk : k' ≠ k) : d.ref? k' ≠ some r :=
  fun h' => hk (d.inj k' k r h' h)

@[simp] theorem ref?_unbind_self : (d.unbind k).ref? k = none := by simp [unbind, ref?]

theorem ref?_unbind_ne (h : k' ≠ k) : (d.unbind k).ref? k' = d.ref? k' :=
  AList.lookup_erase_ne h

@[simp] theorem deref_unbind : (d.unbind k).deref r = d.deref r := rfl

@[simp] theorem get?_unbind_self : (d.unbind k).get? k = none := by simp [get?]

/-- Rebinding a name does not depend on what it was bound to. -/
theorem bind_unbind : (d.unbind k).bind k a = d.bind k a := by
  have ht : (d.table.erase k).insert k d.objects.length = d.table.insert k d.objects.length := by
    have hnone : (d.table.erase k).lookup k = none := AList.lookup_erase k d.table
    have hrest : (d.table.erase k).entries.kerase k = (d.table.erase k).entries :=
      List.kerase_of_notMem_keys (List.dlookup_eq_none.mp hnone)
    apply AList.ext
    rw [AList.entries_insert, AList.entries_insert, hrest]
    rfl
  unfold bind unbind
  simp only [ht]

theorem get?_unbind_ne (h : k' ≠ k) : (d.unbind k).get? k' = d.get? k' := by
  simp only [get?, ref?_unbind_ne h]
  rfl

end Lookup

section Total
variable [AddCommMonoid M] {d : Directory κ α} {k : κ} {r : ℕ} {a : α} {w : α → M}

/-- The sum of what the bound objects weigh. -/
def total (w : α → M) (d : Directory κ α) : M :=
  AList.total (fun _ r => ((d.deref r).map w).getD 0) d.table

@[simp] theorem total_none : total w (empty : Directory κ α) = 0 := rfl

theorem total_unbind (h : d.get? k = some a) : total w d = w a + total w (d.unbind k) := by
  obtain ⟨r, hr, ha⟩ := get?_eq_some.mp h
  have herase := AList.total_erase (fun _ r => ((d.deref r).map w).getD 0) hr
  simp only [ha, Option.map_some, Option.getD_some] at herase
  exact herase

theorem unbind_of_none (h : d.get? k = none) : d.unbind k = d := by
  have ht : d.table.erase k = d.table := AList.erase_of_lookup_none (get?_eq_none.mp h)
  unfold unbind
  simp only [ht]

theorem total_bind : total w (d.bind k a) = w a + total w (d.unbind k) := by
  have hnew : (d.bind k a).deref d.objects.length = some a := deref_bind_length
  unfold total
  have hins := AList.total_insert (fun _ r => (((d.bind k a).deref r).map w).getD 0) d.table k
    d.objects.length
  apply hins.trans
  simp only [hnew, Option.map_some, Option.getD_some]
  congr 1
  refine AList.total_congr fun k' r hr => ?_
  rw [deref_bind_of_lt (show r < d.objects.length from (d.unbind k).bound k' r hr), deref_unbind]

theorem total_modify {f : α → α} (hr : d.ref? k = some r) (ha : d.deref r = some a) :
    total w (d.modify r f) + w a = total w d + w (f a) := by
  have hsame : total w ((d.modify r f).unbind k) = total w (d.unbind k) := by
    refine AList.total_congr fun k' r' hr' => ?_
    have hne : r ≠ r' := by
      rintro rfl
      have hr₂ : (d.unbind k).ref? k' = some r := hr'
      by_cases hk : k' = k
      · rw [hk, ref?_unbind_self] at hr₂
        cases hr₂
      · rw [ref?_unbind_ne hk] at hr₂
        exact hk (d.inj k' k r hr₂ hr)
    rw [deref_unbind, deref_unbind, deref_modify_ne hne]
  have hget : d.get? k = some a := get?_eq_some.mpr ⟨r, hr, ha⟩
  have hget' : (d.modify r f).get? k = some (f a) := by rw [get?_modify_self hr, hget]; rfl
  rw [total_unbind hget, total_unbind hget', hsame, add_comm (w (f a)), add_comm (w a),
    add_right_comm]

theorem total_modify_congr {f : α → α} (h : ∀ a, w (f a) = w a) :
    total w (d.modify r f) = total w d := by
  refine AList.total_congr fun k r' hr' => ?_
  rw [deref_modify]
  split_ifs
  · cases d.deref r' <;> simp [h]
  · rfl

theorem mem_total {γ : Type*} {w : α → Multiset γ} {x : γ} :
    x ∈ total w d ↔ ∃ k a, d.get? k = some a ∧ x ∈ w a := by
  rw [total, AList.mem_total]
  constructor
  · rintro ⟨k, r, hr, hx⟩
    obtain ⟨a, ha⟩ := exists_deref (show d.ref? k = some r from hr)
    simp only [ha, Option.map_some, Option.getD_some] at hx
    exact ⟨k, a, get?_eq_some.mpr ⟨r, hr, ha⟩, hx⟩
  · rintro ⟨k, a, hget, hx⟩
    obtain ⟨r, hr, ha⟩ := get?_eq_some.mp hget
    exact ⟨k, r, hr, by simpa [ha] using hx⟩

end Total

section Heap
variable [AddCommMonoid M] {d : Directory κ α} {k : κ} {r r' : ℕ} {a a' : α} {w : α → M}

/-- The sum of what all the objects weigh, whether a name refers to them or not. -/
def heap (w : α → M) (d : Directory κ α) : M := (d.objects.map w).sum

@[simp] theorem heap_empty : heap w (empty : Directory κ α) = 0 := rfl

@[simp] theorem heap_unbind : heap w (d.unbind k) = heap w d := rfl

@[simp] theorem heap_bind : heap w (d.bind k a) = heap w d + w a := by simp [heap, bind]

theorem heap_modify {f : α → α} (ha : d.deref r = some a) :
    heap w (d.modify r f) + w a = heap w d + w (f a) := by
  have h : ∀ (l : List α) (r : ℕ), l[r]? = some a →
      ((l.modify r f).map w).sum + w a = (l.map w).sum + w (f a) := by
    intro l
    induction l with
    | nil => simp
    | cons b l ih =>
      intro r hr
      cases r with
      | zero =>
        obtain rfl : b = a := by simpa using hr
        simp only [List.modify_zero_cons, List.map_cons, List.sum_cons]
        rw [add_comm, add_comm (w (f b)), ← add_assoc]
      | succ r =>
        simp only [List.modify_succ_cons, List.map_cons, List.sum_cons, add_assoc]
        rw [ih r hr]
  exact h d.objects r ha

theorem heap_modify_congr {f : α → α} (h : ∀ a, w (f a) = w a) :
    heap w (d.modify r f) = heap w d := by
  unfold heap
  congr 1
  refine List.ext_getElem? fun i => ?_
  simp only [modify, List.getElem?_map, List.getElem?_modify]
  split_ifs
  · cases d.objects[i]? <;> simp [h]
  · simp

variable [PartialOrder M] [IsOrderedAddMonoid M] [CanonicallyOrderedAdd M]

theorem le_heap (ha : d.deref r = some a) : w a ≤ heap w d :=
  List.single_le_sum (fun _ _ => zero_le) _
    (List.mem_map_of_mem (List.mem_of_getElem? ha))

/-- Different objects weigh together what they weigh in the heap. -/
theorem add_le_heap (ha : d.deref r = some a) (ha' : d.deref r' = some a') (hne : r ≠ r') :
    w a + w a' ≤ heap w d := by
  have h : ∀ (l : List α) (r r' : ℕ), l[r]? = some a → l[r']? = some a' → r ≠ r' →
      w a + w a' ≤ (l.map w).sum := by
    intro l
    induction l with
    | nil => simp
    | cons b l ih =>
      have hmem : ∀ {r : ℕ} {c : α}, l[r]? = some c → w c ≤ (l.map w).sum := fun hc =>
        List.single_le_sum (fun _ _ => zero_le) _ (List.mem_map_of_mem (List.mem_of_getElem? hc))
      intro r r' hr hr' hne
      simp only [List.map_cons, List.sum_cons]
      cases r with
      | zero =>
        obtain rfl : b = a := by simpa using hr
        cases r' with
        | zero => exact absurd rfl hne
        | succ r' => exact add_le_add_right (hmem hr') _
      | succ r =>
        cases r' with
        | zero =>
          obtain rfl : b = a' := by simpa using hr'
          rw [add_comm]
          exact add_le_add_right (hmem hr) _
        | succ r' => exact (ih r r' hr hr' (by omega)).trans le_add_self
  exact h d.objects r r' ha ha' hne

end Heap

end Directory
