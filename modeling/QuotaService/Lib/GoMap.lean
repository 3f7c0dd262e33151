import Mathlib.Data.List.AList

/-! Go maps: `nil`, or an association list with distinct keys, in the order in which `range`
enumerates it. Reading, deleting from and ranging over a nil map is allowed, writing to one is
not. Two maps are the same table when they agree on every key, in whatever order. -/

inductive GoMap (κ : Type*) (α : Type*)
  | null
  | table (entries : AList fun _ : κ => α)

namespace GoMap
variable {κ α β γ : Type*}

def alist : GoMap κ α → AList fun _ : κ => α
  | null => ∅
  | table t => t

/-- The entries in the order in which `range` visits them. -/
def range (m : GoMap κ α) : List (κ × α) := m.alist.entries.map fun e => (e.1, e.2)

def keys (m : GoMap κ α) : List κ := m.alist.keys

def len (m : GoMap κ α) : ℕ := m.keys.length

def make : GoMap κ α := table ∅

def map (f : κ → α → β) : GoMap κ α → GoMap κ β
  | null => null
  | table t => table ⟨t.entries.map (.map id f), t.nodupKeys.map₂ f⟩

section Ops
variable [DecidableEq κ]

instance [DecidableEq α] : DecidableEq (GoMap κ α)
  | null, null => isTrue rfl
  | null, table _ => isFalse nofun
  | table _, null => isFalse nofun
  | table t, table u => decidable_of_iff (t.entries = u.entries)
      ⟨fun h => congrArg table (AList.ext h), fun h => congrArg AList.entries (table.inj h)⟩

def get (m : GoMap κ α) (k : κ) : Option α := m.alist.lookup k

/-- Assignment to an entry; `none` is the runtime panic on a nil map. -/
def set (k : κ) (v : α) : GoMap κ α → Option (GoMap κ α)
  | null => none
  | table t => some (table (t.insert k v))

def delete (k : κ) : GoMap κ α → GoMap κ α
  | null => null
  | table t => table (t.erase k)

@[simp] theorem get_null (k : κ) : (null : GoMap κ α).get k = none := by
  simp [get, alist]

@[simp] theorem get_table (t : AList fun _ : κ => α) (k : κ) : (table t).get k = t.lookup k := rfl

theorem lookup_singleton (k : κ) (v : α) (k' : κ) :
    (AList.singleton k v : AList fun _ : κ => α).lookup k' = if k' = k then some v else none := by
  rw [← AList.insert_empty]
  by_cases hk : k' = k
  · subst hk
    rw [AList.lookup_insert, if_pos rfl]
  · rw [AList.lookup_insert_ne hk, AList.lookup_empty, if_neg hk]

@[simp] theorem get_make (k : κ) : (make : GoMap κ α).get k = none := by
  simp [make]

@[simp] theorem get_map (f : κ → α → β) (m : GoMap κ α) (k : κ) :
    (m.map f).get k = (m.get k).map (f k) := by
  cases m with
  | null => simp [map]
  | table t => exact List.dlookup_map₂ (γ := fun _ => α) (δ := fun _ => β) k

theorem get_set_self {m m' : GoMap κ α} {k : κ} {v : α} (h : m.set k v = some m') :
    m'.get k = some v := by
  cases m with
  | null => simp [set] at h
  | table t => cases h; simp

theorem get_set_ne {m m' : GoMap κ α} {k k' : κ} {v : α} (h : m.set k v = some m')
    (hk : k' ≠ k) : m'.get k' = m.get k' := by
  cases m with
  | null => simp [set] at h
  | table t => cases h; simp [hk]

@[simp] theorem get_delete_self (m : GoMap κ α) (k : κ) : (m.delete k).get k = none := by
  cases m <;> simp [delete]

theorem get_delete_ne (m : GoMap κ α) {k k' : κ} (hk : k' ≠ k) :
    (m.delete k).get k' = m.get k' := by
  cases m <;> simp [delete, hk]

def deleteAll (ks : List κ) (m : GoMap κ α) : GoMap κ α := ks.foldl (fun m k => m.delete k) m

theorem get_deleteAll (ks : List κ) (m : GoMap κ α) (k : κ) :
    (m.deleteAll ks).get k = if k ∈ ks then none else m.get k := by
  induction ks generalizing m with
  | nil => simp [deleteAll]
  | cons k' ks ih =>
    have hcons : m.deleteAll (k' :: ks) = (m.delete k').deleteAll ks := rfl
    rw [hcons, ih]
    by_cases hk : k = k'
    · subst hk
      simp
    · simp [hk, get_delete_ne m hk]

theorem mem_keys_iff {m : GoMap κ α} {k : κ} : k ∈ m.keys ↔ ∃ v, m.get k = some v := by
  rw [← Option.isSome_iff_exists]
  exact AList.lookup_isSome.symm

theorem mem_range_iff {m : GoMap κ α} {k : κ} {v : α} : (k, v) ∈ m.range ↔ m.get k = some v := by
  have h : m.get k = some v ↔ (⟨k, v⟩ : Sigma fun _ : κ => α) ∈ m.alist.entries :=
    AList.mem_lookup_iff
  rw [h, range, List.mem_map]
  constructor
  · rintro ⟨⟨k', v'⟩, he, heq⟩
    cases heq
    exact he
  · exact fun he => ⟨⟨k, v⟩, he, rfl⟩

/-- Only one of the two maps has to be walked through: if they have the same size and every
entry of the first is in the second, they are the same table. -/
theorem get_eq_of_len_eq {m m' : GoMap κ α} (hlen : m.len = m'.len)
    (hsub : ∀ k v, m.get k = some v → m'.get k = some v) (k : κ) : m.get k = m'.get k := by
  have hkeys : m.keys ⊆ m'.keys := fun k hk => by
    obtain ⟨v, hv⟩ := mem_keys_iff.mp hk
    exact mem_keys_iff.mpr ⟨v, hsub k v hv⟩
  have hperm : m.keys.Perm m'.keys :=
    (List.subperm_of_subset m.alist.keys_nodup hkeys).perm_of_length_le (Nat.le_of_eq hlen.symm)
  cases hv : m.get k with
  | some v => exact (hsub k v hv).symm
  | none =>
    cases hv' : m'.get k with
    | none => rfl
    | some v' =>
      obtain ⟨v, h⟩ := mem_keys_iff.mp (hperm.mem_iff.mpr (mem_keys_iff.mpr ⟨v', hv'⟩))
      simp [hv] at h

theorem map_congr {f g : κ → α → β} {m : GoMap κ α}
    (h : ∀ k v, m.get k = some v → f k v = g k v) : m.map f = m.map g := by
  cases m with
  | null => rfl
  | table t =>
    refine congrArg table (AList.ext (List.map_congr_left fun e he => ?_))
    have hv : f e.1 e.2 = g e.1 e.2 := h e.1 e.2 (AList.mem_lookup_iff.mpr he)
    simp [Sigma.map, hv]

theorem len_eq_of_get_eq {m m' : GoMap κ α} (h : ∀ k, m.get k = m'.get k) : m.len = m'.len := by
  have hmem : ∀ k, k ∈ m.keys ↔ k ∈ m'.keys := fun k => by simp only [mem_keys_iff, h]
  exact ((List.perm_ext_iff_of_nodup m.alist.keys_nodup m'.alist.keys_nodup).mpr hmem).length_eq

end Ops

theorem map_map (f : κ → α → β) (g : κ → β → γ) (m : GoMap κ α) :
    (m.map f).map g = m.map fun k v => g k (f k v) := by
  cases m with
  | null => rfl
  | table t => simp [map, Function.comp_def, Sigma.map]

@[simp] theorem map_id (m : GoMap κ α) : (m.map fun _ v => v) = m := by
  cases m with
  | null => rfl
  | table t =>
    refine congrArg table (AList.ext ?_)
    exact (List.map_congr_left fun e _ => rfl).trans (List.map_id _)

@[simp] theorem len_map (f : κ → α → β) (m : GoMap κ α) : (m.map f).len = m.len := by
  cases m with
  | null => rfl
  | table t => simp [map, len, keys, alist, AList.keys, List.keys]

section Rel
variable {r : α → α → Prop} {x y z : Option α}

/-! Entries that are both missing, or related. -/

theorem rel_refl (h : ∀ a, r a a) (x : Option α) : Option.Rel r x x := by
  cases x with
  | none => exact .none
  | some a => exact .some (h a)

theorem rel_symm (hr : ∀ a b, r a b → r b a) (h : Option.Rel r x y) : Option.Rel r y x := by
  cases h with
  | none => exact .none
  | some h => exact .some (hr _ _ h)

theorem rel_trans (hr : ∀ a b c, r a b → r b c → r a c) (h : Option.Rel r x y)
    (h' : Option.Rel r y z) : Option.Rel r x z := by
  cases h with
  | none => exact h'
  | some h =>
    cases h' with
    | some h' => exact .some (hr _ _ _ h h')

theorem rel_map {s : β → β → Prop} {f g : α → β} (hfg : ∀ a b, r a b → s (f a) (g b))
    (h : Option.Rel r x y) : Option.Rel s (x.map f) (y.map g) := by
  cases h with
  | none => exact .none
  | some h => exact .some (hfg _ _ h)

end Rel

theorem range_keys_nodup (m : GoMap κ α) : (m.range.map Prod.fst).Nodup := by
  have h : m.range.map Prod.fst = m.keys := by
    simp [range, keys, AList.keys, List.keys, Function.comp_def]
  rw [h]
  exact m.alist.keys_nodup

end GoMap
