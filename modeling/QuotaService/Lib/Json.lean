import QuotaService.Lib.GoMap
import Mathlib.Algebra.Ring.Int.Defs
import Mathlib.Data.List.Sort

/-! JSON values, and how Go's `encoding/json` writes structs and tables as objects and reads them
back. A struct is a list of fields; a key addresses the field of exactly that name, or else the
first one whose name differs from it only in case. What is written leaves empty values out. -/

/-- A JSON value; a number that is not written as an integer keeps its literal. -/
inductive Json
  | null
  | bool (b : Bool)
  | num (n : ℤ)
  | decimal (literal : String)
  | str (s : String)
  | arr (items : List Json)
  | obj (fields : List (String × Json))

namespace Json
variable {σ α : Type}

/-- The rune that stands for those which differ only in case from a rune of a field name: beside the
two letters these are the long s and the Kelvin sign. -/
def foldRune (c : Char) : Char :=
  if c = Char.ofNat 0x17F then 'S' else if c = Char.ofNat 0x212A then 'K' else c.toUpper

def foldName (name : String) : List Char := name.toList.map foldRune

section Read

/-- A null leaves an integer as it is; a number is to fit in the bits. -/
def readInt (bits : ℕ) (v : Json) (old : ℤ) : Option ℤ :=
  match v with
  | null => some old
  | num n => if -2 ^ (bits - 1) ≤ n ∧ n < 2 ^ (bits - 1) then some n else none
  | _ => none

def readString (v : Json) (old : String) : Option String :=
  match v with
  | null => some old
  | str s => some s
  | _ => none

/-- A pointer that is nil is allocated, and what another one points to is read over. -/
def readPointer (read : Json → α → Option α) (zero : α) (v : Json) (old : Option α) :
    Option (Option α) :=
  match v with
  | null => some none
  | v => (read v (old.getD zero)).map some

/-- One entry of a table is read, in the place of an entry that is there. -/
def readEntry (read : Json → α → Option α) (zero : α) (t : AList fun _ : String => Option α)
    (e : String × Json) : Option (AList fun _ : String => Option α) :=
  (readPointer read zero e.2 none).map fun x => t.insert e.1 x

def readTable (read : Json → α → Option α) (zero : α) (v : Json)
    (old : GoMap String (Option α)) : Option (GoMap String (Option α)) :=
  match v with
  | null => some .null
  | obj fields => (fields.foldlM (readEntry read zero) old.alist).map .table
  | _ => none

/-- A field of a struct `σ`. -/
structure Field (σ : Type) where
  name : String
  read : Json → σ → Option σ

def intField (name : String) (bits : ℕ) (get : σ → ℤ) (set : ℤ → σ → σ) : Field σ :=
  ⟨name, fun v s => (v.readInt bits (get s)).map fun n => set n s⟩

def stringField (name : String) (get : σ → String) (set : String → σ → σ) : Field σ :=
  ⟨name, fun v s => (v.readString (get s)).map fun x => set x s⟩

def pointerField (name : String) (read : Json → α → Option α) (zero : α) (get : σ → Option α)
    (set : Option α → σ → σ) : Field σ :=
  ⟨name, fun v s => (v.readPointer read zero (get s)).map fun x => set x s⟩

def tableField (name : String) (read : Json → α → Option α) (zero : α)
    (get : σ → GoMap String (Option α)) (set : GoMap String (Option α) → σ → σ) : Field σ :=
  ⟨name, fun v s => (v.readTable read zero (get s)).map fun m => set m s⟩

/-- The field that a key addresses. -/
def findField (fields : List (Field σ)) (key : String) : Option (Field σ) :=
  (fields.find? fun f => f.name = key).or (fields.find? fun f => foldName f.name = foldName key)

/-- One key of an object is read; an unknown one is skipped. -/
def readKey (fields : List (Field σ)) (s : σ) (e : String × Json) : Option σ :=
  match findField fields e.1 with
  | none => some s
  | some f => f.read e.2 s

def readStruct (fields : List (Field σ)) (v : Json) (s : σ) : Option σ :=
  match v with
  | null => some s
  | obj kvs => kvs.foldlM (readKey fields) s
  | _ => none

end Read

section Write

/-- Fields marked with `omitempty`. -/
def omitZero (name : String) (n : ℤ) : List (String × Json) :=
  if n = 0 then [] else [(name, num n)]

def omitEmpty (name s : String) : List (String × Json) :=
  if s = "" then [] else [(name, str s)]

def omitNil (name : String) (write : α → Json) : Option α → List (String × Json)
  | none => []
  | some a => [(name, write a)]

/-- The keys of a table are sorted; a nil pointer is written as a null. -/
def writeTable (write : α → Json) (m : GoMap String (Option α)) : Json :=
  obj ((m.range.insertionSort fun e e' => e.1 ≤ e'.1).map fun e =>
    (e.1, (e.2.map write).getD null))

def omitNone (name : String) (write : α → Json) (m : GoMap String (Option α)) :
    List (String × Json) :=
  if m.len = 0 then [] else [(name, writeTable write m)]

variable {name : String} {e : String × Json}

theorem omitZero_keys (name : String) (n : ℤ) :
    ((omitZero name n).map Prod.fst).Sublist [name] := by
  unfold omitZero
  split_ifs <;> simp

theorem omitEmpty_keys (name s : String) :
    ((omitEmpty name s).map Prod.fst).Sublist [name] := by
  unfold omitEmpty
  split_ifs <;> simp

theorem omitNil_keys (name : String) (write : α → Json) (x : Option α) :
    ((omitNil name write x).map Prod.fst).Sublist [name] := by
  cases x <;> simp [omitNil]

theorem omitNone_keys (name : String) (write : α → Json) (m : GoMap String (Option α)) :
    ((omitNone name write m).map Prod.fst).Sublist [name] := by
  unfold omitNone
  split_ifs <;> simp

theorem mem_omitZero {n : ℤ} (h : e ∈ omitZero name n) : e.2 = num n := by
  unfold omitZero at h
  split_ifs at h
  · cases h
  · rw [List.mem_singleton.mp h]

theorem mem_omitEmpty {s : String} (h : e ∈ omitEmpty name s) : e.2 = str s := by
  unfold omitEmpty at h
  split_ifs at h
  · cases h
  · rw [List.mem_singleton.mp h]

theorem mem_omitNil {write : α → Json} {x : Option α} (h : e ∈ omitNil name write x) :
    ∃ a ∈ x, e.2 = write a := by
  cases x with
  | none => cases h
  | some a => exact ⟨a, rfl, by rw [List.mem_singleton.mp h]⟩

end Write

section Structs
variable {fields : List (Field σ)} {name : String} {s s' : σ} {f : Field σ}

theorem readStruct_append {kvs kvs' : List (String × Json)}
    (h : readStruct fields (obj kvs) s = some s') :
    readStruct fields (obj (kvs ++ kvs')) s = readStruct fields (obj kvs') s' := by
  have hfirst : kvs.foldlM (readKey fields) s = some s' := h
  simp only [readStruct, List.foldlM_append, hfirst]
  rfl

theorem readStruct_single (hf : findField fields name = some f) (v : Json) :
    readStruct fields (obj [(name, v)]) s = f.read v s := by
  simp [readStruct, readKey, hf]

/-- An integer that is written is read back, and one that is left out was zero. -/
theorem readStruct_omitZero {bits : ℕ} {get : σ → ℤ} {set : ℤ → σ → σ}
    (hf : findField fields name = some (intField name bits get set)) {n : ℤ}
    (hn : -2 ^ (bits - 1) ≤ n ∧ n < 2 ^ (bits - 1)) (hzero : set 0 s = s) :
    readStruct fields (obj (omitZero name n)) s = some (set n s) := by
  unfold omitZero
  split_ifs with h
  · rw [h, hzero]
    rfl
  · rw [readStruct_single hf]
    simp [intField, readInt, hn]

theorem readStruct_omitEmpty {get : σ → String} {set : String → σ → σ}
    (hf : findField fields name = some (stringField name get set)) {x : String}
    (hempty : set "" s = s) :
    readStruct fields (obj (omitEmpty name x)) s = some (set x s) := by
  unfold omitEmpty
  split_ifs with h
  · rw [h, hempty]
    rfl
  · rw [readStruct_single hf]
    rfl

theorem readStruct_omitNil {read : Json → α → Option α} {zero : α} {write : α → Json}
    {get : σ → Option α} {set : Option α → σ → σ}
    (hf : findField fields name = some (pointerField name read zero get set))
    (hget : get s = none) (hnone : set none s = s) {x : Option α}
    (hread : ∀ a ∈ x, write a ≠ null ∧ read (write a) zero = some a) :
    readStruct fields (obj (omitNil name write x)) s = some (set x s) := by
  cases x with
  | none =>
    rw [hnone]
    rfl
  | some a =>
    obtain ⟨hne, ha⟩ := hread a rfl
    have hpointer : readPointer read zero (write a) (get s) = some (some a) := by
      unfold readPointer
      split
      · exact absurd ‹_› hne
      · simp [hget, ha]
    simp only [omitNil]
    rw [readStruct_single hf]
    simp [pointerField, hpointer]

end Structs

section Tables
variable {R : Json → α → Prop} {T : String → Option α}

/-- An object with an entry for every one of a table, which stands for its value. -/
structure Entries (R : Json → α → Prop) (T : String → Option α) (fields : List (String × Json)) :
    Prop where
  nodup : (fields.map Prod.fst).Nodup
  sound : ∀ e ∈ fields, ∃ a, T e.1 = some a ∧ R e.2 a
  complete : ∀ k a, T k = some a → k ∈ fields.map Prod.fst

theorem Entries.perm {fields fields' : List (String × Json)} (h : Entries R T fields)
    (hperm : fields'.Perm fields) : Entries R T fields' := by
  refine ⟨(hperm.map Prod.fst).nodup_iff.mpr h.nodup, ?_, ?_⟩
  · intro e he
    exact h.sound e (hperm.mem_iff.mp he)
  · intro k a ha
    exact (hperm.map Prod.fst).mem_iff.mpr (h.complete k a ha)

/-- Reading such an object gives a table of values that are read from its entries. -/
theorem readTable_entries {read : Json → α → Option α} {zero : α} {S : α → α → Prop}
    (hread : ∀ v a, R v a → v ≠ null ∧ ∃ x, read v zero = some x ∧ S x a)
    {fields : List (String × Json)} (h : Entries R T fields) :
    ∃ t, readTable read zero (obj fields) .null = some (.table t) ∧
      ∀ k, Option.Rel (fun x a => ∃ y, x = some y ∧ S y a) (t.lookup k) (T k) := by
  -- the induction is on the entries; those that have been read are in `t`
  have hloop : ∀ (fields : List (String × Json)) (t : AList fun _ : String => Option α),
      (fields.map Prod.fst).Nodup → (∀ e ∈ fields, ∃ a, T e.1 = some a ∧ R e.2 a) →
      ∃ t', fields.foldlM (readEntry read zero) t = some t' ∧
        (∀ k ∉ fields.map Prod.fst, t'.lookup k = t.lookup k) ∧
        ∀ k ∈ fields.map Prod.fst,
          Option.Rel (fun x a => ∃ y, x = some y ∧ S y a) (t'.lookup k) (T k) := by
    intro fields
    induction fields with
    | nil =>
      intro t _ _
      exact ⟨t, rfl, fun _ _ => rfl, by simp⟩
    | cons e fields ih =>
      intro t hnodup hsound
      obtain ⟨a, ha, hR⟩ := hsound e List.mem_cons_self
      obtain ⟨hne, x, hx, hS⟩ := hread e.2 a hR
      have hentry : readEntry read zero t e = some (t.insert e.1 (some x)) := by
        have hpointer : readPointer read zero e.2 none = some (some x) := by
          unfold readPointer
          split
          · exact absurd ‹_› hne
          · simp [hx]
        simp [readEntry, hpointer]
      rw [List.map_cons, List.nodup_cons] at hnodup
      obtain ⟨t', ht', hold, hnew⟩ := ih (t.insert e.1 (some x)) hnodup.2
        fun e' he' => hsound e' (List.mem_cons_of_mem e he')
      refine ⟨t', ?_, ?_, ?_⟩
      · rw [List.foldlM_cons, hentry]
        exact ht'
      · intro k hk
        rw [List.map_cons, List.mem_cons, not_or] at hk
        rw [hold k hk.2, AList.lookup_insert_ne hk.1]
      · intro k hk
        by_cases hk' : k ∈ fields.map Prod.fst
        · exact hnew k hk'
        · have hke : k = e.1 := by
            rw [List.map_cons, List.mem_cons] at hk
            exact hk.resolve_right hk'
          rw [hold k hk', hke, AList.lookup_insert, ha]
          exact .some ⟨x, rfl, hS⟩
  obtain ⟨t, ht, hold, hnew⟩ := hloop fields ∅ h.nodup h.sound
  refine ⟨t, ?_, fun k => ?_⟩
  · have halist : (GoMap.null : GoMap String (Option α)).alist = ∅ := rfl
    simp only [readTable, halist, ht]
    rfl
  · by_cases hk : k ∈ fields.map Prod.fst
    · exact hnew k hk
    · have hnone : T k = none := by
        by_contra hsome
        obtain ⟨a, ha⟩ := Option.ne_none_iff_exists'.mp hsome
        exact hk (h.complete k a ha)
      rw [hold k hk, AList.lookup_empty, hnone]
      exact .none

/-- A table among the properties of an object, or left out because it is empty. -/
inductive Part (name : String) (R : Json → α → Prop) (T : String → Option α) :
    List (String × Json) → Prop
  | omitted (empty : ∀ k, T k = none) : Part name R T []
  | present {fields : List (String × Json)} (entries : Entries R T fields) :
    Part name R T [(name, obj fields)]

theorem Part.mono {Q : Json → α → Prop} {name : String} {part : List (String × Json)}
    (h : Part name R T part) (hR : ∀ k v a, T k = some a → R v a → Q v a) : Part name Q T part := by
  cases h with
  | omitted empty => exact .omitted empty
  | present entries =>
    refine .present ⟨entries.nodup, fun e he => ?_, entries.complete⟩
    obtain ⟨a, ha, hv⟩ := entries.sound e he
    exact ⟨a, ha, hR e.1 e.2 a ha hv⟩

theorem readStruct_part {fields : List (Field σ)} {name : String} {s : σ}
    {read : Json → α → Option α} {zero : α} {S : α → α → Prop} {get : σ → GoMap String (Option α)}
    {set : GoMap String (Option α) → σ → σ}
    (hf : findField fields name = some (tableField name read zero get set))
    (hget : get s = .null) (hnull : set .null s = s)
    (hread : ∀ v a, R v a → v ≠ null ∧ ∃ x, read v zero = some x ∧ S x a)
    {part : List (String × Json)} (h : Part name R T part) :
    ∃ m, readStruct fields (obj part) s = some (set m s) ∧
      ∀ k, Option.Rel (fun x a => ∃ y, x = some y ∧ S y a) (m.get k) (T k) := by
  cases h with
  | omitted empty =>
    refine ⟨.null, by rw [hnull]; rfl, fun k => ?_⟩
    rw [GoMap.get_null, empty]
    exact .none
  | present entries =>
    obtain ⟨t, ht, hrel⟩ := readTable_entries hread entries
    refine ⟨.table t, ?_, hrel⟩
    rw [readStruct_single hf]
    simp [tableField, hget, ht]

end Tables

end Json
