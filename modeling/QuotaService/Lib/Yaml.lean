import QuotaService.Lib.Json

/-! YAML documents without tags, anchors and merge keys, and how yaml.v2 reads structs and tables
from them. As opposed to JSON, a key addresses the field of exactly that name, a null resets an
integer or a string, and numbers that are not integers are truncated. The last part is about entries
that are the only ones of their kind, in objects of both formats. -/

namespace Yaml

/-- What `resolve` takes a scalar for. Of a float there is what `int64` makes of it, unless it is too
large; strings, booleans and timestamps are alike here. -/
inductive Scalar
  | null
  | int (n : ℤ)
  | float (truncated : Option ℤ)
  | other

end Yaml

/-- A node of a document; the keys of a mapping are the strings that they are read as. -/
inductive Yaml
  | scalar (text : String) (value : Yaml.Scalar)
  | sequence (items : List Yaml)
  | mapping (fields : List (String × Yaml))

namespace Yaml
variable {σ α β ε : Type}

section Read

/-- The test of `prepare`; other spellings of null are resolved later. -/
def isNull : Yaml → Bool
  | scalar text .null => text == "null" || text == "~" || text == ""
  | _ => false

def readInt (bits : ℕ) : Yaml → Option ℤ
  | scalar _ .null => some 0
  | scalar _ (.int n) | scalar _ (.float (some n)) =>
    if -2 ^ (bits - 1) ≤ n ∧ n < 2 ^ (bits - 1) then some n else none
  | _ => none

def readString : Yaml → Option String
  | scalar _ .null => some ""
  | scalar text _ => some text
  | _ => none

def readPointer (read : Yaml → α → Option α) (zero : α) (v : Yaml) (old : Option α) :
    Option (Option α) :=
  if v.isNull then some none else (read v (old.getD zero)).map some

def readEntry (read : Yaml → α → Option α) (zero : α) (t : AList fun _ : String => Option α)
    (e : String × Yaml) : Option (AList fun _ : String => Option α) :=
  (readPointer read zero e.2 none).map fun x => t.insert e.1 x

def readTable (read : Yaml → α → Option α) (zero : α) (v : Yaml)
    (old : GoMap String (Option α)) : Option (GoMap String (Option α)) :=
  match v with
  | scalar _ .null => some .null
  | mapping fields => (fields.foldlM (readEntry read zero) old.alist).map .table
  | _ => none

/-- A field of a struct `σ`. -/
structure Field (σ : Type) where
  name : String
  read : Yaml → σ → Option σ

def intField (name : String) (bits : ℕ) (set : ℤ → σ → σ) : Field σ :=
  ⟨name, fun v s => (v.readInt bits).map fun n => set n s⟩

def stringField (name : String) (set : String → σ → σ) : Field σ :=
  ⟨name, fun v s => v.readString.map fun x => set x s⟩

def pointerField (name : String) (read : Yaml → α → Option α) (zero : α) (get : σ → Option α)
    (set : Option α → σ → σ) : Field σ :=
  ⟨name, fun v s => (v.readPointer read zero (get s)).map fun x => set x s⟩

def tableField (name : String) (read : Yaml → α → Option α) (zero : α)
    (get : σ → GoMap String (Option α)) (set : GoMap String (Option α) → σ → σ) : Field σ :=
  ⟨name, fun v s => (v.readTable read zero (get s)).map fun m => set m s⟩

def findField (fields : List (Field σ)) (key : String) : Option (Field σ) :=
  fields.find? fun f => f.name = key

/-- One key of a mapping is read; an unknown one is skipped. -/
def readKey (fields : List (Field σ)) (s : σ) (e : String × Yaml) : Option σ :=
  match findField fields e.1 with
  | none => some s
  | some f => f.read e.2 s

def readStruct (fields : List (Field σ)) (zero : σ) (v : Yaml) (s : σ) : Option σ :=
  match v with
  | scalar _ .null => some zero
  | mapping kvs => kvs.foldlM (readKey fields) s
  | _ => none

end Read

section One
variable {fields : List (Field σ)} {name : String} {read : Yaml → α → Option α} {zero : α}

theorem readStruct_one {f : Field σ} (hf : findField fields name = some f) (z : σ) (v : Yaml)
    (s : σ) : readStruct fields z (mapping [(name, v)]) s = f.read v s := by
  simp [readStruct, readKey, hf]

theorem readPointer_mapping {kvs : List (String × Yaml)} {old : Option α} {a : α}
    (h : read (mapping kvs) (old.getD zero) = some a) :
    readPointer read zero (mapping kvs) old = some (some a) := by
  simp [readPointer, isNull, h]

theorem readTable_one {kvs : List (String × Yaml)} {a : α} (h : read (mapping kvs) zero = some a)
    (old : GoMap String (Option α)) :
    readTable read zero (mapping [(name, mapping kvs)]) old =
      some (.table (old.alist.insert name (some a))) := by
  have hpointer : readPointer read zero (mapping kvs) none = some (some a) := readPointer_mapping h
  simp [readTable, readEntry, hpointer]

end One

end Yaml

section Single
variable {σ α β ε : Type}

/-- An entry that is in a list, with no other one of its kind. -/
def Single (kind : ε → Prop) (e : ε) (l : List ε) : Prop :=
  ∃ pre post, l = pre ++ e :: post ∧ ∀ e' ∈ pre ++ post, ¬kind e'

theorem single_singleton (kind : ε → Prop) (e : ε) : Single kind e [e] :=
  ⟨[], [], rfl, by simp⟩

/-- What only entries of a kind change stays as it is without them. -/
theorem foldlM_unchanged {step : σ → ε → Option σ} {kind : ε → Prop} {get : σ → β}
    (hothers : ∀ s e s', ¬kind e → step s e = some s' → get s' = get s) {l : List ε}
    (hl : ∀ e ∈ l, ¬kind e) {s s' : σ} (h : l.foldlM step s = some s') : get s' = get s := by
  induction l generalizing s with
  | nil =>
    cases h
    rfl
  | cons e l ih =>
    rw [List.foldlM_cons] at h
    obtain ⟨s₁, hs₁, h⟩ := Option.bind_eq_some_iff.mp h
    rw [ih (fun e' he' => hl e' (List.mem_cons_of_mem e he')) h]
    exact hothers s e s₁ (hl e List.mem_cons_self) hs₁

/-- A loop over a list does to such an entry's part of the state what its one step does to it. -/
theorem Single.foldlM {step : σ → ε → Option σ} {kind : ε → Prop} {get : σ → β}
    (hothers : ∀ s e s', ¬kind e → step s e = some s' → get s' = get s) {e : ε} {l : List ε}
    (hl : Single kind e l) {s s' : σ} (h : l.foldlM step s = some s') :
    ∃ s₁ s₂, get s₁ = get s ∧ step s₁ e = some s₂ ∧ get s' = get s₂ := by
  obtain ⟨pre, post, rfl, hnot⟩ := hl
  rw [List.foldlM_append] at h
  obtain ⟨s₁, hpre, h⟩ := Option.bind_eq_some_iff.mp h
  rw [List.foldlM_cons] at h
  obtain ⟨s₂, hs₂, hpost⟩ := Option.bind_eq_some_iff.mp h
  have hpre' := foldlM_unchanged hothers (fun e he => hnot e (List.mem_append_left post he)) hpre
  have hpost' := foldlM_unchanged hothers (fun e he => hnot e (List.mem_append_right pre he)) hpost
  exact ⟨s₁, s₂, hpre', hs₂, hpost'⟩

variable {ν φ : Type} {name : String} {get : σ → β} {s s' : σ}

/-- A field of a struct, read from entries of which only one addresses it. -/
theorem Single.read_field {step : σ → String × ν → Option σ} {find : String → Option φ}
    {read : φ → ν → σ → Option σ}
    (hstep : ∀ s e, step s e = (find e.1).elim (some s) fun f => read f e.2 s) {kind : String → Prop}
    (hothers : ∀ key g, ¬kind key → find key = some g →
      ∀ v s s', read g v s = some s' → get s' = get s)
    {f : φ} (hf : find name = some f) {v : ν} {kvs : List (String × ν)}
    (hkvs : Single (fun e => kind e.1) (name, v) kvs) (h : kvs.foldlM step s = some s') :
    ∃ s₁ s₂, get s₁ = get s ∧ read f v s₁ = some s₂ ∧ get s' = get s₂ := by
  have hframe : ∀ s (e : String × ν) s', ¬kind e.1 → step s e = some s' → get s' = get s := by
    intro s e s' hkind hs'
    rw [hstep] at hs'
    cases hg : find e.1 with
    | none =>
      rw [hg] at hs'
      cases hs'
      rfl
    | some g =>
      rw [hg] at hs'
      exact hothers e.1 g hkind hg e.2 s s' hs'
  obtain ⟨s₁, s₂, hs₁, hs₂, hs'⟩ := hkvs.foldlM hframe h
  rw [hstep, hf] at hs₂
  exact ⟨s₁, s₂, hs₁, hs₂, hs'⟩

/-- A key of a table, read from entries in which it is once. -/
theorem Single.read_entry (value : ν → Option α) {v : ν} {kvs : List (String × ν)}
    (hkvs : Single (fun e => e.1 = name) (name, v) kvs) {t t' : AList fun _ : String => α}
    (h : kvs.foldlM (fun t e => (value e.2).map fun x => t.insert e.1 x) t = some t') :
    ∃ x, value v = some x ∧ t'.lookup name = some x := by
  have hstep : ∀ (t : AList fun _ : String => α) (e : String × ν) t', ¬e.1 = name →
      (value e.2).map (fun x => t.insert e.1 x) = some t' → t'.lookup name = t.lookup name := by
    intro t e t' hne ht'
    obtain ⟨x, -, rfl⟩ := Option.map_eq_some_iff.mp ht'
    exact AList.lookup_insert_ne (Ne.symm hne)
  obtain ⟨t₁, t₂, -, ht₂, hlookup⟩ := hkvs.foldlM hstep h
  obtain ⟨x, hx, rfl⟩ := Option.map_eq_some_iff.mp ht₂
  exact ⟨x, hx, by rw [hlookup, AList.lookup_insert]⟩

theorem Json.readStruct_of_single {fields : List (Json.Field σ)}
    (hothers : ∀ g ∈ fields, g.name ≠ name → ∀ v s s', g.read v s = some s' → get s' = get s)
    {f : Json.Field σ} (hf : Json.findField fields name = some f) {v : Json}
    {kvs : List (String × Json)}
    (hkvs : Single (fun e => (Json.findField fields e.1).map Json.Field.name = some name) (name, v) kvs)
    (h : Json.readStruct fields (.obj kvs) s = some s') :
    ∃ s₁ s₂, get s₁ = get s ∧ f.read v s₁ = some s₂ ∧ get s' = get s₂ := by
  have hstep : ∀ s e, Json.readKey fields s e =
      (Json.findField fields e.1).elim (some s) fun f => f.read e.2 s := by
    intro s e
    unfold Json.readKey
    cases Json.findField fields e.1 <;> rfl
  have hfound : ∀ key g, ¬(Json.findField fields key).map Json.Field.name = some name →
      Json.findField fields key = some g → ∀ v s s', g.read v s = some s' → get s' = get s := by
    intro key g hkind hg
    have hmem : g ∈ fields := by
      unfold Json.findField at hg
      rcases Option.or_eq_some_iff.mp hg with hg | ⟨-, hg⟩
      · exact List.mem_of_find?_eq_some hg
      · exact List.mem_of_find?_eq_some hg
    exact hothers g hmem fun hname => hkind (by rw [hg, Option.map_some, hname])
  exact Single.read_field hstep hfound hf hkvs h

theorem Yaml.readStruct_of_single {fields : List (Yaml.Field σ)}
    (hothers : ∀ g ∈ fields, g.name ≠ name → ∀ v s s', g.read v s = some s' → get s' = get s)
    {f : Yaml.Field σ} (hf : Yaml.findField fields name = some f) {zero : σ} {v : Yaml}
    {kvs : List (String × Yaml)}
    (hkvs : Single (fun e => (Yaml.findField fields e.1).map Yaml.Field.name = some name) (name, v) kvs)
    (h : Yaml.readStruct fields zero (.mapping kvs) s = some s') :
    ∃ s₁ s₂, get s₁ = get s ∧ f.read v s₁ = some s₂ ∧ get s' = get s₂ := by
  have hstep : ∀ s e, Yaml.readKey fields s e =
      (Yaml.findField fields e.1).elim (some s) fun f => f.read e.2 s := by
    intro s e
    unfold Yaml.readKey
    cases Yaml.findField fields e.1 <;> rfl
  have hfound : ∀ key g, ¬(Yaml.findField fields key).map Yaml.Field.name = some name →
      Yaml.findField fields key = some g → ∀ v s s', g.read v s = some s' → get s' = get s := by
    intro key g hkind hg
    exact hothers g (List.mem_of_find?_eq_some hg)
      fun hname => hkind (by rw [hg, Option.map_some, hname])
  exact Single.read_field hstep hfound hf hkvs h

/-- An object in a pointer field that was nil is read from the zero value. -/
theorem Json.pointer_of_single {fields : List (Json.Field σ)} {read : Json → α → Option α} {zero : α}
    {get : σ → Option α} {set : Option α → σ → σ}
    (hf : Json.findField fields name = some (Json.pointerField name read zero get set))
    (hothers : ∀ g ∈ fields, g.name ≠ name → ∀ v s s', g.read v s = some s' → get s' = get s)
    (hset : ∀ x s, get (set x s) = x) {inner kvs : List (String × Json)}
    (hkvs : Single (fun e => (Json.findField fields e.1).map Json.Field.name = some name)
      (name, .obj inner) kvs)
    (h : Json.readStruct fields (.obj kvs) s = some s') (hs : get s = none) :
    ∃ a, read (.obj inner) zero = some a ∧ get s' = some a := by
  obtain ⟨s₁, s₂, hs₁, hs₂, hs'⟩ := Json.readStruct_of_single hothers hf hkvs h
  obtain ⟨x, hx, rfl⟩ := Option.map_eq_some_iff.mp hs₂
  rw [hs₁, hs] at hx
  obtain ⟨a, ha, rfl⟩ := Option.map_eq_some_iff.mp hx
  exact ⟨a, ha, by rw [hs', hset]⟩

theorem Yaml.pointer_of_single {fields : List (Yaml.Field σ)} {read : Yaml → α → Option α} {zero : α}
    {get : σ → Option α} {set : Option α → σ → σ}
    (hf : Yaml.findField fields name = some (Yaml.pointerField name read zero get set))
    (hothers : ∀ g ∈ fields, g.name ≠ name → ∀ v s s', g.read v s = some s' → get s' = get s)
    (hset : ∀ x s, get (set x s) = x) {z : σ} {inner kvs : List (String × Yaml)}
    (hkvs : Single (fun e => (Yaml.findField fields e.1).map Yaml.Field.name = some name)
      (name, .mapping inner) kvs)
    (h : Yaml.readStruct fields z (.mapping kvs) s = some s') (hs : get s = none) :
    ∃ a, read (.mapping inner) zero = some a ∧ get s' = some a := by
  obtain ⟨s₁, s₂, hs₁, hs₂, hs'⟩ := Yaml.readStruct_of_single hothers hf hkvs h
  obtain ⟨x, hx, rfl⟩ := Option.map_eq_some_iff.mp hs₂
  rw [hs₁, hs] at hx
  obtain ⟨a, ha, rfl⟩ := Option.map_eq_some_iff.mp hx
  exact ⟨a, ha, by rw [hs', hset]⟩

/-- An object in a table is read from the zero value. -/
theorem Json.table_of_single {fields : List (Json.Field σ)} {read : Json → α → Option α} {zero : α}
    {get : σ → GoMap String (Option α)} {set : GoMap String (Option α) → σ → σ}
    (hf : Json.findField fields name = some (Json.tableField name read zero get set))
    (hothers : ∀ g ∈ fields, g.name ≠ name → ∀ v s s', g.read v s = some s' → get s' = get s)
    (hset : ∀ m s, get (set m s) = m) {key : String} {inner entries kvs : List (String × Json)}
    (hkvs : Single (fun e => (Json.findField fields e.1).map Json.Field.name = some name)
      (name, .obj entries) kvs)
    (hentries : Single (fun e => e.1 = key) (key, .obj inner) entries)
    (h : Json.readStruct fields (.obj kvs) s = some s') :
    ∃ a, read (.obj inner) zero = some a ∧ (get s').get key = some (some a) := by
  obtain ⟨s₁, s₂, -, hs₂, hs'⟩ := Json.readStruct_of_single hothers hf hkvs h
  obtain ⟨m, hm, rfl⟩ := Option.map_eq_some_iff.mp hs₂
  obtain ⟨t, ht, rfl⟩ := Option.map_eq_some_iff.mp hm
  obtain ⟨x, hx, hget⟩ := hentries.read_entry (fun v => Json.readPointer read zero v none) ht
  obtain ⟨a, ha, rfl⟩ := Option.map_eq_some_iff.mp hx
  exact ⟨a, ha, by rw [hs', hset]; exact hget⟩

theorem Yaml.table_of_single {fields : List (Yaml.Field σ)} {read : Yaml → α → Option α} {zero : α}
    {get : σ → GoMap String (Option α)} {set : GoMap String (Option α) → σ → σ}
    (hf : Yaml.findField fields name = some (Yaml.tableField name read zero get set))
    (hothers : ∀ g ∈ fields, g.name ≠ name → ∀ v s s', g.read v s = some s' → get s' = get s)
    (hset : ∀ m s, get (set m s) = m) {z : σ} {key : String}
    {inner entries kvs : List (String × Yaml)}
    (hkvs : Single (fun e => (Yaml.findField fields e.1).map Yaml.Field.name = some name)
      (name, .mapping entries) kvs)
    (hentries : Single (fun e => e.1 = key) (key, .mapping inner) entries)
    (h : Yaml.readStruct fields z (.mapping kvs) s = some s') :
    ∃ a, read (.mapping inner) zero = some a ∧ (get s').get key = some (some a) := by
  obtain ⟨s₁, s₂, -, hs₂, hs'⟩ := Yaml.readStruct_of_single hothers hf hkvs h
  obtain ⟨m, hm, rfl⟩ := Option.map_eq_some_iff.mp hs₂
  obtain ⟨t, ht, rfl⟩ := Option.map_eq_some_iff.mp hm
  obtain ⟨x, hx, hget⟩ := hentries.read_entry (fun v => Yaml.readPointer read zero v none) ht
  obtain ⟨a, ha, rfl⟩ := Option.map_eq_some_iff.mp hx
  exact ⟨a, ha, by rw [hs', hset]; exact hget⟩

end Single
