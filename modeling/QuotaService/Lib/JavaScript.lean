import QuotaService.Lib.Json
import Mathlib.Algebra.Order.Ring.Int
import Mathlib.Data.List.TakeWhile

/-! JSON in a browser: `JSON.parse`, which reads integers as doubles and keeps the properties of an
object in the order of JavaScript, and `Immutable.from` of seamless-immutable, which freezes a copy
of what it is given and hangs its own methods on it. `JSON.stringify` prints the enumerable
properties that an object has itself. -/
namespace JavaScript
open Json

/-- What numbers print as once they have been read; integers in the safe range are exact. -/
structure Numbers where
  print : ℤ → ℤ
  printDecimal : String → Json
  exact : ∀ n, |n| ≤ 9007199254740991 → print n = n

section Objects

/-- The keys that come first in an object, in their numerical order. -/
def isIndex (k : String) : Bool :=
  let digits := k.toList
  digits.all Char.isDigit && !digits.isEmpty && (digits == ['0'] || digits.head? != some '0') &&
    decide (digits.foldl (fun n c => 10 * n + (c.toNat - 48)) 0 < 4294967295)

def precedes (k k' : String) : Bool :=
  isIndex k && (!isIndex k' || decide (k.length < k'.length ∨ k.length = k'.length ∧ k < k'))

/-- Assignment to a property of an object: a new one goes to its place in the order. -/
def setProperty (o : List (String × Json)) (k : String) (v : Json) : List (String × Json) :=
  if k ∈ o.map Prod.fst then o.map fun e => if e.1 = k then (k, v) else e
  else o.takeWhile (fun e => !precedes k e.1) ++ (k, v) :: o.dropWhile fun e => !precedes k e.1

/-- An object that gets its properties one after the other. -/
def setProperties (o fields : List (String × Json)) : List (String × Json) :=
  fields.foldl (fun o e => setProperty o e.1 e.2) o

variable {o fields : List (String × Json)} {k : String} {v : Json}

theorem setProperty_perm (h : k ∉ o.map Prod.fst) : (setProperty o k v).Perm ((k, v) :: o) := by
  unfold setProperty
  rw [if_neg h]
  apply List.perm_middle.trans
  rw [List.takeWhile_append_dropWhile]

theorem setProperty_append (h : k ∉ o.map Prod.fst) (hk : isIndex k = false) :
    setProperty o k v = o ++ [(k, v)] := by
  have hprecedes : ∀ k', precedes k k' = false := by simp [precedes, hk]
  unfold setProperty
  rw [if_neg h]
  simp [hprecedes, List.takeWhile_eq_self_iff.mpr, List.dropWhile_eq_nil_iff.mpr]

theorem setProperties_perm (h : ((o ++ fields).map Prod.fst).Nodup) :
    (setProperties o fields).Perm (o ++ fields) := by
  induction fields generalizing o with
  | nil => simp [setProperties]
  | cons e fields ih =>
    have hperm : (o ++ e :: fields).Perm (setProperty o e.1 e.2 ++ fields) := by
      have hnot : e.1 ∉ o.map Prod.fst := by
        rw [List.map_append, List.map_cons, List.nodup_append] at h
        exact fun hmem => h.2.2 _ hmem _ List.mem_cons_self rfl
      exact List.perm_middle.trans ((setProperty_perm hnot).symm.append_right fields)
    exact (ih ((hperm.map Prod.fst).nodup_iff.mp h)).trans hperm.symm

theorem setProperties_append (h : ((o ++ fields).map Prod.fst).Nodup)
    (hindex : ∀ e ∈ fields, isIndex e.1 = false) : setProperties o fields = o ++ fields := by
  induction fields generalizing o with
  | nil => simp [setProperties]
  | cons e fields ih =>
    have hnot : e.1 ∉ o.map Prod.fst := by
      rw [List.map_append, List.map_cons, List.nodup_append] at h
      exact fun hmem => h.2.2 _ hmem _ List.mem_cons_self rfl
    have hset := setProperty_append (v := e.2) hnot (hindex e List.mem_cons_self)
    have hcons : setProperties o (e :: fields) = setProperties (o ++ [e]) fields := by
      rw [setProperties, List.foldl_cons, hset]
      rfl
    rw [hcons, ih (by simpa using h) fun e' he' => hindex e' (List.mem_cons_of_mem e he')]
    simp

end Objects

section Parse
variable (N : Numbers)

mutual

/-- `JSON.parse`. -/
def parse : Json → Json
  | .null => .null
  | .bool b => .bool b
  | .num n => num (N.print n)
  | .decimal literal => N.printDecimal literal
  | .str s => str s
  | .arr items => arr (parseItems items)
  | .obj fields => obj (setProperties [] (parseFields fields))

def parseItems : List Json → List Json
  | [] => []
  | v :: items => parse v :: parseItems items

def parseFields : List (String × Json) → List (String × Json)
  | [] => []
  | (k, v) :: fields => (k, parse v) :: parseFields fields

end

theorem parseFields_eq (fields : List (String × Json)) :
    parseFields N fields = fields.map fun e => (e.1, parse N e.2) := by
  induction fields with
  | nil => rfl
  | cons e fields ih => simp [parseFields, ih]

/-- An object none of whose keys are numbers keeps the order of its properties. -/
theorem parse_obj {fields : List (String × Json)} (h : (fields.map Prod.fst).Nodup)
    (hindex : ∀ e ∈ fields, isIndex e.1 = false) :
    parse N (obj fields) = obj (fields.map fun e => (e.1, parse N e.2)) := by
  rw [parse, parseFields_eq, setProperties_append]
  · rfl
  · simpa [Function.comp_def] using h
  · intro e he
    obtain ⟨e', he', rfl⟩ := List.mem_map.mp he
    exact hindex e' he'

end Parse

section Freeze

/-- A frozen value, with the names that an object cannot assign once it has it as its prototype. -/
structure Frozen where
  value : Json
  readOnly : List String

/-- The property that marks what is frozen. -/
def tag : String := "__immutable_invariants_hold"

/-- What is hung on an object, over properties of these names. -/
def objectMethods : List String :=
  ["merge", "replace", "without", "asMutable", "set", "setIn", "update", "updateIn", "getIn",
    "setPrototypeOf"]

def arrayMethods : List String :=
  ["setPrototypeOf", "push", "pop", "sort", "splice", "shift", "unshift", "reverse", "keys", "map",
    "filter", "slice", "concat", "reduce", "reduceRight", "flatMap", "asObject", "asMutable", "set",
    "setIn", "update", "updateIn", "getIn"]

def proto : String := "__proto__"

/-- The mark of a React element. -/
def isElementType : Json → Bool
  | .num n => n = 60103
  | _ => false

/-- An object that passes for frozen, or for a React element, and is taken as it is. -/
def untouched (fields : List (String × Json)) : Bool :=
  fields.any fun e => e.1 = tag || (e.1 = "$$typeof" && isElementType e.2)

/-- What assignments fail on when this value has become the prototype; a scalar does not. -/
def inherited (v : Frozen) (readOnly : List String) : List String :=
  match v.value with
  | .obj _ | .arr _ => v.readOnly
  | .null => []
  | _ => readOnly

/-- The assignments to the copy of an object; `none` is the TypeError of strict code. -/
def assign (o : List (String × Json)) (readOnly : List String) :
    List (String × Frozen) → Option (List (String × Json) × List String)
  | [] => some (o, readOnly)
  | (k, v) :: fields =>
    if k = proto then assign o (inherited v readOnly) fields
    else if k ∈ readOnly then none
    else assign (setProperty o k v.value) readOnly fields

mutual

/-- `Immutable.from` of a value that may hold so many levels of objects. The items of an array may
hold as many as any value. -/
def freeze : ℕ → Json → Option Frozen
  | _, .arr items => (freezeItems items).map fun items =>
    ⟨arr items, (List.range items.length).map toString ++ "length" :: tag :: arrayMethods⟩
  | depth, .obj fields =>
    if untouched fields then some ⟨obj fields, []⟩
    else match depth with
      | 0 => none
      | depth + 1 => (freezeFields depth fields).bind fun fields =>
        (assign [] [] fields).map fun s =>
          ⟨obj (s.1.filter fun e => e.1 ∉ objectMethods),
            s.1.map Prod.fst ++ tag :: objectMethods ++ s.2⟩
  | _, .null => some ⟨null, []⟩
  | _, .bool b => some ⟨.bool b, []⟩
  | _, .num n => some ⟨num n, []⟩
  | _, .decimal literal => some ⟨decimal literal, []⟩
  | _, .str s => some ⟨str s, []⟩

def freezeItems : List Json → Option (List Json)
  | [] => some []
  | v :: items => (freeze 64 v).bind fun v => (freezeItems items).map (v.value :: ·)

def freezeFields : ℕ → List (String × Json) → Option (List (String × Frozen))
  | _, [] => some []
  | depth, (k, v) :: fields =>
    (freeze depth v).bind fun v => (freezeFields depth fields).map ((k, v) :: ·)

end

/-- The names that get lost when an object is frozen. -/
def hiddenNames : List String := proto :: objectMethods

theorem freezeFields_spec {depth : ℕ} {fields : List (String × Json)}
    {frozen : List (String × Frozen)} (h : freezeFields depth fields = some frozen) :
    frozen.map Prod.fst = fields.map Prod.fst ∧
      ∀ e' ∈ frozen, ∃ e ∈ fields, e.1 = e'.1 ∧ freeze depth e.2 = some e'.2 := by
  induction fields generalizing frozen with
  | nil =>
    cases h
    exact ⟨rfl, by simp⟩
  | cons e fields ih =>
    obtain ⟨v, hv, h⟩ := Option.bind_eq_some_iff.mp h
    obtain ⟨frozen, hfrozen, rfl⟩ := Option.map_eq_some_iff.mp h
    obtain ⟨hkeys, hmem⟩ := ih hfrozen
    refine ⟨by simp [hkeys], fun e' he' => ?_⟩
    rcases List.mem_cons.mp he' with rfl | he'
    · exact ⟨e, List.mem_cons_self, rfl, hv⟩
    · obtain ⟨e₀, he₀, hkey⟩ := hmem e' he'
      exact ⟨e₀, List.mem_cons_of_mem e he₀, hkey⟩

theorem freezeFields_total {depth : ℕ} {fields : List (String × Json)}
    (h : ∀ e ∈ fields, ∃ v, freeze depth e.2 = some v) :
    ∃ frozen, freezeFields depth fields = some frozen := by
  induction fields with
  | nil => exact ⟨[], rfl⟩
  | cons e fields ih =>
    obtain ⟨v, hv⟩ := h e List.mem_cons_self
    obtain ⟨frozen, hfrozen⟩ := ih fun e' he' => h e' (List.mem_cons_of_mem e he')
    exact ⟨(e.1, v) :: frozen, by simp [freezeFields, hv, hfrozen]⟩

/-- Assignments that succeed set the properties, but for the one that sets the prototype. -/
theorem assign_eq {o o' : List (String × Json)} {readOnly readOnly' : List String}
    {fields : List (String × Frozen)} (h : assign o readOnly fields = some (o', readOnly')) :
    o' = setProperties o ((fields.filter fun e => e.1 ≠ proto).map fun e => (e.1, e.2.value)) := by
  induction fields generalizing o readOnly with
  | nil =>
    cases h
    rfl
  | cons e fields ih =>
    simp only [assign] at h
    split_ifs at h with hproto hread
    · rw [ih h]
      simp [hproto]
    · rw [ih h]
      simp [hproto, setProperties]

theorem assign_total (o : List (String × Json)) {fields : List (String × Frozen)}
    (h : ∀ e ∈ fields, e.1 ≠ proto) : ∃ s, assign o [] fields = some s := by
  induction fields generalizing o with
  | nil => exact ⟨_, rfl⟩
  | cons e fields ih =>
    have hne := h e List.mem_cons_self
    obtain ⟨s, hs⟩ := ih (setProperty o e.1 e.2.value) fun e' he' => h e' (List.mem_cons_of_mem e he')
    exact ⟨s, by simp [assign, hne, hs]⟩

/-- What freezing an object comes to. -/
theorem freeze_obj {depth : ℕ} {fields : List (String × Json)} {v : Frozen}
    (hfields : untouched fields = false) (h : freeze (depth + 1) (obj fields) = some v) :
    ∃ frozen, freezeFields depth fields = some frozen ∧
      v.value = obj ((setProperties [] ((frozen.filter fun e => e.1 ≠ proto).map
        fun e => (e.1, e.2.value))).filter fun e => e.1 ∉ objectMethods) := by
  rw [freeze, hfields, if_neg Bool.false_ne_true] at h
  obtain ⟨frozen, hfrozen, h⟩ := Option.bind_eq_some_iff.mp h
  obtain ⟨s, hs, rfl⟩ := Option.map_eq_some_iff.mp h
  exact ⟨frozen, hfrozen, by rw [assign_eq hs]⟩

theorem freeze_total {depth : ℕ} {fields : List (String × Json)}
    (hproto : ∀ e ∈ fields, e.1 ≠ proto) (h : ∀ e ∈ fields, ∃ v, freeze depth e.2 = some v) :
    ∃ v, freeze (depth + 1) (obj fields) = some v := by
  by_cases hfields : untouched fields = true
  · exact ⟨_, by rw [freeze, if_pos hfields]⟩
  · obtain ⟨frozen, hfrozen⟩ := freezeFields_total h
    have hne : ∀ e ∈ frozen, e.1 ≠ proto := by
      intro e' he'
      obtain ⟨e, he, hkey, -⟩ := (freezeFields_spec hfrozen).2 e' he'
      exact hkey ▸ hproto e he
    obtain ⟨s, hs⟩ := assign_total [] hne
    exact ⟨_, by rw [freeze, if_neg hfields, hfrozen, Option.bind_some, hs]; rfl⟩

/-- An object whose keys are neither numbers nor hidden keeps its properties. -/
theorem freeze_struct {depth : ℕ} {fields : List (String × Json)} {v : Frozen}
    (hfields : untouched fields = false) (hnodup : (fields.map Prod.fst).Nodup)
    (hkeys : ∀ k ∈ fields.map Prod.fst, isIndex k = false ∧ k ∉ hiddenNames)
    (h : freeze (depth + 1) (obj fields) = some v) :
    ∃ frozen, freezeFields depth fields = some frozen ∧
      v.value = obj (frozen.map fun e => (e.1, e.2.value)) := by
  obtain ⟨frozen, hfrozen, hvalue⟩ := freeze_obj hfields h
  obtain ⟨hfst, -⟩ := freezeFields_spec hfrozen
  have hkeys' : ∀ e ∈ frozen, isIndex e.1 = false ∧ e.1 ≠ proto ∧ e.1 ∉ objectMethods := by
    intro e he
    obtain ⟨hindex, hhidden⟩ := hkeys e.1 (hfst ▸ List.mem_map_of_mem he)
    rw [hiddenNames, List.mem_cons, not_or] at hhidden
    exact ⟨hindex, hhidden⟩
  have hproto : (frozen.filter fun e => e.1 ≠ proto) = frozen := by
    rw [List.filter_eq_self]
    intro e he
    simpa using (hkeys' e he).2.1
  refine ⟨frozen, hfrozen, ?_⟩
  rw [hvalue, hproto, setProperties_append]
  · rw [List.nil_append, List.filter_eq_self.mpr]
    intro e he
    obtain ⟨e', he', rfl⟩ := List.mem_map.mp he
    simpa using (hkeys' e' he').2.2
  · simpa [Function.comp_def, hfst] using hnodup
  · intro e he
    obtain ⟨e', he', rfl⟩ := List.mem_map.mp he
    exact (hkeys' e' he').1

section Entries
variable {α : Type} {R R' : Json → α → Prop} {T : String → Option α}
variable {fields : List (String × Json)}

theorem parse_entries (N : Numbers) (h : Entries R T fields)
    (hR : ∀ v a, R v a → R' (parse N v) a) :
    ∃ fields', parse N (obj fields) = obj fields' ∧ Entries R' T fields' := by
  refine ⟨_, rfl, ?_⟩
  rw [parseFields_eq]
  have hkeys : (fields.map fun e => (e.1, parse N e.2)).map Prod.fst = fields.map Prod.fst := by
    simp
  have hmap : Entries R' T (fields.map fun e => (e.1, parse N e.2)) := by
    refine ⟨hkeys ▸ h.nodup, ?_, fun k a ha => hkeys ▸ h.complete k a ha⟩
    intro e he
    obtain ⟨e', he', rfl⟩ := List.mem_map.mp he
    obtain ⟨a, ha, hRa⟩ := h.sound e' he'
    exact ⟨a, ha, hR _ _ hRa⟩
  apply hmap.perm
  exact setProperties_perm hmap.nodup

/-- Objects of objects are taken as they are only for their tag. -/
theorem untouched_iff (h : Entries R T fields) (hR : ∀ v a, R v a → isElementType v = false) :
    untouched fields = true ↔ (T tag).isSome = true := by
  unfold untouched
  rw [List.any_eq_true]
  constructor
  · rintro ⟨e, he, hmatch⟩
    obtain ⟨a, ha, hRa⟩ := h.sound e he
    have htag : e.1 = tag := by simpa [hR _ _ hRa] using hmatch
    rw [← htag, ha]
    rfl
  · intro hsome
    obtain ⟨a, ha⟩ := Option.isSome_iff_exists.mp hsome
    obtain ⟨e, he, hkey⟩ := List.mem_map.mp (h.complete _ a ha)
    exact ⟨e, he, by simp [hkey]⟩

/-- Freezing a table loses the entries with hidden names. -/
theorem freeze_entries {β : Type} {Q : Json → β → Prop} {g : α → β} {depth : ℕ} {v : Frozen}
    (h : Entries R T fields) (hfields : untouched fields = false)
    (hfreeze : freeze (depth + 1) (obj fields) = some v)
    (hQ : ∀ v a v', R v a → freeze depth v = some v' → Q v'.value (g a)) :
    ∃ fields', v.value = obj fields' ∧
      Entries Q (fun k => if k ∈ hiddenNames then none else (T k).map g) fields' := by
  obtain ⟨frozen, hfrozen, hvalue⟩ := freeze_obj hfields hfreeze
  obtain ⟨hfst, hmem⟩ := freezeFields_spec hfrozen
  refine ⟨_, hvalue, ?_⟩
  -- what is kept, before it goes to its place
  let kept := (frozen.filter fun e => e.1 ≠ proto).map fun e => (e.1, e.2.value)
  have hkept : kept.map Prod.fst = (frozen.filter fun e => e.1 ≠ proto).map Prod.fst := by
    simp [kept, Function.comp_def]
  have hnodup : (kept.map Prod.fst).Nodup := by
    rw [hkept]
    exact (hfst ▸ h.nodup).sublist (List.filter_sublist.map Prod.fst)
  have hperm : (setProperties [] kept).Perm kept := setProperties_perm hnodup
  refine Entries.perm ?_ (hperm.filter _)
  refine ⟨hnodup.sublist (List.filter_sublist.map Prod.fst), ?_, ?_⟩
  · intro e he
    obtain ⟨he, hmethod⟩ := List.mem_filter.mp he
    obtain ⟨e', he', rfl⟩ := List.mem_map.mp he
    obtain ⟨he', hproto⟩ := List.mem_filter.mp he'
    obtain ⟨e₀, he₀, hkey, hv'⟩ := hmem e' he'
    obtain ⟨a, ha, hRa⟩ := h.sound e₀ he₀
    have hhidden : e'.1 ∉ hiddenNames := by
      rw [hiddenNames, List.mem_cons, not_or]
      exact ⟨of_decide_eq_true hproto, of_decide_eq_true hmethod⟩
    refine ⟨g a, ?_, hQ _ _ _ hRa hv'⟩
    have ha' : T e'.1 = some a := hkey ▸ ha
    simp only [if_neg hhidden, ha', Option.map_some]
  · intro k b hb
    split_ifs at hb with hhidden
    obtain ⟨a, ha, -⟩ := Option.map_eq_some_iff.mp hb
    rw [hiddenNames, List.mem_cons, not_or] at hhidden
    obtain ⟨e', he', rfl⟩ := List.mem_map.mp (hfst ▸ h.complete k a ha)
    refine List.mem_map.mpr ⟨(e'.1, e'.2.value), List.mem_filter.mpr ⟨?_, ?_⟩, rfl⟩
    · exact List.mem_map.mpr ⟨e', List.mem_filter.mpr ⟨he', decide_eq_true hhidden.1⟩, rfl⟩
    · exact decide_eq_true hhidden.2

/-- What freezing a table comes to: with an entry for the tag it is taken as it is. -/
theorem freeze_table {β : Type} {Q : Json → β → Prop} {g : α → β} {depth : ℕ} {v : Frozen}
    (h : Entries R T fields) (helement : ∀ v a, R v a → isElementType v = false)
    (hfreeze : freeze (depth + 1) (obj fields) = some v)
    (hQ : ∀ v a v', R v a → freeze depth v = some v' → Q v'.value (g a)) :
    (T tag ≠ none ∧ v.value = obj fields) ∨ (T tag = none ∧ ∃ fields', v.value = obj fields' ∧
      Entries Q (fun k => if k ∈ hiddenNames then none else (T k).map g) fields') := by
  by_cases huntouched : untouched fields = true
  · refine Or.inl ⟨?_, ?_⟩
    · exact Option.isSome_iff_ne_none.mp ((untouched_iff h helement).mp huntouched)
    · rw [freeze, if_pos huntouched] at hfreeze
      cases hfreeze
      rfl
  · refine Or.inr ⟨?_, ?_⟩
    · have hnot := mt (untouched_iff h helement).mpr huntouched
      simpa using hnot
    · exact freeze_entries h (Bool.eq_false_of_not_eq_true huntouched) hfreeze hQ

theorem freeze_table_total {depth : ℕ} (h : Entries R T fields)
    (helement : ∀ v a, R v a → isElementType v = false)
    (hkeys : T tag ≠ none ∨ ∀ k a, T k = some a → k ∉ hiddenNames ∧
      ∀ v, R v a → ∃ v', freeze depth v = some v') :
    ∃ v, freeze (depth + 1) (obj fields) = some v := by
  rcases hkeys with htag | hkeys
  · have huntouched := (untouched_iff h helement).mpr (Option.isSome_iff_ne_none.mpr htag)
    exact ⟨_, by rw [freeze, if_pos huntouched]⟩
  · refine freeze_total (fun e he => ?_) fun e he => ?_
    · obtain ⟨a, ha, -⟩ := h.sound e he
      exact fun hproto => (hkeys e.1 a ha).1 (hproto ▸ List.mem_cons_self)
    · obtain ⟨a, ha, hRa⟩ := h.sound e he
      exact (hkeys e.1 a ha).2 e.2 hRa

end Entries

end Freeze

section Plain
variable {N : Numbers} {names : List String} {fields fields' : List (String × Json)}

/-- Property names that mean nothing special. -/
def Plain (names : List String) : Prop :=
  names.Nodup ∧ ∀ k ∈ names, isIndex k = false ∧ k ∉ hiddenNames ∧ k ≠ tag ∧ k ≠ "$$typeof"

instance (names : List String) : Decidable (Plain names) := inferInstanceAs (Decidable (_ ∧ _))

/-- A value that comes out of `parse`, and of `freeze` for so many levels of objects or more, as it
is. -/
structure Stable (N : Numbers) (depth : ℕ) (v : Json) : Prop where
  parse : parse N v = v
  freeze : ∀ d, ∃ v', freeze (d + depth) v = some v' ∧ v'.value = v

theorem stable_str (N : Numbers) (depth : ℕ) (s : String) : Stable N depth (str s) :=
  ⟨rfl, fun d => ⟨⟨str s, []⟩, by cases d + depth <;> rfl, rfl⟩⟩

theorem stable_num (depth : ℕ) {n : ℤ} (h : N.print n = n) : Stable N depth (num n) := by
  refine ⟨?_, fun d => ⟨⟨num n, []⟩, by cases d + depth <;> rfl, rfl⟩⟩
  rw [JavaScript.parse, h]

theorem Plain.untouched (h : Plain names) (hkeys : (fields.map Prod.fst).Sublist names) :
    untouched fields = false := by
  rw [JavaScript.untouched, List.any_eq_false]
  intro e he
  obtain ⟨-, -, htag, htype⟩ := h.2 e.1 (hkeys.subset (List.mem_map_of_mem he))
  simp [htag, htype]

theorem Plain.parse (h : Plain names) (hkeys : (fields.map Prod.fst).Sublist names) :
    parse N (obj fields) = obj (fields.map fun e => (e.1, JavaScript.parse N e.2)) := by
  refine parse_obj N (h.1.sublist hkeys) fun e he => ?_
  exact (h.2 e.1 (hkeys.subset (List.mem_map_of_mem he))).1

theorem Plain.freeze (h : Plain names) (hkeys : (fields.map Prod.fst).Sublist names) {depth : ℕ}
    {v : Frozen} (hfreeze : freeze (depth + 1) (obj fields) = some v) :
    ∃ frozen, freezeFields depth fields = some frozen ∧
      v.value = obj (frozen.map fun e => (e.1, e.2.value)) := by
  refine freeze_struct (h.untouched hkeys) (h.1.sublist hkeys) (fun k hk => ?_) hfreeze
  obtain ⟨hindex, hhidden, -⟩ := h.2 k (hkeys.subset hk)
  exact ⟨hindex, hhidden⟩

theorem Plain.freeze_total (h : Plain names) (hkeys : (fields.map Prod.fst).Sublist names)
    {depth : ℕ} (hvalues : ∀ e ∈ fields, ∃ v, JavaScript.freeze depth e.2 = some v) :
    ∃ v, JavaScript.freeze (depth + 1) (obj fields) = some v := by
  refine JavaScript.freeze_total (fun e he hproto => ?_) hvalues
  obtain ⟨-, hhidden, -⟩ := h.2 e.1 (hkeys.subset (List.mem_map_of_mem he))
  exact hhidden (hproto ▸ List.mem_cons_self)

theorem freezeFields_append {depth : ℕ} {frozen : List (String × Frozen)}
    (h : freezeFields depth (fields ++ fields') = some frozen) :
    ∃ first second, freezeFields depth fields = some first ∧
      freezeFields depth fields' = some second ∧ frozen = first ++ second := by
  induction fields generalizing frozen with
  | nil => exact ⟨[], frozen, rfl, h, rfl⟩
  | cons e fields ih =>
    obtain ⟨v, hv, h⟩ := Option.bind_eq_some_iff.mp h
    obtain ⟨rest, hrest, rfl⟩ := Option.map_eq_some_iff.mp h
    obtain ⟨first, second, hfirst, hsecond, rfl⟩ := ih hrest
    refine ⟨(e.1, v) :: first, second, ?_, hsecond, rfl⟩
    simp [freezeFields, hv, hfirst]

theorem freezeFields_stable {depth d : ℕ} {frozen : List (String × Frozen)}
    (h : ∀ e ∈ fields, Stable N depth e.2)
    (hfrozen : freezeFields (d + depth) fields = some frozen) :
    (frozen.map fun e => (e.1, e.2.value)) = fields := by
  induction fields generalizing frozen with
  | nil =>
    cases hfrozen
    rfl
  | cons e fields ih =>
    obtain ⟨v, hv, hfrozen⟩ := Option.bind_eq_some_iff.mp hfrozen
    obtain ⟨rest, hrest, rfl⟩ := Option.map_eq_some_iff.mp hfrozen
    obtain ⟨v', hv', hvalue⟩ := (h e List.mem_cons_self).freeze d
    cases hv.symm.trans hv'
    rw [List.map_cons, ih (fun e' he' => h e' (List.mem_cons_of_mem e he')) hrest, hvalue]

/-- An object with plain names and stable values is stable. -/
theorem Plain.stable (h : Plain names) (hkeys : (fields.map Prod.fst).Sublist names) {depth : ℕ}
    (hvalues : ∀ e ∈ fields, Stable N depth e.2) : Stable N (depth + 1) (obj fields) := by
  refine ⟨?_, fun d => ?_⟩
  · rw [h.parse hkeys]
    refine congrArg obj ((List.map_congr_left fun e he => ?_).trans (List.map_id fields))
    rw [(hvalues e he).parse]
    rfl
  · have htotal : ∀ e ∈ fields, ∃ v, JavaScript.freeze (d + depth) e.2 = some v := by
      intro e he
      obtain ⟨v, hv, -⟩ := (hvalues e he).freeze d
      exact ⟨v, hv⟩
    obtain ⟨v, hv⟩ := h.freeze_total hkeys htotal
    obtain ⟨frozen, hfrozen, hvalue⟩ := h.freeze hkeys hv
    rw [freezeFields_stable hvalues hfrozen] at hvalue
    exact ⟨v, hv, hvalue⟩

end Plain

end JavaScript
