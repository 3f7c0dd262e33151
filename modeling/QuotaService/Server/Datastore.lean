import QuotaService.Config.Types
import QuotaService.Lib.Machine
import Mathlib.Data.List.Sort

/-! The Datastore persister. A ticker polls for the key of the newest entity, and compares the version
in its name with the one that was read last, which the reading goroutine sends over an unbuffered
channel. The query for keys has no entities in its answer, but `getLatest` takes the first one of them
in either case, so that a tick panics as soon as there is an entity. -/
namespace QuotaService.Datastore
open Config

section Entities
variable {D : Type}

structure StoredEntity (D : Type) where
  contents : D
  version : Int32
  date : ℤ
  user : String
  hash : String

def keyName (version : Int32) : String := "version:" ++ toString version.toInt

/-- Entities with different keys. They are only created by the persister, so that the keys are named
after the versions. -/
structure Store (D : Type) where
  entities : List (StoredEntity D)
  nodup : (entities.map StoredEntity.version).Nodup

def Store.get (store : Store D) (key : String) : Option (StoredEntity D) :=
  store.entities.find? fun e => keyName e.version = key

/-- The answer to a query in the order of decreasing versions, with a limit of one. -/
def Store.latest (store : Store D) : List (StoredEntity D) :=
  (store.entities.insertionSort fun e e' => e'.version.toInt ≤ e.version.toInt).take 1

/-- The names of the keys, and what is appended to the destination: nothing for a keys-only query. -/
def Store.getAll (store : Store D) (keysOnly : Bool) : List String × List (StoredEntity D) :=
  (store.latest.map fun e => keyName e.version, if keysOnly then [] else store.latest)

/-- `none` is the panic on an index. -/
def getLatest (store : Store D) (keyOnly : Bool) :
    Option (Except String (String × StoredEntity D)) :=
  let (keys, entities) := store.getAll keyOnly
  if keys.length ≠ 1 then
    some (.error ("expected 1 result, got " ++ toString keys.length ++ " result(s)"))
  else do
    let key ← keys[0]?
    let entity ← entities[0]?
    some (.ok (key, entity))

def parseDigits (negative : Bool) (digits : List Char) : ℤ :=
  if digits = [] ∨ digits.all Char.isDigit = false then 0
  else
    let n : ℤ := Nat.ofDigitChars 10 digits 0
    max (-2 ^ 63) (min (if negative then -n else n) (2 ^ 63 - 1))

/-- `strconv.ParseInt`, of which the error is ignored: the value is then zero, or the bound that is
exceeded. -/
def parseInt : List Char → ℤ
  | '-' :: digits => parseDigits true digits
  | '+' :: digits => parseDigits false digits
  | digits => parseDigits false digits

/-- `none` is the panic on an index. -/
def versionOf (key : String) : Option ℤ := ((key.toList.splitOn ':')[1]?).map parseInt

end Entities

section Persist
variable {D : Type} (marshal : ServiceConfig → D) (hash : D → String)

def storedEntity (cfg : ServiceConfig) : StoredEntity D where
  contents := marshal cfg
  version := Int32.ofInt cfg.version
  date := cfg.date
  user := cfg.user
  hash := hash (marshal cfg)

theorem keyName_ne_of_get {store : Store D} {version : Int32} (h : store.get (keyName version) = none) :
    version ∉ store.entities.map StoredEntity.version := by
  intro hmem
  obtain ⟨e, he, rfl⟩ := List.mem_map.mp hmem
  simpa using List.find?_eq_none.mp h e he

/-- The transaction of `PersistAndNotify`. -/
def Store.put (store : Store D) (s : StoredEntity D) : Except String (Store D) :=
  match h : store.get (keyName s.version) with
  | some existing =>
    if existing.hash ≠ s.hash then
      .error ("Attempting to write configuration with version " ++ toString s.version.toInt ++
        " and hash " ++ s.hash ++ ". Datastore already contains a configuration with the same " ++
        "version, with hash " ++ existing.hash ++ ".")
    else .ok store
  | none => .ok ⟨s :: store.entities, List.nodup_cons.mpr ⟨keyName_ne_of_get h, store.nodup⟩⟩

end Persist

section Polling
variable {D : Type} (marshal : ServiceConfig → D) (hash : D → String)

/-- The Datastore with one persister: `p.version`, whether the goroutine of `poll` waits for the answer
to its query, the calls of `ReadPersistedConfig` that send their version on `newVersions`, and the
versions that were received there. -/
structure Persister (D : Type) where
  store : Store D
  version : ℤ
  querying : Bool
  reads : List ℤ
  delivered : List ℤ
  notifications : ℕ
  crashed : Bool

inductive Action
  /-- The ticker fires, and the goroutine of `poll` asks for the newest key. -/
  | tick
  /-- The query of the tick is answered, and the tick ends. -/
  | answer
  /-- A call of `ReadPersistedConfig`, up to the rendezvous. -/
  | readPersistedConfig
  /-- One of these calls is received from. -/
  | newVersion (n : ℕ)
  | persistAndNotify (cfg : ServiceConfig)
  /-- A transaction of another server, or one that commits without an answer. -/
  | commit (cfg : ServiceConfig)

namespace Persister

def start (store : Store D) : Persister D := ⟨store, 0, false, [], [], 0, false⟩

/-- The rest of a tick, from the answer to its query. -/
def endTick (p : Persister D) : Persister D :=
  match getLatest p.store true with
  | none => { p with crashed := true }
  | some (.error _) => { p with querying := false }
  | some (.ok (k, _)) =>
    match versionOf k with
    | none => { p with crashed := true }
    | some v => { p with
        querying := false
        notifications := if v > p.version then p.notifications + 1 else p.notifications }

def read (p : Persister D) : Persister D :=
  match getLatest p.store false with
  | none => { p with crashed := true }
  | some (.error _) => p
  | some (.ok (_, s)) => { p with reads := p.reads ++ [s.version.toInt] }

def step (p : Persister D) (a : Action) : Option (Persister D) :=
  if p.crashed then none
  else match a with
    | .tick => if p.querying then none else some { p with querying := true }
    | .answer => if p.querying then some p.endTick else none
    | .readPersistedConfig => some p.read
    | .newVersion n =>
      if p.querying then none
      else p.reads[n]?.map fun v => { p with
        version := v, reads := p.reads.eraseIdx n, delivered := p.delivered ++ [v] }
    | .persistAndNotify cfg => match p.store.put (storedEntity marshal hash cfg) with
      | .error _ => some p
      | .ok store => some { p with store := store, notifications := p.notifications + 1 }
    | .commit cfg => match p.store.put (storedEntity marshal hash cfg) with
      | .error _ => some p
      | .ok store => some { p with store := store }

/-- The version that the last call of `ReadPersistedConfig` has delivered; zero if there is none. -/
def lastDelivered (p : Persister D) : ℤ := p.delivered.getLast?.getD 0

/-- The highest stored version is greater than the one that was delivered last. -/
def Outdated (p : Persister D) : Prop :=
  ∃ e ∈ p.store.entities, (∀ e' ∈ p.store.entities, e'.version.toInt ≤ e.version.toInt) ∧
    p.lastDelivered < e.version.toInt

/-- A tick ends without a panic, and notifies if and only if there is a newer version. -/
def TickWorks (p : Persister D) : Action → Prop
  | .answer => ∀ p', step marshal hash p .answer = some p' → p'.crashed = false ∧
      (p'.notifications = p.notifications + 1 ∧ p.Outdated ∨
        p'.notifications = p.notifications ∧ ¬p.Outdated)
  | _ => True

/-- No tick is answered when there are entities. -/
def Unanswered (p : Persister D) : Action → Prop
  | .answer => p.crashed = false → p.querying = true → p.store.entities = []
  | _ => True

end Persister

end Polling

section Queries
variable {D : Type} {store : Store D}

/-- A version is written as its digits, after a sign if it is negative. -/
theorem toList_toString (n : ℤ) : (toString n).toList =
    if n < 0 then '-' :: Nat.toDigits 10 n.natAbs else Nat.toDigits 10 n.natAbs := by
  cases n with
  | ofNat m =>
    have hm : toString (Int.ofNat m) = Nat.repr m := rfl
    have hnot : ¬Int.ofNat m < 0 := by simp
    rw [hm, if_neg hnot, Nat.toList_repr]
    rfl
  | negSucc m =>
    have hm : toString (Int.negSucc m) = "-" ++ Nat.repr (m + 1) := rfl
    rw [hm, if_pos (Int.negSucc_lt_zero m), String.toList_append, Nat.toList_repr]
    rfl

theorem parseDigits_toDigits (negative : Bool) (m : ℕ) :
    parseDigits negative (Nat.toDigits 10 m) =
      max (-2 ^ 63) (min (if negative then -(m : ℤ) else m) (2 ^ 63 - 1)) := by
  have hall : (Nat.toDigits 10 m).all Char.isDigit = true :=
    List.all_eq_true.mpr fun c hc => Nat.isDigit_of_mem_toDigits (by decide) (by decide) hc
  have hdigits : ¬(Nat.toDigits 10 m = [] ∨ (Nat.toDigits 10 m).all Char.isDigit = false) := by
    rw [hall, not_or]
    exact ⟨Nat.toDigits_ne_nil, Bool.noConfusion⟩
  rw [parseDigits, if_neg hdigits, Nat.ofDigitChars_toDigits (by decide) (by decide)]

theorem parseInt_toDigits (m : ℕ) :
    parseInt (Nat.toDigits 10 m) = parseDigits false (Nat.toDigits 10 m) := by
  have hsign : ∀ c ∈ Nat.toDigits 10 m, c ≠ '-' ∧ c ≠ '+' := by
    intro c hc
    have hdigit := Nat.isDigit_of_mem_toDigits (by decide) (by decide) hc
    constructor
    · rintro rfl
      exact absurd hdigit (by decide)
    · rintro rfl
      exact absurd hdigit (by decide)
  generalize Nat.toDigits 10 m = digits at hsign
  unfold parseInt
  split
  · exact absurd rfl (hsign _ List.mem_cons_self).1
  · exact absurd rfl (hsign _ List.mem_cons_self).2
  · rfl

theorem parseInt_toString (version : Int32) :
    parseInt (toString version.toInt).toList = version.toInt := by
  have hlow := version.le_toInt
  have hhigh := version.toInt_lt
  rw [toList_toString]
  split_ifs with hneg
  · show parseDigits true _ = _
    rw [parseDigits_toDigits, if_pos rfl]
    omega
  · rw [parseInt_toDigits, parseDigits_toDigits, if_neg (by decide)]
    omega

theorem splitOn_keyName (version : Int32) :
    (keyName version).toList.splitOn ':' = ["version".toList, (toString version.toInt).toList] := by
  have hkey : (keyName version).toList =
      "version".toList ++ ':' :: (toString version.toInt).toList := by
    simp [keyName]
  have hcolon : ':' ∉ (toString version.toInt).toList := by
    have hdigits : ':' ∉ Nat.toDigits 10 version.toInt.natAbs := by
      intro hmem
      exact absurd (Nat.isDigit_of_mem_toDigits (by decide) (by decide) hmem) (by decide)
    rw [toList_toString]
    split_ifs
    · simp [hdigits]
    · exact hdigits
  rw [hkey, List.splitOn_append_cons_self_of_not_mem (by decide), List.splitOn_eq_singleton hcolon]

theorem versionOf_keyName (version : Int32) : versionOf (keyName version) = some version.toInt := by
  rw [versionOf, splitOn_keyName, List.getElem?_cons_succ, List.getElem?_cons_zero, Option.map_some,
    parseInt_toString]

/-- The newest entity comes first. -/
theorem latest_eq (h : store.entities ≠ []) : ∃ e ∈ store.entities, store.latest = [e] ∧
    ∀ e' ∈ store.entities, e'.version.toInt ≤ e.version.toInt := by
  let r : StoredEntity D → StoredEntity D → Prop := fun e e' => e'.version.toInt ≤ e.version.toInt
  have htotal : Std.Total r := ⟨fun e e' => le_total e'.version.toInt e.version.toInt⟩
  have htrans : IsTrans (StoredEntity D) r := ⟨fun _ _ _ h h' => le_trans h' h⟩
  have hperm : (store.entities.insertionSort r).Perm store.entities := List.perm_insertionSort r _
  have hsorted : (store.entities.insertionSort r).Pairwise r := List.pairwise_insertionSort r _
  unfold Store.latest
  cases hl : store.entities.insertionSort r with
  | nil =>
    rw [hl] at hperm
    exact absurd hperm.nil_eq.symm h
  | cons e rest =>
    rw [hl] at hperm hsorted
    refine ⟨e, hperm.mem_iff.mp List.mem_cons_self, rfl, fun e' he' => ?_⟩
    rcases List.mem_cons.mp (hperm.mem_iff.mpr he') with rfl | hrest
    · exact le_refl _
    · exact (List.pairwise_cons.mp hsorted).1 e' hrest

theorem latest_nil (h : store.entities = []) : store.latest = [] := by
  simp [Store.latest, h]

/-- The query for keys panics as soon as there is an entity. -/
theorem getLatest_keyOnly (h : store.entities ≠ []) : getLatest store true = none := by
  obtain ⟨e, -, hlatest, -⟩ := latest_eq h
  simp [getLatest, Store.getAll, hlatest]

theorem getLatest_nil (h : store.entities = []) (keyOnly : Bool) :
    ∃ e, getLatest store keyOnly = some (.error e) := by
  simp [getLatest, Store.getAll, latest_nil h]

end Queries

namespace Persister
variable {D : Type} {marshal : ServiceConfig → D} {hash : D → String} {p p' : Persister D}

/-- The rendezvous hands `poll` the version that it delivers. -/
def Compares (p : Persister D) : Prop := p.version = p.lastDelivered

theorem endTick_compares (h : p.Compares) : p.endTick.Compares := by
  unfold endTick
  split
  · exact h
  · exact h
  · split
    · exact h
    · exact h

theorem read_compares (h : p.Compares) : p.read.Compares := by
  unfold read
  split
  · exact h
  · exact h
  · exact h

theorem step_compares (h : p.Compares) {a : Action} (hs : step marshal hash p a = some p') :
    p'.Compares := by
  by_cases hcrashed : p.crashed = true
  · simp [step, hcrashed] at hs
  unfold step at hs
  rw [if_neg hcrashed] at hs
  cases a with
  | tick =>
    simp only at hs
    split_ifs at hs
    cases hs
    exact h
  | answer =>
    simp only at hs
    split_ifs at hs
    cases hs
    exact endTick_compares h
  | readPersistedConfig =>
    cases hs
    exact read_compares h
  | newVersion n =>
    simp only at hs
    split_ifs at hs
    obtain ⟨v, -, rfl⟩ := Option.map_eq_some_iff.mp hs
    simp [Compares, lastDelivered]
  | persistAndNotify cfg | commit cfg =>
    simp only at hs
    split at hs
    · cases hs
      exact h
    · cases hs
      exact h

/-- What a tick would compare: the key that it asks for names the highest version, and its base is what
was delivered last. -/
theorem outdated_iff (h : p.Compares) (hne : p.store.entities ≠ []) :
    ∃ k ∈ (p.store.getAll true).1, ∃ v, versionOf k = some v ∧ (v > p.version ↔ p.Outdated) := by
  obtain ⟨e, he, hlatest, hmax⟩ := latest_eq hne
  refine ⟨keyName e.version, by simp [Store.getAll, hlatest], _, versionOf_keyName _, ?_⟩
  rw [h]
  constructor
  · intro hlt
    exact ⟨e, he, hmax, hlt⟩
  · rintro ⟨e', he', -, hlt⟩
    exact lt_of_lt_of_le hlt (hmax e' he')

/-- In every run the comparison that the panic comes before would be the right one. -/
theorem run_outdated_iff (store : Store D) {actions : List Action}
    (hr : Machine.run (step marshal hash) (start store) actions = some p)
    (hne : p.store.entities ≠ []) :
    ∃ k ∈ (p.store.getAll true).1, ∃ v, versionOf k = some v ∧ (v > p.version ↔ p.Outdated) := by
  have hstart : (start store).Compares := rfl
  have hcompares := Machine.run_invariant Compares (fun _ _ _ h hs => step_compares h hs) hstart hr
  exact outdated_iff hcompares hne

theorem endTick_of_ne (h : p.store.entities ≠ []) : p.endTick = { p with crashed := true } := by
  rw [endTick, getLatest_keyOnly h]

theorem endTick_of_nil (h : p.store.entities = []) : p.endTick = { p with querying := false } := by
  obtain ⟨e, he⟩ := getLatest_nil h true
  rw [endTick, he]

theorem tickWorks_iff (p : Persister D) (a : Action) :
    TickWorks marshal hash p a ↔ p.Unanswered a := by
  cases a with
  | answer =>
    constructor
    · intro h hcrashed hquerying
      by_contra hne
      have hstep : step marshal hash p .answer = some p.endTick := by simp [step, hcrashed, hquerying]
      have hrunning := (h _ hstep).1
      rw [endTick_of_ne hne] at hrunning
      cases hrunning
    · intro h p' hs
      obtain ⟨hcrashed, hquerying, rfl⟩ : p.crashed = false ∧ p.querying = true ∧ p.endTick = p' := by
        simpa [step] using hs
      have hnil := h hcrashed hquerying
      rw [endTick_of_nil hnil]
      refine ⟨hcrashed, Or.inr ⟨rfl, ?_⟩⟩
      rintro ⟨e, he, -⟩
      simp [hnil] at he
  | _ => exact Iff.rfl

end Persister

/-- In every run of a server, whatever else happens to the store, the ticks of the poll work if and only
if none of them is answered with an entity in the store. -/
theorem ticks_work_iff {D : Type} (marshal : ServiceConfig → D) (hash : D → String)
    (store : Store D) (actions : List Action) :
    Machine.Along (Persister.step marshal hash) (Persister.TickWorks marshal hash) (.start store)
        actions ↔
      Machine.Along (Persister.step marshal hash) Persister.Unanswered (.start store) actions :=
  Machine.along_congr (fun _ => True) (fun p a _ => Persister.tickWorks_iff p a)
    (fun _ _ _ _ _ _ => trivial) trivial

/-- A server reads the only config there is. The next tick takes it down. -/
theorem tick_panics :
    let marshal (cfg : ServiceConfig) : String := cfg.user
    let store : Store String := ⟨[storedEntity marshal id { version := 1 }], by decide⟩
    let actions : List Action := [.readPersistedConfig, .newVersion 0, .tick, .answer]
    ¬Machine.Along (Persister.step marshal id) (Persister.TickWorks marshal id) (.start store)
        actions ∧
      ((Machine.run (Persister.step marshal id) (.start store) (actions.take 3)).any fun p =>
        p.version = 1 ∧ p.crashed = false) = true ∧
      ((Machine.run (Persister.step marshal id) (.start store) actions).any fun p =>
        p.crashed = true) = true := by
  intro marshal store actions
  refine ⟨fun h => ?_, by decide, by decide⟩
  have hanswer := (((h.2 _ rfl).2 _ rfl).2 _ rfl).1
  exact absurd (hanswer _ rfl).1 (by decide)

end QuotaService.Datastore
