import QuotaService.Lib.Machine
import QuotaService.Lib.Timeline
import QuotaService.Server.Console

/-! Editing in the admin console: the reducer of the namespaces, and the reducer around it that
remembers the states before each change and lets them be undone and redone. -/
namespace QuotaService.Console
open Json JavaScript

/-- What a property is addressed by: a text, or what `Object.prototype` has under a name. -/
inductive PropertyKey
  | text (s : String)
  | inherited (name : String)
deriving DecidableEq

/-- What the reducers use of `Object.prototype` and of the frozen objects; `none` is an error that
is thrown. -/
structure Browser where
  inherits : String → Bool
  inheritedText : String → String
  set : Json → PropertyKey → Json → Option Json
  setIn : Json → List PropertyKey → Json → Option Json
  updateIn : Json → List PropertyKey → (Json → Option Json) → Option Json
  without : Json → PropertyKey → Option Json

/-- The six mutable actions. -/
inductive MutableAction
  | addNamespace («namespace» : String)
  | updateNamespace («namespace» key : String) (value : Json)
  | removeNamespace («namespace» : String)
  | addBucket («namespace» bucket : String)
  | updateBucket («namespace» bucket key : String) (value : Json)
  | removeBucket («namespace» bucket : String)

inductive ChangeType
  | addNamespace
  | updateNamespace
  | removeNamespace
  | addBucket
  | updateBucket
  | removeBucket
deriving DecidableEq

structure Change where
  type : ChangeType
  key : String
  value : Option Json

namespace Browser
variable (br : Browser)

/-- A key in a template literal. -/
def toText : PropertyKey → String
  | .text s => s
  | .inherited name => br.inheritedText name

/-- `BUCKET_KEY_MAP[bucket]`; what an object inherits is found as well. -/
def bucketKeyMap (bucket : String) : Option PropertyKey :=
  if bucket = Config.defaultBucketName then some (.text "default_bucket")
  else if bucket = Config.dynamicBucketTemplateName then some (.text "dynamic_bucket_template")
  else if br.inherits bucket then some (.inherited bucket)
  else none

/-- The path of a bucket in its namespace. -/
def bucketPath (bucket : String) : List PropertyKey :=
  match br.bucketKeyMap bucket with
  | some bucketKey => [bucketKey]
  | none => [.text "buckets", .text bucket]

/-- The key of a bucket: the one it is mapped to, or its name. -/
def bucketKey (bucket : String) : PropertyKey := (br.bucketKeyMap bucket).getD (.text bucket)

def addNamespace (state : Namespaces) («namespace» : String) : Option (Namespaces × Change) :=
  (br.set state.items (.text «namespace»)
    (obj [("buckets", obj []), ("name", str «namespace»)])).map fun items =>
      ({ state with items := items }, ⟨.addNamespace, «namespace», none⟩)

def updateNamespace (state : Namespaces) («namespace» key : String) (value : Json) :
    Option (Namespaces × Change) :=
  (br.setIn state.items [.text «namespace», .text key] value).map fun items =>
    ({ state with items := items },
      ⟨.updateNamespace, «namespace» ++ "." ++ key, some value⟩)

def removeNamespace (state : Namespaces) («namespace» : String) : Option (Namespaces × Change) :=
  (br.without state.items (.text «namespace»)).map fun items =>
    ({ state with items := items }, ⟨.removeNamespace, «namespace», none⟩)

def addBucket (state : Namespaces) («namespace» bucket : String) : Option (Namespaces × Change) :=
  (br.setIn state.items (.text «namespace» :: br.bucketPath bucket)
    (obj [("name", str bucket), ("namespace", str «namespace»)])).map fun items =>
      ({ state with items := items },
        ⟨.addBucket, «namespace» ++ "." ++ br.toText (br.bucketKey bucket), none⟩)

def updateBucket (state : Namespaces) («namespace» bucket key : String) (value : Json) :
    Option (Namespaces × Change) :=
  (br.setIn state.items (.text «namespace» :: (br.bucketPath bucket ++ [.text key])) value).map
    fun items => ({ state with items := items },
      ⟨.updateBucket, «namespace» ++ "." ++ br.toText (br.bucketKey bucket) ++ "." ++ key,
        some value⟩)

def removeBucket (state : Namespaces) («namespace» bucket : String) :
    Option (Namespaces × Change) :=
  (br.updateIn state.items (.text «namespace» :: (br.bucketPath bucket).dropLast)
    fun buckets => br.without buckets (br.bucketKey bucket)).map fun items =>
      ({ state with items := items },
        ⟨.removeBucket, «namespace» ++ "." ++ br.toText (br.bucketKey bucket), none⟩)

/-- The reducer of the namespaces, for a mutable action. -/
def namespaces (state : Namespaces) : MutableAction → Option (Namespaces × Change)
  | .addNamespace ns => br.addNamespace state ns
  | .updateNamespace ns key value => br.updateNamespace state ns key value
  | .removeNamespace ns => br.removeNamespace state ns
  | .addBucket ns bucket => br.addBucket state ns bucket
  | .updateBucket ns bucket key value => br.updateBucket state ns bucket key value
  | .removeBucket ns bucket => br.removeBucket state ns bucket

end Browser

/-- An entry of the history: a state, with the change that leads out of it, or, among the undone
ones, into it. -/
abbrev Entry := Change × Namespaces

/-- The present state and its history. The past has the latest entry first, the future last. -/
structure State where
  present : Namespaces
  past : List Entry
  future : List Entry

def undo (state : State) : State :=
  match state.past with
  | [] => state
  | (change, newPresent) :: past =>
    ⟨newPresent, past, state.future ++ [(change, state.present)]⟩

def redo (state : State) : State :=
  match state.future.getLast? with
  | none => state
  | some (change, newPresent) =>
    ⟨newPresent, (change, state.present) :: state.past, state.future.dropLast⟩

def mergeableChanges : List ChangeType := [.updateNamespace, .updateBucket]

def changesMergeable (previous current : Change) : Bool :=
  mergeableChanges.contains current.type && previous.type == current.type &&
    previous.key == current.key

/-- A mutable action. A change to the same object as the last one is merged with it. -/
def reduce (br : Browser) (state : State) (action : MutableAction) : Option State :=
  (br.namespaces state.present action).map fun (nextState, nextChange) =>
    match state.past with
    | [] => ⟨nextState, [(nextChange, state.present)], []⟩
    | (lastPastChange, lastPastState) :: restPastHistory =>
      if changesMergeable lastPastChange nextChange then
        ⟨nextState, (nextChange, lastPastState) :: restPastHistory, []⟩
      else
        ⟨nextState,
          (nextChange, state.present) :: (lastPastChange, lastPastState) :: restPastHistory, []⟩

/-- A config that has been loaded has no history. -/
def loaded (config : Json) : Option State := (loadConfig config).map fun p => ⟨p, [], []⟩

inductive HistoryAction
  | undo
  | redo
  | «mutable» (action : MutableAction)
  | load (config : Json)

def history (br : Browser) (state : State) : HistoryAction → Option State
  | .undo => some (undo state)
  | .redo => some (redo state)
  | .«mutable» action => reduce br state action
  | .load config => loaded config

namespace State

/-- The history as a timeline, in which the undone states have the nearest first as well. -/
def timeline (state : State) : Timeline Namespaces Change :=
  ⟨state.present, state.past, state.future.reverse⟩

theorem timeline_injective : Function.Injective timeline := by
  intro s s' h
  obtain ⟨present, past, future⟩ := s
  obtain ⟨present', past', future'⟩ := s'
  simp only [timeline, Timeline.mk.injEq, List.reverse_inj] at h
  obtain ⟨rfl, rfl, rfl⟩ := h
  rfl

theorem timeline_undo (state : State) : (undo state).timeline = state.timeline.undo := by
  obtain ⟨present, past, future⟩ := state
  cases past with
  | nil => rfl
  | cons e past => simp [undo, timeline, Timeline.undo]

theorem timeline_redo (state : State) : (redo state).timeline = state.timeline.redo := by
  obtain ⟨present, past, future⟩ := state
  rcases List.eq_nil_or_concat future with rfl | ⟨rest, e, rfl⟩
  · rfl
  · simp [redo, timeline, Timeline.redo, Timeline.undo, Timeline.flip]

end State

section History
variable {br : Browser} {state state' : State} {action : MutableAction}

/-- A mutable action is remembered by itself, or together with the change before it. -/
theorem reduce_timeline (h : reduce br state action = some state') :
    ∃ change next, br.namespaces state.present action = some (next, change) ∧
      (state'.timeline = state.timeline.record change next ∨
        state'.timeline = state.timeline.amend change next) := by
  obtain ⟨⟨next, change⟩, hnext, h⟩ := Option.map_eq_some_iff.mp h
  refine ⟨change, next, hnext, ?_⟩
  obtain ⟨present, past, future⟩ := state
  cases past with
  | nil =>
    subst h
    exact Or.inl rfl
  | cons e past =>
    dsimp only at h
    split_ifs at h
    · subst h
      exact Or.inr rfl
    · subst h
      exact Or.inl rfl

/-- A mutable action empties the future and makes the past at most one longer. -/
theorem reduce_bounds (h : reduce br state action = some state') :
    state'.future = [] ∧ state'.past.length ≤ state.past.length + 1 := by
  have hfuture : state'.timeline.future = [] ∧
      state'.timeline.past.length ≤ state.timeline.past.length + 1 := by
    obtain ⟨change, next, -, hrecord | hamend⟩ := reduce_timeline h
    · rw [hrecord]
      exact ⟨rfl, le_rfl⟩
    · rw [hamend]
      exact ⟨Timeline.future_amend .., Timeline.length_past_amend ..⟩
  exact ⟨List.reverse_eq_nil_iff.mp hfuture.1, hfuture.2⟩

theorem redo_undo (h : state.past ≠ []) : redo (undo state) = state := by
  apply State.timeline_injective
  rw [State.timeline_redo, State.timeline_undo, Timeline.redo_undo h]

theorem undo_redo (h : state.future ≠ []) : undo (redo state) = state := by
  apply State.timeline_injective
  rw [State.timeline_undo, State.timeline_redo, Timeline.undo_redo]
  simpa [State.timeline] using h

theorem timeline_undo_iterate (n : ℕ) (state : State) :
    (undo^[n] state).timeline = Timeline.undo^[n] state.timeline :=
  Function.Semiconj.iterate_right (f := State.timeline) State.timeline_undo n state

theorem timeline_redo_iterate (n : ℕ) (state : State) :
    (redo^[n] state).timeline = Timeline.redo^[n] state.timeline :=
  Function.Semiconj.iterate_right (f := State.timeline) State.timeline_redo n state

/-- Every action but a load leaves the origin of the history as it is. -/
theorem history_origin {action : HistoryAction} (hload : ∀ config, action ≠ .load config)
    (h : history br state action = some state') :
    state'.timeline.origin = state.timeline.origin := by
  cases action with
  | undo =>
    cases h
    rw [State.timeline_undo, Timeline.origin_undo]
  | redo =>
    cases h
    rw [State.timeline_redo, Timeline.origin_redo]
  | «mutable» action =>
    obtain ⟨change, next, -, hrecord | hamend⟩ := reduce_timeline h
    · rw [hrecord, Timeline.origin_record]
    · rw [hamend, Timeline.origin_amend]
  | load config => exact absurd rfl (hload config)

end History

/-- From every state that edits, undos and redos lead to after a config has been loaded, undo and
redo take each other back; undoing everything comes to the loaded config and redoing it again to
where one was; and an edit forgets what was undone and is remembered by at most one more entry. -/
theorem undo_redo_inverse (br : Browser) (config : Json) (state₀ state : State)
    (hload : loaded config = some state₀) (actions : List HistoryAction)
    (hactions : ∀ action ∈ actions, ∀ config', action ≠ .load config')
    (hrun : Machine.run (history br) state₀ actions = some state) :
    (state.past ≠ [] → redo (undo state) = state) ∧
    (state.future ≠ [] → undo (redo state) = state) ∧
    (undo^[state.past.length] state).present = state₀.present ∧
    redo^[state.past.length] (undo^[state.past.length] state) = state ∧
    ∀ action state', reduce br state action = some state' →
      state'.future = [] ∧ state'.past.length ≤ state.past.length + 1 := by
  have horigin : state.timeline.origin = state₀.present := by
    refine Machine.run_induction (fun s => s.timeline.origin = state₀.present)
      (fun s a s' hs ha hs' => (history_origin ha hs').trans hs) ?_
      (Machine.along_of_forall (P := fun _ a => ∀ config', a ≠ .load config')
        (fun a ha _ => hactions a ha) state₀) hrun
    obtain ⟨p, -, rfl⟩ := Option.map_eq_some_iff.mp hload
    rfl
  have hpast : state.past.length = state.timeline.past.length := rfl
  refine ⟨redo_undo, undo_redo, ?_, ?_, ?_⟩
  · have hpresent : (undo^[state.past.length] state).present =
        (undo^[state.past.length] state).timeline.present := rfl
    rw [hpresent, timeline_undo_iterate, hpast, Timeline.present_undo_iterate, horigin]
  · apply State.timeline_injective
    rw [timeline_redo_iterate, timeline_undo_iterate, hpast,
      Timeline.redo_iterate_undo_iterate le_rfl]
  · intro action state' h
    exact reduce_bounds h

section Plain

/-- What is under a path in objects; `none` is undefined. -/
def getIn : Json → List String → Option Json
  | v, [] => some v
  | .obj fields, k :: path => (fields.find? fun e => e.1 = k).bind fun e => getIn e.2 path
  | _, _ :: _ => none

/-- A copy in which the value is under the path; what is missing on the way is made. -/
def setIn : Json → List String → Json → Option Json
  | .obj fields, [k], value => some (obj (setProperty fields k value))
  | .obj fields, k :: k' :: path, value =>
    let inner := match fields.find? fun e => e.1 = k with
      | some (_, .obj inner) => obj inner
      | _ => obj []
    (setIn inner (k' :: path) value).map fun v => obj (setProperty fields k v)
  | _, _, _ => none

def without (k : String) : Json → Option Json
  | .obj fields => some (obj (fields.filter fun e => e.1 ≠ k))
  | _ => none

/-- A browser as it behaves on objects in objects, none of whose names are inherited or methods. -/
def plainBrowser : Browser where
  inherits _ := false
  inheritedText _ := ""
  set items k value := setIn items [plainText k] value
  setIn items path value := setIn items (path.map plainText) value
  updateIn items path update := (getIn items (path.map plainText)).bind fun v =>
    (update v).bind (setIn items (path.map plainText))
  without items k := without (plainText k) items
where
  plainText : PropertyKey → String
    | .text s => s
    | .inherited name => name

end Plain

/-- A namespace is added and its limit edited twice: two entries. -/
theorem undo_redo_inverse_merged :
    let actions : List HistoryAction := [.«mutable» (.addNamespace "a"),
      .«mutable» (.updateNamespace "a" "max_dynamic_buckets" (num 1)),
      .«mutable» (.updateNamespace "a" "max_dynamic_buckets" (num 12))]
    ∃ state₀ state, loaded (obj [("version", num 3)]) = some state₀ ∧
      Machine.run (history plainBrowser) state₀ actions = some state ∧
      state.past.length = 2 ∧ (undo (undo state)).present = state₀.present ∧
      redo (redo (undo (undo state))) = state := by
  intro actions
  have hactions : ∀ action ∈ actions, ∀ config', action ≠ .load config' := by simp [actions]
  have hinverse := undo_redo_inverse plainBrowser (obj [("version", num 3)]) _ _ rfl actions hactions
    rfl
  exact ⟨_, _, rfl, rfl, rfl, hinverse.2.2.1, hinverse.2.2.2.1⟩

end QuotaService.Console
