import QuotaService.Lib.Separator
import QuotaService.Server.Editing

/-! Which edits the history merges. Two edits are told apart by a text that is joined from their
names by dots, while they are applied along a path of names. -/
namespace QuotaService.Console
open Json JavaScript

section Paths
variable (br : Browser)

/-- The path in the config that an update writes. -/
def MutableAction.path : MutableAction → Option (List String)
  | .updateNamespace ns key _ => some [ns, key]
  | .updateBucket ns bucket key _ => some (ns :: ((br.bucketPath bucket).map br.toText ++ [key]))
  | _ => none

/-- The change that an action is remembered by. -/
def MutableAction.change : MutableAction → Change
  | .addNamespace ns => ⟨.addNamespace, ns, none⟩
  | .updateNamespace ns key value => ⟨.updateNamespace, ns ++ "." ++ key, some value⟩
  | .removeNamespace ns => ⟨.removeNamespace, ns, none⟩
  | .addBucket ns bucket => ⟨.addBucket, ns ++ "." ++ br.toText (br.bucketKey bucket), none⟩
  | .updateBucket ns bucket key value =>
    ⟨.updateBucket, ns ++ "." ++ br.toText (br.bucketKey bucket) ++ "." ++ key, some value⟩
  | .removeBucket ns bucket => ⟨.removeBucket, ns ++ "." ++ br.toText (br.bucketKey bucket), none⟩

/-- What is between two dots belongs to the first name of one pair and to the second name of the
other. -/
def Moved (a b a' b' : String) : Prop :=
  (∃ m, a = a' ++ "." ++ m ∧ b' = m ++ "." ++ b) ∨ ∃ m, a' = a ++ "." ++ m ∧ b = m ++ "." ++ b'

/-- Two updates of the same kind whose names make the same text: a part of a name has moved to the
next one, or one bucket is called what another is mapped to. -/
def Confused : MutableAction → MutableAction → Prop
  | .updateNamespace ns key _, .updateNamespace ns' key' _ => Moved ns key ns' key'
  | .updateBucket ns bucket key _, .updateBucket ns' bucket' key' _ =>
    Moved (ns ++ "." ++ br.toText (br.bucketKey bucket)) key
        (ns' ++ "." ++ br.toText (br.bucketKey bucket')) key' ∨
      key = key' ∧
        (Moved ns (br.toText (br.bucketKey bucket)) ns' (br.toText (br.bucketKey bucket')) ∨
          ns = ns' ∧ br.toText (br.bucketKey bucket) = br.toText (br.bucketKey bucket') ∧
            (br.bucketKeyMap bucket).isSome ≠ (br.bucketKeyMap bucket').isSome)
  | _, _ => False

end Paths

/-- The latest change of the second state has taken the place of that of the first. -/
def Merged (state state' : State) : Prop :=
  ∃ change change' before rest, state.past = (change, before) :: rest ∧
    state'.past = (change', before) :: rest

/-- The history keeps the two updates in one entry exactly if they write the same path, so that one
undo takes both back or only the second. -/
structure FieldByField (br : Browser) (action action' : MutableAction) (state state' : State) :
    Prop where
  merged_iff : Merged state state' ↔ action.path br = action'.path br
  same : action.path br = action'.path br → (undo state').present = (undo state).present
  different : action.path br ≠ action'.path br → (undo state').present = state.present

section Texts
variable {a b a' b' : String}

theorem toList_dotted (a b : String) : (a ++ "." ++ b).toList = a.toList ++ '.' :: b.toList := by
  simp [String.toList_append]

theorem eq_dotted_iff {s : String} : s = a ++ "." ++ b ↔ s.toList = a.toList ++ '.' :: b.toList := by
  rw [← toList_dotted, String.toList_inj]

theorem dotted_eq_iff : a ++ "." ++ b = a' ++ "." ++ b' ↔ (a = a' ∧ b = b') ∨ Moved a b a' b' := by
  rw [eq_dotted_iff, toList_dotted, Separator.append_cons_eq_iff, String.toList_inj,
    String.toList_inj]
  apply or_congr_right
  unfold Moved
  simp only [eq_dotted_iff]
  constructor
  · rintro (⟨m, ha, hb⟩ | ⟨m, ha, hb⟩)
    · exact Or.inl ⟨String.ofList m, by simpa using ha, by simpa using hb⟩
    · exact Or.inr ⟨String.ofList m, by simpa using ha, by simpa using hb⟩
  · rintro (⟨m, ha, hb⟩ | ⟨m, ha, hb⟩)
    · exact Or.inl ⟨m.toList, ha, hb⟩
    · exact Or.inr ⟨m.toList, ha, hb⟩

theorem length_dotted (a b : String) : (a ++ "." ++ b).length = a.length + 1 + b.length := by
  rw [String.length_append, String.length_append]
  rfl

theorem ne_dotted (a m : String) : a ++ "." ++ m ≠ a ∧ m ++ "." ++ a ≠ a := by
  constructor
  · intro h
    have hlength := congrArg String.length h
    rw [length_dotted] at hlength
    omega
  · intro h
    have hlength := congrArg String.length h
    rw [length_dotted] at hlength
    omega

theorem Moved.ne (h : Moved a b a' b') : a ≠ a' ∧ b ≠ b' := by
  rcases h with ⟨m, rfl, rfl⟩ | ⟨m, rfl, rfl⟩
  · exact ⟨(ne_dotted a' m).1, (ne_dotted b m).2.symm⟩
  · exact ⟨(ne_dotted a m).1.symm, (ne_dotted b' m).2⟩

end Texts

section Edits
variable {br : Browser} {action action' : MutableAction} {state state' state'' : State}

theorem bucketPath_eq_iff (br : Browser) (bucket bucket' : String) :
    (br.bucketPath bucket).map br.toText = (br.bucketPath bucket').map br.toText ↔
      br.toText (br.bucketKey bucket) = br.toText (br.bucketKey bucket') ∧
        (br.bucketKeyMap bucket).isSome = (br.bucketKeyMap bucket').isSome := by
  unfold Browser.bucketPath Browser.bucketKey
  cases br.bucketKeyMap bucket with
  | none =>
    cases br.bucketKeyMap bucket' with
    | none => simp [Browser.toText]
    | some k => simp
  | some k =>
    cases br.bucketKeyMap bucket' with
    | none => simp
    | some k' => simp

theorem bucketPath_ne_nil (br : Browser) (bucket : String) : br.bucketPath bucket ≠ [] := by
  unfold Browser.bucketPath
  cases br.bucketKeyMap bucket with
  | none => simp
  | some k => simp

/-- Updates of buckets write the same path if namespace, key and text of the bucket agree, and the
buckets are both in the map or both not. -/
theorem path_updateBucket_iff {ns bucket key ns' bucket' key' : String} {value value' : Json} :
    (MutableAction.updateBucket ns bucket key value).path br =
        (MutableAction.updateBucket ns' bucket' key' value').path br ↔
      ns = ns' ∧ (br.toText (br.bucketKey bucket) = br.toText (br.bucketKey bucket') ∧
        (br.bucketKeyMap bucket).isSome = (br.bucketKeyMap bucket').isSome) ∧ key = key' := by
  rw [← bucketPath_eq_iff]
  simp only [MutableAction.path, Option.some.injEq, List.cons.injEq]
  apply and_congr_right
  intro _
  constructor
  · intro h
    obtain ⟨hpath, hkey⟩ := List.append_inj' h rfl
    exact ⟨hpath, List.singleton_inj.mp hkey⟩
  · rintro ⟨hpath, rfl⟩
    rw [hpath]

/-- Updates of different kinds write paths of different lengths. -/
theorem path_updateNamespace_ne {ns key ns' bucket' key' : String} {value value' : Json} :
    (MutableAction.updateNamespace ns key value).path br ≠
      (MutableAction.updateBucket ns' bucket' key' value').path br := by
  intro h
  have hlength := congrArg List.length (List.cons.inj (Option.some.inj h)).2
  have hpath := List.length_pos_of_ne_nil (bucketPath_ne_nil br bucket')
  simp only [List.length_append, List.length_map, List.length_cons, List.length_nil] at hlength
  omega

theorem namespaces_change {present : Namespaces} {r : Namespaces × Change}
    (h : br.namespaces present action = some r) : r.2 = action.change br := by
  cases action with
  | addNamespace | updateNamespace | removeNamespace | addBucket | updateBucket | removeBucket =>
    obtain ⟨items, -, rfl⟩ := Option.map_eq_some_iff.mp h
    rfl

/-- After an action the latest change is its own. -/
theorem reduce_past (h : reduce br state action = some state') :
    ∃ before rest, state'.past = (action.change br, before) :: rest := by
  obtain ⟨⟨next, change⟩, hnext, h⟩ := Option.map_eq_some_iff.mp h
  have hchange : change = action.change br := namespaces_change hnext
  subst hchange
  cases hpast : state.past with
  | nil =>
    simp only [hpast] at h
    subst h
    exact ⟨_, _, rfl⟩
  | cons e past =>
    simp only [hpast] at h
    split_ifs at h
    · subst h
      exact ⟨_, _, rfl⟩
    · subst h
      exact ⟨_, _, rfl⟩

/-- The next action after an action, by whether their changes can be merged. -/
theorem reduce_reduce (h : reduce br state action = some state')
    (h' : reduce br state' action' = some state'') :
    ∃ before rest, state'.past = (action.change br, before) :: rest ∧
      state''.past =
        if changesMergeable (action.change br) (action'.change br) then
          (action'.change br, before) :: rest
        else (action'.change br, state'.present) :: state'.past := by
  obtain ⟨before, rest, hpast⟩ := reduce_past h
  obtain ⟨⟨next, change⟩, hnext, h'⟩ := Option.map_eq_some_iff.mp h'
  have hchange : change = action'.change br := namespaces_change hnext
  subst hchange
  refine ⟨before, rest, hpast, ?_⟩
  simp only [hpast] at h' ⊢
  split_ifs at h' ⊢
  · subst h'
    rfl
  · subst h'
    rfl

theorem merged_iff (h : reduce br state action = some state')
    (h' : reduce br state' action' = some state'') :
    Merged state' state'' ↔ changesMergeable (action.change br) (action'.change br) = true := by
  obtain ⟨before, rest, hpast, hpast'⟩ := reduce_reduce h h'
  constructor
  · rintro ⟨change, change', before', rest', hold, hnew⟩
    by_contra hnot
    rw [if_neg hnot, hold] at hpast'
    have hlength := congrArg List.length (hnew.symm.trans hpast')
    simp at hlength
  · intro hmergeable
    rw [if_pos hmergeable] at hpast'
    exact ⟨_, _, before, rest, hpast, hpast'⟩

theorem changesMergeable_iff_eq {previous current : Change} :
    changesMergeable previous current = true ↔ current.type ∈ mergeableChanges ∧
      previous.type = current.type ∧ previous.key = current.key := by
  simp [changesMergeable, and_assoc]

/-- The changes of two updates can be merged if they write the same path, or are confused. -/
theorem mergeable_iff (hupdate : (action.path br).isSome = true)
    (hupdate' : (action'.path br).isSome = true) :
    changesMergeable (action.change br) (action'.change br) = true ↔
      action.path br = action'.path br ∨ Confused br action action' := by
  rw [changesMergeable_iff_eq]
  cases action with
  | updateNamespace ns key value =>
    cases action' with
    | updateNamespace ns' key' value' =>
      simp [MutableAction.change, MutableAction.path, Confused, mergeableChanges, dotted_eq_iff]
    | updateBucket ns' bucket' key' value' =>
      simp [MutableAction.change, path_updateNamespace_ne, Confused]
    | addNamespace | removeNamespace | addBucket | removeBucket => cases hupdate'
  | updateBucket ns bucket key value =>
    cases action' with
    | updateNamespace ns' key' value' =>
      simp [MutableAction.change, path_updateNamespace_ne.symm, Confused]
    | updateBucket ns' bucket' key' value' =>
      rw [path_updateBucket_iff]
      simp only [MutableAction.change, mergeableChanges, List.mem_cons, List.not_mem_nil, or_false,
        or_true, true_and, dotted_eq_iff, Confused]
      by_cases hmap : (br.bucketKeyMap bucket).isSome = (br.bucketKeyMap bucket').isSome
      · tauto
      · tauto
    | addNamespace | removeNamespace | addBucket | removeBucket => cases hupdate'
  | addNamespace | removeNamespace | addBucket | removeBucket => cases hupdate

theorem Confused.path_ne (h : Confused br action action') : action.path br ≠ action'.path br := by
  cases action with
  | updateNamespace ns key value =>
    cases action' with
    | updateNamespace ns' key' value' =>
      have hne := Moved.ne h
      simp [MutableAction.path, hne.1]
    | addNamespace | removeNamespace | addBucket | removeBucket | updateBucket => cases h
  | updateBucket ns bucket key value =>
    cases action' with
    | updateBucket ns' bucket' key' value' =>
      rw [ne_eq, path_updateBucket_iff]
      rintro ⟨hns, ⟨-, hmap⟩, hkey⟩
      rcases h with hmoved | ⟨-, hmoved | ⟨-, -, hdifferent⟩⟩
      · exact hmoved.ne.2 hkey
      · exact hmoved.ne.1 hns
      · exact hdifferent hmap
    | addNamespace | removeNamespace | addBucket | removeBucket | updateNamespace => cases h
  | addNamespace | removeNamespace | addBucket | removeBucket => cases h

end Edits

/-- Two updates one after the other are kept field by field exactly if their names are not
confused. -/
theorem history_merges_same_field (br : Browser) (action action' : MutableAction)
    (hupdate : (action.path br).isSome = true) (hupdate' : (action'.path br).isSome = true)
    (state₀ state state' : State) (h : reduce br state₀ action = some state)
    (h' : reduce br state action' = some state') :
    FieldByField br action action' state state' ↔ ¬ Confused br action action' := by
  have hiff := (merged_iff h h').trans (mergeable_iff hupdate hupdate')
  constructor
  · intro hfields hconfused
    exact hconfused.path_ne (hfields.merged_iff.mp (hiff.mpr (Or.inr hconfused)))
  · intro hclear
    obtain ⟨before, rest, hpast, hpast'⟩ := reduce_reduce h h'
    have hmerged : Merged state state' ↔ action.path br = action'.path br := by
      rw [hiff, or_iff_left hclear]
    refine ⟨hmerged, fun hsame => ?_, fun hdifferent => ?_⟩
    · rw [if_pos ((merged_iff h h').mp (hmerged.mpr hsame))] at hpast'
      simp [undo, hpast, hpast']
    · rw [if_neg fun hmergeable => hdifferent (hmerged.mp ((merged_iff h h').mpr hmergeable))]
        at hpast'
      simp [undo, hpast']

/-- Two edits of one field. -/
theorem history_merges_same_field_size :
    let action : MutableAction := .updateBucket "a.b" "c" "size" (num 1)
    let action' : MutableAction := .updateBucket "a.b" "c" "size" (num 12)
    ∃ state₀ state state', loaded (obj []) = some state₀ ∧
      reduce plainBrowser state₀ action = some state ∧
      reduce plainBrowser state action' = some state' ∧ Merged state state' := by
  intro action action'
  have hclear : ¬ Confused plainBrowser action action' := by
    rintro (hmoved | ⟨-, hmoved | ⟨-, -, hdifferent⟩⟩)
    · exact hmoved.ne.1 rfl
    · exact hmoved.ne.1 rfl
    · exact hdifferent rfl
  let state₀ : State := ⟨⟨num 0, obj []⟩, [], []⟩
  have hfields := (history_merges_same_field plainBrowser action action' rfl rfl state₀ _ _ rfl
    rfl).mpr hclear
  exact ⟨state₀, _, _, rfl, rfl, rfl, hfields.merged_iff.mpr rfl⟩

/-- The default bucket, and then a bucket that is called what the default bucket is mapped to: one
undo takes back both edits. -/
theorem history_merges_two_fields :
    let action : MutableAction := .updateBucket "a" "___DEFAULT_BUCKET___" "size" (num 5)
    let action' : MutableAction := .updateBucket "a" "default_bucket" "size" (num 7)
    ∃ state₀ state state', loaded (obj []) = some state₀ ∧
      reduce plainBrowser state₀ action = some state ∧
      reduce plainBrowser state action' = some state' ∧
      action.path plainBrowser = some ["a", "default_bucket", "size"] ∧
      action'.path plainBrowser = some ["a", "buckets", "default_bucket", "size"] ∧
      Merged state state' ∧ (undo state').present = state₀.present ∧
      ¬ FieldByField plainBrowser action action' state state' := by
  intro action action'
  have hpaths : action.path plainBrowser ≠ action'.path plainBrowser := by decide
  refine ⟨_, _, _, rfl, rfl, rfl, rfl, rfl, ⟨_, _, _, _, rfl, rfl⟩, rfl, ?_⟩
  intro hfields
  exact hpaths (hfields.merged_iff.mp ⟨_, _, _, _, rfl, rfl⟩)

end QuotaService.Console
