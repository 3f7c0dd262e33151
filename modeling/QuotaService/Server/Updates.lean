import QuotaService.Config.Diff
import QuotaService.Config.Mutable
import QuotaService.Lib.Machine

/-! Admin calls against the memory persister. A call clones the config that the server has
applied, lets go of the lock, edits the clone, numbers it and persists it; the listener reads what
was persisted last and applies it if its version is larger. Nothing compares the version that a
call cloned with the one that it overwrites. -/
namespace QuotaService.Server
open Config

inductive Op
  | addBucket («namespace» : String) (b : BucketConfig)
  | updateBucket («namespace» : String) (b : BucketConfig)
  | deleteBucket («namespace» name : String)
  | addNamespace (n : NamespaceConfig)
  | updateNamespace (n : NamespaceConfig)
  | deleteNamespace (n : String)
deriving DecidableEq

namespace Op

/-- The namespace that a call addresses. -/
def «namespace» : Op → String
  | addBucket ns _ | updateBucket ns _ | deleteBucket ns _ | deleteNamespace ns => ns
  | addNamespace n | updateNamespace n => n.name

/-- The updater that a call hands to `updateConfig`. -/
def edit : Op → ServiceConfig → Outcome
  | addBucket ns b, cfg => createBucket cfg ns b
  | updateBucket ns b, cfg => Config.updateBucket cfg ns b
  | deleteBucket ns name, cfg => Config.deleteBucket cfg ns name
  | addNamespace n, cfg => createNamespace cfg n
  | updateNamespace n, cfg => Config.updateNamespace cfg n
  | deleteNamespace n, cfg => Config.deleteNamespace cfg n

theorem edit_touchesOnly {op : Op} {cfg cfg' : ServiceConfig}
    (h : op.edit cfg = some (.ok cfg')) : TouchesOnly op.namespace cfg cfg' := by
  cases op with
  | addBucket ns b => exact (createBucket_edit h).touchesOnly
  | updateBucket ns b => exact (updateBucket_edit h).touchesOnly
  | deleteBucket ns name => exact (deleteBucket_edit h).touchesOnly
  | addNamespace n => exact createNamespace_touchesOnly h
  | updateNamespace n => exact updateNamespace_touchesOnly h
  | deleteNamespace n => exact deleteNamespace_touchesOnly h

end Op

/-- `currentVersion + 1` on an `int32`. -/
def nextVersion (v : ℤ) : ℤ := if v = 2147483647 then -2147483648 else v + 1

/-- A call in progress, with the clone it works on. -/
structure Call where
  id : ℕ
  op : Op
  user : String
  base : ServiceConfig
deriving DecidableEq

/-- What a call persists. -/
def Call.updated (call : Call) (date : ℤ) : Outcome :=
  match call.op.edit call.base with
  | none => none
  | some (.error e) => some (.error e)
  | some (.ok edited) => (applyDefaults edited).map fun cfg =>
      .ok { cfg with user := call.user, date := date, version := nextVersion call.base.version }

/-- Whether a call comes to persist: its edit goes through, and `ApplyDefaults` does not panic. -/
def Call.persists (call : Call) : Bool :=
  match call.op.edit call.base with
  | some (.ok edited) => (applyDefaults edited).isSome
  | _ => false

/-- Where the config listener is: waiting, with a notification received, or with a config read. -/
inductive Listener
  | idle
  | received
  | holding (newConfig : ServiceConfig)
deriving DecidableEq

/-- The server and its persister, with a log of the calls begun, by their ids, and of the calls
that have returned nil, with what they persisted. -/
structure State where
  cfgs : ServiceConfig
  persisted : ServiceConfig
  notified : Bool
  listener : Listener
  calls : List Call
  begun : List Op
  acked : List (Call × ServiceConfig)

/-- A server that has started on an initial config. -/
def started (initial : ServiceConfig) : State where
  cfgs := appliedConfig none (cloneConfig (cloneConfig initial))
  persisted := cloneConfig initial
  notified := false
  listener := .idle
  calls := []
  begun := []
  acked := []

/-- The steps: a call clones the config, a call persists its update and returns, and the three
steps of the listener. -/
inductive Action
  | begin (op : Op) (user : String)
  | persist (id : ℕ) (date : ℤ)
  | receive
  | read
  | apply

def step (s : State) : Action → Option State
  | .begin op user => some { s with
      calls := ⟨s.begun.length, op, user, cloneConfig s.cfgs⟩ :: s.calls
      begun := s.begun ++ [op] }
  | .persist id date =>
    match s.calls.find? (·.id = id) with
    | none => none
    | some call =>
      let s := { s with calls := s.calls.filter (·.id ≠ id) }
      match call.updated date with
      | some (.ok cfg) => some { s with
          persisted := cloneConfig cfg
          notified := true
          acked := s.acked ++ [(call, cloneConfig cfg)] }
      -- an error is returned, a panic is not acknowledged either
      | _ => some s
  | .receive =>
    match s.listener, s.notified with
    | .idle, true => some { s with listener := .received, notified := false }
    | _, _ => none
  | .read =>
    match s.listener with
    | .received => some { s with listener := .holding (cloneConfig s.persisted) }
    | _ => none
  | .apply =>
    match s.listener with
    | .holding newConfig => some { s with
        cfgs := appliedConfig (some s.cfgs) newConfig
        listener := .idle }
    | _ => none

/-- No call is in progress, nothing is notified and the listener waits. -/
def Quiescent (s : State) : Prop := s.calls = [] ∧ s.notified = false ∧ s.listener = .idle

instance (s : State) : Decidable (Quiescent s) := inferInstanceAs (Decidable (_ ∧ _ ∧ _))

/-- What a config says about a namespace, and about the global default bucket if that is the
global namespace. -/
def slot (k : String) (cfg : ServiceConfig) :
    Option (Option NamespaceConfig) × Option BucketConfig :=
  (cfg.namespaces.get k, if k = globalNamespace then cfg.globalDefaultBucket else none)

/-- Once the server is quiescent, the effects of any two acknowledged calls on different
namespaces that no other call addresses are in its config. -/
def EffectsKept (s : State) : Prop :=
  Quiescent s → ∀ x ∈ s.acked, ∀ y ∈ s.acked, x.1.op.namespace ≠ y.1.op.namespace →
    (∀ other ∈ s.begun.zipIdx, other.2 ≠ x.1.id → other.2 ≠ y.1.id →
      other.1.namespace ≠ x.1.op.namespace ∧ other.1.namespace ≠ y.1.op.namespace) →
    slot x.1.op.namespace s.cfgs = slot x.1.op.namespace x.2 ∧
      slot y.1.op.namespace s.cfgs = slot y.1.op.namespace y.2

instance (s : State) : Decidable (EffectsKept s) :=
  inferInstanceAs (Decidable (Quiescent s → ∀ x ∈ s.acked, ∀ y ∈ s.acked, _ → _ → _ ∧ _))

/-- The optimistic check that `updateConfig` leaves out: a call that persists has cloned the
config that it overwrites, and its version does not overflow. -/
def Fresh (s : State) : Action → Prop
  | .persist id _ => ∀ call ∈ s.calls, call.id = id → call.persists = true →
      call.base.version = s.persisted.version ∧ call.base.version ≠ 2147483647
  | _ => True

instance decidableFresh (s : State) : ∀ a, Decidable (Fresh s a)
  | .persist id _ => inferInstanceAs (Decidable (∀ call ∈ s.calls, call.id = id → _))
  | .begin _ _ | .receive | .read | .apply => isTrue trivial

section Slots

/-- What persisting makes of a slot. -/
def settle (k : String) (x : Option (Option NamespaceConfig) × Option BucketConfig) :
    Option (Option NamespaceConfig) × Option BucketConfig :=
  (x.1.map fun ns => some (cloneNamespaceConfig ((ns.map (applyNamespaceDefaults k)).getD {})),
    x.2.map fun b => { applyBucketDefaults b with name := defaultBucketName })

theorem slot_persisted {edited cfg : ServiceConfig} (h : applyDefaults edited = some cfg)
    (user : String) (date version : ℤ) (k : String) :
    slot k (cloneConfig { cfg with user := user, date := date, version := version }) =
      settle k (slot k edited) := by
  have hns := get_applyDefaults h k
  have hglobal : cfg.globalDefaultBucket = edited.globalDefaultBucket.map fun b =>
      { applyBucketDefaults b with name := defaultBucketName } := by
    unfold applyDefaults at h
    split_ifs at h
    cases h
    rfl
  refine Prod.ext ?_ ?_
  · simp [slot, settle, cloneConfig, get_cloneMap, hns, Function.comp_def]
  · by_cases hk : k = globalNamespace <;> simp [slot, settle, cloneConfig, hk, hglobal]

theorem settle_idem {edited cfg : ServiceConfig} (h : applyDefaults edited = some cfg)
    (k : String) : settle k (settle k (slot k edited)) = settle k (slot k edited) := by
  refine Prod.ext ?_ ?_
  · cases hns : edited.namespaces.get k with
    | none => simp [settle, slot, hns]
    | some ns =>
      have haccepts := acceptsDefaults_of_applyDefaults h hns
      cases ns with
      | none => simp [acceptsDefaults] at haccepts
      | some ns => simp [settle, slot, hns, clone_applyNamespaceDefaults_idem k haccepts]
  · have hglobal : ∀ b : BucketConfig,
        applyBucketDefaults { applyBucketDefaults b with name := defaultBucketName } =
          { applyBucketDefaults (applyBucketDefaults b) with name := defaultBucketName } :=
      fun _ => rfl
    simp [settle, Function.comp_def, hglobal]

end Slots

section Invariant
variable {s s' : State}

/-- The configs that may still be applied or edited: the server's, the listener's, and the clones
of the calls in progress. -/
def Floating (s : State) (cfg : ServiceConfig) : Prop :=
  cfg = s.cfgs ∨ s.listener = .holding cfg ∨ ∃ call ∈ s.calls, call.base = cfg

/-- No call but the one of this id addresses its namespace. -/
def Alone (s : State) (call : Call) : Prop :=
  ∀ n op, s.begun[n]? = some op → n ≠ call.id → op.namespace ≠ call.op.namespace

structure Inv (s : State) : Prop where
  copied : cloneConfig s.persisted = s.persisted
  /-- Every version is handed out once, and none is ahead of what is persisted. -/
  le : ∀ cfg, Floating s cfg → cfg.version ≤ s.persisted.version
  eq : s.acked ≠ [] → ∀ cfg, Floating s cfg → cfg.version = s.persisted.version →
    cfg = s.persisted
  settled : s.acked ≠ [] → ∀ k, settle k (slot k s.persisted) = slot k s.persisted
  /-- A server that lags behind is going to be told. -/
  awake : s.cfgs.version < s.persisted.version → s.notified = true ∨ s.listener = .received ∨
    ∃ cfg, s.listener = .holding cfg ∧ cfg.version = s.persisted.version
  calls_begun : ∀ call ∈ s.calls, s.begun[call.id]? = some call.op
  acked_begun : ∀ x ∈ s.acked, s.begun[x.1.id]? = some x.1.op
  calls_acked : ∀ call ∈ s.calls, ∀ x ∈ s.acked, call.id ≠ x.1.id
  kept : ∀ x ∈ s.acked, Alone s x.1 →
    slot x.1.op.namespace s.persisted = slot x.1.op.namespace x.2

theorem started_inv (initial : ServiceConfig) : Inv (started initial) := by
  have hcfgs : (started initial).cfgs.version = initial.version := rfl
  refine ⟨cloneConfig_idem _, ?_, fun hne => absurd rfl hne, fun hne => absurd rfl hne, ?_,
    List.forall_mem_nil _, List.forall_mem_nil _, List.forall_mem_nil _, List.forall_mem_nil _⟩
  · rintro cfg (rfl | h | ⟨call, hcall, -⟩)
    · exact le_of_eq hcfgs
    · cases h
    · cases hcall
  · intro h
    rw [hcfgs] at h
    exact absurd h (lt_irrefl initial.version)

theorem begin_inv (h : Inv s) (op : Op) (user : String) (hs : step s (.begin op user) = some s') :
    Inv s' := by
  cases hs
  have hbegun : ∀ {n : ℕ} {o : Op}, s.begun[n]? = some o → (s.begun ++ [op])[n]? = some o := by
    intro n o ho
    have hlt : n < s.begun.length := (List.getElem?_eq_some_iff.mp ho).1
    rwa [List.getElem?_append_left hlt]
  have hacked : ∀ x ∈ s.acked, x.1.id < s.begun.length := fun x hx =>
    (List.getElem?_eq_some_iff.mp (h.acked_begun x hx)).1
  refine ⟨h.copied, ?_, ?_, h.settled, h.awake, ?_, ?_, ?_, ?_⟩
  · rintro cfg (rfl | hl | ⟨call, hcall, rfl⟩)
    · exact h.le _ (Or.inl rfl)
    · exact h.le _ (Or.inr (Or.inl hl))
    · rcases List.mem_cons.mp hcall with rfl | hcall
      · exact h.le s.cfgs (Or.inl rfl)
      · exact h.le _ (Or.inr (Or.inr ⟨call, hcall, rfl⟩))
  · rintro hne cfg (rfl | hl | ⟨call, hcall, rfl⟩) hv
    · exact h.eq hne _ (Or.inl rfl) hv
    · exact h.eq hne _ (Or.inr (Or.inl hl)) hv
    · rcases List.mem_cons.mp hcall with rfl | hcall
      · have hcfgs : s.cfgs = s.persisted := h.eq hne _ (Or.inl rfl) hv
        exact (congrArg cloneConfig hcfgs).trans h.copied
      · exact h.eq hne _ (Or.inr (Or.inr ⟨call, hcall, rfl⟩)) hv
  · intro call hcall
    rcases List.mem_cons.mp hcall with rfl | hcall
    · simp
    · exact hbegun (h.calls_begun call hcall)
  · exact fun x hx => hbegun (h.acked_begun x hx)
  · intro call hcall x hx
    rcases List.mem_cons.mp hcall with rfl | hcall
    · exact (hacked x hx).ne'
    · exact h.calls_acked call hcall x hx
  · exact fun x hx halone => h.kept x hx fun n o ho => halone n o (hbegun ho)

/-- What a persist step does: it ends the call, and if its edit succeeds it persists it. -/
theorem persist_cases {id : ℕ} {date : ℤ} (hs : step s (.persist id date) = some s') :
    ∃ call ∈ s.calls, call.id = id ∧
      ((∃ edited cfg, call.op.edit call.base = some (.ok edited) ∧
          applyDefaults edited = some cfg ∧
          let new := cloneConfig { cfg with
            user := call.user, date := date, version := nextVersion call.base.version }
          s' = { s with
            calls := s.calls.filter (·.id ≠ id)
            persisted := new
            notified := true
            acked := s.acked ++ [(call, new)] }) ∨
        s' = { s with calls := s.calls.filter (·.id ≠ id) }) := by
  unfold step at hs
  cases hfind : s.calls.find? (·.id = id) with
  | none => simp [hfind] at hs
  | some call =>
    have hid : call.id = id := by simpa using List.find?_some hfind
    refine ⟨call, List.mem_of_find?_eq_some hfind, hid, ?_⟩
    simp only [hfind, Call.updated] at hs
    cases hedit : call.op.edit call.base with
    | none => exact Or.inr (by simpa [hedit] using hs.symm)
    | some outcome =>
      cases outcome with
      | error e => exact Or.inr (by simpa [hedit] using hs.symm)
      | ok edited =>
        cases happly : applyDefaults edited with
        | none => exact Or.inr (by simpa [hedit, happly] using hs.symm)
        | some cfg =>
          refine Or.inl ⟨edited, cfg, rfl, happly, ?_⟩
          simpa [hedit, happly] using hs.symm

theorem persist_inv (h : Inv s) {id : ℕ} {date : ℤ} (hfresh : Fresh s (.persist id date))
    (hs : step s (.persist id date) = some s') : Inv s' := by
  obtain ⟨call, hcall, hid, ⟨edited, cfg, hedit, happly, rfl⟩ | rfl⟩ := persist_cases hs
  · obtain ⟨hversion, hmax⟩ := hfresh call hcall hid (by simp [Call.persists, hedit, happly])
    have hnext : nextVersion call.base.version = s.persisted.version + 1 := by
      rw [nextVersion, if_neg hmax, hversion]
    have hfloat : ∀ c, Floating s c → c.version < s.persisted.version + 1 := fun c hc =>
      Int.lt_add_one_of_le (h.le c hc)
    have hfloat' : ∀ c, (c = s.cfgs ∨ s.listener = .holding c ∨
        ∃ other ∈ s.calls.filter (·.id ≠ id), other.base = c) →
        c.version < s.persisted.version + 1 := by
      rintro c (hc | hc | ⟨other, hother, hc⟩)
      · exact hfloat c (Or.inl hc)
      · exact hfloat c (Or.inr (Or.inl hc))
      · exact hfloat c (Or.inr (Or.inr ⟨other, (List.mem_filter.mp hother).1, hc⟩))
    -- the call edits what is persisted, so that it changes no slot but its own
    have hframe : s.acked ≠ [] → ∀ k, k ≠ call.op.namespace →
        settle k (slot k edited) = slot k s.persisted := by
      intro hne k hk
      have hbase : call.base = s.persisted :=
        h.eq hne _ (Or.inr (Or.inr ⟨call, hcall, rfl⟩)) hversion
      have htouch := Op.edit_touchesOnly hedit
      have hslot : slot k edited = slot k s.persisted := by
        rw [← hbase]
        apply Prod.ext (htouch.namespaces k hk)
        by_cases hglobal : k = globalNamespace
        · simp [slot, hglobal, htouch.globalDefaultBucket (hglobal ▸ hk.symm)]
        · simp [slot, hglobal]
      rw [hslot]
      exact h.settled hne k
    refine ⟨cloneConfig_idem _, ?_, ?_, ?_, fun _ => Or.inl rfl, ?_, ?_, ?_, ?_⟩
    · intro c hc
      exact (hfloat' c hc).le.trans (le_of_eq hnext.symm)
    · intro _ c hc hv
      exact absurd (hv.trans hnext) (hfloat' c hc).ne
    · intro _ k
      rw [slot_persisted happly]
      exact settle_idem happly k
    · exact fun other hother => h.calls_begun other (List.mem_filter.mp hother).1
    · intro x hx
      rcases List.mem_append.mp hx with hx | hx
      · exact h.acked_begun x hx
      · rw [List.mem_singleton.mp hx]
        exact h.calls_begun call hcall
    · intro other hother x hx
      obtain ⟨hmem, hne⟩ := List.mem_filter.mp hother
      rcases List.mem_append.mp hx with hx | hx
      · exact h.calls_acked other hmem x hx
      · rw [List.mem_singleton.mp hx, hid]
        simpa using hne
    · intro x hx halone
      rcases List.mem_append.mp hx with hx | hx
      · have hne : s.acked ≠ [] := List.ne_nil_of_mem hx
        have hns := halone call.id call.op (h.calls_begun call hcall) (h.calls_acked call hcall x hx)
        rw [slot_persisted happly, hframe hne _ hns.symm]
        exact h.kept x hx halone
      · rw [List.mem_singleton.mp hx]
  · have hsub : ∀ {c : Call}, c ∈ s.calls.filter (·.id ≠ id) → c ∈ s.calls := fun hc =>
      (List.mem_filter.mp hc).1
    have hfloat : ∀ c, Floating { s with calls := s.calls.filter (·.id ≠ id) } c →
        Floating s c := by
      intro c hc
      rcases hc with hc | hc | ⟨other, hother, heq⟩
      · exact Or.inl hc
      · exact Or.inr (Or.inl hc)
      · exact Or.inr (Or.inr ⟨other, hsub hother, heq⟩)
    exact ⟨h.copied, fun c hc => h.le c (hfloat c hc), fun hne c hc => h.eq hne c (hfloat c hc),
      h.settled, h.awake, fun c hc => h.calls_begun c (hsub hc), h.acked_begun,
      fun c hc => h.calls_acked c (hsub hc), h.kept⟩

/-- The listener does not touch the calls; what it brings is about or has been persisted. -/
theorem Inv.listen (h : Inv s) {cfgs : ServiceConfig} {notified : Bool} {listener : Listener}
    (hfloat : ∀ cfg, cfg = cfgs ∨ listener = .holding cfg → Floating s cfg ∨ cfg = s.persisted)
    (hawake : cfgs.version < s.persisted.version → notified = true ∨ listener = .received ∨
      ∃ cfg, listener = .holding cfg ∧ cfg.version = s.persisted.version) :
    Inv { s with cfgs := cfgs, notified := notified, listener := listener } := by
  have hfloat' : ∀ cfg, Floating { s with
      cfgs := cfgs, notified := notified, listener := listener } cfg →
        Floating s cfg ∨ cfg = s.persisted := by
    rintro cfg (hc | hc | hc)
    · exact hfloat cfg (Or.inl hc)
    · exact hfloat cfg (Or.inr hc)
    · exact Or.inl (Or.inr (Or.inr hc))
  refine ⟨h.copied, fun cfg hc => ?_, fun hne cfg hc hv => ?_, h.settled, hawake, h.calls_begun,
    h.acked_begun, h.calls_acked, h.kept⟩
  · rcases hfloat' cfg hc with hc | rfl
    · exact h.le cfg hc
    · exact le_refl _
  · rcases hfloat' cfg hc with hc | rfl
    · exact h.eq hne cfg hc hv
    · rfl

theorem receive_inv (h : Inv s) (hs : step s .receive = some s') : Inv s' := by
  simp only [step] at hs
  split at hs
  · rename_i hlistener hnotified
    cases hs
    refine h.listen (fun cfg hc => ?_) fun _ => Or.inr (Or.inl rfl)
    rcases hc with hc | hc
    · exact Or.inl (Or.inl hc)
    · cases hc
  · cases hs

theorem read_inv (h : Inv s) (hs : step s .read = some s') : Inv s' := by
  simp only [step] at hs
  split at hs
  · cases hs
    have hread : (cloneConfig s.persisted).version = s.persisted.version := rfl
    refine h.listen (fun cfg hc => ?_) fun _ => Or.inr (Or.inr ⟨_, rfl, hread⟩)
    rcases hc with hc | hc
    · exact Or.inl (Or.inl hc)
    · cases hc
      exact Or.inr h.copied
  · cases hs

theorem apply_inv (h : Inv s) (hs : step s .apply = some s') : Inv s' := by
  simp only [step] at hs
  split at hs
  · rename_i newConfig hlistener
    cases hs
    have hnew : Floating s newConfig := Or.inr (Or.inl hlistener)
    have hcfgs : Floating s (appliedConfig (some s.cfgs) newConfig) := by
      unfold appliedConfig
      dsimp only
      split_ifs
      · exact Or.inl rfl
      · exact hnew
    refine h.listen (fun cfg hc => ?_) fun hlt => ?_
    · rcases hc with rfl | hc
      · exact Or.inl hcfgs
      · cases hc
    · have hcases : s.cfgs.version ≤ (appliedConfig (some s.cfgs) newConfig).version ∧
          newConfig.version ≤ (appliedConfig (some s.cfgs) newConfig).version := by
        unfold appliedConfig
        dsimp only
        split_ifs with hle
        · exact ⟨le_refl _, hle⟩
        · exact ⟨(not_le.mp hle).le, le_refl _⟩
      -- what was held is older than what is persisted, so a notification came after it was read
      rcases h.awake (lt_of_le_of_lt hcases.1 hlt) with hn | hr | ⟨cfg, hheld, hv⟩
      · exact Or.inl hn
      · rw [hlistener] at hr
        cases hr
      · rw [hlistener] at hheld
        cases hheld
        exact absurd (hcases.2.trans_lt hlt) (by rw [hv]; exact lt_irrefl _)
  · cases hs

theorem step_inv (h : Inv s) {a : Action} (hfresh : Fresh s a) (hs : step s a = some s') :
    Inv s' := by
  cases a with
  | begin op user => exact begin_inv h op user hs
  | persist id date => exact persist_inv h hfresh hs
  | receive => exact receive_inv h hs
  | read => exact read_inv h hs
  | apply => exact apply_inv h hs

/-- A quiescent server has applied what was persisted last. -/
theorem cfgs_eq_persisted (h : Inv s) (hquiet : Quiescent s) (hacked : s.acked ≠ []) :
    s.cfgs = s.persisted := by
  obtain ⟨-, hnotified, hidle⟩ := hquiet
  have hfloat : Floating s s.cfgs := Or.inl rfl
  refine h.eq hacked _ hfloat (le_antisymm (h.le _ hfloat) ?_)
  by_contra hlt
  rcases h.awake (not_le.mp hlt) with hn | hr | ⟨cfg, hheld, -⟩
  · simp [hnotified] at hn
  · simp [hidle] at hr
  · simp [hidle] at hheld

theorem effectsKept_of_inv (h : Inv s) : EffectsKept s := by
  intro hquiet x hx y hy hxy hother
  have hcfgs := cfgs_eq_persisted h hquiet (List.ne_nil_of_mem hx)
  have halone : Alone s x.1 ∧ Alone s y.1 := by
    constructor
    · intro n op hop hne
      by_cases hny : n = y.1.id
      · rw [hny, h.acked_begun y hy] at hop
        exact fun heq => hxy (heq.symm.trans (congrArg _ (Option.some.inj hop).symm))
      · exact (hother (op, n) (List.mem_zipIdx_iff_getElem?.mpr hop) hne hny).1
    · intro n op hop hne
      by_cases hnx : n = x.1.id
      · rw [hnx, h.acked_begun x hx] at hop
        exact fun heq => hxy ((congrArg _ (Option.some.inj hop)).trans heq)
      · exact (hother (op, n) (List.mem_zipIdx_iff_getElem?.mpr hop) hnx hne).2
  rw [hcfgs]
  exact ⟨h.kept x hx halone.1, h.kept y hy halone.2⟩

end Invariant

/-- In every run in which no call persists over a config that it has not cloned, no acknowledged
update is lost. -/
theorem acknowledged_updates_kept (initial : ServiceConfig) (actions : List Action) (s : State)
    (hfresh : Machine.Along step Fresh (started initial) actions)
    (hrun : Machine.run step (started initial) actions = some s) : EffectsKept s :=
  effectsKept_of_inv (Machine.run_induction Inv (fun _ _ _ h hf hs => step_inv h hf hs)
    (started_inv initial) hfresh hrun)

/-- A second call made after the first update has been applied. -/
theorem acknowledged_updates_kept_apart :
    ∃ s, Machine.run step (started {})
        [.begin (.addNamespace { name := "a" }) "u", .persist 0 0, .receive, .read, .apply,
          .begin (.addNamespace { name := "b" }) "u", .persist 1 0, .receive, .read, .apply] =
        some s ∧ Quiescent s ∧ s.acked.length = 2 ∧ EffectsKept s := by
  have hrun : Machine.run step (started {})
      [.begin (.addNamespace { name := "a" }) "u", .persist 0 0, .receive, .read, .apply,
        .begin (.addNamespace { name := "b" }) "u", .persist 1 0, .receive, .read, .apply] =
      some _ := rfl
  exact ⟨_, hrun, by decide, by decide, acknowledged_updates_kept {} _ _ (by decide) hrun⟩

/-- Two namespaces added one after the other, by one client: the second call clones a config
without the first namespace, which is then overwritten. -/
theorem sequential_update_lost :
    ∃ s, Machine.run step (started {})
        [.begin (.addNamespace { name := "a" }) "u", .persist 0 0,
          .begin (.addNamespace { name := "b" }) "u", .persist 1 0, .receive, .read, .apply] =
        some s ∧ Quiescent s ∧ s.acked.map (fun x => x.1.op.namespace) = ["a", "b"] ∧
      s.cfgs.namespaces.get "a" = none ∧ ¬ EffectsKept s := by
  exact ⟨_, rfl, by decide, by decide, by decide, by decide⟩

end QuotaService.Server
