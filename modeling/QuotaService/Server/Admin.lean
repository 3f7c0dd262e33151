import QuotaService.Server.Updates

/-! Admin requests to a server over any persister. A request may carry the version that its client
has seen; the handlers compare it before they decode the body. Then the call clones the config under
the mutex, lets go of it, edits the clone, fills in defaults and hands it to the persister. The
mutex is released by hand, and not by a panic. -/
namespace QuotaService.Admin
open Config Server

/-- What a handler asks the server for: the replacement of the whole config, or an edit. -/
inductive Change
  | updateConfig (c : ServiceConfig)
  | op (op : Op)
deriving DecidableEq

def Change.updater : Change → ServiceConfig → Outcome
  | updateConfig c, _ => some (.ok c)
  | op o, clonedCfg => o.edit clonedCfg

/-- What `updateConfig` hands to the persister once it has cloned the config. -/
def updatedConfig (updater : ServiceConfig → Outcome) (user : String) (date : ℤ)
    (clonedCfg : ServiceConfig) : Outcome :=
  match updater clonedCfg with
  | none => none
  | some (.error e) => some (.error e)
  | some (.ok edited) => (applyDefaults edited).map fun cfg =>
      .ok { cfg with user := user, date := date, version := nextVersion clonedCfg.version }

/-- `version` is the `Version` header. -/
structure Request where
  version : Option ℤ := none
  change : Change
  user : String
deriving DecidableEq

/-- A request in `updateConfig`, between the clone of the config and the return. -/
structure Call where
  request : Request
  clonedCfg : ServiceConfig
  copied : cloneConfig clonedCfg = clonedCfg

inductive Result
  | returned (err : Option String)
  | panicked
  | blocked
deriving DecidableEq

/-- How a call has ended, with what it has persisted. -/
structure Return where
  request : Request
  clonedCfg : Option ServiceConfig
  result : Result
  persisted : Option ServiceConfig
deriving DecidableEq

/-- `updateConfig` from the updater on; `err` is what the persister answers. -/
def Call.finish (call : Call) (date : ℤ) (err : Option String) : Return :=
  match updatedConfig call.request.change.updater call.request.user date call.clonedCfg, err with
  | none, _ => ⟨call.request, call.clonedCfg, .panicked, none⟩
  | some (.error e), _ => ⟨call.request, call.clonedCfg, .returned (some e), none⟩
  | some (.ok _), some e => ⟨call.request, call.clonedCfg, .returned (some e), none⟩
  | some (.ok cfg), none => ⟨call.request, call.clonedCfg, .returned none, some cfg⟩

structure State where
  cfgs : Option ServiceConfig
  /-- Whether a call has panicked with the mutex in its hands. -/
  locked : Bool
  /-- The requests that `apiVersionHandler` has let pass. -/
  requests : List Request
  calls : List Call
  returns : List Return

/-- A server on which `Start` has returned. -/
def started (persisted : Option ServiceConfig) : State :=
  ⟨persisted.map (appliedConfig none), false, [], [], []⟩

/-- The steps: a request arrives, its body turns out to be malformed, its call clones the config, its
call comes to its end, the config listener applies a config. -/
inductive Action
  | receive (r : Request)
  | drop (n : ℕ)
  | clone (n : ℕ)
  | finish (n : ℕ) (date : ℤ) (err : Option String)
  | apply (newConfig : ServiceConfig)

def step (s : State) : Action → Option State
  | .receive r =>
    match r.version with
    | none => some { s with requests := r :: s.requests }
    | some version =>
      if s.locked = true then none
      -- the handler panics on a nil config, and answers 409 on another version
      else if s.cfgs.any fun cfgs => cfgs.version = version then
        some { s with requests := r :: s.requests }
      else some s
  | .drop n => some { s with requests := s.requests.eraseIdx n }
  | .clone n =>
    match s.requests[n]? with
    | none => none
    | some r =>
      if s.locked = true then some { s with
        requests := s.requests.eraseIdx n
        returns := ⟨r, none, .blocked, none⟩ :: s.returns }
      else match s.cfgs with
        -- the clone of nil is nil, and has no version
        | none => some { s with
            locked := true
            requests := s.requests.eraseIdx n
            returns := ⟨r, none, .panicked, none⟩ :: s.returns }
        | some cfgs => some { s with
            requests := s.requests.eraseIdx n
            calls := ⟨r, cloneConfig cfgs, cloneConfig_idem cfgs⟩ :: s.calls }
  | .finish n date err =>
    match s.calls[n]? with
    | none => none
    | some call => some { s with
        calls := s.calls.eraseIdx n
        returns := call.finish date err :: s.returns }
  | .apply newConfig =>
    if s.locked = true then none
    else some { s with cfgs := some (appliedConfig s.cfgs newConfig) }

/-- Every call has returned nil or an error, has persisted nothing unless it has returned nil, and
has left the mutex free. -/
def Answered (s : State) : Prop :=
  s.locked = false ∧ ∀ x ∈ s.returns,
    (∃ err, x.result = .returned err) ∧ (x.result ≠ .returned none → x.persisted = none)

section Conditions

/-- The constraint that `ApplyDefaults` enforces. -/
def Exclusive (ns : NamespaceConfig) : Prop :=
  ns.defaultBucket = none ∨ ns.dynamicBucketTemplate = none

/-- The constraint holds of every namespace but one. -/
def ExclusiveBut (name : Option String) (cfg : ServiceConfig) : Prop :=
  ∀ k ns, some k ≠ name → cfg.namespaces.get k = some (some ns) → Exclusive ns

/-- The namespace that an edit replaces. -/
def replaced : Op → Option String
  | .addBucket ns _ | .updateBucket ns _ | .deleteBucket ns _ =>
    if ns = globalNamespace then none else some ns
  | .deleteNamespace ns => some ns
  | .addNamespace n | .updateNamespace n => some n.name

/-- What `b` would take the place of. -/
def occupant (ns : NamespaceConfig) (name : String) : Option BucketConfig :=
  if name = defaultBucketName then ns.defaultBucket
  else if name = dynamicBucketTemplateName then ns.dynamicBucketTemplate
  else (ns.buckets.get name).join

/-- The edit finds that there is something to add already, or nothing to update or to delete. -/
def Refused (cfg : ServiceConfig) : Op → Prop
  | .addBucket ns b =>
    if ns = globalNamespace then cfg.globalDefaultBucket ≠ none
    else ∀ n, findNamespace cfg ns = some n → occupant n b.name ≠ none
  | .updateBucket ns _ | .deleteBucket ns _ => ns ≠ globalNamespace ∧ findNamespace cfg ns = none
  | .addNamespace n => findNamespace cfg n.name ≠ none
  | .updateNamespace _ => False
  | .deleteNamespace ns => findNamespace cfg ns = none

/-- The constraint holds of a namespace once it has a bucket of this name. -/
def FitsBucket (ns : NamespaceConfig) (name : String) : Prop :=
  if name = defaultBucketName then ns.dynamicBucketTemplate = none
  else if name = dynamicBucketTemplateName then ns.defaultBucket = none
  else Exclusive ns

/-- What an edit asks of its arguments and of the namespace that it edits: the constraint, no nil
buckets, and some named bucket for the update of one. -/
def Fits (cfg : ServiceConfig) : Op → Prop
  | .addBucket ns b => ns ≠ globalNamespace → ∀ n, findNamespace cfg ns = some n →
      FitsBucket n b.name
  | .updateBucket ns b => ns ≠ globalNamespace → ∀ n, findNamespace cfg ns = some n →
      FitsBucket n b.name ∧
        (b.name ≠ defaultBucketName → b.name ≠ dynamicBucketTemplateName → n.buckets.len ≠ 0)
  | .deleteBucket ns name => ns ≠ globalNamespace → ∀ n, findNamespace cfg ns = some n →
      name ≠ defaultBucketName → name ≠ dynamicBucketTemplateName → Exclusive n
  | .addNamespace n | .updateNamespace n => acceptsDefaults (some n) = true
  | .deleteNamespace _ => True

/-- When a change of this config does not panic. -/
def Accepted (cfg : ServiceConfig) : Change → Prop
  | .updateConfig c => ∀ e ∈ c.namespaces.range, acceptsDefaults e.2 = true
  | .op op => Refused cfg op ∨ (ExclusiveBut (replaced op) cfg ∧ Fits cfg op)

/-- A call is made when the server has a config, and its change does not panic. -/
def Condition (s : State) : Action → Prop
  | .clone n => n < s.requests.length → s.cfgs ≠ none
  | .finish n _ _ => ∀ call ∈ s.calls[n]?, Accepted call.clonedCfg call.request.change
  | _ => True

end Conditions

section Panics

theorem applyDefaults_isSome_iff {sc : ServiceConfig} : (applyDefaults sc).isSome = true ↔
    ∀ k ns, sc.namespaces.get k = some ns → acceptsDefaults ns = true := by
  have hrange : (sc.namespaces.range.all fun e => acceptsDefaults e.2) = true ↔
      ∀ k ns, sc.namespaces.get k = some ns → acceptsDefaults ns = true := by
    rw [List.all_eq_true]
    constructor
    · intro h k ns hns
      exact h (k, ns) (GoMap.mem_range_iff.mpr hns)
    · rintro h ⟨k, ns⟩ he
      exact h k ns (GoMap.mem_range_iff.mp he)
  unfold applyDefaults
  split_ifs with h
  · simpa using hrange.mp h
  · simpa using mt hrange.mpr h

/-- The constraint, and no nil buckets. -/
theorem acceptsDefaults_iff {ns : NamespaceConfig} : acceptsDefaults (some ns) = true ↔
    Exclusive ns ∧ ∀ n b, ns.buckets.get n = some b → b ≠ none := by
  have hrange : (ns.buckets.range.all fun e => e.2.isSome) = true ↔
      ∀ n b, ns.buckets.get n = some b → b ≠ none := by
    rw [List.all_eq_true]
    constructor
    · intro h n b hb
      exact Option.isSome_iff_ne_none.mp (h (n, b) (GoMap.mem_range_iff.mpr hb))
    · rintro h ⟨n, b⟩ he
      exact Option.isSome_iff_ne_none.mpr (h n b (GoMap.mem_range_iff.mp he))
  simp only [acceptsDefaults, Bool.and_eq_true, hrange, Exclusive]
  refine and_congr_left fun _ => ?_
  cases ns.defaultBucket <;> cases ns.dynamicBucketTemplate <;> simp

/-- What a copy is: no nil namespaces or buckets, and no empty tables. -/
structure Copied (cfg : ServiceConfig) : Prop where
  set : ∀ k x, cfg.namespaces.get k = some x → x ≠ none
  buckets_set : ∀ k ns, cfg.namespaces.get k = some (some ns) →
    ∀ n b, ns.buckets.get n = some b → b ≠ none
  buckets_null : ∀ k ns, cfg.namespaces.get k = some (some ns) →
    (ns.buckets = .null ↔ ns.buckets.len = 0)

theorem copied_of_clone {cfg : ServiceConfig} (h : cloneConfig cfg = cfg) : Copied cfg := by
  have hget : ∀ k x, cfg.namespaces.get k = some x →
      ∃ ns, x = some (cloneNamespaceConfig ns) := by
    intro k x hx
    rw [← h, show (cloneConfig cfg).namespaces = cloneMap {} cloneNamespaceConfig cfg.namespaces
      from rfl, get_cloneMap, Option.map_eq_some_iff] at hx
    obtain ⟨v, -, rfl⟩ := hx
    exact ⟨v.getD {}, rfl⟩
  refine ⟨fun k x hx => ?_, fun k ns hns n b hb => ?_, fun k ns hns => ?_⟩
  · obtain ⟨ns, rfl⟩ := hget k x hx
    exact Option.some_ne_none _
  · obtain ⟨ns', hns'⟩ := hget k _ hns
    cases hns'
    rw [show (cloneNamespaceConfig ns').buckets = cloneMap {} id ns'.buckets from rfl,
      get_cloneMap, Option.map_eq_some_iff] at hb
    obtain ⟨v, -, rfl⟩ := hb
    exact Option.some_ne_none _
  · obtain ⟨ns', hns'⟩ := hget k _ hns
    cases hns'
    simp only [cloneNamespaceConfig, cloneMap]
    by_cases hlen : ns'.buckets.len = 0
    · rw [if_pos hlen]
      simp [GoMap.len, GoMap.keys, GoMap.alist]
    · rw [if_neg hlen, GoMap.len_map]
      cases hb : ns'.buckets with
      | null => exact absurd (by rw [hb]; rfl) hlen
      | table t => simp [GoMap.map, ← hb, hlen]

/-- An edit, followed by the defaults, does not panic. -/
def Safe : Outcome → Prop
  | none => False
  | some (.error _) => True
  | some (.ok edited) => (applyDefaults edited).isSome = true

@[simp] theorem safe_none : ¬ Safe none := not_false

@[simp] theorem safe_error (e : String) : Safe (some (.error e)) := trivial

/-- The two names of buckets that are not in the map are different. -/
theorem template_ne_default : dynamicBucketTemplateName ≠ defaultBucketName := by decide

theorem safe_iff (updater : ServiceConfig → Outcome) (user : String) (date : ℤ)
    (clonedCfg : ServiceConfig) :
    Safe (updater clonedCfg) ↔ updatedConfig updater user date clonedCfg ≠ none := by
  unfold updatedConfig Safe
  cases updater clonedCfg with
  | none => simp
  | some outcome => cases outcome <;> simp [Option.isSome_iff_ne_none]

/-- What is persisted is what the updater has made of the clone, with its defaults and the next
version. -/
theorem updatedConfig_ok {updater : ServiceConfig → Outcome} {user : String} {date : ℤ}
    {clonedCfg cfg : ServiceConfig} (h : updatedConfig updater user date clonedCfg = some (.ok cfg)) :
    ∃ edited filled, updater clonedCfg = some (.ok edited) ∧ applyDefaults edited = some filled ∧
      cfg = { filled with user := user, date := date, version := nextVersion clonedCfg.version } := by
  unfold updatedConfig at h
  cases hedit : updater clonedCfg with
  | none => simp [hedit] at h
  | some outcome =>
    cases outcome with
    | error e => simp [hedit] at h
    | ok edited =>
      simp only [hedit] at h
      obtain ⟨filled, hfilled, heq⟩ := Option.map_eq_some_iff.mp h
      cases heq
      exact ⟨edited, filled, rfl, hfilled, rfl⟩

variable {cfg : ServiceConfig}

theorem exclusiveBut_none_iff (h : Copied cfg) :
    (applyDefaults cfg).isSome = true ↔ ExclusiveBut none cfg := by
  rw [applyDefaults_isSome_iff]
  constructor
  · intro hall k ns _ hns
    exact (acceptsDefaults_iff.mp (hall k _ hns)).1
  · intro hall k x hx
    obtain ⟨ns, rfl⟩ := Option.ne_none_iff_exists'.mp (h.set k x hx)
    exact acceptsDefaults_iff.mpr ⟨hall k ns (by simp) hx, h.buckets_set k ns hx⟩

/-- The defaults of a config whose namespaces are those of a copy, but for one. -/
theorem applyDefaults_put_iff (h : Copied cfg) (cfg' : ServiceConfig) {k : String}
    {x : Option (Option NamespaceConfig)} (hk : cfg'.namespaces.get k = x)
    (hne : ∀ k', k' ≠ k → cfg'.namespaces.get k' = cfg.namespaces.get k') :
    (applyDefaults cfg').isSome = true ↔
      ExclusiveBut (some k) cfg ∧ ∀ ns ∈ x, acceptsDefaults ns = true := by
  rw [applyDefaults_isSome_iff]
  constructor
  · intro hall
    constructor
    · intro k' ns hk' hns
      have hk'' : k' ≠ k := fun heq => hk' (congrArg some heq)
      exact (acceptsDefaults_iff.mp (hall k' _ ((hne k' hk'').trans hns))).1
    · intro ns hns
      exact hall k ns (hk.trans hns)
  · rintro ⟨hbut, hx⟩ k' y hy
    by_cases hk' : k' = k
    · subst hk'
      exact hx y (hk.symm.trans hy)
    · rw [hne k' hk'] at hy
      obtain ⟨ns, rfl⟩ := Option.ne_none_iff_exists'.mp (h.set k' y hy)
      have hexclusive := hbut k' ns (fun heq => hk' (Option.some.inj heq)) hy
      exact acceptsDefaults_iff.mpr ⟨hexclusive, h.buckets_set k' ns hy⟩

theorem putNamespace_safe_iff (h : Copied cfg) {k : String} {ns : NamespaceConfig}
    (hnull : cfg.namespaces ≠ .null) : Safe (putNamespace cfg k ns) ↔
      ExclusiveBut (some k) cfg ∧ acceptsDefaults (some ns) = true := by
  obtain ⟨m, hm⟩ : ∃ m, cfg.namespaces.set k (some ns) = some m := by
    cases hns : cfg.namespaces with
    | null => exact absurd hns hnull
    | table t => exact ⟨_, rfl⟩
  simp only [putNamespace, hm, Option.map_some, Safe]
  rw [applyDefaults_put_iff h _ (GoMap.get_set_self hm) fun k' hk' => GoMap.get_set_ne hm hk']
  simp

theorem findNamespace_eq_some {k : String} {ns : NamespaceConfig} :
    findNamespace cfg k = some ns ↔ cfg.namespaces.get k = some (some ns) := by
  rw [findNamespace, Option.join_eq_some_iff]

theorem namespaces_ne_null {k : String} {ns : NamespaceConfig}
    (h : findNamespace cfg k = some ns) : cfg.namespaces ≠ .null := by
  intro hnull
  rw [findNamespace, hnull] at h
  simp at h

theorem global_safe_iff (h : Copied cfg) (b : Option BucketConfig) :
    Safe (some (.ok { cfg with globalDefaultBucket := b })) ↔ ExclusiveBut none cfg := by
  rw [← exclusiveBut_none_iff h, applyDefaults_isSome_iff]
  exact applyDefaults_isSome_iff

/-- A namespace is written back without nil buckets. -/
theorem edited_safe_iff (h : Copied cfg) {k : String} {ns : NamespaceConfig}
    (hns : findNamespace cfg k = some ns) (ns' : NamespaceConfig)
    (hset : ∀ n b, ns'.buckets.get n = some b → b ≠ none) :
    Safe (putNamespace cfg k ns') ↔ ExclusiveBut (some k) cfg ∧ Exclusive ns' := by
  rw [putNamespace_safe_iff h (namespaces_ne_null hns), acceptsDefaults_iff,
    and_iff_left hset]

theorem set_ne_none {m m' : GoMap String (Option BucketConfig)} {name : String} {b : BucketConfig}
    (hset : ∀ n c, m.get n = some c → c ≠ none) (hm : m.set name (some b) = some m') :
    ∀ n c, m'.get n = some c → c ≠ none := by
  intro n c hc
  by_cases hn : n = name
  · rw [hn, GoMap.get_set_self hm] at hc
    cases hc
    exact Option.some_ne_none b
  · exact hset n c ((GoMap.get_set_ne hm hn).symm.trans hc)

theorem createBucket_safe_iff (h : Copied cfg) (k : String) (b : BucketConfig) :
    Safe (createBucket cfg k b) ↔ Refused cfg (.addBucket k b) ∨
      (ExclusiveBut (replaced (.addBucket k b)) cfg ∧ Fits cfg (.addBucket k b)) := by
  simp only [createBucket, Refused, replaced, Fits]
  by_cases hk : k = globalNamespace
  · simp only [hk, if_true, ne_eq, not_true_eq_false, false_imp_iff, and_true]
    cases hb : cfg.globalDefaultBucket with
    | none => simpa [hb] using global_safe_iff h (some b)
    | some c => simp
  · simp only [hk, if_false, ne_eq, not_false_eq_true, true_imp_iff]
    cases hns : findNamespace cfg k with
    | none => simp
    | some ns =>
      have hset := h.buckets_set k ns (findNamespace_eq_some.mp hns)
      simp only [Option.some.injEq, forall_eq', FitsBucket, occupant]
      by_cases hdefault : b.name = defaultBucketName
      · simp only [hdefault, if_true]
        cases ns.defaultBucket with
        | some c => simp
        | none =>
          simpa [Exclusive] using edited_safe_iff h hns { ns with defaultBucket := some b } hset
      · by_cases htemplate : b.name = dynamicBucketTemplateName
        · simp only [htemplate, template_ne_default, if_true, if_false]
          cases ns.dynamicBucketTemplate with
          | some c => simp
          | none =>
            simpa [Exclusive] using
              edited_safe_iff h hns { ns with dynamicBucketTemplate := some b } hset
        · simp only [hdefault, htemplate, if_false]
          cases hb : (ns.buckets.get b.name).join with
          | some c => simp
          | none =>
            obtain ⟨m, hm⟩ : ∃ m, (made ns.buckets).set b.name (some b) = some m := by
              cases ns.buckets <;> exact ⟨_, rfl⟩
            have hset' := set_ne_none (by simpa using hset) hm
            simpa [hm, Exclusive] using edited_safe_iff h hns { ns with buckets := m } hset'

theorem updateBucket_safe_iff (h : Copied cfg) (k : String) (b : BucketConfig) :
    Safe (updateBucket cfg k b) ↔ Refused cfg (.updateBucket k b) ∨
      (ExclusiveBut (replaced (.updateBucket k b)) cfg ∧ Fits cfg (.updateBucket k b)) := by
  simp only [updateBucket, Refused, replaced, Fits]
  by_cases hk : k = globalNamespace
  · simpa [hk] using global_safe_iff h (some b)
  · simp only [hk, if_false, ne_eq, not_false_eq_true, true_imp_iff, true_and]
    cases hns : findNamespace cfg k with
    | none => simp
    | some ns =>
      have hget := findNamespace_eq_some.mp hns
      have hset := h.buckets_set k ns hget
      simp only [Option.some.injEq, forall_eq', FitsBucket]
      by_cases hdefault : b.name = defaultBucketName
      · simpa [hdefault, Exclusive] using
          edited_safe_iff h hns { ns with defaultBucket := some b } hset
      · by_cases htemplate : b.name = dynamicBucketTemplateName
        · simpa [htemplate, template_ne_default, Exclusive] using
            edited_safe_iff h hns { ns with dynamicBucketTemplate := some b } hset
        · simp only [hdefault, htemplate, if_false, not_false_eq_true, true_imp_iff]
          have hlen := h.buckets_null k ns hget
          cases hm : ns.buckets.set b.name (some b) with
          | none =>
            have hnull : ns.buckets = .null := by
              cases hb : ns.buckets with
              | null => rfl
              | table t => simp [hb, GoMap.set] at hm
            simp [hlen.mp hnull]
          | some m =>
            have hnull : ns.buckets ≠ .null := by
              intro hnull
              rw [hnull] at hm
              cases hm
            simpa [mt hlen.mpr hnull, Exclusive] using
              edited_safe_iff h hns { ns with buckets := m } (set_ne_none hset hm)

theorem deleteBucket_safe_iff (h : Copied cfg) (k name : String) :
    Safe (deleteBucket cfg k name) ↔ Refused cfg (.deleteBucket k name) ∨
      (ExclusiveBut (replaced (.deleteBucket k name)) cfg ∧ Fits cfg (.deleteBucket k name)) := by
  simp only [deleteBucket, Refused, replaced, Fits]
  by_cases hk : k = globalNamespace
  · simpa [hk] using global_safe_iff h none
  · simp only [hk, if_false, ne_eq, not_false_eq_true, true_imp_iff, true_and]
    cases hns : findNamespace cfg k with
    | none => simp
    | some ns =>
      have hset := h.buckets_set k ns (findNamespace_eq_some.mp hns)
      simp only [Option.some.injEq, forall_eq']
      by_cases hdefault : name = defaultBucketName
      · simpa [hdefault, Exclusive] using edited_safe_iff h hns { ns with defaultBucket := none } hset
      · by_cases htemplate : name = dynamicBucketTemplateName
        · simpa [htemplate, template_ne_default, Exclusive] using
            edited_safe_iff h hns { ns with dynamicBucketTemplate := none } hset
        · have hdelete : ∀ n c, (ns.buckets.delete name).get n = some c → c ≠ none := by
            intro n c hc
            by_cases hn : n = name
            · simp [hn] at hc
            · exact hset n c ((GoMap.get_delete_ne _ hn).symm.trans hc)
          simpa [hdefault, htemplate, Exclusive] using
            edited_safe_iff h hns { ns with buckets := ns.buckets.delete name } hdelete

theorem deleteNamespace_safe_iff (h : Copied cfg) (k : String) :
    Safe (deleteNamespace cfg k) ↔ Refused cfg (.deleteNamespace k) ∨
      (ExclusiveBut (replaced (.deleteNamespace k)) cfg ∧ Fits cfg (.deleteNamespace k)) := by
  simp only [deleteNamespace, Refused, replaced, Fits, and_true]
  cases hns : findNamespace cfg k with
  | none => simp [Safe]
  | some ns =>
    have hput := applyDefaults_put_iff h { cfg with namespaces := cfg.namespaces.delete k }
      (GoMap.get_delete_self cfg.namespaces k) fun k' hk' => GoMap.get_delete_ne _ hk'
    simpa [Safe] using hput

theorem updateNamespace_safe_iff (h : Copied cfg) (n : NamespaceConfig) :
    Safe (updateNamespace cfg n) ↔
      ExclusiveBut (some n.name) cfg ∧ acceptsDefaults (some n) = true := by
  have hcopied : Copied { cfg with namespaces := made cfg.namespaces } := by
    constructor
    · simpa using h.set
    · simpa using h.buckets_set
    · simpa using h.buckets_null
  have hbut : ExclusiveBut (some n.name) { cfg with namespaces := made cfg.namespaces } ↔
      ExclusiveBut (some n.name) cfg := by
    simp [ExclusiveBut]
  rw [updateNamespace, putNamespace_safe_iff hcopied, hbut]
  cases hns : cfg.namespaces <;> simp [made, GoMap.make]

theorem edit_safe_iff (h : Copied cfg) (op : Op) :
    Safe (op.edit cfg) ↔ Refused cfg op ∨ (ExclusiveBut (replaced op) cfg ∧ Fits cfg op) := by
  cases op with
  | addBucket k b => exact createBucket_safe_iff h k b
  | updateBucket k b => exact updateBucket_safe_iff h k b
  | deleteBucket k name => exact deleteBucket_safe_iff h k name
  | deleteNamespace k => exact deleteNamespace_safe_iff h k
  | updateNamespace n => simpa [Op.edit, Refused, replaced, Fits] using updateNamespace_safe_iff h n
  | addNamespace n =>
    simp only [Op.edit, createNamespace, Refused, replaced, Fits]
    cases hns : findNamespace cfg n.name with
    | none => simpa using updateNamespace_safe_iff h n
    | some ns => simp [Safe]

/-- The condition is exact: every other change panics. -/
theorem accepted_iff (h : Copied cfg) (change : Change) :
    Accepted cfg change ↔ Safe (change.updater cfg) := by
  cases change with
  | updateConfig c =>
    simp only [Accepted, Change.updater, Safe, applyDefaults_isSome_iff]
    constructor
    · intro hall k ns hns
      exact hall (k, ns) (GoMap.mem_range_iff.mpr hns)
    · rintro hall ⟨k, ns⟩ he
      exact hall k ns (GoMap.mem_range_iff.mp he)
  | op op => exact (edit_safe_iff h op).symm

/-- A call that is accepted returns, any other one panics; and it persists when it returns nil. -/
theorem finish_spec (call : Call) (date : ℤ) (err : Option String) :
    ((∃ e, (call.finish date err).result = .returned e) ↔
        Accepted call.clonedCfg call.request.change) ∧
      ((call.finish date err).result ≠ .returned none → (call.finish date err).persisted = none) := by
  rw [accepted_iff (copied_of_clone call.copied), safe_iff _ call.request.user date]
  unfold Call.finish
  cases updatedConfig call.request.change.updater call.request.user date call.clonedCfg with
  | none => simp
  | some outcome =>
    cases outcome with
    | error e => simp
    | ok cfg => cases err <;> simp

end Panics

section Totality
variable {s s' : State}

theorem answered_of_eq (h : Answered s) (hlocked : s'.locked = s.locked)
    (hreturns : s'.returns = s.returns) : Answered s' := by
  constructor
  · rw [hlocked]
    exact h.1
  · rw [hreturns]
    exact h.2

theorem clone_answered_iff (h : Answered s) (n : ℕ) : Condition s (.clone n) ↔
    ∀ s', step s (.clone n) = some s' → Answered s' := by
  simp only [Condition, step]
  cases hr : s.requests[n]? with
  | none =>
    have hn : ¬ n < s.requests.length := not_lt.mpr (List.getElem?_eq_none_iff.mp hr)
    simp [hn]
  | some r =>
    have hn : n < s.requests.length := (List.getElem?_eq_some_iff.mp hr).1
    simp only [hn, true_imp_iff, h.1, Bool.false_eq_true, if_false]
    cases hcfgs : s.cfgs with
    | none => simp [Answered]
    | some cfgs =>
      simp only [ne_eq, reduceCtorEq, not_false_eq_true, Option.some.injEq, forall_eq', true_iff]
      exact answered_of_eq h h.1.symm rfl

theorem finish_answered_iff (h : Answered s) (n : ℕ) (date : ℤ) (err : Option String) :
    Condition s (.finish n date err) ↔
      ∀ s', step s (.finish n date err) = some s' → Answered s' := by
  simp only [Condition, step]
  cases hc : s.calls[n]? with
  | none => simp
  | some call =>
    obtain ⟨hreturned, hpersisted⟩ := finish_spec call date err
    simp only [Option.mem_def, Option.some.injEq, forall_eq', ← hreturned, Answered, h.1, true_and,
      List.forall_mem_cons]
    exact ⟨fun hx => ⟨⟨hx, hpersisted⟩, h.2⟩, fun hx => hx.1.1⟩

/-- One step: the condition is exactly what keeps all calls answered. -/
theorem step_answered_iff (h : Answered s) (a : Action) :
    Condition s a ↔ ∀ s', step s a = some s' → Answered s' := by
  cases a with
  | clone n => exact clone_answered_iff h n
  | finish n date err => exact finish_answered_iff h n date err
  | receive r =>
    refine iff_of_true trivial fun s' hs => ?_
    simp only [step] at hs
    cases hv : r.version with
    | none =>
      rw [hv] at hs
      cases hs
      exact answered_of_eq h rfl rfl
    | some version =>
      simp only [hv] at hs
      split_ifs at hs <;> cases hs
      · exact answered_of_eq h rfl rfl
      · exact h
  | drop n =>
    refine iff_of_true trivial fun s' hs => ?_
    cases hs
    exact answered_of_eq h rfl rfl
  | apply newConfig =>
    refine iff_of_true trivial fun s' hs => ?_
    simp only [step] at hs
    split_ifs at hs
    cases hs
    exact answered_of_eq h rfl rfl

theorem started_answered (persisted : Option ServiceConfig) : Answered (started persisted) :=
  ⟨rfl, List.forall_mem_nil _⟩

end Totality

/-- The runs in which every call returns, with the mutex free and nothing persisted unless it has
returned nil, are those whose calls are made while the server has a config, with changes that this
config accepts. -/
theorem admin_calls_total (persisted : Option ServiceConfig) (actions : List Action) :
    Machine.Along step (fun s a => ∀ s', step s a = some s' → Answered s') (started persisted)
        actions ↔
      Machine.Along step Condition (started persisted) actions := by
  refine Machine.along_congr Answered (fun s a h => (step_answered_iff h a).symm) ?_
    (started_answered persisted)
  intro s a s' _ hanswered hs
  exact hanswered s' hs

/-- Three calls that panic: one on a server whose persister had no config to read, which leaves the
mutex locked and so blocks the next one; one that adds a template to a namespace with a default
bucket; one that updates a bucket in a namespace that has none. -/
theorem calls_panic :
    let ns : ServiceConfig :=
      { namespaces := .table (AList.singleton "a" (some { defaultBucket := some {} })) }
    let del : Request := { change := .op (.deleteNamespace "a"), user := "u" }
    let add : Request :=
      { change := .op (.addBucket "a" { name := dynamicBucketTemplateName }), user := "u" }
    let upd : Request := { change := .op (.updateBucket "a" { name := "b" }), user := "u" }
    (∃ s, Machine.run step (started none) [.receive del, .receive del, .clone 0, .clone 0] = some s ∧
      s.locked = true ∧ s.returns.map (·.result) = [.blocked, .panicked] ∧ ¬ Answered s) ∧
    (∃ s, Machine.run step (started (some ns)) [.receive add, .clone 0, .finish 0 0 none] = some s ∧
      s.returns.map (·.result) = [.panicked] ∧ ¬ Answered s) ∧
    (∃ s, Machine.run step (started (some ns)) [.receive upd, .clone 0, .finish 0 0 none] = some s ∧
      s.returns.map (·.result) = [.panicked] ∧ ¬ Answered s) := by
  intro ns del add upd
  have hpanicked : ∀ {s : State}, s.returns.map (·.result) = [.panicked] → ¬ Answered s := by
    intro s hs h
    obtain ⟨x, hx, hr⟩ := List.mem_map.mp (hs ▸ List.mem_singleton_self Result.panicked)
    obtain ⟨⟨err, he⟩, -⟩ := h.2 x hx
    rw [hr] at he
    cases he
  refine ⟨⟨_, rfl, rfl, rfl, fun h => absurd h.1 (by decide)⟩, ?_, ?_⟩
  · obtain ⟨s, hrun, hs⟩ : ∃ s, Machine.run step (started (some ns))
        [.receive add, .clone 0, .finish 0 0 none] = some s ∧
          s.returns.map (·.result) = [.panicked] := Machine.exists_run (by decide)
    exact ⟨s, hrun, hs, hpanicked hs⟩
  · obtain ⟨s, hrun, hs⟩ : ∃ s, Machine.run step (started (some ns))
        [.receive upd, .clone 0, .finish 0 0 none] = some s ∧
          s.returns.map (·.result) = [.panicked] := Machine.exists_run (by decide)
    exact ⟨s, hrun, hs, hpanicked hs⟩

end QuotaService.Admin
