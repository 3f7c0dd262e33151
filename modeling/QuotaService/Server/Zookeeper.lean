import QuotaService.Config.Diff
import QuotaService.Lib.Selection
import Mathlib.Data.Int.Order.Basic

/-! The Zookeeper persister's choice of the current config. The listener scans the config nodes in
the order in which `Children` lists them, and takes the last of those with the highest version.
What a node's data decode to is a parameter. -/
namespace QuotaService.Server
open Config

structure ZkConfigPersister where
  initialized : Bool
  config : String
  configs : AList fun _ : String => ServiceConfig
  /-- Whether a notification is pending. -/
  watcher : Bool

/-- The variables of the loop over the children. -/
structure Scan where
  configs : AList fun _ : String => ServiceConfig
  latestHashVersion : ℤ
  latestHash : String
deriving DecidableEq

section Listener
variable {D : Type} (unmarshal : D → ServiceConfig) (get : String → Option D)

/-- The body of the loop; `none` is an error from `Get`. -/
def scanChild (s : Scan) (hash : String) : Option Scan :=
  (get hash).map fun data =>
    let cfg := unmarshal data
    let configs := s.configs.insert hash cfg
    if s.latestHashVersion ≤ cfg.version then ⟨configs, cfg.version, hash⟩
    else { s with configs := configs }

def currentConfigEventListener (children : List String) (z : ZkConfigPersister) :
    Option ZkConfigPersister :=
  (children.foldlM (scanChild unmarshal get) ⟨∅, 0, ""⟩).map fun s =>
    { z with configs := s.configs, config := s.latestHash, watcher := true, initialized := true }

end Listener

def ZkConfigPersister.current (z : ZkConfigPersister) : Option ServiceConfig :=
  z.configs.lookup z.config

def ZkConfigPersister.readPersistedConfig (z : ZkConfigPersister) : Option ServiceConfig :=
  z.current.map cloneConfig

/-- The config that a server has applied after `readUpdatedConfig`; `none` is the nil pointer that
it meets when nothing has been persisted. -/
def readUpdatedConfig (cfgs : Option ServiceConfig) (z : ZkConfigPersister) :
    Option ServiceConfig :=
  z.readPersistedConfig.map (appliedConfig cfgs)

section Nodes
variable {D : Type} {unmarshal : D → ServiceConfig} {get : String → Option D}
  {children : List String}

/-- The config of a node. -/
def node (unmarshal : D → ServiceConfig) (get : String → Option D) (hash : String) :
    ServiceConfig := ((get hash).map unmarshal).getD {}

/-- The configs that the nodes with the highest version hold. -/
def Latest (unmarshal : D → ServiceConfig) (get : String → Option D) (children : List String)
    (cfg : ServiceConfig) : Prop :=
  ∃ hash, Selection.Largest (fun h => (node unmarshal get h).version) children hash ∧
    node unmarshal get hash = cfg

theorem version_nonneg
    (hnodes : ∀ hash ∈ children, ∃ d, get hash = some d ∧ 0 ≤ (unmarshal d).version) :
    ∀ hash ∈ children, 0 ≤ (node unmarshal get hash).version := by
  intro hash hh
  obtain ⟨d, hd, hv⟩ := hnodes hash hh
  simpa [node, hd] using hv

/-- The loop computes the scan for the largest version, and files every child's config. -/
theorem foldlM_scanChild (unmarshal : D → ServiceConfig)
    (hget : ∀ hash ∈ children, ∃ d, get hash = some d) :
    ∃ configs : AList fun _ : String => ServiceConfig,
      (∀ hash, configs.lookup hash =
        if hash ∈ children then some (node unmarshal get hash) else none) ∧
      children.foldlM (scanChild unmarshal get) ⟨∅, 0, ""⟩ = some ⟨configs,
        (children.foldl (Selection.step fun h => (node unmarshal get h).version) (0, none)).1,
        (Selection.select (fun h => (node unmarshal get h).version) 0 children).getD ""⟩ := by
  induction children using List.reverseRecOn with
  | nil => exact ⟨∅, by simp, rfl⟩
  | append_singleton hashes hash ih =>
    obtain ⟨configs, hlookup, hscan⟩ := ih fun h hh => hget h (by simp [hh])
    obtain ⟨d, hd⟩ := hget hash (by simp)
    have hnode : node unmarshal get hash = unmarshal d := by simp [node, hd]
    refine ⟨configs.insert hash (unmarshal d), fun h => ?_, ?_⟩
    · by_cases hh : h = hash
      · subst hh
        simp [hnode]
      · simp [AList.lookup_insert_ne hh, hlookup, hh]
    · rw [List.foldlM_append, hscan]
      simp only [Option.bind_eq_bind, Option.bind_some, List.foldlM_cons, List.foldlM_nil,
        scanChild, hd, Option.map_some, Selection.select_append_singleton, List.foldl_append,
        List.foldl_cons, List.foldl_nil, Selection.step, hnode]
      split_ifs <;> rfl

theorem currentConfigEventListener_current
    (hnodes : ∀ hash ∈ children, ∃ d, get hash = some d ∧ 0 ≤ (unmarshal d).version)
    (z : ZkConfigPersister) :
    ∃ z', currentConfigEventListener unmarshal get children z = some z' ∧
      z'.current = (Selection.select (fun h => (node unmarshal get h).version) 0 children).map
        (node unmarshal get) := by
  obtain ⟨configs, hlookup, hscan⟩ := foldlM_scanChild unmarshal
    fun hash hh => (hnodes hash hh).imp fun _ => And.left
  refine ⟨_, by rw [currentConfigEventListener, hscan]; rfl, ?_⟩
  rw [ZkConfigPersister.current, hlookup]
  cases hsel : Selection.select (fun h => (node unmarshal get h).version) 0 children with
  | none =>
    have hnil := (Selection.select_eq_none (version_nonneg hnodes)).mp hsel
    simp [hnil]
  | some hash =>
    have hmem := (Selection.select_largest hsel).2.1
    simp [hmem]

/-- A server that has applied nothing of this version yet applies the config, and names its
namespaces if it is the first. -/
theorem appliedConfig_of_lt {cfgs : Option ServiceConfig} {cfg : ServiceConfig}
    (h : ∀ c ∈ cfgs, c.version < cfg.version) :
    appliedConfig cfgs (cloneConfig cfg) =
      if cfgs.isSome then cloneConfig cfg else nameNamespaces (cloneConfig cfg) := by
  cases cfgs with
  | none => rfl
  | some c =>
    have hlt : ¬ (cloneConfig cfg).version ≤ c.version := not_le.mpr (h c rfl)
    rw [appliedConfig, if_neg hlt]
    rfl

/-- What two servers share when they enforce the same config. -/
structure Agree (cfgs₁ cfgs₂ : Option ServiceConfig) (z₁ z₂ : ZkConfigPersister) : Prop where
  current : z₁.current = z₂.current
  persisted : z₁.readPersistedConfig = z₂.readPersistedConfig
  applied : readUpdatedConfig cfgs₁ z₁ = readUpdatedConfig cfgs₂ z₂

theorem agree_iff {cfgs₁ cfgs₂ : Option ServiceConfig} {z₁ z₂ : ZkConfigPersister}
    (h₁ : ∀ cfg ∈ z₁.current, ∀ c ∈ cfgs₁, c.version < cfg.version)
    (h₂ : ∀ cfg ∈ z₂.current, ∀ c ∈ cfgs₂, c.version < cfg.version) :
    Agree cfgs₁ cfgs₂ z₁ z₂ ↔ z₁.current = z₂.current ∧ (cfgs₁.isSome = cfgs₂.isSome ∨
      ∀ cfg ∈ z₁.current, nameNamespaces (cloneConfig cfg) = cloneConfig cfg) := by
  have hread : z₁.current = z₂.current → z₁.readPersistedConfig = z₂.readPersistedConfig :=
    congrArg (Option.map cloneConfig)
  suffices h : z₁.current = z₂.current →
      (readUpdatedConfig cfgs₁ z₁ = readUpdatedConfig cfgs₂ z₂ ↔ (cfgs₁.isSome = cfgs₂.isSome ∨
        ∀ cfg ∈ z₁.current, nameNamespaces (cloneConfig cfg) = cloneConfig cfg)) from
    ⟨fun ha => ⟨ha.current, (h ha.current).mp ha.applied⟩,
      fun hc => ⟨hc.1, hread hc.1, (h hc.1).mpr hc.2⟩⟩
  intro heq
  unfold readUpdatedConfig ZkConfigPersister.readPersistedConfig
  rw [← heq] at h₂ ⊢
  cases hcur : z₁.current with
  | none => simp
  | some cfg =>
    simp only [Option.map_some, appliedConfig_of_lt (h₁ cfg hcur),
      appliedConfig_of_lt (h₂ cfg hcur), Option.some.injEq, Option.mem_def, forall_eq']
    cases cfgs₁ <;> cases cfgs₂ <;> simp [eq_comm]

/-- What a persister holds once it has processed the nodes in some order. -/
theorem processed (hnodes : ∀ hash ∈ children, ∃ d, get hash = some d ∧ 0 ≤ (unmarshal d).version)
    {order : List String} (horder : order.Perm children) (z : ZkConfigPersister) :
    ∃ z', currentConfigEventListener unmarshal get order z = some z' ∧
      z'.current = (Selection.select (fun h => (node unmarshal get h).version) 0 order).map
        (node unmarshal get) ∧
      ∀ cfg ∈ z'.current, Latest unmarshal get children cfg := by
  have hnodes' : ∀ hash ∈ order, ∃ d, get hash = some d ∧ 0 ≤ (unmarshal d).version :=
    fun hash hh => hnodes hash (horder.mem_iff.mp hh)
  obtain ⟨z', hz', hcur⟩ := currentConfigEventListener_current hnodes' z
  refine ⟨z', hz', hcur, fun cfg hcfg => ?_⟩
  rw [hcur, Option.mem_def, Option.map_eq_some_iff] at hcfg
  obtain ⟨hash, hsel, rfl⟩ := hcfg
  have hlargest := (Selection.select_largest hsel).2
  exact ⟨hash, (Selection.largest_of_perm horder).mp hlargest, rfl⟩

/-- Whatever the orders in which two servers list the nodes, they agree: exactly when the nodes
with the highest version all hold the same config, and that config names its namespaces if one
server is new and the other is not. -/
theorem agree_iff_latest_unique
    (hnodes : ∀ hash ∈ children, ∃ d, get hash = some d ∧ 0 ≤ (unmarshal d).version)
    (cfgs₁ cfgs₂ : Option ServiceConfig)
    (hcfgs₁ : ∀ c ∈ cfgs₁, ∀ cfg, Latest unmarshal get children cfg → c.version < cfg.version)
    (hcfgs₂ : ∀ c ∈ cfgs₂, ∀ cfg, Latest unmarshal get children cfg → c.version < cfg.version) :
    (∀ order₁ order₂, List.Perm order₁ children → List.Perm order₂ children → ∀ z₁ z₂,
      ∃ z₁' z₂', currentConfigEventListener unmarshal get order₁ z₁ = some z₁' ∧
        currentConfigEventListener unmarshal get order₂ z₂ = some z₂' ∧
        Agree cfgs₁ cfgs₂ z₁' z₂') ↔
    (∀ a b, Latest unmarshal get children a → Latest unmarshal get children b → a = b) ∧
      (cfgs₁.isSome = cfgs₂.isSome ∨
        ∀ a, Latest unmarshal get children a →
          nameNamespaces (cloneConfig a) = cloneConfig a) := by
  have hselect := Selection.select_perm_iff (version_nonneg hnodes) (node unmarshal get)
  have hunique : (∀ a b, Latest unmarshal get children a → Latest unmarshal get children b → a = b)
      ↔ ∀ a b, Selection.Largest (fun h => (node unmarshal get h).version) children a →
        Selection.Largest (fun h => (node unmarshal get h).version) children b →
          node unmarshal get a = node unmarshal get b := by
    constructor
    · exact fun h a b ha hb => h _ _ ⟨a, ha, rfl⟩ ⟨b, hb, rfl⟩
    · rintro h _ _ ⟨a, ha, rfl⟩ ⟨b, hb, rfl⟩
      exact h a b ha hb
  constructor
  · intro hall
    have hsame : ∀ a b, Latest unmarshal get children a → Latest unmarshal get children b →
        a = b := by
      rw [hunique, ← hselect]
      intro order₁ order₂ ho₁ ho₂
      obtain ⟨w₁, hw₁, hc₁, -⟩ := processed hnodes ho₁ ⟨false, "", ∅, false⟩
      obtain ⟨w₂, hw₂, hc₂, -⟩ := processed hnodes ho₂ ⟨false, "", ∅, false⟩
      obtain ⟨z₁, z₂, hz₁, hz₂, hagree⟩ := hall order₁ order₂ ho₁ ho₂ _ _
      cases hz₁.symm.trans hw₁
      cases hz₂.symm.trans hw₂
      rw [← hc₁, ← hc₂]
      exact hagree.current
    refine ⟨hsame, ?_⟩
    obtain ⟨w, hw, hc, hlatest⟩ := processed hnodes (List.Perm.refl _) ⟨false, "", ∅, false⟩
    obtain ⟨z₁, z₂, hz₁, hz₂, hagree⟩ := hall children children (.refl _) (.refl _) _ _
    cases hz₁.symm.trans hw
    cases hz₂.symm.trans hw
    have h := (agree_iff (fun cfg hcfg c hc => hcfgs₁ c hc cfg (hlatest cfg hcfg))
      (fun cfg hcfg c hc => hcfgs₂ c hc cfg (hlatest cfg hcfg))).mp hagree
    refine h.2.imp_right fun hnamed a ha => ?_
    -- some node is selected, since there is one, and it holds `a`
    cases hcur : w.current with
    | none =>
      rw [hcur, eq_comm, Option.map_eq_none_iff,
        Selection.select_eq_none (version_nonneg hnodes)] at hc
      obtain ⟨hash, hlargest, -⟩ := ha
      simp [Selection.Largest, hc] at hlargest
    | some cfg =>
      have hcfg := hsame a cfg ha (hlatest cfg hcur)
      rw [hcfg]
      exact hnamed cfg hcur
  · rintro ⟨hsame, hnamed⟩ order₁ order₂ ho₁ ho₂ z₁ z₂
    obtain ⟨w₁, hw₁, hc₁, hl₁⟩ := processed hnodes ho₁ z₁
    obtain ⟨w₂, hw₂, hc₂, hl₂⟩ := processed hnodes ho₂ z₂
    refine ⟨w₁, w₂, hw₁, hw₂, (agree_iff (fun cfg hcfg c hc => hcfgs₁ c hc cfg (hl₁ cfg hcfg))
      (fun cfg hcfg c hc => hcfgs₂ c hc cfg (hl₂ cfg hcfg))).mpr ⟨?_, ?_⟩⟩
    · rw [hc₁, hc₂]
      exact hselect.mpr (hunique.mp hsame) order₁ order₂ ho₁ ho₂
    · exact hnamed.imp_right fun h cfg hcfg => h cfg (hl₁ cfg hcfg)

end Nodes

/-- A version and its successor: both orders end with the successor. -/
theorem agree_iff_latest_unique_successor :
    let get : String → Option ServiceConfig := fun hash =>
      if hash = "h1" then some { version := 200 } else some { version := 201 }
    ∀ order₁ order₂, List.Perm order₁ ["h1", "h2"] → List.Perm order₂ ["h1", "h2"] → ∀ z₁ z₂,
      ∃ z₁' z₂', currentConfigEventListener id get order₁ z₁ = some z₁' ∧
        currentConfigEventListener id get order₂ z₂ = some z₂' ∧
        Agree none (some { version := 200 }) z₁' z₂' := by
  intro get
  have hlatest : ∀ a, Latest id get ["h1", "h2"] a → a = { version := 201 } := by
    rintro a ⟨hash, ⟨hmem, hmax⟩, rfl⟩
    rcases List.mem_pair.mp hmem with rfl | rfl
    · exact absurd (hmax "h2" (by decide)) (by decide)
    · rfl
  have hnodes : ∀ hash ∈ ["h1", "h2"], ∃ d, get hash = some d ∧ 0 ≤ (id d).version := by decide
  refine (agree_iff_latest_unique hnodes none (some { version := 200 }) (by simp) ?_).mpr
    ⟨?_, Or.inr ?_⟩
  · intro c hc cfg hcfg
    cases hc
    rw [hlatest cfg hcfg]
    decide
  · intro a b ha hb
    rw [hlatest a ha, hlatest b hb]
  · intro a ha
    rw [hlatest a ha]
    decide

/-- Two updates of version 200 that have both been stored as version 201: the servers that list
them in different orders stay with different configs. -/
theorem tied_versions_disagree :
    let cfg (name : String) : ServiceConfig :=
      { namespaces := .table (AList.singleton name (some { name := name })), version := 201 }
    let get : String → Option ServiceConfig := fun hash =>
      if hash = "h1" then some (cfg "test_new") else some (cfg "test_newer")
    let z : ZkConfigPersister := ⟨false, "", ∅, false⟩
    (∀ hash ∈ ["h1", "h2"], ∃ d, get hash = some d ∧ 0 ≤ d.version) ∧
    (currentConfigEventListener id get ["h1", "h2"] z).bind (readUpdatedConfig none) =
        some (cfg "test_newer") ∧
      (currentConfigEventListener id get ["h2", "h1"] z).bind (readUpdatedConfig none) =
        some (cfg "test_new") ∧
      ¬ ∀ order₁ order₂, List.Perm order₁ ["h1", "h2"] → List.Perm order₂ ["h1", "h2"] → ∀ z₁ z₂,
        ∃ z₁' z₂', currentConfigEventListener id get order₁ z₁ = some z₁' ∧
          currentConfigEventListener id get order₂ z₂ = some z₂' ∧ Agree none none z₁' z₂' := by
  intro cfg get z
  have h12 : (currentConfigEventListener id get ["h1", "h2"] z).bind (readUpdatedConfig none) =
      some (cfg "test_newer") := by decide
  have h21 : (currentConfigEventListener id get ["h2", "h1"] z).bind (readUpdatedConfig none) =
      some (cfg "test_new") := by decide
  refine ⟨?_, h12, h21, ?_⟩
  · intro hash hh
    rcases List.mem_pair.mp hh with rfl | rfl
    · exact ⟨cfg "test_new", rfl, by decide⟩
    · exact ⟨cfg "test_newer", rfl, by decide⟩
  · intro hall
    obtain ⟨z₁, z₂, hz₁, hz₂, hagree⟩ :=
      hall ["h1", "h2"] ["h2", "h1"] (.refl _) (.swap _ _ _) z z
    rw [hz₁] at h12
    rw [hz₂] at h21
    have heq : some (cfg "test_newer") = some (cfg "test_new") :=
      h12.symm.trans (hagree.applied.trans h21)
    revert heq
    decide

end QuotaService.Server
