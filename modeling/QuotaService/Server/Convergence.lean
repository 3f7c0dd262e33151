import QuotaService.Container.Reconcile
import QuotaService.Server.ZkWatch

/-! Servers that share the configs in Zookeeper. On each of them the persister's watch publishes the
newest config and notifies the config listener, which reads it, lets some time pass, and gives it to
the bucket container, while lookups go on. When there is nothing left to be done, all of them hold the
buckets of one config. -/
namespace QuotaService.Convergence
open Config Container Server ZkWatch

/-- A server. A notification is pending in the channel of the persister, which has room for one, and
the config listener is about to apply the config that it has read. -/
structure Node (F B : Type) where
  started : Bool
  notified : Bool
  reading : Option ServiceConfig
  server : Server F B

/-- The channel of a persister is that of its node; `zk` does not empty its own. -/
structure Cluster (ι D F B : Type) where
  zk : ZkWatch.State ι D
  nodes : ι → Node F B

inductive Action (ι D : Type)
  | zk (a : ZkWatch.Action ι D)
  | start (i : ι)
  | read (i : ι)
  | apply (i : ι) (order : List String)
  | find (i : ι) («namespace» bucketName : String)

section Steps
variable {ι D F B : Type} [DecidableEq ι] (unmarshal : D → ServiceConfig) (fac : BucketFactory F B)

def launched (factory : ι → F) : Cluster ι D F B :=
  ⟨ZkWatch.launched, fun i => ⟨false, false, none, Container.empty (factory i)⟩⟩

def Cluster.withNode (s : Cluster ι D F B) (i : ι) (node : Node F B) : Cluster ι D F B :=
  { s with nodes := Function.update s.nodes i node }

/-- The node that a step of Zookeeper or of a watch notifies. -/
def notifies : ZkWatch.Action ι D → Option ι
  | .publish i => some i
  | _ => none

/-- One step. A server that finds no config when it is notified comes to an end, so no step is made of
that. -/
def step (s : Cluster ι D F B) : Action ι D → Option (Cluster ι D F B)
  | .zk a => (ZkWatch.step unmarshal s.zk a).map fun zk => ⟨zk, fun i =>
      if notifies a = some i then { s.nodes i with notified := true } else s.nodes i⟩
  -- `Start` takes a notification and reads the config itself, before it starts the listener
  | .start i =>
    if (s.nodes i).started = false ∧ (s.nodes i).notified then
      ((s.zk.servers i).persister.readPersistedConfig).map fun cfg =>
        s.withNode i { s.nodes i with started := true, notified := false, reading := some cfg }
    else none
  | .read i =>
    if (s.nodes i).started ∧ (s.nodes i).notified ∧ (s.nodes i).reading = none then
      ((s.zk.servers i).persister.readPersistedConfig).map fun cfg =>
        s.withNode i { s.nodes i with notified := false, reading := some cfg }
    else none
  | .apply i order => (s.nodes i).reading.bind fun cfg =>
    (Container.step fac (s.nodes i).server (.update order cfg)).map fun server =>
      s.withNode i { s.nodes i with reading := none, server := server }
  | .find i ns bucketName =>
    (Container.step fac (s.nodes i).server (.find ns bucketName)).map fun server =>
      s.withNode i { s.nodes i with server := server }

/-- The versions that are written are distinct and not negative. -/
def Apart (s : Cluster ι D F B) : Action ι D → Prop
  | .zk a => Distinct unmarshal s.zk a
  | _ => True

instance decidableApart (s : Cluster ι D F B) : ∀ a, Decidable (Apart unmarshal s a)
  | .zk a => inferInstanceAs (Decidable (Distinct unmarshal s.zk a))
  | .start _ | .read _ | .apply _ _ | .find _ _ _ => isTrue trivial

/-- The configs that are written are as `updateConfig` leaves them. -/
def Proper : Action ι D → Prop
  | .zk (.create _ data) => Normalised (unmarshal data)
  | _ => True

def Written (s : Cluster ι D F B) (a : Action ι D) : Prop := Apart unmarshal s a ∧ Proper unmarshal a

/-- Zookeeper and its watches are quiet, and no listener has anything to do. -/
structure Settled (s : Cluster ι D F B) : Prop where
  quiet : Quiet s.zk
  notified : ∀ i, (s.nodes i).notified = false
  reading : ∀ i, (s.nodes i).reading = none

end Steps

section Published
variable {ι D : Type} [DecidableEq ι] {unmarshal : D → ServiceConfig} {z z' : ZkWatch.State ι D}

/-- What has been written, as the persisters return it. -/
def FromLog (unmarshal : D → ServiceConfig) (log : List (ZkWatch.Event D)) (cfg : ServiceConfig) :
    Prop :=
  ∃ e ∈ ZkWatch.nodes log, cfg = cloneConfig (unmarshal e.2)

/-- What a persister has for its current config is in the log. -/
def Published (unmarshal : D → ServiceConfig) (z : ZkWatch.State ι D) : Prop :=
  ∀ i cfg, (z.servers i).persister.readPersistedConfig = some cfg → FromLog unmarshal z.log cfg

theorem persister_withLoop (z : ZkWatch.State ι D) (i j : ι) (loop : Loop) :
    ((z.withLoop i loop).servers j).persister = (z.servers j).persister := by
  unfold ZkWatch.State.withLoop
  by_cases hj : j = i
  · subst hj
    simp
  · simp [hj]

/-- What a step does to the log and to the persisters. -/
structure Advanced (z : ZkWatch.State ι D) (a : ZkWatch.Action ι D) (z' : ZkWatch.State ι D) :
    Prop where
  log : ∃ more, z'.log = z.log ++ more ∧
    ∀ e ∈ ZkWatch.nodes more, a = .create e.1 e.2
  persisters : ∀ i, (z'.servers i).persister = (z.servers i).persister ∨
    (notifies a = some i ∧ z'.log = z.log ∧ ∃ watch scan,
      (z.servers i).loop = .scanning watch [] scan ∧
      (z'.servers i).persister.current = scan.configs.lookup scan.latestHash)

theorem advanced_withLoop (z : ZkWatch.State ι D) (a : ZkWatch.Action ι D) (i : ι) (loop : Loop) :
    Advanced z a (z.withLoop i loop) :=
  ⟨⟨[], (List.append_nil _).symm, List.forall_mem_nil _⟩,
    fun j => Or.inl (persister_withLoop z i j loop)⟩

theorem step_advanced {a : ZkWatch.Action ι D} (hs : ZkWatch.step unmarshal z a = some z') :
    Advanced z a z' := by
  cases a with
  | create hash data =>
    simp only [ZkWatch.step] at hs
    split_ifs at hs
    cases hs
    exact ⟨⟨_, rfl, by simp [ZkWatch.nodes]⟩, fun i => Or.inl rfl⟩
  | set hash =>
    simp only [ZkWatch.step] at hs
    split_ifs at hs
    cases hs
    exact ⟨⟨_, rfl, by simp [ZkWatch.nodes]⟩, fun i => Or.inl rfl⟩
  | sync i view =>
    simp only [ZkWatch.step] at hs
    split_ifs at hs
    cases hs
    refine ⟨⟨[], (List.append_nil _).symm, List.forall_mem_nil _⟩, fun j => Or.inl ?_⟩
    by_cases hj : j = i
    · subst hj
      simp
    · simp [hj]
  | fire i =>
    simp only [ZkWatch.step] at hs
    split at hs
    · split_ifs at hs
      cases hs
      exact advanced_withLoop z _ i _
    · cases hs
  | getW i =>
    simp only [ZkWatch.step] at hs
    split at hs
    · cases hs
      exact advanced_withLoop z _ i _
    · cases hs
  | children i order =>
    simp only [ZkWatch.step] at hs
    split at hs
    · split_ifs at hs
      cases hs
      exact advanced_withLoop z _ i _
    · cases hs
  | get i =>
    simp only [ZkWatch.step] at hs
    split at hs
    · obtain ⟨scan, -, rfl⟩ := Option.map_eq_some_iff.mp hs
      exact advanced_withLoop z _ i _
    · cases hs
  | publish i =>
    simp only [ZkWatch.step] at hs
    split at hs
    · rename_i watch scan hloop
      cases hs
      refine ⟨⟨[], (List.append_nil _).symm, List.forall_mem_nil _⟩, fun j => ?_⟩
      by_cases hj : j = i
      · subst hj
        refine Or.inr ⟨rfl, rfl, watch, scan, hloop, ?_⟩
        -- the type of what is looked up depends on the hash, so the server is rewritten as a whole
        change (Function.update z.servers j _ j).persister.current = _
        rw [Function.update_self]
        rfl
      · exact Or.inl (by simp [hj])
    · cases hs
  | fail i =>
    cases hs
    exact advanced_withLoop z _ i _

theorem FromLog.append {log : List (ZkWatch.Event D)} {cfg : ServiceConfig}
    (h : FromLog unmarshal log cfg) (more : List (ZkWatch.Event D)) :
    FromLog unmarshal (log ++ more) cfg := by
  obtain ⟨e, he, hcfg⟩ := h
  refine ⟨e, ?_, hcfg⟩
  rw [nodes_append]
  exact List.mem_append_left _ he

/-- What a listener has scanned is in the log. -/
theorem scanned_from_log {log : List (ZkWatch.Event D)} {done : List String} {scan : Scan}
    (hdone : ∀ hash ∈ done, hash ∈ ZkWatch.children log)
    (hscan : done.foldlM (scanChild unmarshal (ZkWatch.get log)) ⟨∅, 0, ""⟩ = some scan)
    {hash : String} {cfg : ServiceConfig} (hlookup : scan.configs.lookup hash = some cfg) :
    ∃ e ∈ ZkWatch.nodes log, cfg = unmarshal e.2 := by
  have hget : ∀ hash ∈ done, ∃ d, ZkWatch.get log hash = some d := fun hash hmem =>
    (exists_get (hdone hash hmem)).imp fun _ => And.left
  obtain ⟨configs, hconfigs, hscan'⟩ := foldlM_scanChild unmarshal hget
  cases hscan.symm.trans hscan'
  rw [hconfigs] at hlookup
  split_ifs at hlookup with hmem
  cases hlookup
  obtain ⟨d, hd, hnode⟩ := exists_get (hdone hash hmem)
  exact ⟨(hash, d), hnode, by simp [node, hd]⟩

theorem step_published (hinv : ZkWatch.Inv unmarshal z) (h : Published unmarshal z)
    {a : ZkWatch.Action ι D} (hs : ZkWatch.step unmarshal z a = some z') :
    Published unmarshal z' := by
  obtain ⟨⟨more, hmore, -⟩, hpersisters⟩ := step_advanced hs
  intro i cfg hcfg
  rcases hpersisters i with hsame | ⟨-, hlog, watch, scan, hloop, hcurrent⟩
  · rw [hsame] at hcfg
    rw [hmore]
    exact (h i cfg hcfg).append more
  · have hscanning := hinv.loops i
    simp only [LoopInv, hloop, List.append_nil] at hscanning
    obtain ⟨seen, done, -, -, hperm, hscan⟩ := hscanning
    have hdone : ∀ hash ∈ done, hash ∈ ZkWatch.children z.log := by
      intro hash hmem
      have hchild := children_take_subset (le_max_left seen z.log.length) (hperm.mem_iff.mp hmem)
      rwa [List.take_of_length_le (le_max_right seen z.log.length)] at hchild
    obtain ⟨cfg', hcfg', rfl⟩ := Option.map_eq_some_iff.mp hcfg
    rw [hcurrent] at hcfg'
    obtain ⟨e, he, rfl⟩ := scanned_from_log hdone hscan hcfg'
    exact ⟨e, hlog ▸ he, rfl⟩

end Published

section Nodes
variable {ι D F B : Type} {unmarshal : D → ServiceConfig} {fac : BucketFactory F B}
  {s s' : Cluster ι D F B}

/-- A node is not behind the version: it has applied it, is about to apply it, or will be made to
read it. -/
def CatchesUp (node : Node F B) (version : ℤ) : Prop :=
  node.notified = true ∨
    ∃ c, (node.reading = some c ∨ node.server.cfgs = some c) ∧ version ≤ c.version

structure NodeInv (unmarshal : D → ServiceConfig) (z : ZkWatch.State ι D) (i : ι) (node : Node F B) :
    Prop where
  container : Container.Inv node.server
  unstarted : node.started = false → node.reading = none ∧ node.server.cfgs = none
  reading : ∀ cfg, node.reading = some cfg → FromLog unmarshal z.log cfg
  applied : ∀ cfg, node.server.cfgs = some cfg → FromLog unmarshal z.log cfg
  current : ∀ cfg, (z.servers i).persister.readPersistedConfig = some cfg →
    CatchesUp node cfg.version

structure Inv (unmarshal : D → ServiceConfig) (s : Cluster ι D F B) : Prop where
  watch : ZkWatch.Inv unmarshal s.zk
  normalised : ∀ e ∈ ZkWatch.nodes s.zk.log, Normalised (unmarshal e.2)
  published : Published unmarshal s.zk
  nodes : ∀ i, NodeInv unmarshal s.zk i (s.nodes i)

theorem launched_inv (factory : ι → F) : Inv unmarshal (launched factory : Cluster ι D F B) := by
  refine ⟨ZkWatch.launched_inv, List.forall_mem_nil _, fun i cfg hcfg => ?_, fun i => ?_⟩
  · cases hcfg
  · refine ⟨empty_inv (factory i), fun _ => ⟨rfl, rfl⟩, fun cfg hcfg => ?_, fun cfg hcfg => ?_,
      fun cfg hcfg => ?_⟩ <;> cases hcfg

theorem FromLog.normalised {log : List (ZkWatch.Event D)} {cfg : ServiceConfig}
    (h : FromLog unmarshal log cfg) (hlog : ∀ e ∈ ZkWatch.nodes log, Normalised (unmarshal e.2)) :
    Normalised cfg := by
  obtain ⟨e, he, rfl⟩ := h
  obtain ⟨raw, sc, hraw, hsc | hsc⟩ := hlog e he
  · exact ⟨raw, sc, hraw, Or.inr (by rw [hsc])⟩
  · exact ⟨raw, sc, hraw, Or.inr (by rw [hsc, cloneConfig_idem])⟩

section Preservation
variable [DecidableEq ι]

/-- What one node does concerns the others not at all. -/
theorem Inv.withNode (h : Inv unmarshal s) {i : ι} {node : Node F B}
    (hnode : NodeInv unmarshal s.zk i node) : Inv unmarshal (s.withNode i node) := by
  refine ⟨h.watch, h.normalised, h.published, fun j => ?_⟩
  unfold Cluster.withNode
  by_cases hj : j = i
  · subst hj
    simpa using hnode
  · simpa [hj] using h.nodes j

theorem zk_normalised (h : Inv unmarshal s) {a : ZkWatch.Action ι D}
    (hwritten : Written unmarshal s (.zk a)) {zk : ZkWatch.State ι D}
    (hs : ZkWatch.step unmarshal s.zk a = some zk) :
    ∀ e ∈ ZkWatch.nodes zk.log, Normalised (unmarshal e.2) := by
  obtain ⟨more, hmore, hcreated⟩ := (step_advanced hs).log
  intro e he
  rw [hmore, nodes_append] at he
  rcases List.mem_append.mp he with hold | hnew
  · exact h.normalised e hold
  · have hproper := hwritten.2
    rwa [hcreated e hnew] at hproper

/-- A persister that moves on notifies its node. -/
theorem zk_inv (h : Inv unmarshal s) {a : ZkWatch.Action ι D}
    (hwritten : Written unmarshal s (.zk a)) (hs : step unmarshal fac s (.zk a) = some s') :
    Inv unmarshal s' := by
  simp only [step] at hs
  obtain ⟨zk, hzk, rfl⟩ := Option.map_eq_some_iff.mp hs
  refine ⟨ZkWatch.step_inv h.watch hwritten.1 hzk, zk_normalised h hwritten hzk,
    step_published h.watch h.published hzk, fun i => ?_⟩
  obtain ⟨⟨more, hmore, -⟩, hpersisters⟩ := step_advanced hzk
  have hnode := h.nodes i
  have hnode' : NodeInv unmarshal zk i { s.nodes i with
      notified := (s.nodes i).notified || decide (notifies a = some i) } := by
    refine ⟨hnode.container, hnode.unstarted, fun cfg hcfg => ?_, fun cfg hcfg => ?_,
      fun cfg hcfg => ?_⟩
    · rw [hmore]
      exact (hnode.reading cfg hcfg).append more
    · rw [hmore]
      exact (hnode.applied cfg hcfg).append more
    · rcases hpersisters i with hsame | ⟨hnotifies, -⟩
      · rw [hsame] at hcfg
        rcases hnode.current cfg hcfg with hnotified | hcaught
        · exact Or.inl (by simp [hnotified])
        · exact Or.inr hcaught
      · exact Or.inl (by simp [hnotifies])
  dsimp only
  split_ifs with hnotifies
  · simpa [hnotifies] using hnode'
  · simpa [hnotifies] using hnode'

theorem start_inv (h : Inv unmarshal s) {i : ι} (hs : step unmarshal fac s (.start i) = some s') :
    Inv unmarshal s' := by
  simp only [step] at hs
  split_ifs at hs
  obtain ⟨cfg, hcfg, rfl⟩ := Option.map_eq_some_iff.mp hs
  have hnode := h.nodes i
  refine h.withNode ⟨hnode.container, fun hstarted => ?_, fun c hc => ?_, hnode.applied,
    fun c hc => ?_⟩
  · cases hstarted
  · cases hc
    exact h.published i cfg hcfg
  · cases hcfg.symm.trans hc
    exact Or.inr ⟨cfg, Or.inl rfl, le_rfl⟩

theorem read_inv (h : Inv unmarshal s) {i : ι} (hs : step unmarshal fac s (.read i) = some s') :
    Inv unmarshal s' := by
  simp only [step] at hs
  split_ifs at hs with hlistens
  obtain ⟨cfg, hcfg, rfl⟩ := Option.map_eq_some_iff.mp hs
  have hnode := h.nodes i
  refine h.withNode ⟨hnode.container, fun hstarted => ?_, fun c hc => ?_, hnode.applied,
    fun c hc => ?_⟩
  · cases hlistens.1.symm.trans hstarted
  · cases hc
    exact h.published i cfg hcfg
  · cases hcfg.symm.trans hc
    exact Or.inr ⟨cfg, Or.inl rfl, le_rfl⟩

theorem apply_inv (h : Inv unmarshal s) {i : ι} {order : List String}
    (hs : step unmarshal fac s (.apply i order) = some s') : Inv unmarshal s' := by
  simp only [step] at hs
  obtain ⟨c, hreading, hs⟩ := Option.bind_eq_some_iff.mp hs
  obtain ⟨server, hserver, rfl⟩ := Option.map_eq_some_iff.mp hs
  have hnode := h.nodes i
  have hc : FromLog unmarshal s.zk.log c := hnode.reading c hreading
  have hnorm : Normalised c := hc.normalised h.normalised
  have hcontainer : Container.Inv server := by
    refine Container.step_inv hnode.container (fun o newConfig heq => ?_) hserver
    cases heq
    exact hnorm
  have hcurrent := hnode.current
  have hunstarted : ∀ {server' : Server F B}, (s.nodes i).started = false →
      (none : Option ServiceConfig) = none ∧ server'.cfgs = none := fun hstarted => by
    cases hreading.symm.trans (hnode.unstarted hstarted).1
  rcases step_update_cases (stable_true fac) hnode.container trivial hnorm hserver with
    ⟨c', hc', hstale, rfl⟩ | ⟨hnewer, bc', rfl, -⟩
  · refine h.withNode ⟨hcontainer, hunstarted, fun _ hnone => absurd hnone nofun, hnode.applied,
      fun cfg hcfg => ?_⟩
    rcases hcurrent cfg hcfg with hnotified | ⟨d, hd | hd, hle⟩
    · exact Or.inl hnotified
    · cases hreading.symm.trans hd
      exact Or.inr ⟨c', Or.inr hc', hle.trans hstale⟩
    · exact Or.inr ⟨d, Or.inr hd, hle⟩
  · refine h.withNode ⟨hcontainer, hunstarted, fun _ hnone => absurd hnone nofun,
      fun cfg hcfg => ?_, fun cfg hcfg => ?_⟩
    · cases hcfg
      exact hc
    · rcases hcurrent cfg hcfg with hnotified | ⟨d, hd | hd, hle⟩
      · exact Or.inl hnotified
      · cases hreading.symm.trans hd
        exact Or.inr ⟨c, Or.inr rfl, hle⟩
      · exact Or.inr ⟨c, Or.inr rfl, hle.trans (hnewer d hd).le⟩

theorem find_inv (h : Inv unmarshal s) {i : ι} {ns bucketName : String}
    (hs : step unmarshal fac s (.find i ns bucketName) = some s') : Inv unmarshal s' := by
  simp only [step] at hs
  obtain ⟨server, hserver, rfl⟩ := Option.map_eq_some_iff.mp hs
  have hnode := h.nodes i
  have hcontainer : Container.Inv server := by
    refine Container.step_inv hnode.container (fun o newConfig heq => ?_) hserver
    cases heq
  cases hserver
  exact h.withNode ⟨hcontainer, hnode.unstarted, hnode.reading, hnode.applied, hnode.current⟩

theorem step_inv (h : Inv unmarshal s) {a : Action ι D} (hwritten : Written unmarshal s a)
    (hs : step unmarshal fac s a = some s') : Inv unmarshal s' := by
  cases a with
  | zk a => exact zk_inv h hwritten hs
  | start i => exact start_inv h hs
  | read i => exact read_inv h hs
  | apply i order => exact apply_inv h hs
  | find i ns bucketName => exact find_inv h hs

end Preservation

/-- A node that has nothing to do has applied the newest config. -/
theorem applied_of_settled (h : Inv unmarshal s) (hsettled : Settled s) (i : ι) {e : String × D}
    (he : e ∈ ZkWatch.nodes s.zk.log)
    (hmax : ∀ e' ∈ ZkWatch.nodes s.zk.log, (unmarshal e'.2).version ≤ (unmarshal e.2).version) :
    (s.nodes i).server.cfgs = some (cloneConfig (unmarshal e.2)) := by
  obtain ⟨watch, hloop, hpending⟩ := hsettled.quiet.2 i
  have hcurrent : (s.zk.servers i).persister.current = some (unmarshal e.2) :=
    current_of_quiet h.watch hsettled.quiet.1 hloop hpending he hmax
  have hread : (s.zk.servers i).persister.readPersistedConfig =
      some (cloneConfig (unmarshal e.2)) := congrArg (Option.map cloneConfig) hcurrent
  rcases (h.nodes i).current _ hread with hnotified | ⟨c, hc | hc, hle⟩
  · simp [hsettled.notified i] at hnotified
  · simp [hsettled.reading i] at hc
  · -- what it has applied was written, and there is no other config of that version
    obtain ⟨e', he', rfl⟩ := (h.nodes i).applied c hc
    have hversion : (unmarshal e'.2).version = (unmarshal e.2).version :=
      le_antisymm (hmax e' he') hle
    cases h.watch.distinct e' he' e he hversion
    exact hc

/-- Two containers hold the same namespaces, and what they both hold is the same. -/
structure Alike (bc₁ bc₂ : BucketContainer F B) : Prop where
  names : ∀ name, (bc₁.namespaces.get? name).isSome = (bc₂.namespaces.get? name).isSome
  global : bc₁.defaultBucket.map Bucket.cfg = bc₂.defaultBucket.map Bucket.cfg
  namespaces : ∀ name ns₁ ns₂, bc₁.namespaces.get? name = some ns₁ →
    bc₂.namespaces.get? name = some ns₂ → ns₁.cfg = ns₂.cfg ∧
      ns₁.defaultBucket.map Bucket.cfg = ns₂.defaultBucket.map Bucket.cfg ∧
      ∀ n b₁ b₂, ns₁.buckets.lookup n = some b₁ → ns₂.buckets.lookup n = some b₂ →
        b₁.cfg = b₂.cfg ∧ b₁.dynamic = b₂.dynamic

/-- A bucket that two servers have under one name is static on both, or a dynamic bucket of one
template. -/
theorem alike_of_holds {nsCfg : NamespaceConfig} {ns₁ ns₂ : Namespace B} (h₁ : Holds nsCfg ns₁)
    (h₂ : Holds nsCfg ns₂) {n : String} {b₁ b₂ : Bucket B} (hb₁ : ns₁.buckets.lookup n = some b₁)
    (hb₂ : ns₂.buckets.lookup n = some b₂) : b₁.cfg = b₂.cfg ∧ b₁.dynamic = b₂.dynamic := by
  cases hget : nsCfg.buckets.get n with
  | none =>
    obtain ⟨hdynamic₁, htemplate₁⟩ := h₁.dynamic n b₁ hb₁ hget
    obtain ⟨hdynamic₂, htemplate₂⟩ := h₂.dynamic n b₂ hb₂ hget
    refine ⟨?_, hdynamic₁.trans hdynamic₂.symm⟩
    exact Option.some_inj.mp (htemplate₁.symm.trans htemplate₂)
  | some c =>
    obtain ⟨b₁', hb₁', hstatic₁, hcfg₁⟩ := h₁.static n c hget
    obtain ⟨b₂', hb₂', hstatic₂, hcfg₂⟩ := h₂.static n c hget
    cases hb₁.symm.trans hb₁'
    cases hb₂.symm.trans hb₂'
    refine ⟨?_, hstatic₁.trans hstatic₂.symm⟩
    exact Option.some_inj.mp (hcfg₁.trans hcfg₂.symm)

theorem names_of_reconciled {cfg : ServiceConfig} {bc : BucketContainer F B}
    (h : Reconciled cfg bc) (name : String) :
    (bc.namespaces.get? name).isSome = (cfg.namespaces.get name).isSome := by
  cases hget : cfg.namespaces.get name with
  | none =>
    cases hns : bc.namespaces.get? name with
    | none => rfl
    | some ns =>
      obtain ⟨nsCfg, hcfg, -⟩ := h.namespaces name ns hns
      simp [hget] at hcfg
  | some c =>
    obtain ⟨ns, hns⟩ := h.keys name c hget
    rw [hns]
    rfl

theorem alike_of_reconciled {cfg : ServiceConfig} {bc₁ bc₂ : BucketContainer F B}
    (h₁ : Reconciled cfg bc₁) (h₂ : Reconciled cfg bc₂) : Alike bc₁ bc₂ := by
  refine ⟨fun name => ?_, h₁.global.trans h₂.global.symm, fun name ns₁ ns₂ hns₁ hns₂ => ?_⟩
  · rw [names_of_reconciled h₁, names_of_reconciled h₂]
  · obtain ⟨nsCfg, hcfg₁, hholds₁⟩ := h₁.namespaces name ns₁ hns₁
    obtain ⟨nsCfg', hcfg₂, hholds₂⟩ := h₂.namespaces name ns₂ hns₂
    cases hcfg₁.symm.trans hcfg₂
    exact ⟨hholds₁.cfg.trans hholds₂.cfg.symm, hholds₁.default.trans hholds₂.default.symm,
      fun n b₁ b₂ hb₁ hb₂ => alike_of_holds hholds₁ hholds₂ hb₁ hb₂⟩

theorem reconciled_of_applied {server : Server F B} (h : Container.Inv server) {cfg : ServiceConfig}
    (hcfg : server.cfgs = some cfg) : Reconciled cfg server.bucketContainer := by
  cases h with
  | fresh cfgs =>
    rw [cfgs] at hcfg
    cases hcfg
  | running config cfgs reconciled =>
    cases cfgs.symm.trans hcfg
    exact reconciled

end Nodes

/-- In every run in which configs of distinct versions are written, however the watches, the
notifications, the updates and the lookups of the servers interleave: when there is nothing left to
be done, every server holds what the newest config says, and so all servers hold the same. -/
theorem cluster_converges {ι D F B : Type} [DecidableEq ι] (unmarshal : D → ServiceConfig)
    (fac : BucketFactory F B) (factory : ι → F) (actions : List (Action ι D)) (s : Cluster ι D F B)
    (hwritten : Machine.Along (step unmarshal fac) (Written unmarshal) (launched factory) actions)
    (hrun : Machine.run (step unmarshal fac) (launched factory) actions = some s)
    (hsettled : Settled s) (e : String × D) (he : e ∈ ZkWatch.nodes s.zk.log)
    (hmax : ∀ e' ∈ ZkWatch.nodes s.zk.log, (unmarshal e'.2).version ≤ (unmarshal e.2).version) :
    (∀ i, (s.nodes i).server.cfgs = some (cloneConfig (unmarshal e.2)) ∧
      Reconciled (cloneConfig (unmarshal e.2)) (s.nodes i).server.bucketContainer) ∧
    ∀ i j, Alike (s.nodes i).server.bucketContainer (s.nodes j).server.bucketContainer := by
  have hinv : Inv unmarshal s := Machine.run_induction (Inv unmarshal)
    (fun _ _ _ h hw hs => step_inv h hw hs) (launched_inv factory) hwritten hrun
  have happlied : ∀ i, (s.nodes i).server.cfgs = some (cloneConfig (unmarshal e.2)) := fun i =>
    applied_of_settled hinv hsettled i he hmax
  have hreconciled : ∀ i, Reconciled (cloneConfig (unmarshal e.2))
      (s.nodes i).server.bucketContainer := fun i =>
    reconciled_of_applied (hinv.nodes i).container (happlied i)
  exact ⟨fun i => ⟨happlied i, hreconciled i⟩,
    fun i j => alike_of_reconciled (hreconciled i) (hreconciled j)⟩

/-- Two servers: while the first lets the first config wait, the second is written, and its
notification falls together with the pending one; a lookup makes a dynamic bucket on one of them. -/
theorem cluster_converges_lagging :
    let a := applyNamespaceDefaults "a" { dynamicBucketTemplate := some {} }
    let b := applyNamespaceDefaults "b" {}
    let first : ServiceConfig :=
      { namespaces := .table (AList.singleton "a" (some a)), version := 1 }
    let second : ServiceConfig := { first with
      namespaces := .table ((AList.singleton "a" (some a)).insert "b" (some b)), version := 2 }
    let actions : List (Action (Fin 2) ServiceConfig) :=
      [.zk (.create "1" first), .zk (.set "1"), .zk (.sync 0 2), .zk (.getW 0),
        .zk (.children 0 ["1"]), .zk (.get 0), .zk (.publish 0), .start 0, .zk (.create "2" second),
        .zk (.set "2"), .zk (.sync 0 4), .zk (.fire 0), .zk (.getW 0), .zk (.children 0 ["2", "1"]),
        .zk (.get 0), .zk (.get 0), .zk (.publish 0), .apply 0 [], .find 0 "a" "x", .read 0,
        .apply 0 ["a"], .zk (.sync 1 4), .zk (.getW 1), .zk (.children 1 ["1", "2"]), .zk (.get 1),
        .zk (.get 1), .zk (.publish 1), .start 1, .apply 1 []]
    ∃ s, Machine.run (step id memoryFactory) (launched fun _ => ()) actions = some s ∧ Settled s ∧
      ∀ i, (s.nodes i).server.cfgs = some (cloneConfig second) := by
  intro a b first second actions
  obtain ⟨s, hrun, hwriters, hloops, hlog, hnodes⟩ : ∃ s,
      Machine.run (step id memoryFactory) (launched fun _ => ()) actions = some s ∧
      (s.zk.writers = [] ∧ (∀ i, (s.zk.servers i).loop = .waiting 4) ∧
        s.zk.log = [.create "1" first, .set, .create "2" second, .set] ∧
        ∀ i, (s.nodes i).notified = false ∧ (s.nodes i).reading = none) :=
    Machine.exists_run (by decide)
  have hsettled : Settled s := by
    refine ⟨⟨hwriters, fun i => ⟨4, hloops i, ?_⟩⟩, fun i => (hnodes i).1, fun i => (hnodes i).2⟩
    rw [hlog]
    decide
  have hapart : Machine.Along (step id memoryFactory) (Apart id) (launched fun _ => ()) actions := by
    decide
  have hfirst : Normalised first := ⟨first, first, rfl, Or.inl rfl⟩
  have hsecond : Normalised second := ⟨second, second, rfl, Or.inl rfl⟩
  have hproper : ∀ a ∈ actions, Proper id a := by
    simpa [actions, Proper] using ⟨hfirst, hsecond⟩
  have hwritten : Machine.Along (step id memoryFactory) (Written id) (launched fun _ => ()) actions :=
    Machine.along_and hapart (Machine.along_of_forall (fun a ha _ => hproper a ha) _)
  refine ⟨s, hrun, hsettled, fun i => ?_⟩
  exact ((cluster_converges id memoryFactory (fun _ => ()) actions s hwritten hrun hsettled
    ("2", second) (by rw [hlog]; decide) (by rw [hlog]; decide)).1 i).1

end QuotaService.Convergence
