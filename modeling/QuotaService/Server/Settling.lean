import Mathlib.Data.Fintype.EquivFin
import QuotaService.Lib.Progress
import QuotaService.Server.Convergence

/-! Servers that share the configs in Zookeeper can always come to rest: no state that a run leads to
is one in which a watch, a notification or a listener waits for something that does not come. -/
namespace QuotaService.Convergence
open Config Container Server ZkWatch

variable {ι D F B : Type} {unmarshal : D → ServiceConfig} {fac : BucketFactory F B}
  {s s' : Cluster ι D F B} {i j : ι}

/-- What a server does by itself, if nothing fails. -/
inductive Own (i : ι) : Action ι D → Prop
  | sync (view : ℕ) : Own i (.zk (.sync i view))
  | fire : Own i (.zk (.fire i))
  | getW : Own i (.zk (.getW i))
  | children (order : List String) : Own i (.zk (.children i order))
  | get : Own i (.zk (.get i))
  | publish : Own i (.zk (.publish i))
  | start : Own i (.start i)
  | read : Own i (.read i)
  | apply (order : List String) : Own i (.apply i order)

/-- What goes on when nothing is written and nothing fails: a writer that is under way sets the root. -/
inductive Onward : Action ι D → Prop
  | set (hash : String) : Onward (.zk (.set hash))
  | own (i : ι) {a : Action ι D} (own : Own i a) : Onward a

theorem Own.written {a : Action ι D} (h : Own i a) (s : Cluster ι D F B) : Written unmarshal s a := by
  cases h <;> exact ⟨trivial, trivial⟩

/-- The steps of one server leave the log, the writers and the other servers as they are. -/
structure Framed (i : ι) (s s' : Cluster ι D F B) : Prop where
  log : s'.zk.log = s.zk.log
  writers : s'.zk.writers = s.zk.writers
  others : ∀ j, j ≠ i → s'.zk.servers j = s.zk.servers j ∧ s'.nodes j = s.nodes j

theorem exists_newest (unmarshal : D → ServiceConfig) {l : List (String × D)} (hl : l ≠ []) :
    ∃ e ∈ l, ∀ e' ∈ l, (unmarshal e'.2).version ≤ (unmarshal e.2).version := by
  induction l with
  | nil => exact absurd rfl hl
  | cons e l ih =>
    by_cases hnil : l = []
    · exact ⟨e, List.mem_cons_self, by simp [hnil]⟩
    · obtain ⟨m, hm, hmax⟩ := ih hnil
      rcases le_total (unmarshal m.2).version (unmarshal e.2).version with hle | hle
      · refine ⟨e, List.mem_cons_self, List.forall_mem_cons.mpr ⟨le_rfl, fun e' he' => ?_⟩⟩
        exact (hmax e' he').trans hle
      · exact ⟨m, List.mem_cons_of_mem _ hm, List.forall_mem_cons.mpr ⟨hle, hmax⟩⟩

section Servers
variable [DecidableEq ι]

theorem framed_withNode (s : Cluster ι D F B) (i : ι) (node : Node F B) :
    Framed i s (s.withNode i node) := by
  refine ⟨rfl, rfl, fun j hj => ⟨rfl, ?_⟩⟩
  exact Function.update_of_ne hj node s.nodes

theorem framed_zk {zk : ZkWatch.State ι D} {srv : ZkServer} {node : ι → Node F B}
    (hzk : zk = { s.zk with servers := Function.update s.zk.servers i srv })
    (hnodes : ∀ j, j ≠ i → node j = s.nodes j) : Framed i s ⟨zk, node⟩ := by
  subst hzk
  refine ⟨rfl, rfl, fun j hj => ⟨?_, hnodes j hj⟩⟩
  exact Function.update_of_ne hj srv s.zk.servers

/-- A server's own step of its watch changes that server only. -/
theorem own_zk {z z' : ZkWatch.State ι D} {a : ZkWatch.Action ι D}
    (h : Own (ι := ι) (D := D) i (.zk a)) (hs : ZkWatch.step unmarshal z a = some z') :
    (∀ j, j ≠ i → notifies a ≠ some j) ∧
      ∃ srv, z' = { z with servers := Function.update z.servers i srv } := by
  cases h with
  | sync view =>
    simp only [ZkWatch.step] at hs
    split_ifs at hs
    cases hs
    exact ⟨fun j _ => (Option.some_ne_none j).symm, _, rfl⟩
  | fire =>
    simp only [ZkWatch.step] at hs
    split at hs
    · split_ifs at hs
      cases hs
      exact ⟨fun j _ => (Option.some_ne_none j).symm, _, rfl⟩
    · cases hs
  | getW =>
    simp only [ZkWatch.step] at hs
    split at hs
    · cases hs
      exact ⟨fun j _ => (Option.some_ne_none j).symm, _, rfl⟩
    · cases hs
  | children order =>
    simp only [ZkWatch.step] at hs
    split at hs
    · split_ifs at hs
      cases hs
      exact ⟨fun j _ => (Option.some_ne_none j).symm, _, rfl⟩
    · cases hs
  | get =>
    simp only [ZkWatch.step] at hs
    split at hs
    · obtain ⟨scan, -, rfl⟩ := Option.map_eq_some_iff.mp hs
      exact ⟨fun j _ => (Option.some_ne_none j).symm, _, rfl⟩
    · cases hs
  | publish =>
    simp only [ZkWatch.step] at hs
    split at hs
    · cases hs
      exact ⟨fun j hj heq => hj (Option.some_inj.mp heq).symm, _, rfl⟩
    · cases hs

theorem Own.framed {a : Action ι D} (h : Own i a) (hs : step unmarshal fac s a = some s') :
    Framed i s s' := by
  cases a with
  | zk a =>
    simp only [step] at hs
    obtain ⟨zk, hzk, rfl⟩ := Option.map_eq_some_iff.mp hs
    obtain ⟨hnotifies, srv, hsrv⟩ := own_zk h hzk
    exact framed_zk hsrv fun j hj => if_neg (hnotifies j hj)
  | start =>
    cases h
    simp only [step] at hs
    split_ifs at hs
    obtain ⟨cfg, -, rfl⟩ := Option.map_eq_some_iff.mp hs
    exact framed_withNode s i _
  | read =>
    cases h
    simp only [step] at hs
    split_ifs at hs
    obtain ⟨cfg, -, rfl⟩ := Option.map_eq_some_iff.mp hs
    exact framed_withNode s i _
  | apply =>
    cases h
    simp only [step] at hs
    obtain ⟨cfg, -, hs⟩ := Option.bind_eq_some_iff.mp hs
    obtain ⟨server, -, rfl⟩ := Option.map_eq_some_iff.mp hs
    exact framed_withNode s i _
  | find => cases h

/-- A server has got from the one state to the other by itself. -/
structure Comes (unmarshal : D → ServiceConfig) (fac : BucketFactory F B) (i : ι)
    (s s' : Cluster ι D F B) : Prop where
  leads : Machine.Leads (step unmarshal fac) (Own i) s s'
  inv : Inv unmarshal s'

theorem Comes.trans {s'' : Cluster ι D F B} (h : Comes unmarshal fac i s s')
    (h' : Comes unmarshal fac i s' s'') : Comes unmarshal fac i s s'' :=
  ⟨h.leads.trans h'.leads, h'.inv⟩

theorem Comes.log (h : Comes unmarshal fac i s s') : s'.zk.log = s.zk.log :=
  h.leads.invariant (fun s' => s'.zk.log = s.zk.log)
    (fun _ _ _ hlog hown hs => (hown.framed hs).log.trans hlog) rfl

theorem Comes.writers (h : Comes unmarshal fac i s s') : s'.zk.writers = s.zk.writers :=
  h.leads.invariant (fun s' => s'.zk.writers = s.zk.writers)
    (fun _ _ _ hwriters hown hs => (hown.framed hs).writers.trans hwriters) rfl

theorem Own.comes {a : Action ι D} (hown : Own i a) (h : Inv unmarshal s)
    (hs : step unmarshal fac s a = some s') : Comes unmarshal fac i s s' :=
  ⟨.of_step hown hs, step_inv h (hown.written s) hs⟩

section Watches
variable (fac)

/-- A step of its watch that a server can take. -/
theorem exists_zk (h : Inv unmarshal s) {a : ZkWatch.Action ι D} (hown : Own i (.zk a))
    {z : ZkWatch.State ι D} (hs : ZkWatch.step unmarshal s.zk a = some z) :
    ∃ s', Comes unmarshal fac i s s' ∧ s'.zk = z := by
  have hstep : step unmarshal fac s (.zk a) = some ⟨z, fun i =>
      if notifies a = some i then { s.nodes i with notified := true } else s.nodes i⟩ := by
    simp only [step, hs, Option.map_some]
  exact ⟨_, hown.comes h hstep, rfl⟩

theorem loop_withLoop (z : ZkWatch.State ι D) (i : ι) (loop : Loop) :
    ((z.withLoop i loop).servers i).loop = loop := by
  simp [ZkWatch.State.withLoop]

/-- The nodes that a server has listed are all there. -/
theorem scanning_waits (h : Inv unmarshal s) {watch : ℕ} {rest : List String} {scan : Scan}
    (hloop : (s.zk.servers i).loop = .scanning watch rest scan) :
    ∃ s', Comes unmarshal fac i s s' ∧ (s'.zk.servers i).loop = .waiting watch := by
  induction rest generalizing s scan with
  | nil =>
    obtain ⟨z, hz, hwaiting⟩ : ∃ z, ZkWatch.step unmarshal s.zk (.publish i) = some z ∧
        (z.servers i).loop = .waiting watch := by
      simp [ZkWatch.step, hloop]
    obtain ⟨s', hcomes, rfl⟩ := exists_zk fac h .publish hz
    exact ⟨s', hcomes, hwaiting⟩
  | cons hash rest ih =>
    have hscanning := h.watch.loops i
    simp only [LoopInv, hloop] at hscanning
    obtain ⟨seen, done, -, hseen, hperm, -⟩ := hscanning
    have hmem : hash ∈ ZkWatch.children (s.zk.log.take (s.zk.servers i).view) :=
      children_take_subset hseen (hperm.mem_iff.mp (by simp))
    obtain ⟨data, hget, -⟩ := exists_get hmem
    obtain ⟨scan', hscan'⟩ : ∃ scan', scanChild unmarshal
        (ZkWatch.get (s.zk.log.take (s.zk.servers i).view)) scan hash = some scan' := by
      simp [scanChild, hget]
    obtain ⟨z, hz, hloop₁⟩ : ∃ z, ZkWatch.step unmarshal s.zk (.get i) = some z ∧
        (z.servers i).loop = .scanning watch rest scan' := by
      simp [ZkWatch.step, hloop, hscan', loop_withLoop]
    obtain ⟨s₁, hcomes₁, rfl⟩ := exists_zk fac h .get hz
    obtain ⟨s₂, hcomes₂, hloop₂⟩ := ih hcomes₁.inv hloop₁
    exact ⟨s₂, hcomes₁.trans hcomes₂, hloop₂⟩

theorem watched_waits (h : Inv unmarshal s) {watch : ℕ}
    (hloop : (s.zk.servers i).loop = .watched watch) :
    ∃ s', Comes unmarshal fac i s s' ∧ (s'.zk.servers i).loop = .waiting watch := by
  obtain ⟨order, z, hz, hloop₁⟩ : ∃ order z,
      ZkWatch.step unmarshal s.zk (.children i order) = some z ∧
        (z.servers i).loop = .scanning watch order ⟨∅, 0, ""⟩ := by
    refine ⟨ZkWatch.children (s.zk.log.take (s.zk.servers i).view), ?_⟩
    simp [ZkWatch.step, hloop, loop_withLoop]
  obtain ⟨s₁, hcomes₁, rfl⟩ := exists_zk fac h (.children order) hz
  obtain ⟨s₂, hcomes₂, hloop₂⟩ := scanning_waits fac hcomes₁.inv hloop₁
  exact ⟨s₂, hcomes₁.trans hcomes₂, hloop₂⟩

/-- A server that has seen all of the log registers a watch for which nothing is pending. -/
theorem fired_quiet (h : Inv unmarshal s) (hloop : (s.zk.servers i).loop = .fired) :
    ∃ s', Comes unmarshal fac i s s' ∧
      ∃ watch, (s'.zk.servers i).loop = .waiting watch ∧ ¬ Pending s'.zk.log watch := by
  have hview : (s.zk.servers i).view ≤ s.zk.log.length := h.watch.views i
  obtain ⟨z₁, hz₁, hloop₁, hview₁⟩ : ∃ z,
      ZkWatch.step unmarshal s.zk (.sync i s.zk.log.length) = some z ∧
        (z.servers i).loop = .fired ∧ (z.servers i).view = s.zk.log.length := by
    simp [ZkWatch.step, hview, hloop]
  obtain ⟨s₁, hcomes₁, rfl⟩ := exists_zk fac h (.sync s.zk.log.length) hz₁
  obtain ⟨z₂, hz₂, hloop₂⟩ : ∃ z, ZkWatch.step unmarshal s₁.zk (.getW i) = some z ∧
      (z.servers i).loop = .watched s.zk.log.length := by
    simp [ZkWatch.step, hloop₁, hview₁, loop_withLoop]
  obtain ⟨s₂, hcomes₂, rfl⟩ := exists_zk fac hcomes₁.inv .getW hz₂
  obtain ⟨s₃, hcomes₃, hloop₃⟩ := watched_waits fac hcomes₂.inv hloop₂
  have hcomes := hcomes₁.trans (hcomes₂.trans hcomes₃)
  refine ⟨s₃, hcomes, s.zk.log.length, hloop₃, ?_⟩
  rintro ⟨e, he, -⟩
  rw [hcomes.log, List.drop_length] at he
  cases he

theorem waiting_quiet (h : Inv unmarshal s) {watch : ℕ}
    (hloop : (s.zk.servers i).loop = .waiting watch) :
    ∃ s', Comes unmarshal fac i s s' ∧
      ∃ watch, (s'.zk.servers i).loop = .waiting watch ∧ ¬ Pending s'.zk.log watch := by
  by_cases hpending : Pending s.zk.log watch
  · obtain ⟨z, hz, hloop₁⟩ : ∃ z, ZkWatch.step unmarshal s.zk (.fire i) = some z ∧
        (z.servers i).loop = .fired := by
      simp [ZkWatch.step, hloop, hpending, loop_withLoop]
    obtain ⟨s₁, hcomes₁, rfl⟩ := exists_zk fac h .fire hz
    obtain ⟨s₂, hcomes₂, hquiet⟩ := fired_quiet fac hcomes₁.inv hloop₁
    exact ⟨s₂, hcomes₁.trans hcomes₂, hquiet⟩
  · exact ⟨s, ⟨.refl s, h⟩, watch, hloop, hpending⟩

/-- Wherever a watch is, it gets to where nothing is pending. -/
theorem exists_quiet (h : Inv unmarshal s) (i : ι) :
    ∃ s', Comes unmarshal fac i s s' ∧
      ∃ watch, (s'.zk.servers i).loop = .waiting watch ∧ ¬ Pending s'.zk.log watch := by
  have hwaits : ∀ {s₁ watch}, Comes unmarshal fac i s s₁ →
      (s₁.zk.servers i).loop = .waiting watch → ∃ s', Comes unmarshal fac i s s' ∧
        ∃ watch, (s'.zk.servers i).loop = .waiting watch ∧ ¬ Pending s'.zk.log watch := by
    intro s₁ watch hcomes₁ hloop₁
    obtain ⟨s₂, hcomes₂, hquiet⟩ := waiting_quiet fac hcomes₁.inv hloop₁
    exact ⟨s₂, hcomes₁.trans hcomes₂, hquiet⟩
  cases hloop : (s.zk.servers i).loop with
  | fired => exact fired_quiet fac h hloop
  | waiting watch => exact waiting_quiet fac h hloop
  | watched watch =>
    obtain ⟨s₁, hcomes₁, hloop₁⟩ := watched_waits fac h hloop
    exact hwaits hcomes₁ hloop₁
  | scanning watch rest scan =>
    obtain ⟨s₁, hcomes₁, hloop₁⟩ := scanning_waits fac h hloop
    exact hwaits hcomes₁ hloop₁

end Watches

section Listeners
variable (fac)

/-- A listener can always apply what it has read. -/
theorem exists_applied (h : Inv unmarshal s) {c : ServiceConfig}
    (hreading : (s.nodes i).reading = some c) :
    ∃ s' server, Comes unmarshal fac i s s' ∧ s'.zk = s.zk ∧
      s'.nodes i = { s.nodes i with reading := none, server := server } := by
  have hnode := h.nodes i
  have hnorm : Normalised c := (hnode.reading c hreading).normalised h.normalised
  have hcovers : Covers (s.nodes i).server.bucketContainer.namespaces.keys (s.nodes i).server :=
    fun _ hname => hname
  obtain ⟨server, hserver⟩ : ∃ server, Container.step fac (s.nodes i).server
      (.update (s.nodes i).server.bucketContainer.namespaces.keys c) = some server := by
    simp only [Container.step, if_pos hcovers]
    by_cases hversion : ∀ c', (s.nodes i).server.cfgs = some c' → c'.version < c.version
    · obtain ⟨bc', hbc', -⟩ := updateBucketContainer_applied (stable_true fac) hnode.container
        trivial hnorm hcovers hversion
      exact ⟨_, hbc'⟩
    · push Not at hversion
      obtain ⟨c', hc', hle⟩ := hversion
      exact ⟨_, updateBucketContainer_ignored hc' hle⟩
  have hstep : step unmarshal fac s
      (.apply i (s.nodes i).server.bucketContainer.namespaces.keys) =
        some (s.withNode i { s.nodes i with reading := none, server := server }) := by
    simp only [step, hreading, Option.bind_some, hserver, Option.map_some]
  refine ⟨_, server, (Own.apply _).comes h hstep, rfl, ?_⟩
  exact Function.update_self i _ s.nodes

/-- A server that has not started has its notification still to take. -/
theorem exists_started (h : Inv unmarshal s) {c : ServiceConfig}
    (hread : (s.zk.servers i).persister.readPersistedConfig = some c)
    (hstarted : (s.nodes i).started = false) :
    ∃ s', Comes unmarshal fac i s s' ∧ s'.zk = s.zk ∧ (s'.nodes i).started = true ∧
      (s'.nodes i).reading = none := by
  have hnotified : (s.nodes i).notified = true := by
    obtain ⟨hreading, hcfgs⟩ := (h.nodes i).unstarted hstarted
    rcases (h.nodes i).current c hread with hnotified | ⟨d, hd | hd, -⟩
    · exact hnotified
    · cases hreading.symm.trans hd
    · cases hcfgs.symm.trans hd
  have hstep : step unmarshal fac s (.start i) = some
      (s.withNode i { s.nodes i with started := true, notified := false, reading := some c }) := by
    simp [step, hstarted, hnotified, hread]
  have hcomes₁ := Own.start.comes h hstep
  have hnode₁ := Function.update_self i
    { s.nodes i with started := true, notified := false, reading := some c } s.nodes
  have hreading₁ : ((s.withNode i { s.nodes i with
      started := true, notified := false, reading := some c }).nodes i).reading = some c :=
    congrArg Node.reading hnode₁
  obtain ⟨s₂, server, hcomes₂, hzk₂, hnode₂⟩ := exists_applied fac hcomes₁.inv hreading₁
  refine ⟨s₂, hcomes₁.trans hcomes₂, hzk₂, ?_, ?_⟩
  · rw [hnode₂]
    exact congrArg Node.started hnode₁
  · rw [hnode₂]

theorem exists_read (h : Inv unmarshal s) {c : ServiceConfig}
    (hread : (s.zk.servers i).persister.readPersistedConfig = some c)
    (hstarted : (s.nodes i).started = true) (hreading : (s.nodes i).reading = none) :
    ∃ s', Comes unmarshal fac i s s' ∧ s'.zk = s.zk ∧ (s'.nodes i).notified = false ∧
      (s'.nodes i).reading = none := by
  cases hnotified : (s.nodes i).notified with
  | false => exact ⟨s, ⟨.refl s, h⟩, rfl, hnotified, hreading⟩
  | true =>
    have hstep : step unmarshal fac s (.read i) =
        some (s.withNode i { s.nodes i with notified := false, reading := some c }) := by
      simp [step, hstarted, hnotified, hreading, hread]
    have hcomes₁ := Own.read.comes h hstep
    have hnode₁ := Function.update_self i
      { s.nodes i with notified := false, reading := some c } s.nodes
    have hreading₁ : ((s.withNode i { s.nodes i with notified := false, reading := some c }).nodes
        i).reading = some c := congrArg Node.reading hnode₁
    obtain ⟨s₂, server, hcomes₂, hzk₂, hnode₂⟩ := exists_applied fac hcomes₁.inv hreading₁
    refine ⟨s₂, hcomes₁.trans hcomes₂, hzk₂, ?_, ?_⟩
    · rw [hnode₂]
      exact congrArg Node.notified hnode₁
    · rw [hnode₂]

/-- A listener that has a config to read empties its channel. -/
theorem exists_listened (h : Inv unmarshal s) {c : ServiceConfig}
    (hread : (s.zk.servers i).persister.readPersistedConfig = some c) :
    ∃ s', Comes unmarshal fac i s s' ∧ s'.zk = s.zk ∧ (s'.nodes i).notified = false ∧
      (s'.nodes i).reading = none := by
  obtain ⟨s₁, hcomes₁, hzk₁, hstarted₁, hreading₁⟩ : ∃ s₁, Comes unmarshal fac i s s₁ ∧
      s₁.zk = s.zk ∧ (s₁.nodes i).started = true ∧ (s₁.nodes i).reading = none := by
    cases hstarted : (s.nodes i).started with
    | false => exact exists_started fac h hread hstarted
    | true =>
      cases hreading : (s.nodes i).reading with
      | none => exact ⟨s, ⟨.refl s, h⟩, rfl, hstarted, hreading⟩
      | some c' =>
        obtain ⟨s₁, server, hcomes₁, hzk₁, hnode₁⟩ := exists_applied fac h hreading
        refine ⟨s₁, hcomes₁, hzk₁, ?_, ?_⟩
        · rw [hnode₁]
          exact hstarted
        · rw [hnode₁]
  have hread₁ : (s₁.zk.servers i).persister.readPersistedConfig = some c := by
    rw [hzk₁]
    exact hread
  obtain ⟨s₂, hcomes₂, hzk₂, hnotified₂, hreading₂⟩ :=
    exists_read fac hcomes₁.inv hread₁ hstarted₁ hreading₁
  exact ⟨s₂, hcomes₁.trans hcomes₂, hzk₂.trans hzk₁, hnotified₂, hreading₂⟩

end Listeners

/-- No writer is under way, and there is a config. -/
structure Ready (unmarshal : D → ServiceConfig) (s : Cluster ι D F B) : Prop where
  inv : Inv unmarshal s
  writers : s.zk.writers = []
  written : ZkWatch.nodes s.zk.log ≠ []

/-- Nothing is left to be done on a server. -/
structure Rests (s : Cluster ι D F B) (i : ι) : Prop where
  quiet : ∃ watch, (s.zk.servers i).loop = .waiting watch ∧ ¬ Pending s.zk.log watch
  notified : (s.nodes i).notified = false
  reading : (s.nodes i).reading = none

theorem Ready.own (h : Ready unmarshal s) {a : Action ι D} (hown : Own i a)
    (hs : step unmarshal fac s a = some s') : Ready unmarshal s' := by
  have hframed := hown.framed hs
  refine ⟨step_inv h.inv (hown.written s) hs, hframed.writers.trans h.writers, ?_⟩
  rw [hframed.log]
  exact h.written

theorem Rests.own {a : Action ι D} (hji : j ≠ i) (hown : Own i a)
    (hs : step unmarshal fac s a = some s') (h : Rests s j) : Rests s' j := by
  have hframed := hown.framed hs
  obtain ⟨hserver, hnode⟩ := hframed.others j hji
  refine ⟨?_, ?_, ?_⟩
  · rw [hserver, hframed.log]
    exact h.quiet
  · rw [hnode]
    exact h.notified
  · rw [hnode]
    exact h.reading

theorem exists_rests (fac : BucketFactory F B) (h : Ready unmarshal s) (i : ι) :
    ∃ s', Machine.Leads (step unmarshal fac) (Own i) s s' ∧ Rests s' i := by
  obtain ⟨s₁, hcomes₁, watch, hloop, hpending⟩ := exists_quiet fac h.inv i
  obtain ⟨e, he, hmax⟩ := exists_newest unmarshal h.written
  rw [← hcomes₁.log] at he hmax
  have hcurrent : (s₁.zk.servers i).persister.current = some (unmarshal e.2) :=
    current_of_quiet hcomes₁.inv.watch (hcomes₁.writers.trans h.writers) hloop hpending he hmax
  obtain ⟨s₂, hcomes₂, hzk₂, hnotified, hreading⟩ := exists_listened fac hcomes₁.inv
    (show (s₁.zk.servers i).persister.readPersistedConfig = some _ from
      congrArg (Option.map cloneConfig) hcurrent)
  refine ⟨s₂, (hcomes₁.trans hcomes₂).leads, ⟨watch, ?_, ?_⟩, hnotified, hreading⟩
  · rw [hzk₂]
    exact hloop
  · rw [hzk₂]
    exact hpending

/-- Every writer that is under way can set the root. -/
theorem exists_ready (fac : BucketFactory F B) (h : Inv unmarshal s)
    (hwritten : ZkWatch.nodes s.zk.log ≠ []) :
    ∃ s', Machine.Leads (step unmarshal fac) Onward s s' ∧ Ready unmarshal s' ∧
      ZkWatch.nodes s'.zk.log = ZkWatch.nodes s.zk.log := by
  generalize hwriters : s.zk.writers = writers
  induction writers generalizing s with
  | nil => exact ⟨s, .refl s, ⟨h, hwriters, hwritten⟩, rfl⟩
  | cons hash writers ih =>
    have hmem : hash ∈ s.zk.writers := by simp [hwriters]
    have hset : step unmarshal fac s (.zk (.set hash)) = some
        ⟨{ s.zk with log := s.zk.log ++ [.set], writers := s.zk.writers.erase hash }, s.nodes⟩ := by
      simp [step, ZkWatch.step, hmem, notifies]
    have hnodes : ZkWatch.nodes (s.zk.log ++ [.set]) = ZkWatch.nodes s.zk.log := by
      simp [ZkWatch.nodes]
    have hinv := step_inv h (a := .zk (.set hash)) ⟨trivial, trivial⟩ hset
    obtain ⟨s', hleads, hready, heq⟩ := ih hinv (by simpa [hnodes] using hwritten)
      (by simp [hwriters])
    exact ⟨s', (Machine.Leads.of_step (.set hash) hset).trans hleads, hready, heq.trans hnodes⟩

end Servers

/-- From every state that a run leads to, once a config has been written, the servers can come to
rest, without a write, a failure or a lookup; and then every one of them has applied the newest
config. -/
theorem cluster_settles {ι D F B : Type} [DecidableEq ι] [Finite ι] (unmarshal : D → ServiceConfig)
    (fac : BucketFactory F B) (factory : ι → F) (actions : List (Action ι D)) (s : Cluster ι D F B)
    (hwritten : Machine.Along (step unmarshal fac) (Written unmarshal) (launched factory) actions)
    (hrun : Machine.run (step unmarshal fac) (launched factory) actions = some s)
    (hnodes : ZkWatch.nodes s.zk.log ≠ []) :
    ∃ more s', (∀ a ∈ more, Onward a) ∧ Machine.run (step unmarshal fac) s more = some s' ∧
      Settled s' ∧ ∃ e ∈ ZkWatch.nodes s.zk.log,
        (∀ e' ∈ ZkWatch.nodes s.zk.log, (unmarshal e'.2).version ≤ (unmarshal e.2).version) ∧
        ∀ i, (s'.nodes i).server.cfgs = some (cloneConfig (unmarshal e.2)) := by
  have hinv : Inv unmarshal s := Machine.run_induction (Inv unmarshal)
    (fun _ _ _ h hw hs => step_inv h hw hs) (launched_inv factory) hwritten hrun
  obtain ⟨is, his⟩ := Finite.exists_univ_list ι
  obtain ⟨s₁, hleads₁, hready₁, hnodes₁⟩ := exists_ready fac hinv hnodes
  obtain ⟨s₂, hleads₂, hready₂, hrests⟩ : ∃ s₂,
      Machine.Leads (step unmarshal fac) (fun a => ∃ i, Own i a) s₁ s₂ ∧ Ready unmarshal s₂ ∧
        ∀ i ∈ is, Rests s₂ i :=
    Machine.exists_all_rest (fun _ _ _ _ h hown hs => h.own hown hs)
      (fun i _ h => exists_rests fac h i) (fun _ _ _ _ _ hji hown hs h => h.own hji hown hs) is
      hready₁
  have hsettled : Settled s₂ := by
    have hall : ∀ i, Rests s₂ i := fun i => hrests i (his.2 i)
    exact ⟨⟨hready₂.writers, fun i => (hall i).quiet⟩, fun i => (hall i).notified,
      fun i => (hall i).reading⟩
  have hlog : s₂.zk.log = s₁.zk.log := hleads₂.invariant (fun s => s.zk.log = s₁.zk.log)
    (fun _ _ _ hlog hown hs => hown.elim fun _ hown => (hown.framed hs).log.trans hlog) rfl
  obtain ⟨more, hmore, hrun'⟩ := hleads₁.trans
    (hleads₂.mono fun _ hown => hown.elim fun i hown => Onward.own i hown)
  obtain ⟨e, he, hmax⟩ := exists_newest unmarshal hnodes
  refine ⟨more, s₂, hmore, hrun', hsettled, e, he, hmax, fun i => ?_⟩
  rw [← hnodes₁, ← hlog] at he hmax
  exact applied_of_settled hready₂.inv hsettled i he hmax

/-- A writer has created the node of the first config, and no server has seen it. -/
theorem cluster_settles_created :
    let cfg : ServiceConfig := { version := 1 }
    ∃ (s : Cluster (Fin 2) ServiceConfig Unit Memory.TokenBucket)
      (more : List (Action (Fin 2) ServiceConfig)) (s' : Cluster (Fin 2) ServiceConfig Unit Memory.TokenBucket),
      Machine.run (step id memoryFactory) (launched fun _ => ()) [.zk (.create "1" cfg)] = some s ∧
      Machine.run (step id memoryFactory) s more = some s' ∧ Settled s' ∧
      ∀ i, (s'.nodes i).server.cfgs = some cfg := by
  intro cfg
  obtain ⟨s, hrun, hlog⟩ : ∃ s : Cluster (Fin 2) ServiceConfig Unit Memory.TokenBucket,
      Machine.run (step id memoryFactory) (launched fun _ => ()) [.zk (.create "1" cfg)] = some s ∧
      s.zk.log = [.create "1" cfg] :=
    Machine.exists_run (by decide)
  have hnorm : Normalised cfg := ⟨cfg, cfg, rfl, Or.inl rfl⟩
  have hapart : Machine.Along (step id memoryFactory) (Apart id)
      (launched fun _ : Fin 2 => ()) [.zk (.create "1" cfg)] := by decide
  have hproper : ∀ a ∈ ([.zk (.create "1" cfg)] : List (Action (Fin 2) ServiceConfig)), Proper id a := by
    simpa [Proper] using hnorm
  obtain ⟨more, s', -, hrun', hsettled, e, he, -, happlied⟩ :=
    cluster_settles id memoryFactory (fun _ => ()) [.zk (.create "1" cfg)] s
      (Machine.along_and hapart (Machine.along_of_forall (fun a ha _ => hproper a ha) _)) hrun
      (by rw [hlog]; decide)
  have hcfg : e = ("1", cfg) := by
    rw [hlog] at he
    simpa [ZkWatch.nodes] using he
  subst hcfg
  exact ⟨s, more, s', hrun, hrun', hsettled, happlied⟩

end QuotaService.Convergence
