import QuotaService.Container.Reconcile
import Mathlib.Data.Finset.Erase

/-! Calls of `FindBucket`, the reaper and config updates, interleaved. A step is what happens under
one lock: of the container, of a namespace, or of the server. `server.Allow` holds the server's read
lock around `FindBucket`, so that an update waits until no call is under way, while the reaper
goes on. The reaper runs `checkExpirations` with a fixed time over its watchers in any order, and
its `removeBucket` first reads the namespace and then removes the bucket from what it has read. -/
namespace QuotaService.Container
open Config

/-- How far a call of `FindBucket` has come: it has read the namespace; it has not found the bucket
there and is to create it; it has got a bucket and is to report activity on it; it has returned. -/
inductive Phase (B : Type)
  | fetched (r : Option ℕ)
  | missed (r : ℕ)
  | reporting (b : Option (Bucket B))
  | returned (result : Except String (Option (Bucket B)))

def Phase.isReturned {B : Type} : Phase B → Bool
  | returned _ => true
  | _ => false

/-- What a call that is still looking has read. -/
def Phase.read {B : Type} : Phase B → Option (Option ℕ)
  | fetched r => some r
  | missed r => some (some r)
  | _ => none

structure Call (B : Type) where
  «namespace» : String
  bucketName : String
  phase : Phase B

/-- How far `checkExpirations` has come: the time that it started at, the watchers that it has not
come to, the watcher of an idle bucket, and the namespace that `removeBucket` has read for it. -/
inductive Pass
  | waiting
  | checking (now : ℤ) (ids : List String)
  | expired (now : ℤ) (ids : List String) (w : Watcher)
  | removing (now : ℤ) (ids : List String) (w : Watcher) (r : ℕ)

/-- A bucket in an object, which the reaper is about to remove. -/
structure Doomed (B : Type) where
  ref : ℕ
  bucketName : String
  bucket : Bucket B

/-- A server with the calls it has received, in their order, and the state of its reaper. -/
structure System (F B : Type) where
  server : Server F B
  calls : List (Call B)
  watchers : AList fun _ : String => Watcher
  now : ℤ
  pass : Pass

namespace BucketContainer
variable {F B : Type} (fac : BucketFactory F B)

/-- The first look for the bucket, in the namespace that has been read; `none` is a dangling
reference. -/
def look (bc : BucketContainer F B) (bucketName : String) : Option ℕ → Option (Phase B)
  | none => some (.reporting bc.defaultBucket)
  | some r => (bc.namespaces.deref r).map fun ns =>
    match ns.buckets.lookup bucketName with
    | some b => .reporting (some b)
    | none =>
      if ns.cfg.dynamicBucketTemplate.isSome then .missed r else .reporting ns.defaultBucket

/-- The second look with the namespace locked, and the creation of the bucket. -/
def createLocked (bc : BucketContainer F B) («namespace» bucketName : String) (r : ℕ) :
    Option (BucketContainer F B × Except String (Option (Bucket B))) :=
  (bc.namespaces.deref r).bind fun nsp =>
    match nsp.buckets.lookup bucketName with
    | some b => some (bc.reportActivity b, .ok (some b))
    | none => nsp.cfg.dynamicBucketTemplate.map fun template =>
      match bc.createNewNamedBucket fac «namespace» bucketName r nsp template with
      | (bc, some b) => (bc, .ok (some b))
      | (bc, none) => (bc, .error "Cannot create dynamic bucket")

/-- A receive from a closed channel succeeds at once. -/
def activityDetected (bc : BucketContainer F B) (w : Watcher) : Bool :=
  decide (w.activities ∈ bc.activities ∨ w.activities ∈ bc.destroyed)

def tooIdle (bc : BucketContainer F B) (now : ℤ) (w : Watcher) :
    BucketContainer F B × Watcher × Bool :=
  if bc.activityDetected w then
    ({ bc with activities := bc.activities.erase w.activities }, { w with lastActivity := now }, false)
  else (bc, w, decide (w.maxIdle < now - w.lastActivity))

end BucketContainer

inductive Action
  | enter («namespace» bucketName : String)
  | look (i : ℕ)
  | create (i : ℕ)
  | report (i : ℕ)
  | update (order : List String) (newConfig : ServiceConfig)
  | addNewWatcher
  | checkExpirations (order : List String)
  | check
  | removeBucket
  | removeFromNamespace
  | endPass
  | elapse (d : ℕ)

section Looks
variable {F B : Type} {fac : BucketFactory F B} {bc bc' : BucketContainer F B}

/-- What the first look comes to. -/
inductive Looked (bc : BucketContainer F B) (bucketName : String) : Option ℕ → Phase B → Prop
  | global : Looked bc bucketName none (.reporting bc.defaultBucket)
  | found {r : ℕ} {ns : Namespace B} {b : Bucket B} (object : bc.namespaces.deref r = some ns)
    (held : ns.buckets.lookup bucketName = some b) :
    Looked bc bucketName (some r) (.reporting (some b))
  | default {r : ℕ} {ns : Namespace B} (object : bc.namespaces.deref r = some ns)
    (absent : ns.buckets.lookup bucketName = none) (static : ns.cfg.dynamicBucketTemplate = none) :
    Looked bc bucketName (some r) (.reporting ns.defaultBucket)
  | missed {r : ℕ} {ns : Namespace B} (object : bc.namespaces.deref r = some ns)
    (absent : ns.buckets.lookup bucketName = none) : Looked bc bucketName (some r) (.missed r)

/-- What the second look comes to. -/
inductive Created (bc : BucketContainer F B) (bucketName : String) (r : ℕ) :
    BucketContainer F B → Except String (Option (Bucket B)) → Prop
  | found {ns : Namespace B} {b : Bucket B} (acts : Finset ℕ)
    (object : bc.namespaces.deref r = some ns) (held : ns.buckets.lookup bucketName = some b) :
    Created bc bucketName r { bc with activities := acts } (.ok (some b))
  | full {ns : Namespace B} (message : String) (object : bc.namespaces.deref r = some ns)
    (absent : ns.buckets.lookup bucketName = none) (full : ns.Full) :
    Created bc bucketName r bc (.error message)
  | created {ns : Namespace B} {b : Bucket B} (f : F) (acts : Finset ℕ) (ws : List Watcher)
    (object : bc.namespaces.deref r = some ns) (absent : ns.buckets.lookup bucketName = none)
    (template : ns.cfg.dynamicBucketTemplate ≠ none) (id : b.id = bc.nextBucket)
    (origin : Origin ns bucketName b) :
    Created bc bucketName r { bc with
      factory := f, nextBucket := bc.nextBucket + 1, activities := acts, newWatchers := ws
      namespaces := bc.namespaces.modify r fun _ => ns.addBucket bucketName b } (.ok (some b))

theorem look_looked {bucketName : String} {r : Option ℕ} {phase : Phase B}
    (h : bc.look bucketName r = some phase) : Looked bc bucketName r phase := by
  cases r with
  | none =>
    cases h
    exact .global
  | some r =>
    obtain ⟨ns, hns, rfl⟩ := Option.map_eq_some_iff.mp h
    cases hlookup : ns.buckets.lookup bucketName with
    | some b => exact .found hns hlookup
    | none =>
      cases htemplate : ns.cfg.dynamicBucketTemplate with
      | none => exact .default hns hlookup htemplate
      | some template => exact .missed hns hlookup

theorem createLocked_created {ns bucketName : String} {r : ℕ}
    {result : Except String (Option (Bucket B))}
    (h : bc.createLocked fac ns bucketName r = some (bc', result)) :
    Created bc bucketName r bc' result := by
  obtain ⟨nsp, hnsp, h⟩ := Option.bind_eq_some_iff.mp h
  cases hlookup : nsp.buckets.lookup bucketName with
  | some b =>
    simp only [hlookup, Option.some.injEq, Prod.mk.injEq] at h
    obtain ⟨rfl, rfl⟩ := h
    obtain ⟨acts, heq⟩ := reportBucket_eq bc (some b)
    have hreport : bc.reportActivity b = { bc with activities := acts } := heq
    exact hreport ▸ .found acts hnsp hlookup
  | none =>
    simp only [hlookup] at h
    obtain ⟨template, htemplate, h⟩ := Option.map_eq_some_iff.mp h
    have hspec := @createNewNamedBucket_spec F B fac (fun _ => True) bc nsp (stable_true fac)
      trivial ns bucketName r template htemplate
    rcases hspec with ⟨hnone, hfull⟩ | ⟨f, b, acts, ws, heq, -, hid, -, horigin⟩
    · simp only [hnone, Prod.mk.injEq] at h
      obtain ⟨rfl, rfl⟩ := h
      exact .full _ hnsp hlookup hfull
    · simp only [heq, Prod.mk.injEq] at h
      obtain ⟨rfl, rfl⟩ := h
      exact .created f acts ws hnsp hlookup (by simp [htemplate]) hid horigin

theorem Created.ref? {bucketName : String} {r : ℕ} {result : Except String (Option (Bucket B))}
    (h : Created bc bucketName r bc' result) (name : String) :
    bc'.namespaces.ref? name = bc.namespaces.ref? name := by
  cases h <;> rfl

theorem removeBucket_ref? (bc : BucketContainer F B) (r : ℕ) (bucketName name : String) :
    (bc.removeBucket fac r bucketName).namespaces.ref? name = bc.namespaces.ref? name := by
  unfold BucketContainer.removeBucket
  split <;> rfl

end Looks

namespace System
variable {F B : Type} (fac : BucketFactory F B)

def init (factory : F) (now : ℤ) : System F B := ⟨empty factory, [], ∅, now, .waiting⟩

def setContainer (s : System F B) (bc : BucketContainer F B) : System F B :=
  { s with server := { s.server with bucketContainer := bc } }

def setPhase (s : System F B) (i : ℕ) (c : Call B) (phase : Phase B) : System F B :=
  { s with calls := s.calls.set i { c with phase := phase } }

/-- One step; `none` means that the action is not enabled. -/
def step (s : System F B) : Action → Option (System F B)
  | .enter ns bucketName =>
    let r := s.server.bucketContainer.namespaces.ref? ns
    some { s with calls := s.calls ++ [⟨ns, bucketName, .fetched r⟩] }
  | .look i => s.calls[i]?.bind fun c =>
    match c.phase with
    | .fetched r => (s.server.bucketContainer.look c.bucketName r).map (s.setPhase i c)
    | _ => none
  | .create i => s.calls[i]?.bind fun c =>
    match c.phase with
    | .missed r =>
      (s.server.bucketContainer.createLocked fac c.namespace c.bucketName r).map fun p =>
        (s.setContainer p.1).setPhase i c (.returned p.2)
    | _ => none
  | .report i => s.calls[i]?.bind fun c =>
    match c.phase with
    | .reporting b =>
      some ((s.setContainer (s.server.bucketContainer.reportBucket b)).setPhase i c (.returned (.ok b)))
    | _ => none
  | .update order newConfig =>
    if (∀ c ∈ s.calls, c.phase.isReturned = true) ∧ Covers order s.server then
      (updateBucketContainer fac order newConfig s.server).map fun server => { s with server := server }
    else none
  | .addNewWatcher =>
    match s.pass, s.server.bucketContainer.newWatchers with
    | .waiting, w :: ws =>
      some { s.setContainer { s.server.bucketContainer with newWatchers := ws } with
        watchers := s.watchers.insert w.identifier { w with lastActivity := s.now } }
    | _, _ => none
  | .checkExpirations order =>
    match s.pass with
    | .waiting =>
      if order.Perm s.watchers.keys then some { s with pass := .checking s.now order } else none
    | _ => none
  | .check =>
    match s.pass with
    | .checking now (id :: ids) =>
      match s.watchers.lookup id with
      | none => some { s with pass := .checking now ids }
      | some w =>
        let (bc, w, idle) := s.server.bucketContainer.tooIdle now w
        some { s.setContainer bc with
          watchers := s.watchers.insert id w
          pass := if idle then .expired now ids w else .checking now ids }
    | _ => none
  | .removeBucket =>
    match s.pass with
    | .expired now ids w =>
      match s.server.bucketContainer.namespaces.ref? w.ns with
      | none => some { s with pass := .checking now ids }
      | some r => some { s with pass := .removing now ids w r }
    | _ => none
  | .removeFromNamespace =>
    match s.pass with
    | .removing now ids w r =>
      some { s.setContainer (s.server.bucketContainer.removeBucket fac r w.bucketName) with
        watchers := s.watchers.erase w.identifier
        pass := .checking now ids }
    | _ => none
  | .endPass =>
    match s.pass with
    | .checking _ [] => some { s with pass := .waiting }
    | _ => none
  | .elapse d => some { s with now := s.now + d }

/-- A call that nothing interrupts is `findBucket`. -/
theorem run_call (s : System F B) (ns bucketName : String) :
    ∃ last ∈ [Action.report s.calls.length, Action.create s.calls.length],
      Machine.run (step fac) s [.enter ns bucketName, .look s.calls.length, last] =
        some { s.setContainer (s.server.bucketContainer.findBucket fac ns bucketName).1 with
          calls := s.calls ++ [⟨ns, bucketName,
            .returned (s.server.bucketContainer.findBucket fac ns bucketName).2⟩] } := by
  have hreport : ∀ b, s.server.bucketContainer.look bucketName
      (s.server.bucketContainer.namespaces.ref? ns) = some (.reporting b) →
      Machine.run (step fac) s [.enter ns bucketName, .look s.calls.length, .report s.calls.length] =
        some { s.setContainer (s.server.bucketContainer.reportBucket b) with
          calls := s.calls ++ [⟨ns, bucketName, .returned (.ok b)⟩] } := by
    intro b hlook
    simp [step, hlook, setPhase, setContainer]
  unfold BucketContainer.findBucket
  cases hfetch : s.server.bucketContainer.fetch ns with
  | none =>
    have hr := Directory.get?_eq_none.mp (fetch_eq_none.mp hfetch)
    exact ⟨_, by simp, hreport _ (by simp [hr, BucketContainer.look])⟩
  | some p =>
    obtain ⟨r, nsp⟩ := p
    obtain ⟨hr, hnsp⟩ := fetch_eq_some.mp hfetch
    cases hlookup : nsp.buckets.lookup bucketName with
    | some b =>
      simp only [hlookup]
      exact ⟨_, by simp, hreport _ (by simp [hr, hnsp, hlookup, BucketContainer.look])⟩
    | none =>
      simp only [hlookup]
      cases htemplate : nsp.cfg.dynamicBucketTemplate with
      | none =>
        exact ⟨_, by simp, hreport _ (by simp [hr, hnsp, hlookup, htemplate, BucketContainer.look])⟩
      | some template =>
        refine ⟨.create s.calls.length, by simp, ?_⟩
        have hlook : s.server.bucketContainer.look bucketName (some r) = some (.missed r) := by
          simp [BucketContainer.look, hnsp, hlookup, htemplate]
        obtain ⟨⟨bc, b⟩, hcreate⟩ : ∃ q, s.server.bucketContainer.createNewNamedBucket fac ns
            bucketName r nsp template = q := ⟨_, rfl⟩
        cases b <;> simp [step, hr, setPhase, setContainer, hlook, BucketContainer.createLocked, hnsp,
          hlookup, htemplate, hcreate]

/-- The object that the reaper has read for a watcher. -/
def Removing (pass : Pass) (w : Watcher) (r : ℕ) : Prop := ∃ now ids, pass = .removing now ids w r

/-- The bucket that the reaper is about to remove, and the object that it has read for it. -/
def doomed (s : System F B) : Option (Doomed B) :=
  match s.pass with
  | .removing _ _ w r => (s.server.bucketContainer.namespaces.deref r).bind fun ns =>
    (ns.buckets.lookup w.bucketName).map fun b => ⟨r, w.bucketName, b⟩
  | _ => none

/-- What a step can do to the calls and to the container. Of the reaper's steps only the removal
touches a bucket. -/
inductive Moved (s : System F B) : Action → System F B → Prop
  | enter (ns bucketName : String) : Moved s (.enter ns bucketName) { s with
      calls := s.calls ++
        [⟨ns, bucketName, .fetched (s.server.bucketContainer.namespaces.ref? ns)⟩] }
  | look {i : ℕ} {c : Call B} {r : Option ℕ} {phase : Phase B} (call : s.calls[i]? = some c)
    (fetched : c.phase = .fetched r)
    (looked : s.server.bucketContainer.look c.bucketName r = some phase) :
    Moved s (.look i) (s.setPhase i c phase)
  | create {i : ℕ} {c : Call B} {r : ℕ} {bc : BucketContainer F B}
    {result : Except String (Option (Bucket B))} (call : s.calls[i]? = some c)
    (missed : c.phase = .missed r)
    (created : s.server.bucketContainer.createLocked fac c.namespace c.bucketName r =
      some (bc, result)) :
    Moved s (.create i) ((s.setContainer bc).setPhase i c (.returned result))
  | report {i : ℕ} {c : Call B} {b : Option (Bucket B)} {acts : Finset ℕ}
    (call : s.calls[i]? = some c) (reporting : c.phase = .reporting b) :
    Moved s (.report i) ((s.setContainer { s.server.bucketContainer with
      activities := acts }).setPhase i c (.returned (.ok b)))
  | update {order : List String} {newConfig : ServiceConfig} {server : Server F B}
    (returned : ∀ c ∈ s.calls, c.phase.isReturned = true) (covers : Covers order s.server)
    (updated : updateBucketContainer fac order newConfig s.server = some server) :
    Moved s (.update order newConfig) { s with server := server }
  | reaper {a : Action} {acts : Finset ℕ} {ws : List Watcher}
    {watchers : AList fun _ : String => Watcher} {now : ℤ} {pass : Pass}
    (read : pass = s.pass ∨ ∀ w r, Removing pass w r →
      s.server.bucketContainer.namespaces.ref? w.ns = some r) :
    Moved s a { s.setContainer { s.server.bucketContainer with
      activities := acts, newWatchers := ws } with watchers := watchers, now := now, pass := pass }
  | remove {w : Watcher} {r : ℕ} {watchers : AList fun _ : String => Watcher} {now : ℤ}
    {ids : List String} (removing : Removing s.pass w r) :
    Moved s .removeFromNamespace { s.setContainer
      (s.server.bucketContainer.removeBucket fac r w.bucketName) with
        watchers := watchers, pass := .checking now ids }

section Moved
variable {fac : BucketFactory F B} {s s' : System F B} {a : Action}

/-- A step of the reaper that touches no bucket. -/
theorem Moved.quiet {pass : Pass} {acts : Finset ℕ} {ws : List Watcher}
    {watchers : AList fun _ : String => Watcher} {now : ℤ}
    (hs : s' = { s.setContainer { s.server.bucketContainer with
      activities := acts, newWatchers := ws } with watchers := watchers, now := now, pass := pass })
    (hpass : ∀ now ids w r, pass ≠ .removing now ids w r) : Moved fac s a s' := by
  subst hs
  refine .reaper (Or.inr ?_)
  rintro w r ⟨now, ids, rfl⟩
  exact absurd rfl (hpass now ids w r)

theorem tooIdle_eq (bc : BucketContainer F B) (now : ℤ) (w : Watcher) :
    ∃ acts w' idle, bc.tooIdle now w = ({ bc with activities := acts }, w', idle) := by
  unfold BucketContainer.tooIdle
  split_ifs
  · exact ⟨_, _, _, rfl⟩
  · exact ⟨bc.activities, w, _, rfl⟩

theorem step_moved (h : s.step fac a = some s') : Moved fac s a s' := by
  cases a with
  | enter ns bucketName =>
    cases h
    exact .enter ns bucketName
  | look i =>
    obtain ⟨c, hc, h⟩ := Option.bind_eq_some_iff.mp h
    cases hphase : c.phase with
    | fetched r =>
      simp only [hphase] at h
      obtain ⟨phase, hlook, rfl⟩ := Option.map_eq_some_iff.mp h
      exact .look hc hphase hlook
    | missed r => simp [hphase] at h
    | reporting b => simp [hphase] at h
    | returned result => simp [hphase] at h
  | create i =>
    obtain ⟨c, hc, h⟩ := Option.bind_eq_some_iff.mp h
    cases hphase : c.phase with
    | fetched r => simp [hphase] at h
    | missed r =>
      simp only [hphase] at h
      obtain ⟨⟨bc, result⟩, hcreate, rfl⟩ := Option.map_eq_some_iff.mp h
      exact .create hc hphase hcreate
    | reporting b => simp [hphase] at h
    | returned result => simp [hphase] at h
  | report i =>
    obtain ⟨c, hc, h⟩ := Option.bind_eq_some_iff.mp h
    cases hphase : c.phase with
    | fetched r => simp [hphase] at h
    | missed r => simp [hphase] at h
    | reporting b =>
      simp only [hphase, Option.some.injEq] at h
      obtain ⟨acts, heq⟩ := reportBucket_eq s.server.bucketContainer b
      rw [heq] at h
      exact h ▸ .report hc hphase
    | returned result => simp [hphase] at h
  | update order newConfig =>
    simp only [step] at h
    split_ifs at h with hguard
    obtain ⟨server, hserver, rfl⟩ := Option.map_eq_some_iff.mp h
    exact .update hguard.1 hguard.2 hserver
  | addNewWatcher =>
    simp only [step] at h
    split at h
    · cases h
      exact .reaper (Or.inl rfl)
    · cases h
  | checkExpirations order =>
    simp only [step] at h
    split at h
    · split_ifs at h
      cases h
      exact .quiet rfl (by simp)
    · cases h
  | check =>
    simp only [step] at h
    split at h
    · split at h
      · cases h
        exact .quiet rfl (by simp)
      · rename_i w _
        obtain ⟨acts, w', idle, heq⟩ := tooIdle_eq s.server.bucketContainer ‹ℤ› w
        rw [heq] at h
        cases h
        refine .quiet rfl ?_
        cases idle <;> simp
    · cases h
  | removeBucket =>
    simp only [step] at h
    split at h
    · split at h
      · cases h
        exact .quiet rfl (by simp)
      · rename_i hr
        cases h
        refine .reaper (Or.inr ?_)
        rintro w r ⟨now, ids, ⟨⟩⟩
        exact hr
    · cases h
  | removeFromNamespace =>
    simp only [step] at h
    split at h
    · rename_i hpass
      cases h
      exact .remove ⟨_, _, hpass⟩
    · cases h
  | endPass =>
    simp only [step] at h
    split at h
    · cases h
      exact .quiet rfl (by simp)
    · cases h
  | elapse d =>
    cases h
    exact .reaper (Or.inl rfl)

/-- The removal destroys the doomed bucket, if there is one. -/
theorem remove_cases (fac : BucketFactory F B) {w : Watcher} {r : ℕ}
    (removing : Removing s.pass w r) :
    (s.server.bucketContainer.removeBucket fac r w.bucketName = s.server.bucketContainer ∧
      s.doomed = none) ∨
      ∃ ns b, s.server.bucketContainer.namespaces.deref r = some ns ∧
        ns.buckets.lookup w.bucketName = some b ∧ s.doomed = some ⟨r, w.bucketName, b⟩ ∧
        s.server.bucketContainer.removeBucket fac r w.bucketName = { s.server.bucketContainer with
          factory := fac.destroy s.server.bucketContainer.factory b.impl
          destroyed := b.id ::ₘ s.server.bucketContainer.destroyed
          namespaces :=
            s.server.bucketContainer.namespaces.modify r (Namespace.dropBucket w.bucketName b) } := by
  obtain ⟨now, ids, hpass⟩ := removing
  unfold doomed
  rw [hpass]
  dsimp only
  cases hns : s.server.bucketContainer.namespaces.deref r with
  | none => exact Or.inl ⟨by simp [BucketContainer.removeBucket, hns], rfl⟩
  | some ns =>
    cases hlookup : ns.buckets.lookup w.bucketName with
    | none => exact Or.inl ⟨by simp [BucketContainer.removeBucket, hns, hlookup], by simp [hlookup]⟩
    | some b =>
      refine Or.inr ⟨ns, b, rfl, hlookup, by simp [hlookup], ?_⟩
      simp [BucketContainer.removeBucket, hns, hlookup, BucketContainer.destroyBucket]

theorem mem_setPhase {i : ℕ} {c c' : Call B} {phase : Phase B}
    (h : c' ∈ (s.setPhase i c phase).calls) : c' ∈ s.calls ∨ c' = { c with phase := phase } :=
  List.mem_or_eq_of_mem_set h

theorem update_read {c : Call B} (h : c.phase.isReturned = true) : c.phase.read = none := by
  cases hphase : c.phase <;> simp [hphase, Phase.isReturned, Phase.read] at h ⊢

/-- What the name of a call refers to does not change before it has looked its bucket up. -/
def Current (s : System F B) : Prop :=
  ∀ c ∈ s.calls, ∀ r, c.phase.read = some r →
    s.server.bucketContainer.namespaces.ref? c.namespace = r

theorem current_init (factory : F) (now : ℤ) : Current (init factory now : System F B) := by
  intro c hc
  cases hc

theorem step_current (h : Current s) (hs : s.step fac a = some s') : Current s' := by
  intro c' hc' r' hread
  cases step_moved hs with
  | enter ns bucketName =>
    rcases List.mem_append.mp hc' with hc' | hc'
    · exact h c' hc' r' hread
    · rw [List.mem_singleton] at hc'
      subst hc'
      exact Option.some.inj hread
  | look call fetched looked =>
    rcases mem_setPhase hc' with hc' | rfl
    · exact h c' hc' r' hread
    · cases look_looked looked with
      | missed =>
        cases hread
        exact h _ (List.mem_of_getElem? call) _ (by rw [fetched]; rfl)
      | global | found | default => cases hread
  | create call missed created =>
    rcases mem_setPhase hc' with hc' | rfl
    · exact ((createLocked_created created).ref? _).trans (h c' hc' r' hread)
    · cases hread
  | report call reporting =>
    rcases mem_setPhase hc' with hc' | rfl
    · exact h c' hc' r' hread
    · cases hread
  | update returned covers updated =>
    -- no call is under way
    rw [update_read (returned c' hc')] at hread
    cases hread
  | reaper read => exact h c' hc' r' hread
  | remove removing => exact (removeBucket_ref? ..).trans (h c' hc' r' hread)

end Moved

end System

end QuotaService.Container
