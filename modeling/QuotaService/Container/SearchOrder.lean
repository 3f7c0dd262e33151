import QuotaService.Container.Accounting
import QuotaService.Container.Ledger

/-! The order in which `FindBucket` looks for a bucket, against the documented one: the named
bucket, a dynamic one, the default of the namespace, the global default. -/
namespace QuotaService.Container
open Config

variable {F B : Type} {fac : BucketFactory F B}

/-- `removeBucket` of the container. -/
def BucketContainer.removeNamedBucket (fac : BucketFactory F B) (bc : BucketContainer F B)
    («namespace» bucket : String) : BucketContainer F B × Bool :=
  match bc.namespaces.ref? «namespace» with
  | none => (bc, false)
  | some r => (bc.removeBucket fac r bucket, true)

/-- What happens to a server whose buckets may be removed. -/
inductive Operation
  | update (order : List String) (newConfig : ServiceConfig)
  | find («namespace» bucketName : String)
  | remove («namespace» bucketName : String)

def operate (fac : BucketFactory F B) (s : Server F B) : Operation → Option (Server F B)
  | .update order newConfig => step fac s (.update order newConfig)
  | .find ns bucketName => step fac s (.find ns bucketName)
  | .remove ns bucketName =>
    some { s with bucketContainer := (s.bucketContainer.removeNamedBucket fac ns bucketName).1 }

/-- Where a search for a bucket ends: at the bucket itself, at a template to make it from, at a
default bucket, or at nothing, where the limit on dynamic buckets may have been the obstacle. -/
inductive Choice (B : Type)
  | existing (b : Bucket B)
  | dynamic (template : BucketConfig)
  | default (b : Bucket B)
  | nothing (limited : Bool)

def Namespace.HasRoom (ns : Namespace B) : Prop :=
  ns.cfg.maxDynamicBuckets ≤ 0 ∨ ns.numDynamic < ns.cfg.maxDynamicBuckets

instance (ns : Namespace B) : Decidable ns.HasRoom := inferInstanceAs (Decidable (_ ∨ _))

/-- The template of a namespace that allows another dynamic bucket. -/
def Namespace.allowed (ns : Namespace B) : Option BucketConfig :=
  if ns.HasRoom then ns.cfg.dynamicBucketTemplate else none

/-- The documented search order. -/
def BucketContainer.searchOrder (bc : BucketContainer F B) («namespace» bucketName : String) :
    Choice B :=
  match bc.namespaces.get? «namespace» with
  | none => (bc.defaultBucket.map .default).getD (.nothing false)
  | some ns =>
    match ns.buckets.lookup bucketName, ns.allowed, ns.defaultBucket.or bc.defaultBucket with
    | some b, _, _ => .existing b
    | none, some template, _ => .dynamic template
    | none, none, some b => .default b
    | none, none, none => .nothing ns.cfg.dynamicBucketTemplate.isSome

/-- At most some activity has been recorded. -/
def Reported (bc bc' : BucketContainer F B) : Prop :=
  ∃ acts, bc.activities ⊆ acts ∧ bc' = { bc with activities := acts }

/-- The watcher that `applyWatch` hands to the reaper. -/
def Bucket.watcher (b : Bucket B) («namespace» bucketName : String) : Watcher :=
  ⟨«namespace», bucketName, fullyQualifiedName «namespace» bucketName, idleTime b.cfg, 0, b.id⟩

/-- A new bucket, its count and its watcher, if it has one, are all that there is more. -/
structure Adds (fac : BucketFactory F B) («namespace» bucketName : String) (b : Bucket B)
    (bc bc' : BucketContainer F B) : Prop where
  id : b.id = bc.nextBucket
  impl : b.impl = (fac.newBucket bc.factory «namespace» bucketName b.cfg b.dynamic).2
  reapable : b.reapable = (b.dynamic && decide (0 < b.cfg.maxIdleMillis))
  added : ∃ r ns acts, bc.fetch «namespace» = some (r, ns) ∧
    ns.buckets.lookup bucketName = none ∧ bc' = { bc with
      factory := (fac.newBucket bc.factory «namespace» bucketName b.cfg b.dynamic).1
      nextBucket := bc.nextBucket + 1
      activities := acts
      newWatchers := bc.newWatchers ++
        if b.reapable then [b.watcher «namespace» bucketName] else []
      namespaces := bc.namespaces.modify r fun _ => ns.addBucket bucketName b } ∧
    (b.reapable = true → b.id ∈ acts) ∧ bc.activities ⊆ acts

/-- The lookup has come to the choice, and has done nothing else. -/
def Follows (fac : BucketFactory F B) («namespace» bucketName : String) (bc : BucketContainer F B)
    (out : BucketContainer F B × Except String (Option (Bucket B))) : Choice B → Prop
  | .existing b | .default b => out.2 = .ok (some b) ∧ Reported bc out.1
  | .dynamic template => ∃ b, out.2 = .ok (some b) ∧ b.cfg = template ∧ b.dynamic = true ∧
    Adds fac «namespace» bucketName b bc out.1
  | .nothing limited => (if limited then ∃ message, out.2 = .error message else out.2 = .ok none) ∧
    Reported bc out.1

/-- Where the search leaves the documented order: it does not go on from a namespace without
dynamic buckets to the global default, nor to any default from one that has no room for another;
and a configured bucket that has been removed is made anew, if the namespace has a template. -/
def Strays (bc : BucketContainer F B) («namespace» bucketName : String) : Prop :=
  ∃ ns, bc.namespaces.get? «namespace» = some ns ∧ ns.buckets.lookup bucketName = none ∧
    ((ns.cfg.dynamicBucketTemplate = none ∧ ns.defaultBucket = none ∧ bc.defaultBucket ≠ none) ∨
      (ns.cfg.dynamicBucketTemplate ≠ none ∧ ((ns.cfg.buckets.get bucketName).join ≠ none ∨
        ¬ ns.HasRoom ∧ (ns.defaultBucket ≠ none ∨ bc.defaultBucket ≠ none))))

section Find
variable {bc : BucketContainer F B} {nsp : Namespace B}

theorem reported_reportBucket (bc : BucketContainer F B) (b : Option (Bucket B)) :
    Reported bc (bc.reportBucket b) := by
  cases b with
  | none => exact ⟨bc.activities, subset_rfl, rfl⟩
  | some b =>
    unfold BucketContainer.reportBucket BucketContainer.reportActivity
    dsimp only
    split_ifs
    · exact ⟨_, Finset.subset_insert _ _, rfl⟩
    · exact ⟨bc.activities, subset_rfl, rfl⟩

theorem reported_reportActivity (bc : BucketContainer F B) (b : Bucket B) :
    Reported bc (bc.reportActivity b) := reported_reportBucket bc (some b)

/-- A created bucket, with everything that creating it changes. -/
theorem createNewNamedBucketFromCfg_adds (fac : BucketFactory F B) {ns bucketName : String} {r : ℕ}
    (hfetch : bc.fetch ns = some (r, nsp)) (habsent : nsp.buckets.lookup bucketName = none)
    (bCfg : BucketConfig) (dyn : Bool) :
    ∃ b, b.cfg = bCfg ∧ b.dynamic = dyn ∧
      (bc.createNewNamedBucketFromCfg fac ns bucketName nsp bCfg dyn).2 =
        (nsp.addBucket bucketName b, b) ∧
      Adds fac ns bucketName b bc
        { (bc.createNewNamedBucketFromCfg fac ns bucketName nsp bCfg dyn).1 with
          namespaces := (bc.createNewNamedBucketFromCfg fac ns bucketName nsp bCfg
            dyn).1.namespaces.modify r fun _ => nsp.addBucket bucketName b } := by
  refine ⟨⟨bc.nextBucket, bCfg, dyn, dyn && decide (0 < bCfg.maxIdleMillis),
    (fac.newBucket bc.factory ns bucketName bCfg dyn).2⟩, rfl, rfl, rfl, rfl, rfl, rfl, r, nsp,
    (bc.createNewNamedBucketFromCfg fac ns bucketName nsp bCfg dyn).1.activities, hfetch, habsent,
    ?_, ?_, ?_⟩
  all_goals
    unfold BucketContainer.createNewNamedBucketFromCfg BucketContainer.reportActivity
    dsimp only [BucketContainer.newBucket, Bucket.watcher]
  · split_ifs
    · rfl
    · simp
  · intro hreapable
    rw [if_pos hreapable]
    exact Finset.mem_insert_self _ _
  · split_ifs
    · exact Finset.subset_insert _ _
    · exact subset_rfl

/-- All that a lookup can come to. -/
inductive Sought (fac : BucketFactory F B) (bc : BucketContainer F B) (ns bucketName : String) :
    BucketContainer F B × Except String (Option (Bucket B)) → Prop
  | global {bc' : BucketContainer F B} (missing : bc.namespaces.get? ns = none)
    (reported : Reported bc bc') : Sought fac bc ns bucketName (bc', .ok bc.defaultBucket)
  | existing {nsp : Namespace B} {b : Bucket B} (get : bc.namespaces.get? ns = some nsp)
    (held : nsp.buckets.lookup bucketName = some b) :
    Sought fac bc ns bucketName (bc.reportActivity b, .ok (some b))
  | default {nsp : Namespace B} {bc' : BucketContainer F B}
    (get : bc.namespaces.get? ns = some nsp) (absent : nsp.buckets.lookup bucketName = none)
    (static : nsp.cfg.dynamicBucketTemplate = none) (reported : Reported bc bc') :
    Sought fac bc ns bucketName (bc', .ok nsp.defaultBucket)
  | full {nsp : Namespace B} {template : BucketConfig} (message : String)
    (get : bc.namespaces.get? ns = some nsp) (absent : nsp.buckets.lookup bucketName = none)
    (template : nsp.cfg.dynamicBucketTemplate = some template)
    (unconfigured : (nsp.cfg.buckets.get bucketName).join = none) (full : nsp.Full) :
    Sought fac bc ns bucketName (bc, .error message)
  | created {nsp : Namespace B} {template : BucketConfig} {b : Bucket B}
    {bc' : BucketContainer F B} (get : bc.namespaces.get? ns = some nsp)
    (absent : nsp.buckets.lookup bucketName = none)
    (template : nsp.cfg.dynamicBucketTemplate = some template) (origin : Origin nsp bucketName b)
    (adds : Adds fac ns bucketName b bc bc') : Sought fac bc ns bucketName (bc', .ok (some b))

theorem findBucket_sought (fac : BucketFactory F B) (bc : BucketContainer F B)
    (ns bucketName : String) :
    Sought fac bc ns bucketName (bc.findBucket fac ns bucketName) := by
  unfold BucketContainer.findBucket
  cases hfetch : bc.fetch ns with
  | none => exact .global (fetch_eq_none.mp hfetch) (reported_reportBucket bc _)
  | some p =>
    obtain ⟨r, nsp⟩ := p
    have hget := get?_of_fetch hfetch
    cases hlookup : nsp.buckets.lookup bucketName with
    | some b =>
      simp only [hlookup]
      exact .existing hget hlookup
    | none =>
      simp only [hlookup]
      cases htemplate : nsp.cfg.dynamicBucketTemplate with
      | none => exact .default hget hlookup htemplate (reported_reportBucket bc _)
      | some template =>
        unfold BucketContainer.createNewNamedBucket
        cases hstatic : (nsp.cfg.buckets.get bucketName).join with
        | some bCfg =>
          obtain ⟨b, rfl, hdyn, heq, hadds⟩ :=
            createNewNamedBucketFromCfg_adds fac hfetch hlookup bCfg false
          simp only [heq]
          exact .created hget hlookup htemplate
            (.static (Option.join_eq_some_iff.mp hstatic) hdyn) hadds
        | none =>
          dsimp only
          split_ifs with hfull
          · exact .full _ hget hlookup htemplate hstatic ⟨hfull.2, hfull.1⟩
          · obtain ⟨b, rfl, hdyn, heq, hadds⟩ :=
              createNewNamedBucketFromCfg_adds fac hfetch hlookup template true
            simp only [heq]
            exact .created hget hlookup htemplate
              (.dynamic hstatic htemplate hdyn fun h => hfull ⟨h.2, h.1⟩) hadds

end Find

section Order
variable {bc : BucketContainer F B} {ns bucketName : String} {nsp : Namespace B}

theorem Accounted.full_iff (h : Accounted nsp) (hlimit : nsp.cfg.maxDynamicBuckets < 2 ^ 31) :
    nsp.Full ↔ ¬ nsp.HasRoom := by
  unfold Namespace.Full Namespace.HasRoom
  rw [not_or, not_le, not_lt]
  apply and_congr_right
  intro hpos
  have hmax := h.max hpos hlimit
  rw [h.count_eq (by omega)]

/-- A lookup that adds a bucket has not left the buckets as they were. -/
theorem Adds.not_reported {b : Bucket B} {bc' : BucketContainer F B}
    (h : Adds fac ns bucketName b bc bc') : ¬ Reported bc bc' := by
  obtain ⟨r, nsp, acts, -, -, heq, -⟩ := h.added
  rintro ⟨acts', -, heq'⟩
  have hnext : bc'.nextBucket = bc.nextBucket := by rw [heq']
  rw [heq] at hnext
  exact absurd hnext (Nat.succ_ne_self _)

/-- No order leads to a bucket that is created from the config of the bucket itself. -/
theorem Adds.not_follows {b : Bucket B} {bc' : BucketContainer F B}
    (h : Adds fac ns bucketName b bc bc') (hstatic : b.dynamic = false) (choice : Choice B) :
    ¬ Follows fac ns bucketName bc (bc', .ok (some b)) choice := by
  have hnew := h.not_reported
  intro hfollows
  cases choice with
  | existing | default | nothing => exact hnew hfollows.2
  | dynamic template =>
    obtain ⟨b', hanswer, -, hdynamic, -⟩ := hfollows
    cases hanswer
    rw [hstatic] at hdynamic
    cases hdynamic

theorem follows_default {out : BucketContainer F B × Except String (Option (Bucket B))}
    {o : Option (Bucket B)} :
    Follows fac ns bucketName bc out ((o.map .default).getD (.nothing false)) ↔
      out.2 = .ok o ∧ Reported bc out.1 := by
  cases o with
  | none => simp [Follows]
  | some b => rfl

/-- Where the namespace exists but not the bucket, the order depends on what may be made, and on
the nearest default. -/
theorem searchOrder_absent (hget : bc.namespaces.get? ns = some nsp)
    (habsent : nsp.buckets.lookup bucketName = none) :
    bc.searchOrder ns bucketName = match nsp.allowed, nsp.defaultBucket.or bc.defaultBucket with
      | some template, _ => .dynamic template
      | none, some b => .default b
      | none, none => .nothing nsp.cfg.dynamicBucketTemplate.isSome := by
  unfold BucketContainer.searchOrder
  simp only [hget, habsent]
  cases nsp.allowed with
  | some template => rfl
  | none => cases nsp.defaultBucket.or bc.defaultBucket <;> rfl

theorem strays_iff (hget : bc.namespaces.get? ns = some nsp)
    (habsent : nsp.buckets.lookup bucketName = none) :
    Strays bc ns bucketName ↔
      ((nsp.cfg.dynamicBucketTemplate = none ∧ nsp.defaultBucket = none ∧
          bc.defaultBucket ≠ none) ∨
        (nsp.cfg.dynamicBucketTemplate ≠ none ∧ ((nsp.cfg.buckets.get bucketName).join ≠ none ∨
          ¬ nsp.HasRoom ∧ (nsp.defaultBucket ≠ none ∨ bc.defaultBucket ≠ none)))) := by
  constructor
  · rintro ⟨nsp', hget', -, h⟩
    cases hget.symm.trans hget'
    exact h
  · intro h
    exact ⟨nsp, hget, habsent, h⟩

/-- The search leaves the documented order in the cases named, and in no other. -/
theorem follows_iff (haccounted : ∀ nsp, bc.namespaces.get? ns = some nsp → Accounted nsp)
    (hlimit : ∀ nsp, bc.namespaces.get? ns = some nsp → nsp.cfg.maxDynamicBuckets < 2 ^ 31) :
    Follows fac ns bucketName bc (bc.findBucket fac ns bucketName) (bc.searchOrder ns bucketName) ↔
      ¬ Strays bc ns bucketName := by
  have hsought := findBucket_sought fac bc ns bucketName
  generalize bc.findBucket fac ns bucketName = out at hsought ⊢
  cases hsought with
  | global missing reported =>
    have hstays : ¬ Strays bc ns bucketName := by
      rintro ⟨nsp, hget, -⟩
      cases missing.symm.trans hget
    have horder : bc.searchOrder ns bucketName =
        (bc.defaultBucket.map .default).getD (.nothing false) := by
      simp [BucketContainer.searchOrder, missing]
    rw [horder, follows_default]
    exact iff_of_true ⟨rfl, reported⟩ hstays
  | @existing nsp b get held =>
    have hstays : ¬ Strays bc ns bucketName := by
      rintro ⟨nsp', hget, habsent, -⟩
      cases get.symm.trans hget
      cases held.symm.trans habsent
    have horder : bc.searchOrder ns bucketName = .existing b := by
      simp [BucketContainer.searchOrder, get, held]
    rw [horder]
    exact iff_of_true ⟨rfl, reported_reportActivity bc b⟩ hstays
  | @default nsp bc' get absent static reported =>
    have hallowed : nsp.allowed = none := by simp [Namespace.allowed, static]
    rw [searchOrder_absent get absent, strays_iff get absent, hallowed]
    cases hown : nsp.defaultBucket with
    | some b =>
      refine iff_of_true ⟨rfl, reported⟩ ?_
      simp [static]
    | none =>
      cases hglobal : bc.defaultBucket with
      | none =>
        refine iff_of_true ⟨?_, reported⟩ ?_
        · simp [static]
        · simp [static]
      | some b =>
        refine iff_of_false ?_ ?_
        · rintro ⟨hanswer, -⟩
          cases hanswer
        · simp [static]
  | @full nsp template message get absent template unconfigured full =>
    have hroom := ((haccounted nsp get).full_iff (hlimit nsp get)).mp full
    have hallowed : nsp.allowed = none := by simp [Namespace.allowed, hroom]
    rw [searchOrder_absent get absent, strays_iff get absent, hallowed]
    cases hor : nsp.defaultBucket.or bc.defaultBucket with
    | some b =>
      refine iff_of_false ?_ ?_
      · rintro ⟨hanswer, -⟩
        cases hanswer
      · have hdefault : nsp.defaultBucket ≠ none ∨ bc.defaultBucket ≠ none := by
          by_contra hnone
          push Not at hnone
          simp [hnone.1, hnone.2] at hor
        rw [not_not]
        exact Or.inr ⟨by simp [template], Or.inr ⟨hroom, hdefault⟩⟩
    | none =>
      obtain ⟨hown, hglobal⟩ := Option.or_eq_none_iff.mp hor
      refine iff_of_true ⟨?_, bc.activities, subset_rfl, rfl⟩ ?_
      · simp [template]
      · simp [template, unconfigured, hown, hglobal]
  | @created nsp template b bc' get absent template origin adds =>
    rw [strays_iff get absent]
    cases origin with
    | static configured static =>
      refine iff_of_false (adds.not_follows static _) ?_
      rw [not_not]
      exact Or.inr ⟨by simp [template], Or.inl (by simp [configured])⟩
    | dynamic unconfigured htemplate dynamic room =>
      have hroom : nsp.HasRoom := by
        by_contra hnone
        exact room (((haccounted nsp get).full_iff (hlimit nsp get)).mpr hnone)
      have hallowed : nsp.allowed = some b.cfg := by simp [Namespace.allowed, hroom, htemplate]
      rw [searchOrder_absent get absent, hallowed]
      refine iff_of_true ⟨b, rfl, rfl, dynamic, adds⟩ ?_
      simp [template, unconfigured, hroom]

end Order

section Operations
variable {s s' : Server F B} {op : Operation}

/-- Every namespace object is accounted for. -/
theorem operate_accounted
    (h : ∀ r nsp, s.bucketContainer.namespaces.deref r = some nsp → Accounted nsp)
    (hs : operate fac s op = some s') :
    ∀ r nsp, s'.bucketContainer.namespaces.deref r = some nsp → Accounted nsp := by
  cases op with
  | update order newConfig =>
    simp only [operate, step] at hs
    split_ifs at hs
    intro r nsp' hnsp'
    have hcarried := updateBucketContainer_carried hs
    rcases hcarried.new r nsp' hnsp' with ⟨nsp, hnsp⟩ | hpristine
    · obtain ⟨c, hc, hsame⟩ := hcarried.old r nsp hnsp
      cases hnsp'.symm.trans hc
      exact (h r nsp hnsp).swapCfg hsame
    · exact hpristine.accounted
  | find ns bucketName =>
    cases hs
    have hsought := findBucket_sought fac s.bucketContainer ns bucketName
    dsimp only
    generalize s.bucketContainer.findBucket fac ns bucketName = out at hsought ⊢
    cases hsought with
    | global missing reported | default get absent static reported =>
      obtain ⟨acts, -, rfl⟩ := reported
      exact h
    | existing get held =>
      obtain ⟨acts, -, heq⟩ := reported_reportActivity s.bucketContainer _
      rw [heq]
      exact h
    | full => exact h
    | created get absent template origin adds =>
      obtain ⟨r, nsp, acts, hfetch, hlookup, rfl, -⟩ := adds.added
      cases get.symm.trans (get?_of_fetch hfetch)
      have hobject := (fetch_eq_some.mp hfetch).2
      exact accounted_modify h hobject ((h _ _ hobject).addBucket hlookup origin)
  | remove ns bucketName =>
    cases hs
    dsimp only [BucketContainer.removeNamedBucket]
    cases s.bucketContainer.namespaces.ref? ns with
    | none => exact h
    | some r =>
      dsimp only
      cases hheld : (s.bucketContainer.namespaces.deref r).bind
          fun nsp => nsp.buckets.lookup bucketName with
      | none =>
        rw [removeBucket_of_none fac hheld]
        exact h
      | some b =>
        obtain ⟨nsp, hobject, hlookup⟩ := Option.bind_eq_some_iff.mp hheld
        rw [removeBucket_of_lookup fac hobject hlookup]
        exact accounted_modify h hobject ((h _ _ hobject).dropBucket hlookup)

end Operations

/-- In every container that updates, lookups and removals lead to, a lookup follows the documented
order exactly when it does not come to one of the places where the search leaves it. The limit of a
namespace is an `int32`. -/
theorem findBucket_search_order (fac : BucketFactory F B) (factory : F)
    (operations : List Operation) (s : Server F B)
    (hrun : Machine.run (operate fac) (empty factory) operations = some s)
    (ns bucketName : String)
    (hlimit : ∀ nsp, s.bucketContainer.namespaces.get? ns = some nsp →
      nsp.cfg.maxDynamicBuckets < 2 ^ 31) :
    Follows fac ns bucketName s.bucketContainer (s.bucketContainer.findBucket fac ns bucketName)
        (s.bucketContainer.searchOrder ns bucketName) ↔
      ¬ Strays s.bucketContainer ns bucketName := by
  have haccounted : ∀ r nsp, s.bucketContainer.namespaces.deref r = some nsp → Accounted nsp := by
    refine Machine.run_invariant (fun s : Server F B => ∀ r nsp,
      s.bucketContainer.namespaces.deref r = some nsp → Accounted nsp)
      (fun _ _ _ => operate_accounted) ?_ hrun
    simp [empty, NewBucketContainer]
  refine follows_iff (fun nsp hget => ?_) hlimit
  obtain ⟨r, -, hobject⟩ := Directory.get?_eq_some.mp hget
  exact haccounted r nsp hobject

/-- A dynamic bucket, where there is room for one. -/
theorem findBucket_search_order_dynamic :
    let cfg : ServiceConfig := { namespaces := .table (AList.singleton "a" (some
      { name := "a", dynamicBucketTemplate := some {}, maxDynamicBuckets := 1 })) }
    ∃ s, Machine.run (operate memoryFactory) (empty ()) [.update [] cfg] = some s ∧
      Follows memoryFactory "a" "x" s.bucketContainer
        (s.bucketContainer.findBucket memoryFactory "a" "x")
        (s.bucketContainer.searchOrder "a" "x") := by
  intro cfg
  have hrun := (Option.some_get (show (Machine.run (operate memoryFactory) (empty ())
    [.update [] cfg]).isSome = true by decide)).symm
  refine ⟨_, hrun, (findBucket_search_order memoryFactory () _ _ hrun "a" "x" ?_).mpr ?_⟩
  · intro nsp hget
    cases hget
    decide
  · rintro ⟨nsp, hget, -, hstrays⟩
    cases hget
    revert hstrays
    decide

/-- A namespace without dynamic buckets and without a default, beside a global default bucket. -/
theorem findBucket_skips_global_default :
    let cfg : ServiceConfig := {
      globalDefaultBucket := some {}
      namespaces := .table (AList.singleton "a" (some { name := "a" })) }
    ∃ s b, Machine.run (operate memoryFactory) (empty ()) [.update [] cfg] = some s ∧
      s.bucketContainer.defaultBucket = some b ∧
      s.bucketContainer.searchOrder "a" "x" = .default b ∧
      (s.bucketContainer.findBucket memoryFactory "a" "x").2 = .ok none ∧
      ¬ Follows memoryFactory "a" "x" s.bucketContainer
        (s.bucketContainer.findBucket memoryFactory "a" "x")
        (s.bucketContainer.searchOrder "a" "x") := by
  intro cfg
  have hrun := (Option.some_get (show (Machine.run (operate memoryFactory) (empty ())
    [.update [] cfg]).isSome = true by decide)).symm
  refine ⟨_, _, hrun, rfl, rfl, rfl, ?_⟩
  rintro ⟨hanswer, -⟩
  cases hanswer

end QuotaService.Container
