import QuotaService.Buckets.Renewal
import QuotaService.Container.Idleness

/-! In-memory buckets that the reaper removes and lookups make anew. The tokens are with the loop of a
bucket, and go when it goes. A call takes its tokens some time after it has found its bucket; as long
as that time and the time that any bucket needs to fill up are within the idle time, nobody can tell
that a bucket has been away. -/
namespace QuotaService.Container
open Config Memory

/-- A bucket that a call has found, when, and under which name. -/
structure Held where
  «namespace» : String
  bucketName : String
  bucket : Bucket TokenBucket
  since : ℤ

/-- A server and its reaper at a time, the buckets as their loops have left them, and the calls that
have found a bucket and have not taken their tokens yet. -/
structure Metered where
  watched : Watched Unit TokenBucket
  tokens : AList fun _ : ℕ => TokenBucket
  calls : AList fun _ : ℕ => Held

/-- A deed, or a part of the call `i`: it finds its bucket, and takes its tokens. -/
inductive Occasion
  | deed (d : Deed)
  | find (i : ℕ) («namespace» bucketName : String)
  | take (i : ℕ) (requested maxWaitTimeNanos : ℤ)

/-- Tokens that a call has been given or refused. -/
structure Drawn where
  held : Held
  call : Memory.Call
  answer : ℤ × Bool

namespace Metered

def init (now : ℤ) : Metered := ⟨.init () now, ∅, ∅⟩

/-- The bucket as its loop has left it. -/
def bucket (s : Metered) (b : Bucket TokenBucket) : TokenBucket :=
  (s.tokens.lookup b.id).getD b.impl

def step (s : Metered) : ℤ × Occasion → Option Metered
  | (t, .deed d) => (s.watched.step memoryFactory (t, d)).map fun watched =>
    { s with watched := watched }
  | (t, .find i ns bucketName) =>
    if s.calls.lookup i = none then
      (s.watched.step memoryFactory (t, .find ns bucketName)).map fun watched =>
        { s with
          watched := watched
          calls :=
            match (s.watched.server.bucketContainer.findBucket memoryFactory ns bucketName).2 with
            | .ok (some b) => s.calls.insert i ⟨ns, bucketName, b, t⟩
            | _ => s.calls }
    else none
  | (t, .take i requested maxWaitTimeNanos) =>
    if s.watched.now ≤ t then
      (s.calls.lookup i).map fun h =>
        { watched := { s.watched with now := t }
          tokens := s.tokens.insert h.bucket.id
            ((s.bucket h.bucket).take .exact ⟨t, requested, maxWaitTimeNanos⟩).1
          calls := s.calls.erase i }
    else none

def drawn (s : Metered) : ℤ × Occasion → Option Drawn
  | (t, .take i requested maxWaitTimeNanos) => (s.calls.lookup i).map fun h =>
    ⟨h, ⟨t, requested, maxWaitTimeNanos⟩,
      ((s.bucket h.bucket).take .exact ⟨t, requested, maxWaitTimeNanos⟩).2⟩
  | _ => none

/-- What is drawn in a run. -/
def log (now : ℤ) (moments : List (ℤ × Occasion)) : List Drawn :=
  Machine.collect step drawn (init now) moments

end Metered

/-- The name is that of a dynamic bucket in every config. -/
structure Templated (nsCfg : NamespaceConfig) (cfg : BucketConfig) (bucketName : String) : Prop where
  template : nsCfg.dynamicBucketTemplate = some cfg
  unconfigured : nsCfg.buckets.get bucketName = none

/-- What there is under the name is made from the template, once there is a config. -/
structure Steady (nsCfg : NamespaceConfig) (cfg : BucketConfig) (ns bucketName : String)
    (bc : BucketContainer Unit TokenBucket) : Prop where
  unborn : bc.cfg = none → bc.defaultBucket = none ∧ bc.namespaces.get? ns = none
  born : bc.cfg ≠ none → ∃ nsp, bc.namespaces.get? ns = some nsp ∧ nsp.cfg = nsCfg
  bucket : ∀ b, bc.bucket? ns bucketName = some b →
    b.cfg = cfg ∧ b.dynamic = true ∧ b.impl = newBucket ns bucketName cfg true

section Steady
variable {nsCfg : NamespaceConfig} {cfg : BucketConfig} {ns bucketName : String}
variable {bc bc' : BucketContainer Unit TokenBucket}

theorem Steady.congr (h : Steady nsCfg cfg ns bucketName bc) (hcfg : bc'.cfg = bc.cfg)
    (hdefault : bc'.defaultBucket = bc.defaultBucket) (hnamespaces : bc'.namespaces = bc.namespaces) :
    Steady nsCfg cfg ns bucketName bc' := by
  refine ⟨?_, ?_, ?_⟩
  · rw [hcfg, hdefault, hnamespaces]
    exact h.unborn
  · rw [hcfg, hnamespaces]
    exact h.born
  · intro b hb
    rw [bucket?_congr hnamespaces] at hb
    exact h.bucket b hb

theorem steady_init (factory : Unit) :
    Steady nsCfg cfg ns bucketName (NewBucketContainer factory) := by
  refine ⟨fun _ => ⟨rfl, Directory.get?_empty⟩, fun h => absurd rfl h, fun b hb => ?_⟩
  cases (bucket?_of_absent Directory.get?_empty bucketName).symm.trans hb

/-- A change of one object that keeps its config. -/
theorem Steady.modify (h : Steady nsCfg cfg ns bucketName bc) {name : String} {r : ℕ}
    {nsp : Namespace TokenBucket} (hfetch : bc.fetch name = some (r, nsp))
    {f : Namespace TokenBucket → Namespace TokenBucket} (hf : (f nsp).cfg = nsp.cfg)
    (hcfg : bc'.cfg = bc.cfg) (hdefault : bc'.defaultBucket = bc.defaultBucket)
    (hnamespaces : bc'.namespaces = bc.namespaces.modify r f)
    (hbucket : ∀ b, bc'.bucket? ns bucketName = some b →
      b.cfg = cfg ∧ b.dynamic = true ∧ b.impl = newBucket ns bucketName cfg true) :
    Steady nsCfg cfg ns bucketName bc' := by
  have hget := get?_of_fetch hfetch
  refine ⟨fun hnone => ?_, fun hsome => ?_, hbucket⟩
  · rw [hcfg] at hnone
    obtain ⟨hnodefault, habsent⟩ := h.unborn hnone
    refine ⟨hdefault.trans hnodefault, ?_⟩
    have hne : ns ≠ name := by
      rintro rfl
      cases hget.symm.trans habsent
    rw [hnamespaces, get?_modify_fetch_ne hfetch hne]
    exact habsent
  · rw [hcfg] at hsome
    obtain ⟨nsp', hget', hcfg'⟩ := h.born hsome
    rw [hnamespaces]
    by_cases hname : ns = name
    · subst hname
      cases hget.symm.trans hget'
      exact ⟨f nsp, get?_modify_fetch_self hfetch, hf.trans hcfg'⟩
    · exact ⟨nsp', (get?_modify_fetch_ne hfetch hname).trans hget', hcfg'⟩

/-- A bucket that a lookup makes. -/
theorem Steady.adds (htemplated : Templated nsCfg cfg bucketName)
    (h : Steady nsCfg cfg ns bucketName bc) {name n : String} {b : Bucket TokenBucket}
    {nsp : Namespace TokenBucket} (hget : bc.namespaces.get? name = some nsp)
    (origin : Origin nsp n b) (adds : Adds memoryFactory name n b bc bc') :
    Steady nsCfg cfg ns bucketName bc' := by
  have hplaces := adds.bucket?
  have himpl := adds.impl
  obtain ⟨r, nsp', acts, hfetch, -, rfl, -⟩ := adds.added
  refine h.modify (f := fun _ => nsp'.addBucket n b) hfetch rfl rfl rfl rfl fun b' hb' => ?_
  have hplace := (hplaces ns bucketName).symm.trans hb'
  split_ifs at hplace with hours
  · cases hplace
    obtain ⟨rfl, rfl⟩ := hours
    have hborn : bc.cfg ≠ none := by
      intro hnone
      cases hget.symm.trans (h.unborn hnone).2
    obtain ⟨nsp'', hget'', rfl⟩ := h.born hborn
    cases hget.symm.trans hget''
    cases origin with
    | static configured =>
      rw [htemplated.unconfigured] at configured
      cases configured
    | dynamic unconfigured template dynamic =>
      rw [htemplated.template] at template
      cases template
      refine ⟨rfl, dynamic, ?_⟩
      rw [himpl, dynamic]
      rfl
  · exact h.bucket b' hplace

theorem steady_reported (h : Steady nsCfg cfg ns bucketName bc) (reported : Reported bc bc') :
    Steady nsCfg cfg ns bucketName bc' := by
  obtain ⟨acts, -, rfl⟩ := reported
  exact h.congr rfl rfl rfl

theorem steady_find (htemplated : Templated nsCfg cfg bucketName)
    (h : Steady nsCfg cfg ns bucketName bc) (name n : String) :
    Steady nsCfg cfg ns bucketName (bc.findBucket memoryFactory name n).1 := by
  have hsought := findBucket_sought memoryFactory bc name n
  generalize bc.findBucket memoryFactory name n = out at hsought ⊢
  cases hsought with
  | global missing reported => exact steady_reported h reported
  | existing get held => exact steady_reported h (reported_reportActivity bc _)
  | default get absent static reported => exact steady_reported h reported
  | full => exact h
  | created get absent template origin adds => exact h.adds htemplated get origin adds

/-- An update keeps the namespace, with what there is under the name. -/
theorem steady_update (htemplated : Templated nsCfg cfg bucketName) {order : List String}
    {newConfig : ServiceConfig} {s s' : Server Unit TokenBucket} (hnorm : Normalised newConfig)
    (hnsCfg : newConfig.namespaces.get ns = some (some nsCfg)) (hcovers : Covers order s)
    (hfresh : s.bucketContainer.cfg = none → ∀ name, s.bucketContainer.namespaces.get? name = none)
    (h : Steady nsCfg cfg ns bucketName s.bucketContainer)
    (hs : updateBucketContainer memoryFactory order newConfig s = some s') :
    Steady nsCfg cfg ns bucketName s'.bucketContainer ∧
      s'.bucketContainer.bucket? ns bucketName = s.bucketContainer.bucket? ns bucketName := by
  have hsteady : ∀ {bc' : BucketContainer Unit TokenBucket} {nsp' : Namespace TokenBucket},
      bc'.cfg = some newConfig → bc'.namespaces.get? ns = some nsp' → nsp'.cfg = nsCfg →
      bc'.bucket? ns bucketName = s.bucketContainer.bucket? ns bucketName →
      Steady nsCfg cfg ns bucketName bc' ∧
        bc'.bucket? ns bucketName = s.bucketContainer.bucket? ns bucketName := by
    intro bc' nsp' hcfg hget hnsp hplace
    refine ⟨⟨fun hnone => ?_, fun _ => ⟨nsp', hget, hnsp⟩, fun b hb => ?_⟩, hplace⟩
    · cases hcfg.symm.trans hnone
    · exact h.bucket b (hplace.symm.trans hb)
  cases updateBucketContainer_followed hs with
  | ignored => exact ⟨h, rfl⟩
  | initialised newer cfg init =>
    have hupdated := initLocked_spec (stable_true memoryFactory) hnorm trivial (hfresh cfg)
      (h.unborn cfg).1 init
    obtain ⟨nsp', hget'⟩ := hupdated.present ns (some nsCfg) hnsCfg
    have hsettled := hupdated.settled ns
    rw [hfresh cfg ns, hnsCfg, hget'] at hsettled
    cases hsettled with
    | created built =>
      refine hsteady hupdated.cfg hget' built.cfg ?_
      have hnone : nsp'.buckets.lookup bucketName = none := by
        have hmade := built.buckets bucketName
        rw [htemplated.unconfigured] at hmade
        exact Option.map_eq_none_iff.mp hmade
      rw [bucket?_of_get? hget', bucket?_of_absent (hfresh cfg ns)]
      exact hnone
  | updated newer cfg update =>
    have hupdated := update_spec (stable_true memoryFactory) hnorm trivial (by exact hcovers) update
    obtain ⟨nsp, hget, rfl⟩ := h.born (by rw [cfg]; exact Option.some_ne_none _)
    obtain ⟨nsp', hget'⟩ := hupdated.present ns (some nsp.cfg) hnsCfg
    have hsettled := hupdated.settled ns
    rw [hget, hnsCfg, hget'] at hsettled
    cases hsettled with
    | kept same =>
      refine hsteady hupdated.cfg hget' rfl ?_
      rw [bucket?_of_get? hget', bucket?_of_get? hget]
      rfl
    | replaced different built => exact absurd (SameNamespace.refl nsp.cfg) different

end Steady

section Passes
variable {nsCfg : NamespaceConfig} {cfg : BucketConfig} {ns bucketName : String}
variable {s s' : Watched Unit TokenBucket} {id : String}

theorem steady_checked (h : Steady nsCfg cfg ns bucketName s.server.bucketContainer)
    (hchecked : Watched.Checked memoryFactory s id s') :
    Steady nsCfg cfg ns bucketName s'.server.bucketContainer := by
  have hplaces : ∀ b, s'.server.bucketContainer.bucket? ns bucketName = some b →
      s.server.bucketContainer.bucket? ns bucketName = some b := fun b hb => hchecked.bucket? hb
  cases hchecked with
  | unknown => exact h
  | active registered => exact h.congr rfl rfl rfl
  | waiting registered recent => exact h
  | removed registered idle quiet fetched held =>
    refine h.modify (f := Namespace.dropBucket _ _) fetched rfl rfl rfl rfl fun b hb => ?_
    exact h.bucket b (hplaces b hb)

/-- A pass leaves a bucket in its place, or destroys it. -/
theorem pass_places (h : s.Attended) (order : List String) {b : Bucket TokenBucket}
    (hb : s.server.bucketContainer.bucket? ns bucketName = some b) :
    (s.checkExpirations memoryFactory order).server.bucketContainer.bucket? ns bucketName = some b ∨
      ((s.checkExpirations memoryFactory order).server.bucketContainer.bucket? ns bucketName = none ∧
        b.id ∈ (s.checkExpirations memoryFactory order).server.bucketContainer.destroyed) := by
  refine h.checkExpirations_induction (P := fun s' =>
    s'.server.bucketContainer.bucket? ns bucketName = some b ∨
      (s'.server.bucketContainer.bucket? ns bucketName = none ∧
        b.id ∈ s'.server.bucketContainer.destroyed)) (fun s₁ id s₂ h₁ hchecked hplace => ?_)
    (Or.inl hb) order
  rcases hplace with hplace | ⟨hnone, hgone⟩
  · cases hchecked with
    | unknown | active | waiting => exact Or.inl hplace
    | @removed w r nsp b' registered idle quiet fetched held =>
      by_cases hours : ns = w.ns ∧ bucketName = w.bucketName
      · refine Or.inr ⟨(bucket?_drop fetched rfl ns bucketName).trans (if_pos hours), ?_⟩
        rw [hours.1, hours.2, bucket?_of_get? (get?_of_fetch fetched)] at hplace
        cases hplace.symm.trans held
        exact Multiset.mem_cons_self _ _
      · exact Or.inl ((bucket?_drop fetched rfl ns bucketName).trans ((if_neg hours).trans hplace))
  · refine Or.inr ⟨?_, hchecked.destroyed hgone⟩
    cases hplace' : s₂.server.bucketContainer.bucket? ns bucketName with
    | none => rfl
    | some b₂ => cases hnone.symm.trans (hchecked.bucket? hplace')

theorem pass_absent (h : s.Attended) (order : List String)
    (hnone : s.server.bucketContainer.bucket? ns bucketName = none) :
    (s.checkExpirations memoryFactory order).server.bucketContainer.bucket? ns bucketName = none := by
  refine h.checkExpirations_induction (P := fun s' =>
    s'.server.bucketContainer.bucket? ns bucketName = none) (fun s₁ id s₂ h₁ hchecked hplace => ?_)
    hnone order
  cases hplace' : s₂.server.bucketContainer.bucket? ns bucketName with
  | none => rfl
  | some b₂ => cases hplace.symm.trans (hchecked.bucket? hplace')

end Passes

/-- A call on the bucket of this name. -/
def Held.Ours (ns bucketName : String) (h : Held) : Prop :=
  h.namespace = ns ∧ h.bucketName = bucketName

instance (ns bucketName : String) : DecidablePred (Held.Ours ns bucketName) :=
  fun _ => inferInstanceAs (Decidable (_ ∧ _))

/-- The bucket was found while it was in its place, which it has not left. -/
def Metered.Alive (s : Metered) (ns bucketName : String) (b : Bucket TokenBucket) (since : ℤ) : Prop :=
  s.watched.server.bucketContainer.bucket? ns bucketName = some b ∧ s.watched.Seen b.id since

/-- The bucket in the place of one that would be `m` if none had been removed. The last call on it had
found it no more than `delay` before, and calls that have found it since are in time or too late. -/
structure Tended (delay : ℤ) (nsCfg : NamespaceConfig) (cfg : BucketConfig) (ns bucketName : String)
    (s : Metered) (m : TokenBucket) : Prop where
  attended : s.watched.Attended
  steady : Steady nsCfg cfg ns bucketName s.watched.server.bucketContainer
  past : 0 ≤ s.watched.now
  issued : ∀ id b, s.tokens.lookup id = some b → id < s.watched.server.bucketContainer.nextBucket
  found : ∀ i h, s.calls.lookup i = some h →
    h.bucket.id < s.watched.server.bucketContainer.nextBucket
  theirs : ∀ i h, s.calls.lookup i = some h → ¬ h.Ours ns bucketName →
    ∀ b, s.watched.server.bucketContainer.bucket? ns bucketName = some b → b.id ≠ h.bucket.id
  ours : ∀ i h, s.calls.lookup i = some h → h.Ours ns bucketName →
    s.Alive ns bucketName h.bucket h.since ∨ h.since + delay < s.watched.now
  absent : s.watched.server.bucketContainer.bucket? ns bucketName = none →
    Sharing.Follows (newBucket ns bucketName cfg true)
      (Renewed cfg (newBucket ns bucketName cfg true)) s.watched.now m
      (newBucket ns bucketName cfg true)
  present : ∀ b, s.watched.server.bucketContainer.bucket? ns bucketName = some b →
    Sharing.Follows (newBucket ns bucketName cfg true)
      (Renewed cfg (newBucket ns bucketName cfg true)) s.watched.now m (s.bucket b) ∧
    ∃ last since, Repayable cfg (newBucket ns bucketName cfg true) last (s.bucket b) ∧
      last ≤ since + delay ∧ last ≤ s.watched.now ∧ s.watched.Seen b.id since

section Tended
variable {delay : ℤ} {nsCfg : NamespaceConfig} {cfg : BucketConfig} {ns bucketName : String}
variable {s s' : Metered} {m : TokenBucket} {watched : Watched Unit TokenBucket} {t : ℤ}

theorem tended_init {now : ℤ} (hnow : 0 ≤ now) :
    Tended delay nsCfg cfg ns bucketName (Metered.init now) (newBucket ns bucketName cfg true) := by
  have hplace : (Metered.init now).watched.server.bucketContainer.bucket? ns bucketName = none :=
    bucket?_of_absent Directory.get?_empty bucketName
  refine ⟨Watched.attended_init () now, steady_init (), hnow, ?_, ?_, ?_, ?_, fun _ => Or.inl rfl, ?_⟩
  · intro id b hb
    cases hb
  · intro i h hh
    cases hh
  · intro i h hh
    cases hh
  · intro i h hh
    cases hh
  · intro b hb
    cases hplace.symm.trans hb

/-- The server goes on, and leaves what is in the place. -/
theorem Tended.carry (hcfg : Fills cfg) (h : Tended delay nsCfg cfg ns bucketName s m)
    (hattended : watched.Attended)
    (hsteady : Steady nsCfg cfg ns bucketName watched.server.bucketContainer)
    (hnow : s.watched.now ≤ watched.now)
    (hnext : s.watched.server.bucketContainer.nextBucket ≤ watched.server.bucketContainer.nextBucket)
    (hplace : watched.server.bucketContainer.bucket? ns bucketName =
      s.watched.server.bucketContainer.bucket? ns bucketName)
    (hseen : ∀ x a, s.watched.Seen x a → watched.Seen x a) :
    Tended delay nsCfg cfg ns bucketName { s with watched := watched } m := by
  have hrenews := newBucket_renews hcfg ns bucketName true
  refine ⟨hattended, hsteady, h.past.trans hnow, fun id b hb => (h.issued id b hb).trans_le hnext,
    fun i c hc => (h.found i c hc).trans_le hnext, fun i c hc hother b hb => ?_, fun i c hc hours => ?_,
    fun hnone => ?_, fun b hb => ?_⟩
  · exact h.theirs i c hc hother b (hplace.symm.trans hb)
  · rcases h.ours i c hc hours with ⟨hb, hc⟩ | hlate
    · exact Or.inl ⟨hplace.trans hb, hseen _ _ hc⟩
    · exact Or.inr (hlate.trans_le hnow)
  · exact hrenews.follows_later (h.absent (hplace.symm.trans hnone)) hnow
  · obtain ⟨hfollows, last, since, hrepayable, hdelay, hlast, hb'⟩ := h.present b (hplace.symm.trans hb)
    exact ⟨hrenews.follows_later hfollows hnow, last, since, hrepayable, hdelay, hlast.trans hnow,
      hseen _ _ hb'⟩

/-- A bucket is made in the place. -/
theorem Tended.created (hcfg : Fills cfg) (hdelay : 0 ≤ delay)
    (h : Tended delay nsCfg cfg ns bucketName s m) (hattended : watched.Attended)
    (hsteady : Steady nsCfg cfg ns bucketName watched.server.bucketContainer)
    (hnow : s.watched.now ≤ watched.now) {b : Bucket TokenBucket}
    (hid : b.id = s.watched.server.bucketContainer.nextBucket)
    (hnext : watched.server.bucketContainer.nextBucket = b.id + 1)
    (hnone : s.watched.server.bucketContainer.bucket? ns bucketName = none)
    (hplace : watched.server.bucketContainer.bucket? ns bucketName = some b)
    (hseen : watched.Seen b.id watched.now) :
    Tended delay nsCfg cfg ns bucketName { s with watched := watched } m := by
  have hrenews := newBucket_renews hcfg ns bucketName true
  have hnew : s.tokens.lookup b.id = none := by
    cases hlookup : s.tokens.lookup b.id with
    | none => rfl
    | some b' => exact absurd (h.issued _ _ hlookup) (by omega)
  have hbucket : s.bucket b = newBucket ns bucketName cfg true := by
    unfold Metered.bucket
    rw [hnew]
    exact (hsteady.bucket b hplace).2.2
  refine ⟨hattended, hsteady, h.past.trans hnow, fun id b' hb' => ?_, fun i c hc => ?_,
    fun i c hc hother b' hb' => ?_, fun i c hc hours => ?_, fun hgone => ?_, fun b' hb' => ?_⟩
  · have hlt := h.issued id b' hb'
    dsimp only
    omega
  · have hlt := h.found i c hc
    dsimp only
    omega
  · cases hplace.symm.trans hb'
    have hlt := h.found i c hc
    omega
  · rcases h.ours i c hc hours with ⟨hb, -⟩ | hlate
    · cases hnone.symm.trans hb
    · exact Or.inr (hlate.trans_le hnow)
  · cases hplace.symm.trans hgone
  · cases hplace.symm.trans hb'
    have hfollows := hrenews.follows_later (h.absent hnone) hnow
    have hrepayable := newBucket_repayable hcfg ns bucketName true (h.past.trans hnow)
    have hsame : ({ s with watched := watched } : Metered).bucket b = newBucket ns bucketName cfg true :=
      hbucket
    rw [hsame]
    exact ⟨hfollows, watched.now, watched.now, hrepayable, by omega, le_refl _, hseen⟩

/-- The bucket in the place is removed, when no call is in time for it any more. -/
theorem Tended.removed (hcfg : Fills cfg) (hidle : refillTime cfg + delay ≤ idleTime cfg)
    (h : Tended delay nsCfg cfg ns bucketName s m) (hattended : watched.Attended)
    (hsteady : Steady nsCfg cfg ns bucketName watched.server.bucketContainer)
    (hnow : s.watched.now ≤ watched.now)
    (hnext : s.watched.server.bucketContainer.nextBucket ≤ watched.server.bucketContainer.nextBucket)
    {b : Bucket TokenBucket}
    (hb : s.watched.server.bucketContainer.bucket? ns bucketName = some b)
    (hnone : watched.server.bucketContainer.bucket? ns bucketName = none)
    (hseen : ∀ a, s.watched.Seen b.id a → a < watched.now - idleTime cfg) :
    Tended delay nsCfg cfg ns bucketName { s with watched := watched } m := by
  have hrenews := newBucket_renews hcfg ns bucketName true
  have hrefill : 0 ≤ refillTime cfg := by
    have hn := hcfg.one_le_nanosBetween
    have hfull : 0 ≤ nanosBetween cfg * cfg.size := mul_nonneg (by omega) hcfg.size_nonneg
    unfold refillTime farthestDebt
    split_ifs <;> omega
  obtain ⟨hfollows, last, since, hrepayable, hlast, -, hsince⟩ := h.present b hb
  have hlong := hseen since hsince
  refine ⟨hattended, hsteady, h.past.trans hnow, fun id b hb => (h.issued id b hb).trans_le hnext,
    fun i c hc => (h.found i c hc).trans_le hnext, fun i c hc hother b' hb' => ?_,
    fun i c hc hours => ?_, fun _ => ?_, fun b' hb' => ?_⟩
  · cases hnone.symm.trans hb'
  · rcases h.ours i c hc hours with ⟨hc', hseen'⟩ | hlate
    · cases hb.symm.trans hc'
      have hbefore := hseen _ hseen'
      right
      dsimp only
      omega
    · exact Or.inr (hlate.trans_le hnow)
  · have hrenewed : Renewed cfg (newBucket ns bucketName cfg true) watched.now (s.bucket b) :=
      (hrepayable.renewed hcfg).later hcfg (by omega)
    exact Sharing.follows_init (hrenews.follows_later hfollows hnow) hrenewed
  · cases hnone.symm.trans hb'

/-- A call has found a bucket. -/
theorem Tended.hold (h : Tended delay nsCfg cfg ns bucketName s m) {i : ℕ} {c : Held}
    (hlt : c.bucket.id < s.watched.server.bucketContainer.nextBucket)
    (hours : c.Ours ns bucketName → s.Alive ns bucketName c.bucket c.since)
    (htheirs : ¬ c.Ours ns bucketName →
      ∀ b, s.watched.server.bucketContainer.bucket? ns bucketName = some b → b.id ≠ c.bucket.id) :
    Tended delay nsCfg cfg ns bucketName { s with calls := s.calls.insert i c } m := by
  refine ⟨h.attended, h.steady, h.past, h.issued, fun j c' hc' => ?_, fun j c' hc' hother => ?_,
    fun j c' hc' hmine => ?_, h.absent, h.present⟩
  · rcases AList.lookup_insert_cases hc' with ⟨-, rfl⟩ | ⟨-, hold⟩
    · exact hlt
    · exact h.found j c' hold
  · rcases AList.lookup_insert_cases hc' with ⟨-, rfl⟩ | ⟨-, hold⟩
    · exact htheirs hother
    · exact h.theirs j c' hold hother
  · rcases AList.lookup_insert_cases hc' with ⟨-, rfl⟩ | ⟨-, hold⟩
    · exact Or.inl (hours hmine)
    · exact h.ours j c' hold hmine

end Tended

section Deeds
variable {delay : ℤ} {nsCfg : NamespaceConfig} {cfg : BucketConfig} {ns bucketName : String}
variable {s : Metered} {m : TokenBucket} {watched : Watched Unit TokenBucket} {t : ℤ} {d : Deed}

/-- The configs of a run are in their normal form, and all of them have the same for the namespace. -/
def Agrees (nsCfg : NamespaceConfig) (ns : String) (d : Deed) : Prop :=
  ∀ order newConfig, d = .update order newConfig →
    Normalised newConfig ∧ newConfig.namespaces.get ns = some (some nsCfg)

theorem Tended.later (hcfg : Fills cfg) (h : Tended delay nsCfg cfg ns bucketName s m)
    (ht : s.watched.now ≤ t) :
    Tended delay nsCfg cfg ns bucketName { s with watched := { s.watched with now := t } } m :=
  h.carry hcfg (h.attended.later t) h.steady ht le_rfl rfl fun _ _ hseen => hseen.later ht

/-- A lookup, at its time. -/
theorem Tended.find (hcfg : Fills cfg) (hdelay : 0 ≤ delay)
    (htemplated : Templated nsCfg cfg bucketName) (h : Tended delay nsCfg cfg ns bucketName s m)
    {name n : String} (hs : s.watched.perform memoryFactory (.find name n) = some watched)
    (hattended : watched.Attended)
    (hseen : ∀ x a, s.watched.Seen x a → watched.Seen x a) :
    Tended delay nsCfg cfg ns bucketName { s with watched := watched } m := by
  have hreported : ∀ b, (s.watched.server.bucketContainer.findBucket memoryFactory name
      n).2.toOption.join = some b → watched.Seen b.id s.watched.now := fun b hb =>
    Watched.reported_seen (d := .find name n) h.attended hb hs
  have hsteady := steady_find htemplated h.steady name n
  cases hs
  have hsought := findBucket_sought memoryFactory s.watched.server.bucketContainer name n
  generalize s.watched.server.bucketContainer.findBucket memoryFactory name n = out
    at hsought hsteady hattended hseen hreported ⊢
  have hquiet : ∀ {bc}, Reported s.watched.server.bucketContainer bc → out.1 = bc →
      Tended delay nsCfg cfg ns bucketName { s with watched := s.watched.setContainer out.1 } m := by
    intro bc reported hout
    obtain ⟨acts, -, rfl⟩ := reported
    refine h.carry hcfg hattended hsteady le_rfl ?_ ?_ hseen
    · exact le_of_eq (congrArg BucketContainer.nextBucket hout).symm
    · exact bucket?_congr (congrArg BucketContainer.namespaces hout) ns bucketName
  cases hsought with
  | global missing reported => exact hquiet reported rfl
  | existing get held => exact hquiet (reported_reportActivity _ _) rfl
  | default get absent static reported => exact hquiet reported rfl
  | full => exact hquiet ⟨_, subset_rfl, rfl⟩ rfl
  | @created nsp template b bc get absent htemplate origin adds =>
    have hplaces := adds.bucket?
    have hid := adds.id
    have hnext : bc.nextBucket = b.id + 1 := by
      obtain ⟨r, nsp', acts, -, -, rfl, -⟩ := adds.added
      rw [hid]
    by_cases hours : ns = name ∧ bucketName = n
    · obtain ⟨rfl, rfl⟩ := hours
      refine h.created hcfg hdelay hattended hsteady le_rfl hid hnext ?_ ?_ ?_
      · rw [bucket?_of_get? get]
        exact absent
      · exact (hplaces ns bucketName).trans (if_pos ⟨rfl, rfl⟩)
      · exact hreported b rfl
    · refine h.carry hcfg hattended hsteady le_rfl ?_ ?_ hseen
      · have hlt : s.watched.server.bucketContainer.nextBucket ≤ bc.nextBucket := by omega
        exact hlt
      · exact (hplaces ns bucketName).trans (if_neg hours)

/-- A pass of the reaper. -/
theorem Tended.pass (hcfg : Fills cfg)
    (hidle : 0 < cfg.maxIdleMillis → refillTime cfg + delay ≤ idleTime cfg)
    (h : Tended delay nsCfg cfg ns bucketName s m) (order : List String) :
    Tended delay nsCfg cfg ns bucketName
      { s with watched := s.watched.checkExpirations memoryFactory order } m := by
  have hattended := h.attended.checkExpirations memoryFactory order
  have hnow : (s.watched.checkExpirations memoryFactory order).now = s.watched.now :=
    Watched.checkExpirations_now h.attended order
  obtain ⟨hsteady, hnext⟩ : Steady nsCfg cfg ns bucketName
        (s.watched.checkExpirations memoryFactory order).server.bucketContainer ∧
      (s.watched.checkExpirations memoryFactory order).server.bucketContainer.nextBucket =
        s.watched.server.bucketContainer.nextBucket := by
    refine h.attended.checkExpirations_induction (P := fun s' =>
      Steady nsCfg cfg ns bucketName s'.server.bucketContainer ∧
        s'.server.bucketContainer.nextBucket = s.watched.server.bucketContainer.nextBucket)
      (fun s₁ id s₂ _ hchecked hP => ⟨steady_checked hP.1 hchecked, ?_⟩) ⟨h.steady, rfl⟩ order
    rw [← hP.2]
    cases hchecked <;> rfl
  have hseen : ∀ x a, s.watched.Seen x a →
      (s.watched.checkExpirations memoryFactory order).Seen x a := fun x a hx =>
    Watched.checkExpirations_seen h.attended order hx
  cases hplace : s.watched.server.bucketContainer.bucket? ns bucketName with
  | none =>
    have hnone := pass_absent h.attended order hplace
    exact h.carry hcfg hattended hsteady hnow.ge hnext.ge (hnone.trans hplace.symm) hseen
  | some b =>
    rcases pass_places h.attended order hplace with hkept | ⟨hnone, hgone⟩
    · exact h.carry hcfg hattended hsteady hnow.ge hnext.ge (hkept.trans hplace.symm) hseen
    · have hintact := (h.attended.sound.bucket?_intact hplace).2
      obtain ⟨name, n, b', hb', hid, hreapable, hlong⟩ :=
        Watched.checkExpirations_removes h.attended order hintact hgone
      obtain ⟨-, -, rfl⟩ := h.attended.sound.bucket?_inj hb' hplace hid
      obtain ⟨hbcfg, -, -⟩ := h.steady.bucket b' hplace
      have hmaxIdle : 0 < cfg.maxIdleMillis := by
        have hflag := h.attended.reapable ns bucketName b' hplace
        rw [hreapable, hbcfg] at hflag
        simpa using (Bool.and_eq_true_iff.mp hflag.symm).2
      refine h.removed hcfg (hidle hmaxIdle) hattended hsteady hnow.ge hnext.ge hplace hnone
        fun a ha => ?_
      have hbefore := hlong a ha
      rwa [hnow, ← hbcfg]

theorem Tended.deed (hcfg : Fills cfg) (hdelay : 0 ≤ delay)
    (hidle : 0 < cfg.maxIdleMillis → refillTime cfg + delay ≤ idleTime cfg)
    (htemplated : Templated nsCfg cfg bucketName) (h : Tended delay nsCfg cfg ns bucketName s m)
    (hagrees : Agrees nsCfg ns d) (hs : s.watched.step memoryFactory (t, d) = some watched) :
    Tended delay nsCfg cfg ns bucketName { s with watched := watched } m := by
  have hnorm : ∀ order newConfig, d = .update order newConfig → Normalised newConfig :=
    fun order newConfig hd => (hagrees order newConfig hd).1
  have hattended := Watched.step_attended h.attended hnorm hs
  have hseen : ∀ x a, s.watched.Seen x a → watched.Seen x a := fun x a hx =>
    Watched.step_seen hnorm h.attended hx hs
  obtain ⟨ht, hhappened⟩ := Watched.step_happened hs
  have hlater := h.later hcfg ht
  cases d with
  | find name n =>
    have hperform : ({ s.watched with now := t } : Watched Unit TokenBucket).perform memoryFactory
        (.find name n) = some watched := by
      unfold Watched.step at hs
      rwa [if_pos ht] at hs
    have hfound := hlater.find hcfg hdelay htemplated hperform hattended fun x a hx =>
      Watched.happened_seen hlater.attended hnorm hx hhappened
    exact hfound
  | report name n =>
    cases hhappened with
    | reported reported =>
      have hsteady := steady_reported h.steady reported
      obtain ⟨acts, -, rfl⟩ := reported
      exact h.carry hcfg hattended hsteady ht le_rfl rfl hseen
  | update order newConfig =>
    obtain ⟨hnormal, hnsCfg⟩ := hagrees order newConfig rfl
    cases hhappened with
    | updated covers updated =>
      obtain ⟨hsteady, hplace⟩ := steady_update htemplated hnormal hnsCfg covers h.attended.fresh
        h.steady updated
      obtain ⟨hundisturbed, -⟩ := updateBucketContainer_undisturbed hnormal h.attended.fresh updated
      exact h.carry hcfg hattended hsteady ht hundisturbed.nextBucket hplace hseen
  | addNewWatcher =>
    cases hhappened with
    | @received w ws queued =>
      have hsteady : Steady nsCfg cfg ns bucketName { s.watched.server.bucketContainer with
        newWatchers := ws } := h.steady.congr rfl rfl rfl
      exact h.carry hcfg hattended hsteady ht le_rfl rfl hseen
  | checkExpirations order =>
    cases hhappened with
    | passed perm => exact hlater.pass hcfg hidle order

end Deeds

section Calls
variable {delay : ℤ} {nsCfg : NamespaceConfig} {cfg : BucketConfig} {ns bucketName : String}
variable {s s' : Metered} {m : TokenBucket} {t : ℤ} {i : ℕ}

/-- What a lookup finds is what is in the place, if it is for that, and else is something else. -/
theorem Steady.sought {bc bc' : BucketContainer Unit TokenBucket} {name n : String}
    {b : Bucket TokenBucket} (htemplated : Templated nsCfg cfg bucketName) (hsound : Sound bc)
    (h : Steady nsCfg cfg ns bucketName bc)
    (hsought : Sought memoryFactory bc name n (bc', .ok (some b))) :
    b.id < bc'.nextBucket ∧
      (name = ns ∧ n = bucketName → bc'.bucket? ns bucketName = some b) ∧
      (¬ (name = ns ∧ n = bucketName) →
        ∀ b', bc'.bucket? ns bucketName = some b' → b'.id ≠ b.id) := by
  have hdefault : ∀ {bc' : BucketContainer Unit TokenBucket}, Reported bc bc' →
      b.id < bc.nextBucket → ¬ (name = ns ∧ n = bucketName) →
      (bc.defaultBucket = some b ∨
        ∃ name' nsp, bc.namespaces.get? name' = some nsp ∧ nsp.defaultBucket = some b) →
      b.id < bc'.nextBucket ∧
        (name = ns ∧ n = bucketName → bc'.bucket? ns bucketName = some b) ∧
        (¬ (name = ns ∧ n = bucketName) →
          ∀ b', bc'.bucket? ns bucketName = some b' → b'.id ≠ b.id) := by
    rintro bc' ⟨acts, -, rfl⟩ hlt hother hb
    exact ⟨hlt, fun hours => absurd hours hother, fun _ b' hb' => hsound.bucket?_ne_default hb' hb⟩
  generalize hout : (Except.ok (some b) : Except String (Option (Bucket TokenBucket))) = out at hsought
  cases hsought with
  | global missing reported =>
    have hb : bc.defaultBucket = some b := (Except.ok.inj hout).symm
    refine hdefault reported (hsound.default_lt (by simp [hb, bucketId])) ?_ (Or.inl hb)
    rintro ⟨rfl, -⟩
    by_cases hcfg : bc.cfg = none
    · cases hb.symm.trans (h.unborn hcfg).1
    · obtain ⟨nsp, hget, -⟩ := h.born hcfg
      cases hget.symm.trans missing
  | @existing nsp b' get held =>
    cases hout
    have hb : bc.bucket? name n = some b := (bucket?_of_get? get n).trans held
    obtain ⟨acts, -, heq⟩ := reported_reportActivity bc b
    rw [heq]
    refine ⟨(hsound.bucket?_intact hb).1, ?_, fun hother b' hb' hid => ?_⟩
    · rintro ⟨rfl, rfl⟩
      exact hb
    · obtain ⟨hns, hn, -⟩ := hsound.bucket?_inj hb' hb hid
      exact hother ⟨hns.symm, hn.symm⟩
  | @default nsp _ get absent static reported =>
    have hb : nsp.defaultBucket = some b := (Except.ok.inj hout).symm
    obtain ⟨r, -, hnsp⟩ := Directory.get?_eq_some.mp get
    refine hdefault reported (hsound.lt_of_mem hnsp (mem_ids_of_default hb)) ?_
      (Or.inr ⟨name, nsp, get, hb⟩)
    rintro ⟨rfl, -⟩
    have hborn : bc.cfg ≠ none := fun hcfg => by
      cases get.symm.trans (h.unborn hcfg).2
    obtain ⟨nsp', get', rfl⟩ := h.born hborn
    cases get.symm.trans get'
    cases static.symm.trans htemplated.template
  | full => cases hout
  | created get absent template origin adds =>
    cases hout
    have hplaces := adds.bucket? ns bucketName
    have hid := adds.id
    obtain ⟨r, nsp', acts, -, -, rfl, -⟩ := adds.added
    refine ⟨?_, ?_, fun hother b' hb' => ?_⟩
    · dsimp only
      omega
    · rintro ⟨rfl, rfl⟩
      exact hplaces.trans (if_pos ⟨rfl, rfl⟩)
    · have hne : ¬ (ns = name ∧ bucketName = n) := fun hours => hother ⟨hours.1.symm, hours.2.symm⟩
      have hplace := hplaces.symm.trans hb'
      rw [if_neg hne] at hplace
      have hlt := (hsound.bucket?_intact hplace).1
      omega

theorem Tended.seek (hcfg : Fills cfg) (hdelay : 0 ≤ delay)
    (hidle : 0 < cfg.maxIdleMillis → refillTime cfg + delay ≤ idleTime cfg)
    (htemplated : Templated nsCfg cfg bucketName) (h : Tended delay nsCfg cfg ns bucketName s m)
    {name n : String} (hs : s.step (t, .find i name n) = some s') :
    Tended delay nsCfg cfg ns bucketName s' m := by
  simp only [Metered.step] at hs
  split_ifs at hs with hfree
  obtain ⟨watched, hwatched, rfl⟩ := Option.map_eq_some_iff.mp hs
  have hdeed := h.deed hcfg hdelay hidle htemplated (d := .find name n) nofun hwatched
  have hsought := findBucket_sought memoryFactory s.watched.server.bucketContainer name n
  obtain ⟨ht, -⟩ := Watched.step_happened hwatched
  have hreported : ∀ b, (s.watched.server.bucketContainer.findBucket memoryFactory name
      n).2.toOption.join = some b → watched.Seen b.id t := by
    intro b hb
    unfold Watched.step at hwatched
    rw [if_pos ht] at hwatched
    exact Watched.reported_seen (d := .find name n) (h.attended.later t) hb hwatched
  have hcontainer : watched.server.bucketContainer =
      (s.watched.server.bucketContainer.findBucket memoryFactory name n).1 := by
    unfold Watched.step at hwatched
    rw [if_pos ht] at hwatched
    cases hwatched
    rfl
  generalize s.watched.server.bucketContainer.findBucket memoryFactory name n = out
    at hsought hreported hcontainer ⊢
  obtain ⟨bc', result⟩ := out
  rcases result with message | found
  · exact hdeed
  · cases found with
    | none => exact hdeed
    | some b =>
      obtain ⟨hlt, hours, htheirs⟩ := h.steady.sought htemplated h.attended.sound hsought
      refine hdeed.hold (c := ⟨name, n, b, t⟩) ?_ ?_ ?_
      · rw [hcontainer]
        exact hlt
      · intro hmine
        refine ⟨?_, hreported b rfl⟩
        dsimp only
        rw [hcontainer]
        exact hours hmine
      · intro hother
        dsimp only
        rw [hcontainer]
        exact htheirs hother

/-- A call that has found another bucket. -/
theorem Tended.passBy (hcfg : Fills cfg) (h : Tended delay nsCfg cfg ns bucketName s m) {c : Held}
    (hc : s.calls.lookup i = some c) (hother : ¬ c.Ours ns bucketName) (ht : s.watched.now ≤ t)
    (b' : TokenBucket) :
    Tended delay nsCfg cfg ns bucketName
      ⟨{ s.watched with now := t }, s.tokens.insert c.bucket.id b', s.calls.erase i⟩ m := by
  have hlater := h.later hcfg ht
  refine ⟨hlater.attended, hlater.steady, hlater.past, fun id b hb => ?_, fun j c' hc' => ?_,
    fun j c' hc' => ?_, fun j c' hc' => ?_, hlater.absent, fun b hb => ?_⟩
  · rcases AList.lookup_insert_cases hb with ⟨rfl, -⟩ | ⟨-, hold⟩
    · exact h.found i c hc
    · exact h.issued id b hold
  · exact h.found j c' (AList.lookup_erase_cases hc').2
  · exact h.theirs j c' (AList.lookup_erase_cases hc').2
  · exact hlater.ours j c' (AList.lookup_erase_cases hc').2
  · have hne := h.theirs i c hc hother b hb
    have hsame : (⟨{ s.watched with now := t }, s.tokens.insert c.bucket.id b', s.calls.erase i⟩ :
        Metered).bucket b = s.bucket b := by
      unfold Metered.bucket
      rw [AList.lookup_insert_ne hne]
    rw [hsame]
    exact hlater.present b hb

/-- A call that has found the bucket in time is answered as if none had been removed. -/
theorem Tended.draw (hcfg : Admissible cfg) (h : Tended delay nsCfg cfg ns bucketName s m) {c : Held}
    (hc : s.calls.lookup i = some c) (hours : c.Ours ns bucketName) (call : Memory.Call)
    (ht : s.watched.now ≤ call.now) (hprompt : call.now ≤ c.since + delay)
    (hrequested : 0 ≤ call.requested) :
    Tended delay nsCfg cfg ns bucketName
        ⟨{ s.watched with now := call.now },
          s.tokens.insert c.bucket.id ((s.bucket c.bucket).take .exact call).1, s.calls.erase i⟩
        (m.take .exact call).1 ∧
      ((s.bucket c.bucket).take .exact call).2 = (m.take .exact call).2 := by
  have hrenews := newBucket_renews hcfg.fills ns bucketName true
  obtain ⟨hb, hsince⟩ : s.Alive ns bucketName c.bucket c.since := by
    rcases h.ours i c hc hours with halive | hlate
    · exact halive
    · omega
  obtain ⟨hfollows, last, since, hrepayable, -, hlast, -⟩ := h.present c.bucket hb
  obtain ⟨hfollows', hanswer⟩ := hrenews.follows_step (i := call) hfollows ht
  have hrepayable' := hrepayable.take hcfg (hlast.trans ht) hrequested
  have hlater := h.later hcfg.fills ht
  refine ⟨⟨hlater.attended, hlater.steady, hlater.past, fun id b hb => ?_, fun j c' hc' => ?_,
    fun j c' hc' => ?_, fun j c' hc' => ?_, fun hnone => ?_, fun b hb' => ?_⟩, hanswer⟩
  · rcases AList.lookup_insert_cases hb with ⟨rfl, -⟩ | ⟨-, hold⟩
    · exact h.found i c hc
    · exact h.issued id b hold
  · exact h.found j c' (AList.lookup_erase_cases hc').2
  · exact h.theirs j c' (AList.lookup_erase_cases hc').2
  · exact hlater.ours j c' (AList.lookup_erase_cases hc').2
  · cases hb.symm.trans hnone
  · cases hb.symm.trans hb'
    have htaken : (⟨{ s.watched with now := call.now }, s.tokens.insert c.bucket.id
        ((s.bucket c.bucket).take .exact call).1, s.calls.erase i⟩ : Metered).bucket c.bucket =
          ((s.bucket c.bucket).take .exact call).1 := by
      unfold Metered.bucket
      rw [AList.lookup_insert]
      rfl
    rw [htaken]
    exact ⟨hfollows', call.now, c.since, hrepayable', hprompt, le_refl _, hsince.later ht⟩

end Calls

/-- The calls of a log that were made on the bucket of a name. -/
def onBucket (ns bucketName : String) (log : List Drawn) : List Drawn :=
  log.filter fun x => decide (x.held.Ours ns bucketName)

section Runs
variable {delay : ℤ} {nsCfg : NamespaceConfig} {cfg : BucketConfig} {ns bucketName : String}
variable {s : Metered} {m : TokenBucket}

/-- A step that draws from the bucket. -/
theorem Tended.drawn (hcfg : Admissible cfg) (h : Tended delay nsCfg cfg ns bucketName s m)
    {e : ℤ × Occasion} {s' : Metered} (hs : s.step e = some s') {x : Drawn} (hx : s.drawn e = some x)
    (hours : x.held.Ours ns bucketName)
    (hdrawn : x.call.now ≤ x.held.since + delay ∧ 0 ≤ x.call.requested) :
    x.answer = (m.take .exact x.call).2 ∧
      Tended delay nsCfg cfg ns bucketName s' (m.take .exact x.call).1 := by
  obtain ⟨t, o⟩ := e
  cases o with
  | deed d => cases hx
  | find i name n => cases hx
  | take i requested maxWaitTimeNanos =>
    simp only [Metered.step] at hs
    split_ifs at hs with ht
    obtain ⟨c, hc, rfl⟩ := Option.map_eq_some_iff.mp hs
    simp only [Metered.drawn, hc, Option.map_some, Option.some.injEq] at hx
    subst hx
    obtain ⟨hprompt, hrequested⟩ := hdrawn
    obtain ⟨htended, hanswer⟩ := h.draw hcfg hc hours ⟨t, requested, maxWaitTimeNanos⟩ ht hprompt
      hrequested
    exact ⟨hanswer, htended⟩

/-- A step that draws nothing from it. -/
theorem Tended.step (hcfg : Admissible cfg) (hdelay : 0 ≤ delay)
    (hidle : 0 < cfg.maxIdleMillis → refillTime cfg + delay ≤ idleTime cfg)
    (htemplated : Templated nsCfg cfg bucketName) (h : Tended delay nsCfg cfg ns bucketName s m)
    {e : ℤ × Occasion} {s' : Metered} (hs : s.step e = some s')
    (hagrees : ∀ d, e.2 = .deed d → Agrees nsCfg ns d)
    (hother : ∀ x ∈ s.drawn e, ¬ x.held.Ours ns bucketName) :
    Tended delay nsCfg cfg ns bucketName s' m := by
  obtain ⟨t, o⟩ := e
  cases o with
  | deed d =>
    simp only [Metered.step] at hs
    obtain ⟨watched, hwatched, rfl⟩ := Option.map_eq_some_iff.mp hs
    exact h.deed hcfg.fills hdelay hidle htemplated (hagrees d rfl) hwatched
  | find i name n => exact h.seek hcfg.fills hdelay hidle htemplated hs
  | take i requested maxWaitTimeNanos =>
    simp only [Metered.step] at hs
    split_ifs at hs with ht
    obtain ⟨c, hc, rfl⟩ := Option.map_eq_some_iff.mp hs
    simp only [Metered.drawn, hc, Option.map_some, Option.mem_def, Option.some.injEq,
      forall_eq'] at hother
    exact h.passBy hcfg.fills hc hother ht _

end Runs

/-- That the reaper removes a dynamic bucket, and that it is made anew when it is asked for again, is
not to be noticed: over a whole run, in which calls take their tokens within `delay` of finding their
bucket, they are answered as by one bucket that is never removed, if the idle time is no shorter than
the time to refill any bucket and the delay. -/
theorem reaping_unnoticed {nsCfg : NamespaceConfig} {cfg : BucketConfig} {ns bucketName : String}
    (hcfg : Admissible cfg) (htemplated : Templated nsCfg cfg bucketName) (delay : ℤ)
    (hdelay : 0 ≤ delay) (hidle : 0 < cfg.maxIdleMillis → refillTime cfg + delay ≤ idleTime cfg)
    (now : ℤ) (hnow : 0 ≤ now) (moments : List (ℤ × Occasion))
    (hagrees : ∀ t order newConfig, (t, .deed (.update order newConfig)) ∈ moments →
      Normalised newConfig ∧ newConfig.namespaces.get ns = some (some nsCfg))
    (hdrawn : ∀ x ∈ onBucket ns bucketName (Metered.log now moments),
      x.call.now ≤ x.held.since + delay ∧ 1 ≤ x.call.requested) :
    (onBucket ns bucketName (Metered.log now moments)).map Drawn.answer =
      Machine.outputs (TokenBucket.take .exact) (newBucket ns bucketName cfg true)
        ((onBucket ns bucketName (Metered.log now moments)).map Drawn.call) := by
  refine Sharing.outputs_of_collect (fun x : Drawn => decide (x.held.Ours ns bucketName)) Drawn.call
    Drawn.answer (Tended delay nsCfg cfg ns bucketName)
    (fun e => ∀ d, e.2 = .deed d → Agrees nsCfg ns d)
    (fun x => x.call.now ≤ x.held.since + delay ∧ 0 ≤ x.call.requested) ?_ ?_
    (tended_init hnow) ?_ ?_
  · intro s m e s' x h _ hs hx hmine hok
    exact h.drawn hcfg hs hx (of_decide_eq_true hmine) hok
  · intro s m e s' h hagrees hs hother
    exact h.step hcfg hdelay hidle htemplated hs hagrees fun x hx => of_decide_eq_false (hother x hx)
  · intro e he d hd order newConfig hupdate
    refine hagrees e.1 order newConfig ?_
    rw [← hupdate, ← hd]
    exact he
  · intro x hx
    obtain ⟨hprompt, hrequested⟩ := hdrawn x hx
    exact ⟨hprompt, zero_le_one.trans hrequested⟩

/-- Buckets of a hundred tokens, fifty of them a second, that may be idle for twenty seconds. -/
def unhurried : NamespaceConfig :=
  applyNamespaceDefaults "a" { dynamicBucketTemplate := some { maxIdleMillis := 20000 } }

def unhurriedConfig : ServiceConfig where
  namespaces := .table (AList.singleton "a" (some unhurried))

/-- A bucket is emptied, is removed half a minute later, and is made anew and emptied again. -/
def absence : List (ℤ × Occasion) :=
  [(0, .deed (.update [] unhurriedConfig)), (1, .find 0 "a" "x"), (2, .take 0 100 0),
    (3, .deed .addNewWatcher), (5, .deed (.checkExpirations ["a:x"])),
    (30000000000, .deed (.checkExpirations ["a:x"])), (31000000000, .find 1 "a" "x"),
    (31000000001, .take 1 100 0)]

theorem agrees_absence : ∀ t order newConfig, (t, .deed (.update order newConfig)) ∈ absence →
    Normalised newConfig ∧ newConfig.namespaces.get "a" = some (some unhurried) := by
  intro t order newConfig hmem
  simp only [absence, List.mem_cons, Prod.mk.injEq, Occasion.deed.injEq, Deed.update.injEq,
    reduceCtorEq, and_false, List.not_mem_nil, or_false] at hmem
  obtain ⟨-, -, rfl⟩ := hmem
  exact ⟨⟨unhurriedConfig, unhurriedConfig, rfl, Or.inl rfl⟩, rfl⟩

theorem reaping_unnoticed_absence :
    let log := onBucket "a" "x" (Metered.log 0 absence)
    log.map (fun x => x.held.bucket.id) = [0, 1] ∧
      log.map Drawn.answer = Machine.outputs (TokenBucket.take .exact)
        (newBucket "a" "x" ((unhurried.dynamicBucketTemplate).getD {}) true) (log.map Drawn.call) :=
  ⟨by decide, reaping_unnoticed ⟨by decide, by decide, by decide, by decide⟩ ⟨rfl, rfl⟩ 1000000000
    (by decide) (by decide) 0 (by decide) absence agrees_absence (by decide)⟩

end QuotaService.Container
