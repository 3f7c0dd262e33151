import QuotaService.Buckets.Equivalence

/-! Key expiry. Only an accepted call writes the keys, and with them a new expiry, so the keys
live for `lifespan` after the last accepted call, however many calls are refused meanwhile. A
bucket whose keys have expired answers as a new one does. What the numbers of the script are does not
matter to this; doubles do matter to the rate, unless the numbers that come up are exact. -/
namespace QuotaService.Redis
open Config Memory Arith

def lifespanNanos (a : RedisBucket) : ℤ := lifespanMillis a * 1000000

/-- Neither key of the bucket expires before the call at `now`. -/
def Survives (a : RedisBucket) (db : Keyspace) (now : ℤ) : Prop :=
  (db.purge .px now) a.keys.1 = db a.keys.1 ∧ (db.purge .px now) a.keys.2 = db a.keys.2

/-- Neither key expires at any call of the run. -/
def KeysSurvive (L : DivArith) (a : RedisBucket) (db : Keyspace) (requests : List Request) : Prop :=
  ∀ t ∈ Machine.trace (a.take L .px) db requests, Survives a t.before t.input.time.nanos

/-- The calls of a run that were answered with tokens, each with its wait. -/
def served (calls : List Call) (outputs : List (Except String (ℤ × Bool))) : List (Call × ℤ) :=
  (calls.zip outputs).filterMap fun
    | (c, .ok (wait, true)) => some (c, wait)
    | _ => none

/-- In no window more tokens are served than a full bucket, the refill of the window, from the
moment the first tokens are usable, and the allowed debt. -/
def WindowBound (cfg : BucketConfig) (calls : List (Call × ℤ)) : Prop :=
  ∀ pre x mid post, calls = pre ++ (x :: mid) ++ post →
    nanosBetween cfg * ((x :: mid).map fun y => y.1.requested).sum ≤
      nanosBetween cfg * cfg.size + cfg.maxDebtMillis * 1000000 +
        (((x :: mid).getLast (by simp)).1.now - (x.1.now + x.2))

/-- What is promised of a run on keys that may expire. -/
structure NeverReset (L : DivArith) (a : RedisBucket) (db : Keyspace) (requests : List Request) :
    Prop where
  keys_survive : KeysSurvive L a db requests
  outputs_eq : Machine.outputs (a.take L .px) db requests =
    Machine.outputs (a.take L .never) db requests
  window_bound : WindowBound a.cfg
    (served (requests.map Request.toCall) (Machine.outputs (a.take L .px) db requests))

/-- Each call comes less than `lifespan` after the last accepted call before it, if there is one. The
calls are given by their times and whether they are accepted; `last` is when the last one was. -/
def KeptAlive (lifespan : ℤ) : Option ℤ → List (ℤ × Bool) → Prop
  | _, [] => True
  | last, (now, accepted) :: rest => (∀ t ∈ last, now < t + lifespan) ∧
    KeptAlive lifespan (if accepted = true then some now else last) rest

instance decidableKeptAlive (lifespan : ℤ) :
    ∀ last calls, Decidable (KeptAlive lifespan last calls)
  | _, [] => isTrue trivial
  | last, (now, accepted) :: rest =>
    have := decidableKeptAlive lifespan (if accepted = true then some now else last) rest
    inferInstanceAs (Decidable (_ ∧ _))

/-- The times of the calls, and which of them an in-memory bucket accepts. -/
def accepting (m : TokenBucket) (calls : List Call) : List (ℤ × Bool) :=
  (calls.map Call.now).zip ((Machine.outputs (TokenBucket.take .exact) m calls).map Prod.snd)

def accepted : Except String (ℤ × Bool) → Bool
  | .ok (_, success) => success
  | .error _ => false

/-- The times of the calls, and which of them are accepted on keys that never expire. -/
def acceptingForever (L : DivArith) (a : RedisBucket) (db : Keyspace) (requests : List Request) :
    List (ℤ × Bool) :=
  (requests.map fun r => r.time.nanos).zip
    ((Machine.outputs (a.take L .never) db requests).map accepted)

/-- Every call of the run of an in-memory bucket is precise. -/
def PreciseRun (L : DivArith) : TokenBucket → List Request → Prop
  | _, [] => True
  | m, r :: rs => Precise L m r ∧ PreciseRun L (m.take .exact r.toCall).1 rs

/-- The keys were last written at `last`, or never. -/
def Stamped (a : RedisBucket) (last : Option ℤ) (db : Keyspace) : Prop :=
  match last with
  | none => Absent a db
  | some t => (∃ v, db a.keys.1 = some ⟨v, some (t + lifespanNanos a)⟩) ∧
      ∃ v, db a.keys.2 = some ⟨v, some (t + lifespanNanos a)⟩

/-- What a call finds at `now`: the bucket and when its keys were last written, or a new bucket if the
keys have expired. -/
def found (lifespan : ℤ) (new : TokenBucket) (s : TokenBucket × Option ℤ) (now : ℤ) :
    TokenBucket × Option ℤ :=
  if ∀ t ∈ s.2, now < t + lifespan then s else (new, none)

/-- An in-memory bucket that is made anew when its keys have expired. -/
def takeExpiring (lifespan : ℤ) (new : TokenBucket) (s : TokenBucket × Option ℤ) (r : Request) :
    (TokenBucket × Option ℤ) × Except String (ℤ × Bool) :=
  let (m, last) := found lifespan new s r.time.nanos
  (((m.take .exact r.toCall).1, if m.Refuses r.toCall then last else some r.time.nanos),
    .ok (m.take .exact r.toCall).2)

section Step
variable {a : RedisBucket} {cfg : BucketConfig} {m : TokenBucket} {db db' : Keyspace}
  {last : Option ℤ}

theorem purge_px_eq (db : Keyspace) (now : ℤ) (k : String) :
    (db.purge .px now) k = (db k).filter fun entry => entry.expiresAt.all fun t => now < t := rfl

theorem survives_iff (hs : Stamped a last db) (now : ℤ) :
    Survives a db now ↔ ∀ t ∈ last, now < t + lifespanNanos a := by
  unfold Survives
  cases last with
  | none => simp [purge_px_eq, hs.1, hs.2]
  | some t =>
    obtain ⟨⟨v, hv⟩, w, hw⟩ := hs
    simp [purge_px_eq, hv, hw]

theorem stamped_congr (h1 : db' a.keys.1 = db a.keys.1) (h2 : db' a.keys.2 = db a.keys.2)
    (hs : Stamped a last db) : Stamped a last db' := by
  cases last with
  | none => exact ⟨h1.trans hs.1, h2.trans hs.2⟩
  | some t => exact ⟨hs.1.imp fun _ => h1.trans, hs.2.imp fun _ => h2.trans⟩

theorem simulates_congr (h1 : db' a.keys.1 = db a.keys.1) (h2 : db' a.keys.2 = db a.keys.2)
    (hm : Simulates a cfg m db) : Simulates a cfg m db' := by
  have hg1 : db'.get a.keys.1 = db.get a.keys.1 := congrArg (Option.map _) h1
  have hg2 : db'.get a.keys.2 = db.get a.keys.2 := congrArg (Option.map _) h2
  refine ⟨hm.cfg_eq, hm.nanos_eq, ?_, ?_, ?_⟩
  · rw [← hm.horizon_eq, storedHorizon, storedHorizon, hg1]
  · rw [← hm.stock_eq, storedStock, storedStock, hg2]
  · rw [hg2]
    exact hm.stock_parses

theorem stamped_written (hlife : 0 < lifespanNanos a) (hkeys : a.keys.1 ≠ a.keys.2)
    (m : TokenBucket) (c : Call) (db : Keyspace) :
    Stamped a (some c.now) (written a m c db) := by
  have hexp : expiryOf a c.now = some (c.now + lifespanNanos a) := by
    unfold lifespanNanos at hlife ⊢
    rw [expiryOf, if_pos (by omega)]
  simp [Stamped, written, Keyspace.set, hexp, hkeys]

theorem found_simulates (ha : Carries a cfg) (hm : Simulates a cfg m db) (hs : Stamped a last db)
    (ns bucketName : String) (dyn : Bool) (now : ℤ) :
    let s := found (lifespanNanos a) (Memory.newBucket ns bucketName cfg dyn) (m, last) now
    Simulates a cfg s.1 (db.purge .px now) ∧ Stamped a s.2 (db.purge .px now) := by
  intro s
  by_cases hr : Survives a db now
  · have hfound : s = (m, last) := if_pos ((survives_iff hs now).mp hr)
    rw [hfound]
    exact ⟨simulates_congr hr.1 hr.2 hm, stamped_congr hr.1 hr.2 hs⟩
  · have hlate := (survives_iff hs now).not.mp hr
    have hfound : s = (Memory.newBucket ns bucketName cfg dyn, none) := if_neg hlate
    have habsent : Absent a (db.purge .px now) := by
      cases last with
      | none => simp at hlate
      | some t =>
        obtain ⟨⟨v, hv⟩, w, hw⟩ := hs
        have hdue : t + lifespanNanos a ≤ now := by simpa using hlate
        simp [Absent, purge_px_eq, hv, hw, hdue]
    rw [hfound]
    exact ⟨simulates_absent ha habsent ns bucketName dyn, habsent⟩

/-- A call on keys that may have expired. -/
theorem take_stamped (hcfg : Admissible cfg) (ha : Serves a cfg) (hlife : 0 < lifespanNanos a)
    (hm : Simulates a cfg m db) (hs : Stamped a last db) (ns bucketName : String) (dyn : Bool)
    (r : Request) :
    let s := takeExpiring (lifespanNanos a) (Memory.newBucket ns bucketName cfg dyn) (m, last) r
    Simulates a cfg s.1.1 (a.take .exact .px db r).1 ∧
      Stamped a s.1.2 (a.take .exact .px db r).1 ∧ (a.take .exact .px db r).2 = s.2 := by
  intro s
  obtain ⟨hlive, hlast⟩ := found_simulates ha.toCarries hm hs ns bucketName dyn r.time.nanos
  obtain ⟨hm', hout⟩ := take_simulates hcfg ha .px r hlive
  refine ⟨hm', ?_, hout⟩
  unfold RedisBucket.take s takeExpiring
  dsimp only
  rw [luaScript_exact hcfg ha hlive]
  generalize found _ _ _ _ = s at hlive hlast
  by_cases href : s.1.Refuses r.toCall
  · simp only [href, if_true]
    exact hlast
  · simp only [href, if_false]
    exact stamped_written hlife ha.keys_ne s.1 r.toCall _

end Step

section Congruence
variable {L : DivArith} {a : RedisBucket} {db db' : Keyspace} {last : Option ℤ}
  {requests : List Request}

/-- Two stores have the same values under the keys of the bucket. -/
def SameKeys (a : RedisBucket) (db db' : Keyspace) : Prop :=
  db.get a.keys.1 = db'.get a.keys.1 ∧ db.get a.keys.2 = db'.get a.keys.2

/-- When keys set now expire. -/
def expires (time : Time) (lifespan : ℤ) : Option ℤ :=
  if 0 < lifespan then some (time.nanos + lifespan * 1000000) else none

def Keyspace.setBoth (db : Keyspace) (keys : String × String) (v w : String) (expiresAt : Option ℤ) :
    Keyspace :=
  (db.set keys.1 v expiresAt).set keys.2 w expiresAt

/-- The script is a Lua error, or it leaves the store alone, or it writes both keys; which of these, and
what it writes, depends on the values under its keys only. -/
theorem luaScript_congr (hL : ∀ x : ℤ, 0 ≤ x → 0 ≤ L.wrap x) {keys : String × String} {argv : Argv}
    (time : Time) {lifespan : ℤ} (hlife : (tonumber argv.lifespan).map L.wrap = some lifespan)
    (h1 : db.get keys.1 = db'.get keys.1) (h2 : db.get keys.2 = db'.get keys.2) :
    (luaScript L keys argv time db = none ∧ luaScript L keys argv time db' = none) ∨
    (luaScript L keys argv time db = some (db, -1) ∧
      luaScript L keys argv time db' = some (db', -1)) ∨
    ∃ (v w : String) (wait : ℤ), 0 ≤ wait ∧
      luaScript L keys argv time db = some (db.setBoth keys v w (expires time lifespan), wait) ∧
      luaScript L keys argv time db' = some (db'.setBoth keys v w (expires time lifespan), wait) := by
  unfold luaScript
  simp only [h1, h2, hlife, Option.bind_eq_bind]
  cases hsize : (tonumber argv.maxTokensToAccumulate).map L.wrap with
  | none => exact Or.inl ⟨rfl, rfl⟩
  | some size =>
  simp only [Option.bind_some]
  cases hstock : (db'.get keys.2).elim (some size) fun s => (tonumber s).map L.wrap with
  | none => exact Or.inl ⟨rfl, rfl⟩
  | some stock =>
  simp only [Option.bind_some]
  cases hnanos : (tonumber argv.nanosBetweenTokens).map L.wrap with
  | none => exact Or.inl ⟨rfl, rfl⟩
  | some nanos =>
  simp only [Option.bind_some]
  cases hrequested : (tonumber argv.requested).map L.wrap with
  | none => exact Or.inl ⟨rfl, rfl⟩
  | some requested =>
  simp only [Option.bind_some]
  cases hmax : (tonumber argv.maxWaitTime).map L.wrap with
  | none => exact Or.inl ⟨rfl, rfl⟩
  | some maxWait =>
  simp only [Option.bind_some]
  cases hdebt : (tonumber argv.maxDebtNanos).map L.wrap with
  | none => exact Or.inl ⟨rfl, rfl⟩
  | some maxDebt =>
  simp only [Option.bind_some]
  right
  generalize hrefill : ite ((_ : ℤ) < _) ((_, _) : ℤ × ℤ) _ = refilled
  have hpast : L.wrap (L.wrap (time.second * 1000000000) + L.wrap (time.microsecond * 1000)) ≤
      refilled.1 := by
    rw [← hrefill]
    split_ifs with hlater
    · exact le_rfl
    · exact not_lt.mp hlater
  have hexpires : (if 0 < lifespan then some (time.nanos + lifespan * 1000000) else none) =
      expires time lifespan := rfl
  rw [hexpires]
  split_ifs with hrefused
  · exact Or.inl ⟨rfl, rfl⟩
  · right
    exact ⟨_, _, _, hL _ (sub_nonneg.mpr hpast), rfl, rfl⟩

/-- A call on keys that may expire, against one on keys that do not and have the same values. -/
theorem take_forever (hL : ∀ x : ℤ, 0 ≤ x → 0 ≤ L.wrap x) (ha : a.keys.1 ≠ a.keys.2)
    (hlifespan : (tonumber a.lifespan).map L.wrap = some (lifespanMillis a))
    (hlife : 0 < lifespanNanos a) {r : Request}
    (hsame : SameKeys a (db.purge .px r.time.nanos) db') :
    SameKeys a (a.take L .px db r).1 (a.take L .never db' r).1 ∧
      (a.take L .px db r).2 = (a.take L .never db' r).2 ∧
      (Stamped a last db → Survives a db r.time.nanos →
        Stamped a (if accepted (a.take L .never db' r).2 = true then some r.time.nanos else last)
          (a.take L .px db r).1) := by
  have hargv : (tonumber (a.argv r).lifespan).map L.wrap = some (lifespanMillis a) := hlifespan
  have hkept : Stamped a last db → Survives a db r.time.nanos →
      Stamped a last (db.purge .px r.time.nanos) := fun hs hr => stamped_congr hr.1 hr.2 hs
  rcases luaScript_congr hL r.time hargv hsame.1 hsame.2 with
    ⟨h, h'⟩ | ⟨h, h'⟩ | ⟨v, w, wait, hwait, h, h'⟩
  · have hpx : a.take L .px db r =
        (db.purge .px r.time.nanos, .error "failed to take token from redis bucket") := by
      simp only [RedisBucket.take, h]
    have hnever : a.take L .never db' r =
        (db', .error "failed to take token from redis bucket") := by
      simp only [RedisBucket.take, purge_never, h']
    rw [hpx, hnever]
    exact ⟨hsame, rfl, hkept⟩
  · have hpx : a.take L .px db r = (db.purge .px r.time.nanos, .ok (0, false)) := by
      simp only [RedisBucket.take, h]
      rfl
    have hnever : a.take L .never db' r = (db', .ok (0, false)) := by
      simp only [RedisBucket.take, purge_never, h']
      rfl
    rw [hpx, hnever]
    exact ⟨hsame, rfl, hkept⟩
  · have hexpires : expires r.time (lifespanMillis a) = some (r.time.nanos + lifespanNanos a) := by
      unfold lifespanNanos at hlife ⊢
      rw [expires, if_pos (by omega)]
    rw [hexpires] at h h'
    have hpx : a.take L .px db r = ((db.purge .px r.time.nanos).setBoth a.keys v w
        (some (r.time.nanos + lifespanNanos a)), .ok (wait, true)) := by
      simp only [RedisBucket.take, h, if_neg (not_lt.mpr hwait)]
    have hnever : a.take L .never db' r = (db'.setBoth a.keys v w
        (some (r.time.nanos + lifespanNanos a)), .ok (wait, true)) := by
      simp only [RedisBucket.take, purge_never, h', if_neg (not_lt.mpr hwait)]
    rw [hpx, hnever]
    refine ⟨?_, rfl, fun _ _ => ?_⟩
    · simp [SameKeys, Keyspace.setBoth, get_set_ne ha]
    · simp [Stamped, accepted, Keyspace.setBoth, Keyspace.set, ha]

theorem keysSurvive_cons {r : Request} : KeysSurvive L a db (r :: requests) ↔
    Survives a db r.time.nanos ∧ KeysSurvive L a (a.take L .px db r).1 requests := by
  simp [KeysSurvive]

/-- The keys survive if the calls that are accepted come often enough, and they are answered then as on
keys that never expire. -/
theorem keysSurvive_iff (hL : ∀ x : ℤ, 0 ≤ x → 0 ≤ L.wrap x) (ha : a.keys.1 ≠ a.keys.2)
    (hlifespan : (tonumber a.lifespan).map L.wrap = some (lifespanMillis a))
    (hlife : 0 < lifespanNanos a) (hsame : SameKeys a db db') (hs : Stamped a last db) :
    (KeysSurvive L a db requests ↔
        KeptAlive (lifespanNanos a) last (acceptingForever L a db' requests)) ∧
      (KeysSurvive L a db requests →
        Machine.outputs (a.take L .px) db requests =
          Machine.outputs (a.take L .never) db' requests) := by
  induction requests generalizing db db' last with
  | nil => simp [KeysSurvive, KeptAlive, acceptingForever]
  | cons r rs ih =>
    have hfirst : Survives a db r.time.nanos ↔ ∀ t ∈ last, r.time.nanos < t + lifespanNanos a :=
      survives_iff hs _
    have hrest : Survives a db r.time.nanos → _ := fun hr =>
      have hpurged : SameKeys a (db.purge .px r.time.nanos) db' :=
        ⟨(congrArg (Option.map Entry.value) hr.1).trans hsame.1,
          (congrArg (Option.map Entry.value) hr.2).trans hsame.2⟩
      have htake := take_forever hL ha hlifespan hlife hpurged
      have hstamped := htake.2.2 hs hr
      And.intro htake.2.1 (ih htake.1 hstamped)
    rw [keysSurvive_cons]
    constructor
    · simp only [acceptingForever, List.map_cons, Machine.outputs_cons, List.zip_cons_cons, KeptAlive,
        ← hfirst]
      exact and_congr_right fun hr => (hrest hr).2.1
    · rintro ⟨hr, hlater⟩
      obtain ⟨hout, -, houtputs⟩ := hrest hr
      simp only [Machine.outputs_cons, hout, houtputs hlater]

end Congruence

section Rate
variable {L : DivArith} {a : RedisBucket} {cfg : BucketConfig} {m : TokenBucket} {db : Keyspace}
  {requests : List Request}

/-- A precise call is one over exact integers. -/
theorem take_precise (hcfg : Admissible cfg) (ha : Carries a cfg) (hlife : L.Fits (lifespanMillis a))
    (e : Expiry) {r : Request} (hm : Simulates a cfg m (db.purge e r.time.nanos))
    (hp : Precise L m r) : a.take L e db r = a.take .exact e db r := by
  unfold RedisBucket.take
  dsimp only
  rw [luaScript_eq hcfg ha hlife hm hp,
    luaScript_eq hcfg ha (DivArith.exact_fits _) hm (precise_exact m r)]

theorem outputs_precise (hcfg : Admissible cfg) (ha : Serves a cfg) (hlife : L.Fits (lifespanMillis a))
    (hm : Simulates a cfg m db) (hp : PreciseRun L m requests) :
    Machine.outputs (a.take L .never) db requests =
      (Machine.outputs (TokenBucket.take .exact) m (requests.map Request.toCall)).map .ok := by
  induction requests generalizing m db with
  | nil => rfl
  | cons r rs ih =>
    obtain ⟨hfirst, hrest⟩ := hp
    obtain ⟨hm', hout⟩ := take_simulates hcfg ha .never r hm
    have hexact := take_precise hcfg ha.toCarries hlife .never hm hfirst
    rw [← hexact] at hm' hout
    simp only [Machine.outputs_cons, List.map_cons, hout, ih hm' hrest]

/-- The run of a bucket whose keys expire, if its numbers come out as they would over integers. -/
theorem outputs_expiring (hcfg : Admissible cfg) (ha : Serves a cfg) (hlife : 0 < lifespanNanos a)
    (hfits : L.Fits (lifespanMillis a)) (hm : Simulates a cfg m db) (hs : Stamped a last db)
    (ns bucketName : String) (dyn : Bool)
    (hp : ∀ t ∈ Machine.trace (takeExpiring (lifespanNanos a)
      (Memory.newBucket ns bucketName cfg dyn)) (m, last) requests,
      Precise L (found (lifespanNanos a) (Memory.newBucket ns bucketName cfg dyn) t.before
        t.input.time.nanos).1 t.input) :
    Machine.outputs (a.take L .px) db requests = Machine.outputs (takeExpiring (lifespanNanos a)
      (Memory.newBucket ns bucketName cfg dyn)) (m, last) requests := by
  induction requests generalizing m db last with
  | nil => rfl
  | cons r rs ih =>
    rw [Machine.trace_cons, List.forall_mem_cons] at hp
    obtain ⟨hfirst, hrest⟩ := hp
    obtain ⟨hlive, -⟩ := found_simulates ha.toCarries hm hs ns bucketName dyn r.time.nanos
    have hexact := take_precise hcfg ha.toCarries hfits .px hlive hfirst
    obtain ⟨hm', hs', hout⟩ := take_stamped hcfg ha hlife hm hs ns bucketName dyn r
    rw [← hexact] at hm' hs' hout
    rw [Machine.outputs_cons, Machine.outputs_cons, hout, ih hm' hs' hrest]

/-- The served calls of an in-memory bucket are its grants. -/
theorem served_memory (m : TokenBucket) (calls : List Call) :
    served calls ((Machine.outputs (TokenBucket.take .exact) m calls).map .ok) =
      (grants m calls).map fun g => (g.input, g.output) := by
  induction calls generalizing m with
  | nil => rfl
  | cons c cs ih =>
    have hneg := TokenBucket.calcWaitTime_neg_iff m c
    have hstep : (m.take .exact c).1 = (m.calcWaitTime .exact c).1 := by
      unfold TokenBucket.take
      dsimp only
      split_ifs <;> rfl
    unfold served grants at ih ⊢
    simp only [Machine.outputs_cons, List.map_cons, List.zip_cons_cons, List.filterMap_cons,
      Machine.trace_cons, List.filter_cons, ih, hstep]
    by_cases hr : m.Refuses c
    · have hlt : (m.calcWaitTime .exact c).2 < 0 := hneg.mpr hr
      simp [TokenBucket.take, hlt, not_le.mpr hlt]
    · have hpos : ¬ (m.calcWaitTime .exact c).2 < 0 := hneg.not.mpr hr
      simp [TokenBucket.take, hpos, not_lt.mp hpos]

theorem windowBound_grants (hcfg : Admissible cfg) (hm : Sound cfg m) {calls : List Call}
    (hcalls : ∀ c ∈ calls, 0 ≤ c.requested) :
    WindowBound cfg ((grants m calls).map fun g => (g.input, g.output)) := by
  intro pre x mid post heq
  obtain ⟨gs, post', hgs, hfront, -⟩ := List.map_eq_append_iff.mp heq
  obtain ⟨pre', stretch, hgs', -, hstretch⟩ := List.map_eq_append_iff.mp hfront
  obtain ⟨g, mid', rfl, rfl, rfl⟩ := List.map_eq_cons_iff.mp hstretch
  have hchain := grants_isChain m calls
  rw [hgs, hgs'] at hchain
  have hmem : ∀ h ∈ g :: mid', IsGrant cfg h := fun h hh => isGrant_of_mem hcfg hm hcalls (by
    rw [hgs, hgs']
    exact List.mem_append_left _ (List.mem_append_right _ hh))
  have htokens := tokens_of_stretch hcfg hmem
    (List.isChain_append.mp (List.isChain_append.mp hchain).1).2.1
  have hdebt := (hmem _ (List.getLast_mem (by simp))).within_debt
  have hlast : (((g.input, g.output) :: mid'.map fun h => (h.input, h.output)).getLast
      (by simp)).1 = ((g :: mid').getLast (by simp)).input := by
    have := List.getLast_map (f := fun h : Grant => (h.input, h.output)) (l := g :: mid') (by simp)
    simpa using congrArg Prod.fst this
  have hrequested : (((g.input, g.output) :: mid'.map fun h => (h.input, h.output)).map
      fun y => y.1.requested) = (g :: mid').map fun h => h.input.requested := by
    simp [Function.comp_def]
  rw [hlast, hrequested]
  unfold usableAt at htokens
  linarith

end Rate

/-- A run on a new bucket is the run on keys that never expire, and neither key expires, exactly when no
call comes a lifespan or more after the last accepted one. If moreover the numbers that come up are
doubles, then the run is bounded, and an in-memory bucket tells which calls are accepted. -/
theorem neverReset_iff_keptAlive {cfg : BucketConfig} (hcfg : Admissible cfg) (bf : BucketFactory)
    (ns bucketName : String) (dyn : Bool)
    (hshared : dyn = true → ∀ attribs, bf.sharedAttributes.lookup ns = some attribs →
      attribs = newConfigAttributes cfg (idleOf cfg))
    (hlife : 0 < lifespanNanos (bf.newBucket ns bucketName cfg dyn).2)
    (hbound : lifespanMillis (bf.newBucket ns bucketName cfg dyn).2 < 2 ^ 53)
    (db : Keyspace) (hdb : Absent (bf.newBucket ns bucketName cfg dyn).2 db)
    (requests : List Request) (hreq : ∀ r ∈ requests, 1 ≤ r.requested) :
    let a := (bf.newBucket ns bucketName cfg dyn).2
    let m := Memory.newBucket ns bucketName cfg dyn
    (KeysSurvive .double a db requests ∧ Machine.outputs (a.take .double .px) db requests =
        Machine.outputs (a.take .double .never) db requests ↔
      KeptAlive (lifespanNanos a) none (acceptingForever .double a db requests)) ∧
    (int64.Fits (cfg.maxDebtMillis * 1000000) → PreciseRun .double m requests →
      (NeverReset .double a db requests ↔
        KeptAlive (lifespanNanos a) none (accepting m (requests.map Request.toCall)))) := by
  intro a m
  have ha : Carries a cfg := newBucket_carries bf ns bucketName cfg dyn hshared
  have hfits : DivArith.double.Fits (lifespanMillis a) := by
    have hpos : 0 < lifespanMillis a * 1000000 := hlife
    have hlt : lifespanMillis a < 2 ^ 53 := hbound
    exact float64_fits_of_lt (by omega)
  have hlifespan : (tonumber a.lifespan).map DivArith.double.wrap = some (lifespanMillis a) := by
    rw [tonumber_lifespan ha]
    exact congrArg some hfits
  have hs : Stamped a none db := hdb
  have hsame : SameKeys a db db := ⟨rfl, rfl⟩
  obtain ⟨hsurvive, houtputs⟩ : (KeysSurvive .double a db requests ↔ _) ∧ _ :=
    keysSurvive_iff (fun _ => DivArith.double_wrap_nonneg) ha.keys_ne hlifespan hlife hsame hs
  refine ⟨⟨fun h => hsurvive.mp h.1, fun h => ⟨hsurvive.mpr h, houtputs (hsurvive.mpr h)⟩⟩, ?_⟩
  intro hdebt hprecise
  have hserves : Serves a cfg := ⟨ha, hdebt⟩
  have hmemory := outputs_precise hcfg hserves hfits (simulates_absent ha hdb ns bucketName dyn)
    hprecise
  have hsame : acceptingForever .double a db requests =
      accepting m (requests.map Request.toCall) := by
    unfold acceptingForever accepting
    rw [hmemory, List.map_map, List.map_map]
    rfl
  rw [← hsame, ← hsurvive]
  refine ⟨fun h => h.keys_survive, fun h => ⟨h, houtputs h, ?_⟩⟩
  rw [houtputs h, hmemory, served_memory, ha.cfg_eq]
  apply windowBound_grants hcfg (newBucket_sound hcfg.fills ns bucketName dyn)
  intro c hc
  obtain ⟨r, hr, rfl⟩ := List.mem_map.mp hc
  exact le_trans zero_le_one (hreq r hr)

/-- A burst that borrows four tokens, on keys that live for a second: the calls that keep coming
are accepted often enough. -/
theorem neverReset_iff_keptAlive_burst :
    NeverReset .double ((BucketFactory.new 0).newBucket "ns" "b"
        { size := 1, fillRate := 1, maxIdleMillis := 1000, maxDebtMillis := 10000 } false).2
      (fun _ => none) [⟨⟨1700000000, 0⟩, 5, 0⟩, ⟨⟨1700000000, 600000⟩, 1, 0⟩,
        ⟨⟨1700000000, 800000⟩, 1, 4000000000⟩] := by
  refine ((neverReset_iff_keptAlive ⟨by decide, by decide, by decide, by decide⟩
    (BucketFactory.new 0) "ns" "b" false nofun (by decide) (by decide) (fun _ => none) ⟨rfl, rfl⟩ _
    (by decide)).2 (by decide) ?_).mpr (by decide)
  refine ⟨?_, ?_, ?_, trivial⟩ <;> constructor <;> decide +kernel

/-- The same burst, followed by a refused call 0.6 s later and one 0.6 s after that. The keys are
gone by then, although no two calls are a second apart, and the debt of the burst with them. -/
theorem expiry_forgets_debt :
    let cfg : BucketConfig :=
      { size := 1, fillRate := 1, maxIdleMillis := 1000, maxDebtMillis := 10000 }
    let a := ((BucketFactory.new 0).newBucket "ns" "b" cfg false).2
    let requests : List Request :=
      [⟨⟨1700000000, 0⟩, 5, 0⟩, ⟨⟨1700000000, 600000⟩, 1, 0⟩, ⟨⟨1700000001, 200000⟩, 1, 0⟩]
    0 < lifespanNanos a ∧
      (requests.IsChain fun r s => r.time.nanos ≤ s.time.nanos ∧
        s.time.nanos < r.time.nanos + lifespanNanos a) ∧
      Machine.outputs (a.take .double .px) (fun _ => none) requests =
        [.ok (0, true), .ok (0, false), .ok (0, true)] ∧
      Machine.outputs (a.take .double .never) (fun _ => none) requests =
        [.ok (0, true), .ok (0, false), .ok (0, false)] ∧
      ¬ NeverReset .double a (fun _ => none) requests := by
  intro cfg a requests
  have hcfg : Admissible cfg := ⟨by decide, by decide, by decide, by decide⟩
  have ha : Serves a cfg :=
    ⟨newBucket_carries (BucketFactory.new 0) "ns" "b" cfg false nofun, by decide⟩
  have hlife : 0 < lifespanNanos a := by decide
  have hfits : DivArith.double.Fits (lifespanMillis a) := by decide
  have hm : Simulates a cfg (Memory.newBucket "ns" "b" cfg false) fun _ => none :=
    simulates_absent ha.toCarries ⟨rfl, rfl⟩ "ns" "b" false
  have hpx : Machine.outputs (a.take .double .px) (fun _ => none) requests =
      [.ok (0, true), .ok (0, false), .ok (0, true)] := by
    rw [outputs_expiring hcfg ha hlife hfits hm (show Stamped a none _ from ⟨rfl, rfl⟩) "ns" "b" false
      ?_]
    · decide
    · simp only [requests, Machine.trace_cons, Machine.trace_nil, List.forall_mem_cons]
      refine ⟨?_, ?_, ?_, by simp⟩ <;> constructor <;> decide +kernel
  have hnever : Machine.outputs (a.take .double .never) (fun _ => none) requests =
      [.ok (0, true), .ok (0, false), .ok (0, false)] := by
    rw [outputs_precise hcfg ha hfits hm ?_]
    · decide
    · refine ⟨?_, ?_, ?_, trivial⟩ <;> constructor <;> decide +kernel
  refine ⟨hlife, by decide, hpx, hnever, ?_⟩
  intro h
  have heq := h.outputs_eq
  rw [hpx, hnever] at heq
  simp at heq

end QuotaService.Redis
