import QuotaService.Buckets.Overflow
import QuotaService.Buckets.Redis

/-! The Redis bucket refines the in-memory one. The two stored strings, read with their defaults,
are the two fields of the in-memory bucket, and the script answers each request as
`calcWaitTime` does, as long as the keys are there when they are read and the numbers that come up are
numbers of the script. The numbers of `calcWaitTime` may overflow. -/
namespace QuotaService.Redis
open Config Memory Arith

/-- The horizon in the store, an absent key being 0. -/
def storedHorizon (a : RedisBucket) (db : Keyspace) : ℤ :=
  ((db.get a.keys.1).bind tonumber).getD 0

/-- The stock in the store, an absent key being a full bucket. -/
def storedStock (a : RedisBucket) (db : Keyspace) : ℤ :=
  ((db.get a.keys.2).bind tonumber).getD a.cfg.size

/-- The request as the in-memory bucket sees it, its clock showing the time of Redis. -/
def Request.toCall (r : Request) : Call := ⟨r.time.nanos, r.requested, r.maxWaitTimeNanos⟩

/-- A bucket with the attributes of its own config, which is what `NewBucket` makes of a static
config and of the template of a namespace. -/
structure Carries (a : RedisBucket) (cfg : BucketConfig) : Prop where
  cfg_eq : a.cfg = cfg
  attributes_eq : a.configAttributes = newConfigAttributes cfg (idleOf cfg)
  keys_ne : a.keys.1 ≠ a.keys.2

/-- A bucket whose limit on the debt is that of its config. -/
structure Serves (a : RedisBucket) (cfg : BucketConfig) : Prop extends Carries a cfg where
  debt_fits : int64.Fits (cfg.maxDebtMillis * 1000000)

/-- The simulation relation between the in-memory bucket and the store. -/
structure Simulates (a : RedisBucket) (cfg : BucketConfig) (m : TokenBucket) (db : Keyspace) :
    Prop where
  cfg_eq : m.cfg = cfg
  nanos_eq : m.nanosBetweenTokens = nanosBetween cfg
  horizon_eq : storedHorizon a db = m.tokensNextAvailableNanos
  stock_eq : storedStock a db = m.accumulatedTokens
  stock_parses : ∀ s, db.get a.keys.2 = some s → ∃ x, tonumber s = some x

/-- The whole numbers that the script computes on a call are numbers of it. The tokens that come in may
be rounded if the bucket is full anyway. -/
structure Precise (L : DivArith) (m : TokenBucket) (r : Request) : Prop where
  size : L.Fits m.cfg.size
  nanosBetweenTokens : L.Fits m.nanosBetweenTokens
  maxDebt : L.Fits (int64.wrap (debtLimit m))
  requested : L.Fits r.requested
  maxWaitTime : L.Fits r.maxWaitTimeNanos
  seconds : L.Fits (r.time.second * 1000000000)
  microseconds : L.Fits (r.time.microsecond * 1000)
  now : L.Fits r.time.nanos
  horizon : L.Fits m.tokensNextAvailableNanos
  stock : L.Fits m.accumulatedTokens
  elapsed : m.tokensNextAvailableNanos < r.time.nanos →
    L.Fits (r.time.nanos - m.tokensNextAvailableNanos)
  refill : m.tokensNextAvailableNanos < r.time.nanos →
    min m.cfg.size (L.wrap (m.accumulatedTokens +
        L.floorDiv (r.time.nanos - m.tokensNextAvailableNanos) m.nanosBetweenTokens)) =
      min m.cfg.size (m.accumulatedTokens +
        Int.fdiv (r.time.nanos - m.tokensNextAvailableNanos) m.nanosBetweenTokens)
  wait : L.Fits (m.horizon r.time.nanos - r.time.nanos)
  left : L.Fits (m.stock r.time.nanos - min (m.stock r.time.nanos) r.requested)
  owed : L.Fits (r.requested - min (m.stock r.time.nanos) r.requested)
  cost : L.Fits ((r.requested - min (m.stock r.time.nanos) r.requested) * m.nanosBetweenTokens)
  paid : L.Fits (paidUpTo m r.toCall)
  debt : L.Fits (paidUpTo m r.toCall - r.time.nanos)

/-- The lifetime of the keys in milliseconds: `MaxIdleMillis`, or that of the factory if unset. -/
def lifespanMillis (a : RedisBucket) : ℤ :=
  if 0 < a.cfg.maxIdleMillis then a.cfg.maxIdleMillis else Int.tdiv a.keyMaxIdleTime 1000000

def expiryOf (a : RedisBucket) (now : ℤ) : Option ℤ :=
  if 0 < lifespanMillis a then some (now + lifespanMillis a * 1000000) else none

/-- The store after a call that is not refused. -/
def written (a : RedisBucket) (m : TokenBucket) (c : Call) (db : Keyspace) : Keyspace :=
  (db.set a.keys.1 (formatInt (m.granted c).tokensNextAvailableNanos) (expiryOf a c.now)).set
    a.keys.2 (formatInt (m.granted c).accumulatedTokens) (expiryOf a c.now)

theorem formatInt_eq_zero {x : ℤ} : formatInt x = "0" ↔ x = 0 := by
  refine ⟨fun h => ?_, fun h => h ▸ rfl⟩
  have h0 : formatInt x = formatInt 0 := h
  have hn := congrArg tonumber h0
  simpa using hn

section Store
variable {db : Keyspace} {key key' value : String} {t : Option ℤ}

@[simp] theorem get_set_self : (db.set key value t).get key = some value := by
  simp [Keyspace.get, Keyspace.set]

theorem get_set_ne (h : key' ≠ key) : (db.set key value t).get key' = db.get key' := by
  simp [Keyspace.get, Keyspace.set, h]

@[simp] theorem purge_never (now : ℤ) : db.purge .never now = db := rfl

end Store

section Script
variable {L : DivArith} {a : RedisBucket} {cfg : BucketConfig} {m : TokenBucket} {db : Keyspace}

theorem tonumber_lifespan (ha : Carries a cfg) : tonumber a.lifespan = some (lifespanMillis a) := by
  unfold RedisBucket.lifespan lifespanMillis
  rw [ha.attributes_eq, ha.cfg_eq]
  simp only [newConfigAttributes, idleOf]
  by_cases hidle : 0 < cfg.maxIdleMillis
  · have hne : ¬ cfg.maxIdleMillis = 0 := by omega
    simp [hidle, formatInt_eq_zero, hne]
  · simp [hidle]

/-- Exact integers leave nothing to be rounded. -/
theorem precise_exact (m : TokenBucket) (r : Request) : Precise .exact m r where
  size := rfl
  nanosBetweenTokens := rfl
  maxDebt := rfl
  requested := rfl
  maxWaitTime := rfl
  seconds := rfl
  microseconds := rfl
  now := rfl
  horizon := rfl
  stock := rfl
  elapsed _ := rfl
  refill _ := rfl
  wait := rfl
  left := rfl
  owed := rfl
  cost := rfl
  paid := rfl
  debt := rfl

/-- The refill of the script is the one of `calcWaitTime`: the time that has passed is positive
where it is divided, so that flooring and truncating agree. -/
theorem script_refill (hcfg : Admissible cfg) (hm : Simulates a cfg m db) {r : Request}
    (hp : Precise L m r) :
    (if m.tokensNextAvailableNanos < r.time.nanos then
      (r.time.nanos, min cfg.size (L.wrap (m.accumulatedTokens +
        L.floorDiv (L.wrap (r.time.nanos - m.tokensNextAvailableNanos)) (nanosBetween cfg))))
    else (m.tokensNextAvailableNanos, m.accumulatedTokens)) =
      (m.horizon r.time.nanos, m.stock r.time.nanos) := by
  have hn := hcfg.one_le_nanosBetween
  unfold TokenBucket.horizon TokenBucket.stock TokenBucket.refill
  split_ifs with h
  · have helapsed : L.wrap (r.time.nanos - m.tokensNextAvailableNanos) = _ := hp.elapsed h
    have hrefill := hp.refill h
    have hdiv : Int.fdiv (r.time.nanos - m.tokensNextAvailableNanos) (nanosBetween cfg) =
        (r.time.nanos - m.tokensNextAvailableNanos).tdiv (nanosBetween cfg) := by
      rw [Int.fdiv_eq_ediv_of_nonneg _ (by omega), Int.tdiv_eq_ediv_of_nonneg (by omega)]
    rw [hm.cfg_eq, hm.nanos_eq, hdiv] at hrefill
    simp only [helapsed, hrefill, Arith.exact_wrap, hm.cfg_eq, hm.nanos_eq]
  · rfl

theorem script_horizon (hm : Simulates a cfg m db) (h : L.Fits m.tokensNextAvailableNanos) :
    ((db.get a.keys.1).bind fun s => (tonumber s).map L.wrap).getD 0 =
      m.tokensNextAvailableNanos := by
  have hhorizon := hm.horizon_eq
  unfold storedHorizon at hhorizon
  cases hget : db.get a.keys.1 with
  | none => simpa [hget] using hhorizon
  | some s =>
    cases hx : tonumber s with
    | none => simpa [hget, hx] using hhorizon
    | some x =>
      have heq : x = m.tokensNextAvailableNanos := by simpa [hget, hx] using hhorizon
      have hfits : L.wrap m.tokensNextAvailableNanos = _ := h
      simp [hx, heq, hfits]

theorem script_stock (ha : Carries a cfg) (hm : Simulates a cfg m db) (h : L.Fits m.accumulatedTokens) :
    ((db.get a.keys.2).elim (some cfg.size) fun s => (tonumber s).map L.wrap) =
      some m.accumulatedTokens := by
  have hstock := hm.stock_eq
  rw [storedStock, ha.cfg_eq] at hstock
  cases hget : db.get a.keys.2 with
  | none => simpa [hget] using hstock
  | some s =>
    obtain ⟨x, hx⟩ := hm.stock_parses s hget
    have heq : x = m.accumulatedTokens := by simpa [hget, hx] using hstock
    have hfits : L.wrap m.accumulatedTokens = _ := h
    simp [hx, heq, hfits]

/-- What the script computes, in terms of the in-memory bucket. The limit on the debt is what Go's
arithmetic has made of it. -/
theorem luaScript_eq (hcfg : Admissible cfg) (ha : Carries a cfg) (hlife : L.Fits (lifespanMillis a))
    (hm : Simulates a cfg m db) {r : Request} (hp : Precise L m r) :
    luaScript L a.keys (a.argv r) r.time db =
      some (if int64.wrap (debtLimit m) < paidUpTo m r.toCall - r.toCall.now ∨
          WaitsTooLong m r.toCall then (db, -1)
        else (written a m r.toCall db, m.horizon r.time.nanos - r.time.nanos)) := by
  have hlifespan := tonumber_lifespan ha
  have hrefill := script_refill hcfg hm hp
  have hstock := script_stock ha hm hp.stock
  have hhorizon := script_horizon hm hp.horizon
  have hlimit : debtLimit m = cfg.maxDebtMillis * 1000000 := by rw [debtLimit, hm.cfg_eq]
  have hrate : Int.tdiv 1000000000 cfg.fillRate = nanosBetween cfg := rfl
  have hnow : L.wrap (L.wrap (r.time.second * 1000000000) + L.wrap (r.time.microsecond * 1000)) =
      r.time.nanos := by
    have hseconds : L.wrap (r.time.second * 1000000000) = _ := hp.seconds
    have hmicroseconds : L.wrap (r.time.microsecond * 1000) = _ := hp.microseconds
    rw [hseconds, hmicroseconds]
    exact hp.now
  have hsize : L.wrap cfg.size = cfg.size := hm.cfg_eq ▸ hp.size
  have hnanos : L.wrap (nanosBetween cfg) = nanosBetween cfg := hm.nanos_eq ▸ hp.nanosBetweenTokens
  have hdebt : L.wrap (int64.wrap (cfg.maxDebtMillis * 1000000)) =
      int64.wrap (cfg.maxDebtMillis * 1000000) := hlimit ▸ hp.maxDebt
  have hrequested : L.wrap r.requested = _ := hp.requested
  have hmaxWait : L.wrap r.maxWaitTimeNanos = _ := hp.maxWaitTime
  have hlife' : L.wrap (lifespanMillis a) = _ := hlife
  have hwait : L.wrap (m.horizon r.time.nanos - r.time.nanos) = _ := hp.wait
  have hleft : L.wrap (m.stock r.time.nanos - min (m.stock r.time.nanos) r.requested) = _ := hp.left
  have howed : L.wrap (r.requested - min (m.stock r.time.nanos) r.requested) = _ := hp.owed
  have hcost : L.wrap ((r.requested - min (m.stock r.time.nanos) r.requested) * nanosBetween cfg) =
      _ := hm.nanos_eq ▸ hp.cost
  have hpaid : L.wrap (m.horizon r.time.nanos +
      (r.requested - min (m.stock r.time.nanos) r.requested) * nanosBetween cfg) =
        paidUpTo m r.toCall := by
    have hfits : L.wrap (paidUpTo m r.toCall) = _ := hp.paid
    rw [← hm.nanos_eq]
    exact hfits
  have howing : L.wrap (paidUpTo m r.toCall - r.time.nanos) = _ := hp.debt
  unfold luaScript
  simp only [RedisBucket.argv, hlifespan, ha.attributes_eq, newConfigAttributes, tonumber_formatInt,
    Option.map_some, Option.bind_eq_bind, Option.bind_some, hrate, hnow, hsize, hnanos, hdebt,
    hrequested, hmaxWait, hlife', hhorizon, hstock, hrefill, hwait, hleft, howed, hcost, hpaid, howing]
  by_cases hr : int64.wrap (debtLimit m) < paidUpTo m r.toCall - r.toCall.now ∨
      WaitsTooLong m r.toCall
  · rw [if_pos hr, if_pos]
    rw [hlimit] at hr
    exact hr
  · rw [if_neg hr, if_neg]
    · simp only [written, TokenBucket.granted, paidUpTo, Request.toCall, expiryOf]
    · rw [hlimit] at hr
      exact hr

/-- Within the range of its config the script refuses what the in-memory bucket refuses. -/
theorem luaScript_exact (hcfg : Admissible cfg) (ha : Serves a cfg) (hm : Simulates a cfg m db)
    (r : Request) :
    luaScript .exact a.keys (a.argv r) r.time db =
      some (if m.Refuses r.toCall then (db, -1)
        else (written a m r.toCall db, m.horizon r.time.nanos - r.time.nanos)) := by
  have hlimit : int64.wrap (debtLimit m) = debtLimit m := by
    rw [debtLimit, hm.cfg_eq]
    exact ha.debt_fits
  rw [luaScript_eq hcfg ha.toCarries (DivArith.exact_fits _) hm (precise_exact m r), hlimit]
  rfl

theorem simulates_written (ha : Carries a cfg) (hm : Simulates a cfg m db) (c : Call) :
    Simulates a cfg (m.granted c) (written a m c db) := by
  have h1 : (written a m c db).get a.keys.1 =
      some (formatInt (m.granted c).tokensNextAvailableNanos) := by
    rw [written, get_set_ne ha.keys_ne, get_set_self]
  have h2 : (written a m c db).get a.keys.2 =
      some (formatInt (m.granted c).accumulatedTokens) := get_set_self
  refine ⟨hm.cfg_eq, hm.nanos_eq, by simp [storedHorizon, h1], by simp [storedStock, h2], ?_⟩
  intro s hs
  rw [h2] at hs
  cases hs
  exact ⟨_, tonumber_formatInt _⟩

/-- One call, on a store whose live part simulates the in-memory bucket. -/
theorem take_simulates (hcfg : Admissible cfg) (ha : Serves a cfg) (e : Expiry) (r : Request)
    (hm : Simulates a cfg m (db.purge e r.time.nanos)) :
    Simulates a cfg (m.take .exact r.toCall).1 (a.take .exact e db r).1 ∧
      (a.take .exact e db r).2 = .ok (m.take .exact r.toCall).2 := by
  have hneg := TokenBucket.calcWaitTime_neg_iff m r.toCall
  rw [TokenBucket.calcWaitTime_exact] at hneg
  unfold RedisBucket.take
  dsimp only
  rw [luaScript_exact hcfg ha hm, TokenBucket.take_exact]
  by_cases hr : m.Refuses r.toCall
  · simp only [hr, if_true]
    exact ⟨hm, rfl⟩
  · simp only [hr, if_false, iff_false] at hneg ⊢
    exact ⟨simulates_written ha.toCarries hm _, congrArg Except.ok (if_neg hneg)⟩

end Script

/-- Neither key of the bucket is in the store. -/
def Absent (a : RedisBucket) (db : Keyspace) : Prop := db a.keys.1 = none ∧ db a.keys.2 = none

theorem simulates_absent {a : RedisBucket} {cfg : BucketConfig} (ha : Carries a cfg)
    {db : Keyspace} (hdb : Absent a db) (ns bucketName : String) (dyn : Bool) :
    Simulates a cfg (Memory.newBucket ns bucketName cfg dyn) db := by
  have h1 : db.get a.keys.1 = none := by simp [Keyspace.get, hdb.1]
  have h2 : db.get a.keys.2 = none := by simp [Keyspace.get, hdb.2]
  refine ⟨rfl, rfl, by simp [storedHorizon, h1, Memory.newBucket], ?_, by simp [h2]⟩
  simp [storedStock, h2, Memory.newBucket, ha.cfg_eq]

/-- `NewBucket` gives a bucket the attributes of its config, unless it is dynamic and the
namespace already shares others. -/
theorem newBucket_carries (bf : BucketFactory) (ns bucketName : String) (cfg : BucketConfig)
    (dyn : Bool)
    (hshared : dyn = true → ∀ attribs, bf.sharedAttributes.lookup ns = some attribs →
      attribs = newConfigAttributes cfg (idleOf cfg)) :
    Carries (bf.newBucket ns bucketName cfg dyn).2 cfg := by
  refine ⟨by simp, ?_, by simpa using toRedisKey_suffix_ne ns bucketName bf.cfg.version⟩
  unfold BucketFactory.newBucket
  cases dyn with
  | false => rfl
  | true =>
    cases hl : bf.sharedAttributes.lookup ns with
    | none => simp
    | some attribs => simp [hshared rfl attribs hl]

/-- With keys that never expire the two buckets stay in step over a whole run. -/
theorem run_simulates {a : RedisBucket} {cfg : BucketConfig} {m : TokenBucket} {db : Keyspace}
    (hcfg : Admissible cfg) (ha : Serves a cfg) (hm : Simulates a cfg m db)
    (requests : List Request) :
    Simulates a cfg (Machine.final (TokenBucket.take .exact) m (requests.map Request.toCall))
        (Machine.final (a.take .exact .never) db requests) ∧
      Machine.outputs (a.take .exact .never) db requests =
        (Machine.outputs (TokenBucket.take .exact) m (requests.map Request.toCall)).map .ok :=
  Machine.simulation (Simulates a cfg) Request.toCall Except.ok (fun _ => True)
    (fun _ _ r hm _ => take_simulates hcfg ha .never r hm) hm fun _ _ => trivial

section Overflow
variable {a : RedisBucket} {cfg : BucketConfig} {m : TokenBucket} {db : Keyspace}

/-- A call that 64 bits are enough for, whatever they have made of the limit on the debt. Unless the
wait is too long, the debt is judged as it is, even if it has wrapped, and the new horizon fits if the
call is granted. -/
structure Within (b : TokenBucket) (c : Call) : Prop where
  elapsed : b.tokensNextAvailableNanos < c.now → int64.Fits (c.now - b.tokensNextAvailableNanos)
  stock : b.tokensNextAvailableNanos < c.now → int64.Fits (b.accumulatedTokens +
    (c.now - b.tokensNextAvailableNanos).tdiv b.nanosBetweenTokens)
  wait : int64.Fits (b.horizon c.now - c.now)
  debt : WaitsTooLong b c ∨ (int64.wrap (debtLimit b) < paidUpTo b c - c.now ↔
    int64.wrap (debtLimit b) < int64.wrap (paidUpTo b c - c.now))
  horizon : int64.wrap (debtLimit b) < paidUpTo b c - c.now ∨ WaitsTooLong b c ∨
    int64.Fits (paidUpTo b c)

instance (b : TokenBucket) (c : Call) : Decidable (Within b c) :=
  decidable_of_iff ((b.tokensNextAvailableNanos < c.now →
      int64.Fits (c.now - b.tokensNextAvailableNanos)) ∧ (b.tokensNextAvailableNanos < c.now →
      int64.Fits (b.accumulatedTokens +
        (c.now - b.tokensNextAvailableNanos).tdiv b.nanosBetweenTokens)) ∧
      int64.Fits (b.horizon c.now - c.now) ∧ (WaitsTooLong b c ∨
        (int64.wrap (debtLimit b) < paidUpTo b c - c.now ↔
          int64.wrap (debtLimit b) < int64.wrap (paidUpTo b c - c.now))) ∧
      (int64.wrap (debtLimit b) < paidUpTo b c - c.now ∨ WaitsTooLong b c ∨
        int64.Fits (paidUpTo b c)))
    ⟨fun h => ⟨h.1, h.2.1, h.2.2.1, h.2.2.2.1, h.2.2.2.2⟩,
      fun h => ⟨h.elapsed, h.stock, h.wait, h.debt, h.horizon⟩⟩

/-- What a call does that 64 bits are enough for. -/
theorem calcWaitTime_of_within (hcfg : Admissible cfg) (hb : Sound cfg m) (hsize : int64.Fits cfg.size)
    {c : Call} (hc : 0 ≤ c.requested) (h : Within m c) :
    m.calcWaitTime .int64 c =
      if int64.wrap (debtLimit m) < paidUpTo m c - c.now ∨ WaitsTooLong m c then (m, -1)
      else (m.granted c, m.horizon c.now - c.now) := by
  have hn := hcfg.one_le_nanosBetween
  have hfresh : m.tokensNextAvailableNanos < c.now →
      int64.Fits ((c.now - m.tokensNextAvailableNanos).tdiv m.nanosBetweenTokens) := by
    intro hlt
    have helapsed := int64_fits_iff.mp (h.elapsed hlt)
    rw [hb.nanos_eq, Int.tdiv_eq_ediv_of_nonneg (by omega)]
    have hle := Int.ediv_le_self (b := nanosBetween cfg)
      (show 0 ≤ c.now - m.tokensNextAvailableNanos by omega)
    have hnonneg := Int.ediv_nonneg (show 0 ≤ c.now - m.tokensNextAvailableNanos by omega)
      (show 0 ≤ nanosBetween cfg by omega)
    exact int64_fits_iff.mpr (by omega)
  have hrest : int64.Fits (m.stock c.now - min (m.stock c.now) c.requested) := by
    have hstock := stock_bounds hcfg.fills hb c.now
    have hbound := int64_fits_iff.mp hsize
    exact int64_fits_iff.mpr (by omega)
  rw [calcWaitTime_of_refill (refill_int64 h.elapsed hfresh h.stock) h.wait hrest]
  have hjudged : (int64.wrap (debtLimit m) < int64.wrap (paidUpTo m c - c.now) ∨ WaitsTooLong m c) ↔
      (int64.wrap (debtLimit m) < paidUpTo m c - c.now ∨ WaitsTooLong m c) := by
    rcases h.debt with hlong | hdebt
    · simp only [hlong, or_true]
    · rw [hdebt]
  by_cases hr : int64.wrap (debtLimit m) < paidUpTo m c - c.now ∨ WaitsTooLong m c
  · rw [if_pos (hjudged.mpr hr), if_pos hr]
  · obtain ⟨hdebt, hwait⟩ := not_or.mp hr
    have hfits : int64.wrap (paidUpTo m c) = paidUpTo m c :=
      (h.horizon.resolve_left hdebt).resolve_left hwait
    rw [if_neg (hjudged.not.mpr hr), if_neg hr, hfits]
    rfl

/-- One call in both arithmetics. -/
theorem take_within (hcfg : Admissible cfg) (ha : Carries a cfg) (hsize : int64.Fits cfg.size)
    (hb : Sound cfg m) (hm : Simulates a cfg m db) {r : Request} (hr : 0 ≤ r.requested)
    (h : Within m r.toCall) :
    (Sound cfg (m.take .int64 r.toCall).1 ∧
      Simulates a cfg (m.take .int64 r.toCall).1 (a.take .exact .never db r).1) ∧
    (a.take .exact .never db r).2 = .ok (m.take .int64 r.toCall).2 := by
  have hmachine := calcWaitTime_of_within hcfg hb hsize hr h
  have hnonneg : 0 ≤ m.horizon r.toCall.now - r.toCall.now := by
    have hle := m.le_horizon r.toCall.now
    omega
  have hscript := luaScript_eq hcfg ha (DivArith.exact_fits _) hm (precise_exact m r)
  unfold RedisBucket.take TokenBucket.take
  dsimp only [purge_never]
  rw [hscript, hmachine]
  by_cases hrefused : int64.wrap (debtLimit m) < paidUpTo m r.toCall - r.toCall.now ∨
      WaitsTooLong m r.toCall
  · simp only [if_pos hrefused]
    exact ⟨⟨hb, hm⟩, rfl⟩
  · simp only [if_neg hrefused, if_neg (not_lt.mpr hnonneg)]
    refine ⟨⟨?_, simulates_written ha hm _⟩, ?_⟩
    · have hstock := stock_bounds hcfg.fills hb r.toCall.now
      refine ⟨hb.cfg_eq, hb.nanos_eq, ?_, ?_⟩
      · dsimp only [TokenBucket.granted]
        omega
      · have hreq : 0 ≤ r.toCall.requested := hr
        dsimp only [TokenBucket.granted]
        omega
    · exact congrArg Except.ok (if_neg (not_lt.mpr hnonneg))

end Overflow

/-- The two implementations answer every sequence of requests alike that 64 bits are enough for, and
stay in step. -/
theorem redis_take_eq_memory_take {cfg : BucketConfig} (hcfg : Admissible cfg)
    (hsize : int64.Fits cfg.size) (bf : BucketFactory) (ns bucketName : String) (dyn : Bool)
    (hshared : dyn = true → ∀ attribs, bf.sharedAttributes.lookup ns = some attribs →
      attribs = newConfigAttributes cfg (idleOf cfg))
    (db : Keyspace) (hdb : Absent (bf.newBucket ns bucketName cfg dyn).2 db)
    (requests : List Request) (hreq : ∀ r ∈ requests, 1 ≤ r.requested)
    (hwithin : ∀ t ∈ Machine.trace (TokenBucket.take .int64)
      (Memory.newBucket ns bucketName cfg dyn) (requests.map Request.toCall),
      Within t.before t.input) :
    let a := (bf.newBucket ns bucketName cfg dyn).2
    let m := Memory.newBucket ns bucketName cfg dyn
    let calls := requests.map Request.toCall
    Machine.outputs (a.take .exact .never) db requests =
        (Machine.outputs (TokenBucket.take .int64) m calls).map .ok ∧
      (storedHorizon a (Machine.final (a.take .exact .never) db requests),
          storedStock a (Machine.final (a.take .exact .never) db requests)) =
        ((Machine.final (TokenBucket.take .int64) m calls).tokensNextAvailableNanos,
          (Machine.final (TokenBucket.take .int64) m calls).accumulatedTokens) := by
  intro a m calls
  have ha : Carries a cfg := newBucket_carries bf ns bucketName cfg dyn hshared
  suffices h : ∀ (m : TokenBucket) (db : Keyspace), Sound cfg m → Simulates a cfg m db →
      (∀ t ∈ Machine.trace (TokenBucket.take .int64) m (requests.map Request.toCall),
        Within t.before t.input) →
      Simulates a cfg (Machine.final (TokenBucket.take .int64) m (requests.map Request.toCall))
          (Machine.final (a.take .exact .never) db requests) ∧
        Machine.outputs (a.take .exact .never) db requests =
          (Machine.outputs (TokenBucket.take .int64) m (requests.map Request.toCall)).map .ok by
    obtain ⟨hfinal, houtputs⟩ := h m db (newBucket_sound hcfg.fills ns bucketName dyn)
      (simulates_absent ha hdb ns bucketName dyn) hwithin
    exact ⟨houtputs, Prod.ext hfinal.horizon_eq hfinal.stock_eq⟩
  clear hwithin
  clear_value m calls
  induction requests with
  | nil =>
    intro m db _ hm _
    exact ⟨hm, rfl⟩
  | cons r rs ih =>
    intro m db hb hm hwithin
    rw [List.map_cons, Machine.trace_cons, List.forall_mem_cons] at hwithin
    obtain ⟨hfirst, hrest⟩ := hwithin
    obtain ⟨hone, hreqs⟩ := List.forall_mem_cons.mp hreq
    obtain ⟨⟨hb', hm'⟩, hout⟩ :=
      take_within hcfg ha hsize hb hm (show 0 ≤ r.requested by omega) hfirst
    obtain ⟨hfinal, houtputs⟩ := ih hreqs _ _ hb' hm' hrest
    refine ⟨hfinal, ?_⟩
    simp only [Machine.outputs_cons, List.map_cons, hout, houtputs]

/-- The second dynamic bucket of a namespace, which finds the attributes of the template shared,
on an empty store. -/
theorem redis_take_eq_memory_take_dynamic :
    let cfg : BucketConfig := { size := 2, fillRate := 1, maxDebtMillis := 10000 }
    let bf := ((BucketFactory.new 0).newBucket "ns" "first" cfg true).1
    let a := (bf.newBucket "ns" "second" cfg true).2
    let requests : List Request :=
      [⟨⟨1700000000, 1⟩, 3, 0⟩, ⟨⟨1700000000, 500000⟩, 1, 0⟩]
    Machine.outputs (a.take .exact .never) (fun _ => none) requests =
      (Machine.outputs (TokenBucket.take .int64) (Memory.newBucket "ns" "second" cfg true)
        (requests.map Request.toCall)).map .ok := by
  intro cfg bf a requests
  have hshared : true = true → ∀ attribs, bf.sharedAttributes.lookup "ns" = some attribs →
      attribs = newConfigAttributes cfg (idleOf cfg) := by
    intro _ attribs h
    have hbf : bf.sharedAttributes.lookup "ns" = some (newConfigAttributes cfg (idleOf cfg)) :=
      AList.lookup_insert _
    rw [hbf] at h
    exact (Option.some.inj h).symm
  have hcfg : Admissible cfg := ⟨by decide, by decide, by decide, by decide⟩
  exact (redis_take_eq_memory_take hcfg (by decide) bf "ns" "second" true hshared (fun _ => none)
    ⟨rfl, rfl⟩ requests (by decide) (by decide)).1

/-- So many tokens that the time they take is a multiple of `2 ^ 64` nanoseconds. The in-memory bucket
hands them out, and the script refuses them. -/
theorem huge_request_granted :
    let cfg : BucketConfig := { size := 100, fillRate := 1, maxDebtMillis := 10000 }
    let a := ((BucketFactory.new 0).newBucket "ns" "b" cfg false).2
    let requests : List Request := [⟨⟨1700000000, 0⟩, 2 ^ 55 + 100, 0⟩]
    Admissible cfg ∧
      Machine.outputs (TokenBucket.take .int64) (Memory.newBucket "ns" "b" cfg false)
        (requests.map Request.toCall) = [(0, true)] ∧
      Machine.outputs (a.take .exact .never) (fun _ => none) requests = [.ok (0, false)] := by
  intro cfg a requests
  have hcfg : Admissible cfg := ⟨by decide, by decide, by decide, by decide⟩
  have ha : Serves a cfg :=
    ⟨newBucket_carries (BucketFactory.new 0) "ns" "b" cfg false nofun, by decide⟩
  refine ⟨hcfg, by decide, ?_⟩
  rw [(run_simulates hcfg ha (simulates_absent ha.toCarries ⟨rfl, rfl⟩ "ns" "b" false) requests).2]
  decide

end QuotaService.Redis
