import Mathlib
import QuotaService.Config.Types
import QuotaService.Lib.Arith

/-! The Redis token bucket: the Lua script, `Take`, and the factory of `buckets/redis`. The numbers of
the script are a parameter, which may be doubles or exact integers, and a script runs atomically. Keys,
stored values and script arguments are strings, as they are in Redis. -/
namespace QuotaService.Redis
open Config

/-- A string key: its value, and the instant in nanoseconds at which it vanishes, if any. -/
structure Entry where
  value : String
  expiresAt : Option ℤ

abbrev Keyspace := String → Option Entry

/-- Whether keys set with `PX` expire. -/
inductive Expiry
  | never
  | px

/-- The keys that are left at `now`. -/
def Keyspace.purge : Expiry → ℤ → Keyspace → Keyspace
  | .never, _, db => db
  | .px, now, db => fun k => (db k).filter fun entry => entry.expiresAt.all fun t => now < t

def Keyspace.get (db : Keyspace) (key : String) : Option String := (db key).map Entry.value

def Keyspace.set (db : Keyspace) (key value : String) (expiresAt : Option ℤ) : Keyspace :=
  Function.update db key (some ⟨value, expiresAt⟩)

/-- The reply of `TIME`. -/
structure Time where
  second : ℤ
  microsecond : ℤ

def Time.nanos (t : Time) : ℤ := t.second * 1000000000 + t.microsecond * 1000

def tonumber (s : String) : Option ℤ := s.toInt?

/-- `strconv.FormatInt` in base ten, and Redis' own conversion of a whole number to a string that is
read back as this number. -/
def formatInt (x : ℤ) : String := x.repr

@[simp] theorem tonumber_formatInt (x : ℤ) : tonumber (formatInt x) = some x := Int.toInt?_repr x

/-- `ARGV[1]` to `ARGV[6]`. -/
structure Argv where
  nanosBetweenTokens : String
  maxTokensToAccumulate : String
  requested : String
  maxWaitTime : String
  lifespan : String
  maxDebtNanos : String

/-- The script over `KEYS[1]` and `KEYS[2]`; `none` is a Lua error. -/
def luaScript (L : DivArith) (keys : String × String) (argv : Argv) (time : Time) (db : Keyspace) :
    Option (Keyspace × ℤ) := do
  let number (s : String) : Option ℤ := (tonumber s).map L.wrap
  let tokensNextAvailableNanos := ((db.get keys.1).bind number).getD 0
  let maxTokensToAccumulate ← number argv.maxTokensToAccumulate
  -- the stored string is coerced to a number where it is used in arithmetic
  let accumulatedTokens ← (db.get keys.2).elim (some maxTokensToAccumulate) number
  let currentTimeNanos :=
    L.wrap (L.wrap (time.second * 1000000000) + L.wrap (time.microsecond * 1000))
  let nanosBetweenTokens ← number argv.nanosBetweenTokens
  let requested ← number argv.requested
  let maxWaitTime ← number argv.maxWaitTime
  let lifespan ← number argv.lifespan
  let maxDebtNanos ← number argv.maxDebtNanos
  let refilled :=
    if tokensNextAvailableNanos < currentTimeNanos then
      let freshTokens :=
        L.floorDiv (L.wrap (currentTimeNanos - tokensNextAvailableNanos)) nanosBetweenTokens
      (currentTimeNanos, min maxTokensToAccumulate (L.wrap (accumulatedTokens + freshTokens)))
    else (tokensNextAvailableNanos, accumulatedTokens)
  let tna := refilled.1
  let ac := refilled.2
  let waitTime := L.wrap (tna - currentTimeNanos)
  let accumulatedTokensUsed := min ac requested
  let tokensToWaitFor := L.wrap (requested - accumulatedTokensUsed)
  let futureWaitNanos := L.wrap (tokensToWaitFor * nanosBetweenTokens)
  let tna' := L.wrap (tna + futureWaitNanos)
  let ac' := L.wrap (ac - accumulatedTokensUsed)
  if maxDebtNanos < L.wrap (tna' - currentTimeNanos) ∨ (0 < waitTime ∧ maxWaitTime < waitTime) then
    some (db, -1)
  else
    -- Redis counts the lifetime of a key by its own clock
    let expiresAt := if 0 < lifespan then some (time.nanos + lifespan * 1000000) else none
    some ((db.set keys.1 (formatInt tna') expiresAt).set keys.2 (formatInt ac') expiresAt, waitTime)

/-- The settings of a bucket as strings, as they are passed to the script. -/
structure ConfigAttributes where
  nanosBetweenTokens : String
  maxTokensToAccumulate : String
  maxIdleTimeMillis : String
  maxDebtNanos : String
deriving DecidableEq

/-- A static or dynamic bucket, with the key lifetime of its factory in nanoseconds. -/
structure RedisBucket where
  dynamic : Bool
  configAttributes : ConfigAttributes
  cfg : BucketConfig
  keys : String × String
  keyMaxIdleTime : ℤ

/-- A call of `Take`, with the time that Redis reports when it runs the script. -/
structure Request where
  time : Time
  requested : ℤ
  maxWaitTimeNanos : ℤ

namespace RedisBucket

/-- The lifetime passed to the script: the bucket's own, or the factory's when it has none. -/
def lifespan (a : RedisBucket) : String :=
  if a.configAttributes.maxIdleTimeMillis = "0" then
    formatInt (Int.tdiv a.keyMaxIdleTime 1000000)
  else a.configAttributes.maxIdleTimeMillis

def argv (a : RedisBucket) (r : Request) : Argv where
  nanosBetweenTokens := a.configAttributes.nanosBetweenTokens
  maxTokensToAccumulate := a.configAttributes.maxTokensToAccumulate
  requested := formatInt r.requested
  maxWaitTime := formatInt r.maxWaitTimeNanos
  lifespan := a.lifespan
  maxDebtNanos := a.configAttributes.maxDebtNanos

def take (L : DivArith) (e : Expiry) (a : RedisBucket) (db : Keyspace) (r : Request) :
    Keyspace × Except String (ℤ × Bool) :=
  let live := db.purge e r.time.nanos
  match luaScript L a.keys (a.argv r) r.time live with
  | none => (live, .error "failed to take token from redis bucket")
  | some (db', waitTime) => (db', .ok (if waitTime < 0 then (0, false) else (waitTime, true)))

end RedisBucket

/-- The products of Go's 64-bit integers may overflow. -/
def newConfigAttributes (cfg : BucketConfig) (idle : String) : ConfigAttributes where
  nanosBetweenTokens := formatInt (Int.tdiv 1000000000 cfg.fillRate)
  maxTokensToAccumulate := formatInt cfg.size
  maxIdleTimeMillis := idle
  maxDebtNanos := formatInt (Arith.int64.wrap (cfg.maxDebtMillis * 1000000))

def tokensNextAvblNanosSuffix : String := "TNA"

def accumulatedTokensSuffix : String := "AT"

def toRedisKey (ns bucketName suffix : String) (version : ℤ) : String :=
  "\x7b" ++ ns ++ ":" ++ bucketName ++ "\x7d:" ++ suffix ++ ":" ++ formatInt version

/-- The factory, with the config it was last initialised with. -/
structure BucketFactory where
  refcounts : AList fun _ : String => ℤ
  sharedAttributes : AList fun _ : String => ConfigAttributes
  cfg : ServiceConfig
  keyMaxIdleTime : ℤ

/-- The idle time that `NewBucket` hands to the script. -/
def idleOf (cfg : BucketConfig) : String :=
  if 0 < cfg.maxIdleMillis then formatInt cfg.maxIdleMillis else "0"

namespace BucketFactory

/-- `NewBucketFactory` and `NewClusterBucketFactory`: a zero lifetime means a day. -/
def new (keyMaxIdleTime : ℤ) : BucketFactory where
  refcounts := ∅
  sharedAttributes := ∅
  cfg := {}
  keyMaxIdleTime := if keyMaxIdleTime = 0 then 86400000000000 else keyMaxIdleTime

def init (bf : BucketFactory) (cfg : ServiceConfig) : BucketFactory := { bf with cfg := cfg }

/-- Dynamic buckets of a namespace share the attributes computed for the first of them. -/
def newBucket (bf : BucketFactory) (ns bucketName : String) (cfg : BucketConfig) (dyn : Bool) :
    BucketFactory × RedisBucket :=
  let idle := idleOf cfg
  let keys := (toRedisKey ns bucketName tokensNextAvblNanosSuffix bf.cfg.version,
    toRedisKey ns bucketName accumulatedTokensSuffix bf.cfg.version)
  if dyn then
    let (bf, attribs) := match bf.sharedAttributes.lookup ns with
      | some attribs => (bf, attribs)
      | none =>
        let attribs := newConfigAttributes cfg idle
        ({ bf with
            sharedAttributes := bf.sharedAttributes.insert ns attribs
            refcounts := bf.refcounts.insert ns 0 }, attribs)
    ({ bf with refcounts := bf.refcounts.insert ns ((bf.refcounts.lookup ns).getD 0 + 1) },
      ⟨true, attribs, cfg, keys, bf.keyMaxIdleTime⟩)
  else (bf, ⟨false, newConfigAttributes cfg idle, cfg, keys, bf.keyMaxIdleTime⟩)

/-- `Destroy`, a no-op on static buckets; `none` is the fatal error on a negative count. -/
def destroy (bf : BucketFactory) (b : RedisBucket) : Option BucketFactory :=
  if b.dynamic then
    let count := (bf.refcounts.lookup b.cfg.«namespace»).getD 0 - 1
    if count < 0 then none
    else if count = 0 then
      some { bf with
        sharedAttributes := bf.sharedAttributes.erase b.cfg.«namespace»
        refcounts := bf.refcounts.erase b.cfg.«namespace» }
    else some { bf with refcounts := bf.refcounts.insert b.cfg.«namespace» count }
  else some bf

@[simp] theorem newBucket_keys (bf : BucketFactory) (ns bucketName : String) (cfg : BucketConfig)
    (dyn : Bool) : (bf.newBucket ns bucketName cfg dyn).2.keys =
      (toRedisKey ns bucketName tokensNextAvblNanosSuffix bf.cfg.version,
        toRedisKey ns bucketName accumulatedTokensSuffix bf.cfg.version) := by
  unfold newBucket
  cases dyn <;> rfl

@[simp] theorem newBucket_cfg (bf : BucketFactory) (ns bucketName : String) (cfg : BucketConfig)
    (dyn : Bool) : (bf.newBucket ns bucketName cfg dyn).2.cfg = cfg := by
  unfold newBucket
  cases dyn <;> rfl

/-- Creating a bucket does not change the version that the next keys will carry. -/
@[simp] theorem newBucket_factory_cfg (bf : BucketFactory) (ns bucketName : String)
    (cfg : BucketConfig) (dyn : Bool) : (bf.newBucket ns bucketName cfg dyn).1.cfg = bf.cfg := by
  unfold newBucket
  cases dyn with
  | false => rfl
  | true => cases bf.sharedAttributes.lookup ns <;> rfl

end BucketFactory

/-- The version is the last component of a key and is read back from it. -/
theorem toRedisKey_version_inj (ns bucketName suffix : String) {v w : ℤ} :
    toRedisKey ns bucketName suffix v = toRedisKey ns bucketName suffix w ↔ v = w := by
  refine ⟨fun h => ?_, fun h => h ▸ rfl⟩
  have hs : formatInt v = formatInt w := (String.append_right_inj _).mp h
  have hn := congrArg tonumber hs
  simpa using hn

/-- The two keys of a bucket differ. -/
theorem toRedisKey_suffix_ne (ns bucketName : String) (v : ℤ) :
    toRedisKey ns bucketName tokensNextAvblNanosSuffix v ≠
      toRedisKey ns bucketName accumulatedTokensSuffix v := by
  intro h
  unfold toRedisKey at h
  simp only [String.append_assoc] at h
  simp only [String.append_right_inj] at h
  have hc := congrArg (fun s => s.toList.head?) h
  simp [tokensNextAvblNanosSuffix, accumulatedTokensSuffix] at hc

end QuotaService.Redis
