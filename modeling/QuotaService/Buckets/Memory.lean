import QuotaService.Config.Types
import QuotaService.Lib.Arith

/-! The in-memory token bucket of `buckets/memory/bucket.go`. Its goroutine serves one request at
a time, so a run of the bucket is a sequence of calls of `calcWaitTime`, each with its own reading
of the clock. Go's integer division truncates toward zero. -/
namespace QuotaService.Memory
open Config

structure TokenBucket where
  dynamic : Bool
  cfg : BucketConfig
  nanosBetweenTokens : ℤ
  tokensNextAvailableNanos : ℤ
  accumulatedTokens : ℤ
  fullName : String

/-- A request, with the reading of the clock that `calcWaitTime` takes when it serves it. -/
structure Call where
  now : ℤ
  requested : ℤ
  maxWaitTimeNanos : ℤ

def newBucket (ns bucketName : String) (cfg : BucketConfig) (dyn : Bool) : TokenBucket where
  dynamic := dyn
  cfg := cfg
  nanosBetweenTokens := Int.tdiv 1000000000 cfg.fillRate
  tokensNextAvailableNanos := 0
  accumulatedTokens := cfg.size
  fullName := fullyQualifiedName ns bucketName

namespace TokenBucket

/-- The first half of `calcWaitTime`: the horizon and the stock as of `now`. -/
def refill (A : Arith) (b : TokenBucket) (now : ℤ) : ℤ × ℤ :=
  if b.tokensNextAvailableNanos < now then
    let freshTokens := A.wrap
      ((A.wrap (now - b.tokensNextAvailableNanos)).tdiv b.nanosBetweenTokens)
    (now, min b.cfg.size (A.wrap (b.accumulatedTokens + freshTokens)))
  else (b.tokensNextAvailableNanos, b.accumulatedTokens)

def calcWaitTime (A : Arith) (b : TokenBucket) (c : Call) : TokenBucket × ℤ :=
  let tna := (b.refill A c.now).1
  let ac := (b.refill A c.now).2
  let waitTimeNanos := A.wrap (tna - c.now)
  let accumulatedTokensUsed := min ac c.requested
  let tokensToWaitFor := A.wrap (c.requested - accumulatedTokensUsed)
  let futureWaitNanos := A.wrap (tokensToWaitFor * b.nanosBetweenTokens)
  let tna' := A.wrap (tna + futureWaitNanos)
  let ac' := A.wrap (ac - accumulatedTokensUsed)
  if A.wrap (b.cfg.maxDebtMillis * 1000000) < A.wrap (tna' - c.now) ∨
      (0 < waitTimeNanos ∧ c.maxWaitTimeNanos < waitTimeNanos) then
    (b, -1)
  else
    ({ b with tokensNextAvailableNanos := tna', accumulatedTokens := ac' }, waitTimeNanos)

/-- `Take`, answered by `calcWaitTime`: the time to wait, and whether tokens were obtained. -/
def take (A : Arith) (b : TokenBucket) (c : Call) : TokenBucket × (ℤ × Bool) :=
  let r := b.calcWaitTime A c
  if r.2 < 0 then (r.1, (0, false)) else (r.1, (r.2, true))

/-- When tokens will next be available, seen at `now`, over exact integers. -/
def horizon (b : TokenBucket) (now : ℤ) : ℤ := (b.refill .exact now).1

/-- The tokens in stock at `now`, after the refill, over exact integers. -/
def stock (b : TokenBucket) (now : ℤ) : ℤ := (b.refill .exact now).2

/-- What the bucket answers no to: too much debt, or too long a wait. -/
def Refuses (b : TokenBucket) (c : Call) : Prop :=
  b.cfg.maxDebtMillis * 1000000 <
      b.horizon c.now + (c.requested - min (b.stock c.now) c.requested) * b.nanosBetweenTokens
        - c.now ∨
    (0 < b.horizon c.now - c.now ∧ c.maxWaitTimeNanos < b.horizon c.now - c.now)

instance (b : TokenBucket) (c : Call) : Decidable (b.Refuses c) :=
  inferInstanceAs (Decidable (_ ∨ _))

/-- The bucket after a call that it does not refuse. -/
def granted (b : TokenBucket) (c : Call) : TokenBucket :=
  { b with
    tokensNextAvailableNanos :=
      b.horizon c.now + (c.requested - min (b.stock c.now) c.requested) * b.nanosBetweenTokens
    accumulatedTokens := b.stock c.now - min (b.stock c.now) c.requested }

theorem calcWaitTime_exact (b : TokenBucket) (c : Call) :
    b.calcWaitTime .exact c =
      if b.Refuses c then (b, -1) else (b.granted c, b.horizon c.now - c.now) := rfl

theorem horizon_eq_max (b : TokenBucket) (now : ℤ) :
    b.horizon now = max b.tokensNextAvailableNanos now := by
  unfold horizon refill
  split_ifs with h
  · exact (max_eq_right h.le).symm
  · exact (max_eq_left (not_lt.mp h)).symm

theorem le_horizon (b : TokenBucket) (now : ℤ) : now ≤ b.horizon now := by
  rw [horizon_eq_max]
  exact le_max_right _ _

/-- The wait of a granted call is never negative, so that `-1` only means refusal. -/
theorem calcWaitTime_neg_iff (b : TokenBucket) (c : Call) :
    (b.calcWaitTime .exact c).2 < 0 ↔ b.Refuses c := by
  have hle := b.le_horizon c.now
  rw [calcWaitTime_exact]
  split_ifs with h
  · simp [h]
  · simp only [h, iff_false, not_lt]
    omega

theorem take_exact (b : TokenBucket) (c : Call) :
    b.take .exact c =
      if b.Refuses c then (b, (0, false))
      else (b.granted c, (b.horizon c.now - c.now, true)) := by
  have h := calcWaitTime_neg_iff b c
  unfold take
  by_cases hr : b.Refuses c
  · simp [hr, calcWaitTime_exact]
  · simp only [h, hr, if_false]
    simp [calcWaitTime_exact, hr]

@[simp] theorem calcWaitTime_cfg (b : TokenBucket) (c : Call) :
    (b.calcWaitTime .exact c).1.cfg = b.cfg := by
  rw [calcWaitTime_exact]
  split_ifs <;> rfl

@[simp] theorem calcWaitTime_nanosBetweenTokens (b : TokenBucket) (c : Call) :
    (b.calcWaitTime .exact c).1.nanosBetweenTokens = b.nanosBetweenTokens := by
  rw [calcWaitTime_exact]
  split_ifs <;> rfl

end TokenBucket
end QuotaService.Memory
