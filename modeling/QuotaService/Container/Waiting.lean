import QuotaService.Config.Json
import QuotaService.Container.Provenance

/-! The maximum wait of a bucket. A request can override it, and the override only takes effect when it
is less; but it is compared in milliseconds, and is then multiplied to nanoseconds in 64 bits. -/
namespace QuotaService.Container
open Config Arith Memory

/-- `Allow` with the bucket that has been found, in the state that its loop has left it in. -/
def Request.allow (r : Request) (b : Bucket TokenBucket) (now : ℤ) : TokenBucket × Reply :=
  match r.afterFind (.ok (some b)) with
  | .replied reply => (b.impl, reply)
  | _ =>
    let p := b.impl.calcWaitTime .int64 ⟨now, r.tokensRequested, r.maxWaitTime b.cfg⟩
    (p.1, Request.afterTake b p.2)

/-- The override takes effect, and in nanoseconds it is more than the bucket's own maximum. -/
structure Request.Wraps (r : Request) (cfg : BucketConfig) : Prop where
  set : r.maxWaitTimeOverride = true
  less : r.maxWaitMillisOverride < cfg.waitTimeoutMillis
  more : cfg.waitTimeoutMillis * 1000000 < int64.wrap (1000000 * r.maxWaitMillisOverride)

/-- A wait that neither the bucket nor the request rules out. -/
structure MaxWaitKept (r : Request) (cfg : BucketConfig) (wait : ℤ) : Prop where
  nonneg : 0 ≤ wait
  timeout : wait ≤ cfg.waitTimeoutMillis * 1000000
  override : r.maxWaitTimeOverride = true → 0 ≤ r.maxWaitMillisOverride →
    wait ≤ r.maxWaitMillisOverride * 1000000

/-- `Allow` keeps the maximum wait in every state that a bucket with this timeout reaches. -/
def KeepsMaxWait (timeout override : ℤ) (overrides : Bool) : Prop :=
  ∀ (b : Bucket TokenBucket) (tokens now : ℤ), b.cfg.Fits → b.cfg.waitTimeoutMillis = timeout →
    Reached b.cfg b.dynamic b.impl → int64.Fits tokens → Reading now →
    let r : Request := ⟨tokens, override, overrides⟩
    ¬ DividesByZero b.impl ⟨now, tokens, r.maxWaitTime b.cfg⟩ →
      (r.allow b now).2.error = none → MaxWaitKept r b.cfg (r.allow b now).2.wait

section Kept
variable {b : Bucket TokenBucket} {r : Request} {now : ℤ}

/-- What a call can afford does not exceed the timeout unless the override wraps. -/
theorem maxWaitTime_le (hnanos : int64.Fits (b.cfg.waitTimeoutMillis * 1000000))
    (hwraps : ¬ r.Wraps b.cfg) :
    r.maxWaitTime b.cfg ≤ b.cfg.waitTimeoutMillis * 1000000 := by
  unfold Request.maxWaitTime
  split_ifs with hless
  · by_contra hmore
    exact hwraps ⟨hless.1, hless.2, not_le.mp hmore⟩
  · rw [mul_comm]
    exact le_of_eq hnanos

/-- An override that is not negative is what a call can afford, if it is less than the timeout. -/
theorem maxWaitTime_le_override (htimeout : 0 ≤ b.cfg.waitTimeoutMillis)
    (hnanos : int64.Fits (b.cfg.waitTimeoutMillis * 1000000)) (hset : r.maxWaitTimeOverride = true)
    (hoverride : 0 ≤ r.maxWaitMillisOverride) :
    r.maxWaitTime b.cfg ≤ r.maxWaitMillisOverride * 1000000 := by
  have hbounds := int64_fits_iff.mp hnanos
  unfold Request.maxWaitTime
  by_cases hless : r.maxWaitMillisOverride < b.cfg.waitTimeoutMillis
  · have hfits : int64.wrap (1000000 * r.maxWaitMillisOverride) = _ :=
      int64_fits_iff.mpr (by omega)
    rw [if_pos ⟨hset, hless⟩, hfits, mul_comm]
  · have hfits : int64.wrap (1000000 * b.cfg.waitTimeoutMillis) = _ :=
      int64_fits_iff.mpr (by omega)
    rw [if_neg (fun h => hless h.2), hfits]
    omega

/-- A loop grants a request only with a wait that keeps the maximum. -/
theorem maxWaitKept_of_taken (htimeout : 0 ≤ b.cfg.waitTimeoutMillis)
    (hnanos : int64.Fits (b.cfg.waitTimeoutMillis * 1000000)) (hwraps : ¬ r.Wraps b.cfg)
    {impl : TokenBucket} {p : TokenBucket × ℤ}
    (htaken : Taken impl ⟨now, r.tokensRequested, r.maxWaitTime b.cfg⟩ p)
    (hgranted : (Request.afterTake b p.2).error = none) :
    MaxWaitKept r b.cfg (Request.afterTake b p.2).wait := by
  cases htaken with
  | refused => cases hgranted
  | granted afforded =>
    have hle := impl.le_horizon now
    have htime := maxWaitTime_le hnanos hwraps
    have hreply : Request.afterTake b (impl.horizon now - now) =
        ⟨impl.horizon now - now, b.dynamic, none⟩ := if_neg (by omega)
    rw [hreply]
    dsimp only at afforded ⊢
    constructor
    · omega
    · omega
    · intro hset hoverride
      have htime' := maxWaitTime_le_override htimeout hnanos hset hoverride
      omega

theorem allow_eq (r : Request) (b : Bucket TokenBucket) (now : ℤ) :
    r.allow b now =
      if b.cfg.maxTokensPerRequest < r.tokensRequested ∧ 0 < b.cfg.maxTokensPerRequest then
        (b.impl, ⟨0, b.dynamic, some .tooManyTokensRequested⟩)
      else
        let p := b.impl.calcWaitTime .int64 ⟨now, r.tokensRequested, r.maxWaitTime b.cfg⟩
        (p.1, Request.afterTake b p.2) := by
  unfold Request.allow Request.afterFind
  dsimp only
  split_ifs <;> rfl

theorem maxWaitKept_of_coherent (h : Coherent b.impl) (hreading : Reading now)
    (htimeout : 0 ≤ b.cfg.waitTimeoutMillis)
    (hnanos : int64.Fits (b.cfg.waitTimeoutMillis * 1000000)) (hwraps : ¬ r.Wraps b.cfg)
    (hgranted : (r.allow b now).2.error = none) :
    MaxWaitKept r b.cfg (r.allow b now).2.wait := by
  have htaken := h.taken (c := ⟨now, r.tokensRequested, r.maxWaitTime b.cfg⟩) hreading
  rw [allow_eq] at hgranted ⊢
  split_ifs at hgranted ⊢
  exact maxWaitKept_of_taken htimeout hnanos hwraps htaken hgranted

end Kept

section Exceeded
variable {timeout override : ℤ}

/-- A bucket that gets a token each nanosecond, and whose debt is limited by what the override wraps
to. -/
def borrower (timeout override : ℤ) : BucketConfig where
  size := 1
  fillRate := 1000000000
  waitTimeoutMillis := timeout
  maxDebtMillis := override

/-- Before the first call. -/
def unused (timeout override : ℤ) : TokenBucket := newBucket "ns" "b" (borrower timeout override) false

/-- The first call takes one token more than are worth waiting for. -/
def firstCall (timeout : ℤ) : Memory.Call := ⟨1, timeout * 1000000 + 2, 0⟩

/-- After the first call. -/
def indebted (timeout override : ℤ) : TokenBucket :=
  { unused timeout override with
    tokensNextAvailableNanos := timeout * 1000000 + 2, accumulatedTokens := 0 }

theorem reached_indebted (htimeout : 0 ≤ timeout) (hnanos : int64.Fits (timeout * 1000000))
    (hdebt : timeout * 1000000 + 2 ≤ int64.wrap (override * 1000000)) :
    Reached (borrower timeout override) false (indebted timeout override) := by
  have hbounds := int64_fits_iff.mp hnanos
  have hnew : Reached (borrower timeout override) false (unused timeout override) := .new _ _
  have hreading : Reading (firstCall timeout).now := ⟨Int.one_pos, rfl⟩
  have hstock : refilled (unused timeout override) (firstCall timeout).now = 1 := rfl
  have hhorizon : (unused timeout override).horizon (firstCall timeout).now = 1 := rfl
  have hpaid : paidFor (unused timeout override) (firstCall timeout) = timeout * 1000000 + 2 := by
    have hrate : (unused timeout override).nanosBetweenTokens = 1 := rfl
    rw [paidFor, hstock, hhorizon, hrate]
    dsimp only [firstCall]
    omega
  have hpaidFits : int64.wrap (timeout * 1000000 + 2) = timeout * 1000000 + 2 :=
    int64_fits_iff.mpr (by omega)
  have hafter : ((unused timeout override).calcWaitTime .int64 (firstCall timeout)).1 =
      indebted timeout override := by
    have hused : min 1 (firstCall timeout).requested = 1 := by
      dsimp only [firstCall]
      omega
    have hleft : int64.wrap (1 - 1) = 0 := rfl
    rw [hnew.coherent.calcWaitTime_eq hreading, hpaid, hpaidFits, hstock, hused, hleft, if_neg]
    · rfl
    · rintro (hlimit | ⟨hlater, -⟩)
      · have howed : int64.wrap (timeout * 1000000 + 2 - (firstCall timeout).now) =
            timeout * 1000000 + 2 - 1 := int64_fits_iff.mpr (by dsimp only [firstCall]; omega)
        rw [howed] at hlimit
        dsimp only [unused, newBucket, borrower] at hlimit
        omega
      · rw [hhorizon] at hlater
        exact absurd hlater (show ¬ (0 : ℤ) < 1 - 1 by decide)
  rw [← hafter]
  refine .take hnew hreading ?_
  rintro ⟨-, hzero⟩
  exact absurd hzero (show ¬ (1 : ℤ) = 0 by decide)

/-- At the same time, one more token is worth a wait that is longer than the timeout. -/
theorem wait_of_indebted (htimeout : 0 ≤ timeout) (hnanos : int64.Fits (timeout * 1000000))
    (hless : override < timeout)
    (hdebt : timeout * 1000000 + 2 ≤ int64.wrap (override * 1000000)) :
    (Request.allow ⟨1, override, true⟩
      ⟨0, borrower timeout override, false, false, indebted timeout override⟩ 1).2 =
      ⟨timeout * 1000000 + 1, false, none⟩ := by
  have hbounds := int64_fits_iff.mp hnanos
  have hcoherent := (reached_indebted htimeout hnanos hdebt).coherent
  have hreading : Reading 1 := ⟨Int.one_pos, rfl⟩
  have hmax : Request.maxWaitTime ⟨1, override, true⟩ (borrower timeout override) =
      int64.wrap (override * 1000000) := by
    unfold Request.maxWaitTime
    rw [if_pos ⟨rfl, hless⟩, mul_comm]
  have hhorizon : (indebted timeout override).horizon 1 = timeout * 1000000 + 2 := by
    rw [TokenBucket.horizon_eq_max]
    dsimp only [indebted]
    omega
  have hstock : refilled (indebted timeout override) 1 = 0 := by
    unfold refilled TokenBucket.refill
    rw [if_neg]
    · rfl
    · dsimp only [indebted]
      omega
  have hpaid : paidFor (indebted timeout override) ⟨1, 1, int64.wrap (override * 1000000)⟩ =
      timeout * 1000000 + 3 := by
    have hrate : (indebted timeout override).nanosBetweenTokens = 1 := rfl
    rw [paidFor, hstock, hhorizon, hrate]
    dsimp only
    omega
  have howed : int64.wrap (timeout * 1000000 + 3 - 1) = timeout * 1000000 + 3 - 1 :=
    int64_fits_iff.mpr (by omega)
  have hwait : ((indebted timeout override).calcWaitTime .int64
      ⟨1, 1, int64.wrap (override * 1000000)⟩).2 = timeout * 1000000 + 1 := by
    rw [hcoherent.calcWaitTime_eq hreading, hpaid, if_neg]
    · dsimp only
      rw [hhorizon]
      omega
    · rintro (hlimit | ⟨-, hlong⟩)
      · rw [howed] at hlimit
        dsimp only [indebted, unused, newBucket, borrower] at hlimit
        omega
      · dsimp only at hlong
        rw [hhorizon] at hlong
        omega
  have hallowed : ¬ ((borrower timeout override).maxTokensPerRequest < 1 ∧
      0 < (borrower timeout override).maxTokensPerRequest) := fun h => absurd h.2 (lt_irrefl 0)
  rw [allow_eq, if_neg hallowed]
  dsimp only
  rw [hmax, hwait]
  exact if_neg (by omega)

end Exceeded

/-- The timeout and what the override wraps to are even numbers of nanoseconds. -/
theorem add_two_le_wrap {timeout override : ℤ}
    (hmore : timeout * 1000000 < int64.wrap (1000000 * override)) :
    timeout * 1000000 + 2 ≤ int64.wrap (override * 1000000) := by
  have hmod : int64.wrap (1000000 * override) % 2 ^ 64 = 1000000 * override % 2 ^ 64 :=
    Int.bmod_emod
  rw [mul_comm override]
  omega

/-- A timeout that is not negative, and whose nanoseconds fit, is kept in every state that buckets
reach, exactly if the override does not wrap to more than it. -/
theorem max_wait_kept_iff {timeout override : ℤ} (htimeout : 0 ≤ timeout)
    (hnanos : int64.Fits (timeout * 1000000)) (hoverride : int64.Fits override) (overrides : Bool) :
    KeepsMaxWait timeout override overrides ↔
      ¬ (overrides = true ∧ override < timeout ∧
        timeout * 1000000 < int64.wrap (1000000 * override)) := by
  constructor
  · rintro hkeeps ⟨rfl, hless, hmore⟩
    have hdebt := add_two_le_wrap hmore
    have hbounds := int64_fits_iff.mp hnanos
    have hbounds' := int64_fits_iff.mp hoverride
    have hwait := wait_of_indebted htimeout hnanos hless hdebt
    have hfits : (borrower timeout override).Fits := by
      constructor <;> dsimp only [borrower] <;> omega
    have hkept := hkeeps ⟨0, borrower timeout override, false, false, indebted timeout override⟩ 1 1
      hfits rfl (reached_indebted htimeout hnanos hdebt) rfl ⟨Int.one_pos, rfl⟩
      (by rintro ⟨-, hzero⟩; exact absurd hzero (show ¬ (1 : ℤ) = 0 by decide)) (by rw [hwait])
    have hle := hkept.timeout
    rw [hwait] at hle
    dsimp only [borrower] at hle
    omega
  · intro hwraps b tokens now hfits hcfg hreached htokens hreading r hdivisor hgranted
    subst hcfg
    have hnot : ¬ r.Wraps b.cfg := fun h => hwraps ⟨h.set, h.less, h.more⟩
    exact maxWaitKept_of_coherent hreached.coherent hreading htimeout hnanos hnot hgranted

/-- An override of half a second. -/
theorem max_wait_kept_iff_shorter : KeepsMaxWait 1000 500 true :=
  (max_wait_kept_iff (by decide) (by decide) (by decide) true).mpr (by decide)

/-- One token each second, ten of which may be borrowed, but for no longer than a second. -/
def lender : BucketConfig where
  size := 1
  fillRate := 1
  waitTimeoutMillis := 1000
  maxDebtMillis := 10000

/-- Five tokens have been borrowed. -/
def lent : TokenBucket :=
  ((newBucket "ns" "b" lender false).calcWaitTime .int64 ⟨1700000000000000000, 6, 0⟩).1

/-- A negative override that wraps around is granted a wait of five seconds. -/
theorem negative_override_waits :
    Reached lender false lent ∧
      (Request.allow ⟨1, -9223372036855, true⟩ ⟨0, lender, false, false, lent⟩
        1700000000000000000).2 = ⟨5000000000, false, none⟩ ∧
      ¬ KeepsMaxWait 1000 (-9223372036855) true := by
  have hreached : Reached lender false lent := .take (.new _ _) (by decide) (by decide)
  have hwait : (Request.allow ⟨1, -9223372036855, true⟩ ⟨0, lender, false, false, lent⟩
      1700000000000000000).2 = ⟨5000000000, false, none⟩ := by decide
  refine ⟨hreached, hwait, fun hkeeps => ?_⟩
  have hfits : lender.Fits := by
    constructor <;> decide
  have hkept := hkeeps ⟨0, lender, false, false, lent⟩ 1 1700000000000000000 hfits rfl hreached
    (by decide) (by decide) (by decide) (by rw [hwait])
  have hle := hkept.timeout
  rw [hwait] at hle
  exact absurd hle (by decide)

namespace Loops
variable {s s' : Loops} {a : LoopAction}

/-- What a loop gets is not too much for one request. -/
def Admitted (s : Loops) : Prop :=
  ∀ i c, s.clients.lookup i = some c → ∀ b ∈ c.progress.pending,
    ¬ (b.cfg.maxTokensPerRequest < c.request.tokensRequested ∧ 0 < b.cfg.maxTokensPerRequest)

theorem Admitted.setProgress (h : Admitted s) {i : ℕ} {c : Client} {progress : Progress}
    (hprogress : ∀ b ∈ progress.pending,
      ¬ (b.cfg.maxTokensPerRequest < c.request.tokensRequested ∧ 0 < b.cfg.maxTokensPerRequest)) :
    Admitted (s.setProgress i c progress) :=
  pending_setProgress (P := fun r b =>
    ¬ (b.cfg.maxTokensPerRequest < r.tokensRequested ∧ 0 < b.cfg.maxTokensPerRequest)) h hprogress

theorem step_admitted (h : Admitted s) (hs : s.step a = some s') : Admitted s' := by
  cases step_turned hs with
  | base | exit => exact h
  | @take i r c result absent call returned =>
    have hpassed : ∀ b ∈ (r.afterFind result).pending,
        ¬ (b.cfg.maxTokensPerRequest < r.tokensRequested ∧ 0 < b.cfg.maxTokensPerRequest) := by
      intro b hb hmany
      rw [pending_afterFind hb, Request.afterFind, if_pos hmany] at hb
      cases hb
    exact h.setProgress (c := ⟨r, r.afterFind result⟩) hpassed
  | @receive i c b client sending idle =>
    refine h.setProgress fun b' hb' => h i c client b' ?_
    rw [sending]
    exact hb'
  | respond reply tokens served client waiting =>
    refine h.setProgress fun b' hb' => ?_
    cases hb'

/-- A loop does what `Allow` does with the bucket as the loop has left it. -/
theorem Admitted.allow_eq (h : Admitted s) {x : Served} (hx : s.served a = some x) :
    x.request.allow { x.bucket with impl := x.before } x.now = (x.after, x.reply) := by
  obtain ⟨id, -, -, hc, -, hafter, hreply, -⟩ := served_eq_some hx
  have hallowed := h x.call _ hc x.bucket rfl
  rw [Container.allow_eq, if_neg hallowed, hafter, hreply]
  rfl

/-- In every run of the server whose loops do not panic, a request whose override does not wrap gets
no wait that the bucket or the request rules out. -/
theorem served_max_wait_kept (now : ℤ) (actions : List LoopAction)
    (hok : Machine.Along step Sane (init now) actions)
    (hrun : Machine.run step (init now) actions = some s) (hsane : s.Sane a) {x : Served}
    (hx : s.served a = some x) (htimeout : 0 ≤ x.bucket.cfg.waitTimeoutMillis)
    (hnanos : int64.Fits (x.bucket.cfg.waitTimeoutMillis * 1000000))
    (hwraps : ¬ x.request.Wraps x.bucket.cfg) (hgranted : x.reply.error = none) :
    MaxWaitKept x.request x.bucket.cfg x.reply.wait := by
  have hdescended : Descended s :=
    Machine.run_induction Descended (fun _ _ _ => step_descended) (descended_init now) hok hrun
  have hadmitted : Admitted s := by
    refine Machine.run_invariant Admitted (fun _ _ _ => step_admitted) ?_ hrun
    intro i c hc
    cases hc
  obtain ⟨cfg, dyn, hreached⟩ := hdescended.served hx
  have hallow := hadmitted.allow_eq hx
  have hkept := maxWaitKept_of_coherent (b := { x.bucket with impl := x.before }) hreached.coherent
    (hsane x hx).1 htimeout hnanos hwraps
  rw [hallow] at hkept
  exact hkept hgranted

end Loops

end QuotaService.Container
