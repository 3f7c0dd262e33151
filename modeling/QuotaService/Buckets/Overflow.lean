import QuotaService.Buckets.RateBound
import QuotaService.Config.Defaults
import QuotaService.Config.Json

/-! The bucket in 64-bit arithmetic. A call that stays in range is answered as over the integers, and
leaves the bucket as over the integers; no field of a config is checked, so that not all do. -/
namespace QuotaService.Memory
open Config Arith

section Ranges

/-- `calcWaitTime` would divide by zero, which is a panic. -/
def DividesByZero (b : TokenBucket) (c : Call) : Prop :=
  b.tokensNextAvailableNanos < c.now ∧ b.nanosBetweenTokens = 0

instance (b : TokenBucket) (c : Call) : Decidable (DividesByZero b c) :=
  inferInstanceAs (Decidable (_ ∧ _))

/-- The wait for the tokens to be available is longer than the caller wants. -/
def WaitsTooLong (b : TokenBucket) (c : Call) : Prop :=
  0 < b.horizon c.now - c.now ∧ c.maxWaitTimeNanos < b.horizon c.now - c.now

instance (b : TokenBucket) (c : Call) : Decidable (WaitsTooLong b c) :=
  inferInstanceAs (Decidable (_ ∧ _))

/-- The time up to which the tokens of a call are paid for. -/
def paidUpTo (b : TokenBucket) (c : Call) : ℤ :=
  b.horizon c.now + (c.requested - min (b.stock c.now) c.requested) * b.nanosBetweenTokens

/-- The limit on the debt, in nanoseconds. -/
def debtLimit (b : TokenBucket) : ℤ := b.cfg.maxDebtMillis * 1000000

/-- A call that 64 bits are enough for. Unless the wait is too long, the debt is judged as it is, even
if it has wrapped, and the new horizon fits if the call is granted. -/
structure InRange (b : TokenBucket) (c : Call) : Prop where
  divisor : ¬ DividesByZero b c
  debtLimit : int64.Fits (debtLimit b)
  elapsed : b.tokensNextAvailableNanos < c.now → int64.Fits (c.now - b.tokensNextAvailableNanos)
  fresh : b.tokensNextAvailableNanos < c.now →
    int64.Fits ((c.now - b.tokensNextAvailableNanos).tdiv b.nanosBetweenTokens)
  stock : b.tokensNextAvailableNanos < c.now → int64.Fits (b.accumulatedTokens +
    (c.now - b.tokensNextAvailableNanos).tdiv b.nanosBetweenTokens)
  debt : WaitsTooLong b c ∨
    (Memory.debtLimit b < paidUpTo b c - c.now ↔
      Memory.debtLimit b < int64.wrap (paidUpTo b c - c.now))
  horizon : b.Refuses c ∨ int64.Fits (paidUpTo b c)

/-- The fields of a bucket are 64-bit integers. -/
structure Word (b : TokenBucket) : Prop where
  size : int64.Fits b.cfg.size
  horizon : int64.Fits b.tokensNextAvailableNanos
  stock : int64.Fits b.accumulatedTokens

/-- What a server asks of a bucket: at least one token, at a time after 1970. -/
structure Call.Valid (c : Call) : Prop where
  now_pos : 0 < c.now
  now_fits : int64.Fits c.now
  one_le_requested : 1 ≤ c.requested
  requested_fits : int64.Fits c.requested

end Ranges

section Step
variable {b : TokenBucket} {c : Call}

theorem refuses_iff : b.Refuses c ↔ debtLimit b < paidUpTo b c - c.now ∨ WaitsTooLong b c :=
  Iff.rfl

theorem refill_int64
    (helapsed : b.tokensNextAvailableNanos < c.now → int64.Fits (c.now - b.tokensNextAvailableNanos))
    (hfresh : b.tokensNextAvailableNanos < c.now →
      int64.Fits ((c.now - b.tokensNextAvailableNanos).tdiv b.nanosBetweenTokens))
    (hstock : b.tokensNextAvailableNanos < c.now → int64.Fits (b.accumulatedTokens +
      (c.now - b.tokensNextAvailableNanos).tdiv b.nanosBetweenTokens)) :
    b.refill .int64 c.now = b.refill .exact c.now := by
  unfold TokenBucket.refill
  split_ifs with hlt
  · have helapsed' : int64.wrap (c.now - b.tokensNextAvailableNanos) = _ := helapsed hlt
    have hfresh' : int64.wrap ((c.now - b.tokensNextAvailableNanos).tdiv b.nanosBetweenTokens) = _ :=
      hfresh hlt
    have hstock' : int64.wrap (b.accumulatedTokens +
      (c.now - b.tokensNextAvailableNanos).tdiv b.nanosBetweenTokens) = _ := hstock hlt
    simp only [helapsed', hfresh', hstock', exact_wrap]
  · rfl

/-- What a call does in 64 bits when the stock and the wait are as over the integers. -/
theorem calcWaitTime_of_refill (hrefill : b.refill .int64 c.now = b.refill .exact c.now)
    (hwait : int64.Fits (b.horizon c.now - c.now))
    (hrest : int64.Fits (b.stock c.now - min (b.stock c.now) c.requested)) :
    b.calcWaitTime .int64 c =
      if int64.wrap (debtLimit b) < int64.wrap (paidUpTo b c - c.now) ∨ WaitsTooLong b c then (b, -1)
      else ({ b with
        tokensNextAvailableNanos := int64.wrap (paidUpTo b c)
        accumulatedTokens := b.stock c.now - min (b.stock c.now) c.requested },
        b.horizon c.now - c.now) := by
  have hh : (b.refill .exact c.now).1 = b.horizon c.now := rfl
  have hs : (b.refill .exact c.now).2 = b.stock c.now := rfl
  have hpaid : b.horizon c.now + (c.requested - min (b.stock c.now) c.requested) *
      b.nanosBetweenTokens = paidUpTo b c := rfl
  have hwait' : int64.wrap (b.horizon c.now - c.now) = _ := hwait
  have hrest' : int64.wrap (b.stock c.now - min (b.stock c.now) c.requested) = _ := hrest
  unfold TokenBucket.calcWaitTime
  simp only [hrefill, hh, hs, int64_wrap_wrap_mul, int64_wrap_add_wrap, int64_wrap_wrap_sub, hwait',
    hrest', hpaid]
  rfl

theorem word_horizon (hb : Word b) (hc : c.Valid) : int64.Fits (b.horizon c.now) := by
  rw [TokenBucket.horizon_eq_max]
  rcases max_cases b.tokensNextAvailableNanos c.now with ⟨hmax, -⟩ | ⟨hmax, -⟩
  · rw [hmax]
    exact hb.horizon
  · rw [hmax]
    exact hc.now_fits

theorem word_stock (hb : Word b) (h : InRange b c) : int64.Fits (b.stock c.now) := by
  unfold TokenBucket.stock TokenBucket.refill
  split_ifs with hlt
  · have hstock := h.stock hlt
    simp only [exact_wrap]
    rcases min_choice b.cfg.size (b.accumulatedTokens +
      (c.now - b.tokensNextAvailableNanos).tdiv b.nanosBetweenTokens) with hmin | hmin
    · rw [hmin]
      exact hb.size
    · rw [hmin]
      exact hstock
  · exact hb.stock

/-- A call in range does what it does over the integers. -/
theorem calcWaitTime_int64 (hb : Word b) (hc : c.Valid) (h : InRange b c) :
    b.calcWaitTime .int64 c = b.calcWaitTime .exact c := by
  have hhorizon := int64_fits_iff.mp (word_horizon hb hc)
  have hstock := int64_fits_iff.mp (word_stock hb h)
  have hle := b.le_horizon c.now
  have hnow := hc.now_pos
  have hreq := hc.one_le_requested
  have hwait : int64.Fits (b.horizon c.now - c.now) := int64_fits_iff.mpr (by omega)
  have hrest : int64.Fits (b.stock c.now - min (b.stock c.now) c.requested) :=
    int64_fits_iff.mpr (by omega)
  have hlimit : int64.wrap (debtLimit b) = debtLimit b := h.debtLimit
  have hmachine :=
    calcWaitTime_of_refill (refill_int64 h.elapsed h.fresh h.stock) hwait hrest
  rw [hlimit] at hmachine
  have hjudged : (debtLimit b < int64.wrap (paidUpTo b c - c.now) ∨ WaitsTooLong b c) ↔
      b.Refuses c := by
    rw [refuses_iff]
    rcases h.debt with hlong | hdebt
    · simp only [hlong, or_true]
    · rw [hdebt]
  rw [hmachine, TokenBucket.calcWaitTime_exact]
  by_cases hrefuses : b.Refuses c
  · rw [if_pos (hjudged.mpr hrefuses), if_pos hrefuses]
  · rw [if_neg (hjudged.not.mpr hrefuses), if_neg hrefuses]
    have hfits : int64.wrap (paidUpTo b c) = paidUpTo b c := h.horizon.resolve_left hrefuses
    rw [hfits]
    rfl

/-- A call in range leaves a bucket whose fields are 64-bit integers. -/
theorem word_calcWaitTime (hb : Word b) (hc : c.Valid) (h : InRange b c) :
    Word (b.calcWaitTime .int64 c).1 := by
  have hstock := int64_fits_iff.mp (word_stock hb h)
  have hreq := hc.one_le_requested
  rw [calcWaitTime_int64 hb hc h, TokenBucket.calcWaitTime_exact]
  split_ifs with hrefuses
  · exact hb
  · refine ⟨hb.size, h.horizon.resolve_left hrefuses, int64_fits_iff.mpr ?_⟩
    dsimp only [TokenBucket.granted]
    omega

end Step

/-- `NewBucket` divides by a rate that is not zero, and gets a quotient that fits. -/
theorem newBucket_word {raw : BucketConfig} (hraw : raw.Fits) (ns bucketName : String) (dyn : Bool) :
    let b := newBucket ns bucketName (applyBucketDefaults raw) dyn
    b.cfg.fillRate ≠ 0 ∧ int64.Fits b.nanosBetweenTokens ∧ Word b := by
  have hsize : int64.Fits (defaulted raw.size 100) := by
    unfold defaulted
    split_ifs
    · decide
    · exact int64_fits_iff.mpr hraw.size
  have hnanos : int64.Fits ((1000000000 : ℤ).tdiv (applyBucketDefaults raw).fillRate) := by
    have hle := Int.natAbs_tdiv_le_natAbs 1000000000 (applyBucketDefaults raw).fillRate
    exact int64_fits_iff.mpr (by omega)
  have hrate : (applyBucketDefaults raw).fillRate ≠ 0 := defaulted_ne_zero _ (by decide)
  have hzero : int64.Fits 0 := by decide
  exact ⟨hrate, hnanos, hsize, hzero, hsize⟩

/-- In a run whose calls all stay in range nothing is divided by zero, and every call is answered, and
leaves the bucket, as over the integers. -/
theorem int64_exact {raw : BucketConfig} (hraw : raw.Fits) (ns bucketName : String) (dyn : Bool)
    (calls : List Call) (hcalls : ∀ c ∈ calls, c.Valid) :
    let b := newBucket ns bucketName (applyBucketDefaults raw) dyn
    let run := Machine.trace (TokenBucket.calcWaitTime .int64) b calls
    b.cfg.fillRate ≠ 0 ∧ int64.Fits b.nanosBetweenTokens ∧
    ((∀ t ∈ run, InRange t.before t.input) → ∀ t ∈ run, ¬ DividesByZero t.before t.input ∧
      int64.Fits (debtLimit t.before) ∧
        (t.after, t.output) = t.before.calcWaitTime .exact t.input) := by
  intro b run
  obtain ⟨hrate, hnanos, hword⟩ := newBucket_word hraw ns bucketName dyn
  refine ⟨hrate, hnanos, fun hrun t ht => ?_⟩
  have hvalid : ∀ t ∈ run, t.input.Valid := Machine.forall_input_trace hcalls
  have hok : ∀ t ∈ run, t.input.Valid ∧ InRange t.before t.input := fun t ht =>
    ⟨hvalid t ht, hrun t ht⟩
  have hkeeps : ∀ b (c : Call), Word b → c.Valid ∧ InRange b c →
      Word (b.calcWaitTime .int64 c).1 := fun b c hb hc => word_calcWaitTime hb hc.1 hc.2
  obtain ⟨hbefore, hstep⟩ := Machine.trace_induction_along Word hkeeps hword hok ht
  have hrange := hrun t ht
  refine ⟨hrange.divisor, hrange.debtLimit, ?_⟩
  rw [← hstep]
  exact calcWaitTime_int64 hbefore (hvalid t ht) hrange

section Moderate
variable {cfg : BucketConfig} {b : TokenBucket} {c : Call}

/-- Bounds on a config and a call that leave room in 64 bits until the year 2043. -/
structure Moderate (cfg : BucketConfig) (c : Call) : Prop where
  size : cfg.size ≤ 2 ^ 62
  debt : cfg.maxDebtMillis * 1000000 ≤ 2 ^ 61
  now : c.now ≤ 2 ^ 61
  cost : c.requested * nanosBetween cfg ≤ 2 ^ 61

/-- A bucket whose horizon is no further away than the debt allows. -/
structure Near (cfg : BucketConfig) (b : TokenBucket) : Prop extends Sound cfg b where
  horizon_nonneg : 0 ≤ b.tokensNextAvailableNanos
  horizon_le : b.tokensNextAvailableNanos ≤ 2 ^ 62

theorem now_le_paidUpTo (hcfg : Admissible cfg) (hb : Sound cfg b) (c : Call) :
    c.now ≤ paidUpTo b c := by
  have hn := hcfg.one_le_nanosBetween
  have hcost : 0 ≤ (c.requested - min (b.stock c.now) c.requested) * b.nanosBetweenTokens := by
    rw [hb.nanos_eq]
    exact mul_nonneg (by omega) (by omega)
  have hhorizon := b.le_horizon c.now
  unfold paidUpTo
  omega

theorem inRange_of_moderate (hcfg : Admissible cfg) (hb : Near cfg b) (hc : c.Valid)
    (hmod : Moderate cfg c) : InRange b c := by
  have hn := hcfg.one_le_nanosBetween
  have hnow := hc.now_pos
  have hnow' := hmod.now
  have htna := hb.horizon_nonneg
  have htna' := hb.horizon_le
  have hac := hb.stock_nonneg
  have hac' := hb.stock_le
  have hsize := hmod.size
  have hlimit : debtLimit b = cfg.maxDebtMillis * 1000000 := by rw [debtLimit, hb.cfg_eq]
  have hlimit' := hmod.debt
  have hdebt := hcfg.maxDebtMillis_nonneg
  have hfresh : b.tokensNextAvailableNanos < c.now →
      0 ≤ (c.now - b.tokensNextAvailableNanos).tdiv b.nanosBetweenTokens ∧
        (c.now - b.tokensNextAvailableNanos).tdiv b.nanosBetweenTokens ≤ 2 ^ 61 := by
    intro hlt
    rw [hb.nanos_eq, Int.tdiv_eq_ediv_of_nonneg (by omega)]
    have hle := Int.ediv_le_self (b := nanosBetween cfg)
      (show 0 ≤ c.now - b.tokensNextAvailableNanos by omega)
    exact ⟨Int.ediv_nonneg (by omega) (by omega), by omega⟩
  have hstock := stock_bounds hcfg.fills hb.toSound c.now
  have hone := hc.one_le_requested
  have hhorizon : b.horizon c.now ≤ 2 ^ 62 := by
    rw [TokenBucket.horizon_eq_max]
    omega
  have hcost : (c.requested - min (b.stock c.now) c.requested) * b.nanosBetweenTokens ≤ 2 ^ 61 := by
    rw [hb.nanos_eq]
    apply le_trans _ hmod.cost
    exact mul_le_mul_of_nonneg_right (by omega) (by omega)
  have hpaid := now_le_paidUpTo hcfg hb.toSound c
  have hpaid' : paidUpTo b c ≤ 2 ^ 62 + 2 ^ 61 := by
    unfold paidUpTo
    omega
  have hdebtFits : int64.wrap (paidUpTo b c - c.now) = paidUpTo b c - c.now :=
    int64_fits_iff.mpr (by omega)
  refine ⟨?_, ?_, fun hlt => ?_, fun hlt => ?_, fun hlt => ?_, Or.inr ?_, Or.inr ?_⟩
  · rintro ⟨-, hzero⟩
    rw [hb.nanos_eq] at hzero
    omega
  · exact int64_fits_iff.mpr (by omega)
  · exact int64_fits_iff.mpr (by omega)
  · have := hfresh hlt
    exact int64_fits_iff.mpr (by omega)
  · have := hfresh hlt
    exact int64_fits_iff.mpr (by omega)
  · rw [hdebtFits]
  · exact int64_fits_iff.mpr (by omega)

theorem near_word (hcfg : Admissible cfg) (hb : Near cfg b) (hsize : cfg.size ≤ 2 ^ 62) :
    Word b := by
  have hlow := hcfg.size_nonneg
  have hac := hb.stock_nonneg
  have hac' := hb.stock_le
  have htna := hb.horizon_nonneg
  have htna' := hb.horizon_le
  refine ⟨int64_fits_iff.mpr ?_, int64_fits_iff.mpr (by omega), int64_fits_iff.mpr (by omega)⟩
  rw [hb.cfg_eq]
  omega

theorem near_calcWaitTime (hcfg : Admissible cfg) (hb : Near cfg b) (hc : c.Valid)
    (hmod : Moderate cfg c) : Near cfg (b.calcWaitTime .int64 c).1 := by
  have hone := hc.one_le_requested
  have hnow := hc.now_pos
  have hsound := sound_calcWaitTime hcfg.fills hb.toSound (show 0 ≤ c.requested by omega)
  have hpaid := now_le_paidUpTo hcfg hb.toSound c
  rw [calcWaitTime_int64 (near_word hcfg hb hmod.size) hc (inRange_of_moderate hcfg hb hc hmod)]
  by_cases hrefuses : b.Refuses c
  · rw [TokenBucket.calcWaitTime_exact, if_pos hrefuses]
    exact hb
  · have hafter : (b.calcWaitTime .exact c).1.tokensNextAvailableNanos = paidUpTo b c := by
      rw [TokenBucket.calcWaitTime_exact, if_neg hrefuses]
      rfl
    have hdebt := (not_or.mp (refuses_iff.not.mp hrefuses)).1
    have hlimit := hmod.debt
    have hnow' := hmod.now
    rw [debtLimit, hb.cfg_eq] at hdebt
    exact ⟨hsound, by omega, by omega⟩

/-- Runs within these bounds stay in range, in any machine that drives a bucket. -/
theorem inRange_run {σ ο : Type} {step : σ → Call → σ × ο} (bucket : σ → TokenBucket)
    (hstep : ∀ s c, bucket (step s c).1 = ((bucket s).calcWaitTime .int64 c).1)
    (hcfg : Admissible cfg) {s : σ} {ns bucketName : String} {dyn : Bool}
    (hs : bucket s = newBucket ns bucketName cfg dyn) {calls : List Call}
    (hcalls : ∀ c ∈ calls, c.Valid ∧ Moderate cfg c) :
    ∀ t ∈ Machine.trace step s calls, InRange (bucket t.before) t.input := by
  intro t ht
  have hnew : Near cfg (bucket s) := by
    rw [hs]
    exact ⟨newBucket_sound hcfg.fills ns bucketName dyn, le_refl 0, by norm_num [newBucket]⟩
  have hkeeps : ∀ s (c : Call), Near cfg (bucket s) → c.Valid ∧ Moderate cfg c →
      Near cfg (bucket (step s c).1) := by
    intro s c hb hc
    rw [hstep]
    exact near_calcWaitTime hcfg hb hc.1 hc.2
  obtain ⟨hbefore, hc, -⟩ := Machine.trace_induction (fun s => Near cfg (bucket s))
    (fun c => c.Valid ∧ Moderate cfg c) hkeeps hnew hcalls ht
  exact inRange_of_moderate hcfg hbefore hc.1 hc.2

end Moderate

/-- Two calls of a bucket with the default config, the second of which borrows. -/
theorem int64_exact_default :
    let b := newBucket "ns" "b" (applyBucketDefaults {}) false
    let run := Machine.trace (TokenBucket.calcWaitTime .int64) b
      [⟨1700000000000000000, 60, 0⟩, ⟨1700000000000000001, 50, 1000000000⟩]
    run.map Machine.Transition.output = [0, 0] ∧ ∀ t ∈ run,
      (t.after, t.output) = t.before.calcWaitTime .exact t.input := by
  have hcfg : Admissible (applyBucketDefaults {}) := ⟨by decide, by decide, by decide, by decide⟩
  have hcalls : ∀ c ∈ [(⟨1700000000000000000, 60, 0⟩ : Call),
      ⟨1700000000000000001, 50, 1000000000⟩], c.Valid ∧ Moderate (applyBucketDefaults {}) c := by
    intro c hc
    simp only [List.mem_cons, List.not_mem_nil, or_false] at hc
    rcases hc with rfl | rfl
    · exact ⟨⟨by decide, by decide, by decide, by decide⟩, ⟨by decide, by decide, by decide, by decide⟩⟩
    · exact ⟨⟨by decide, by decide, by decide, by decide⟩, ⟨by decide, by decide, by decide, by decide⟩⟩
  have hraw : ({} : BucketConfig).Fits :=
    ⟨by decide, by decide, by decide, by decide, by decide, by decide⟩
  have hexact := (int64_exact hraw "ns" "b" false _ fun c hc => (hcalls c hc).1).2.2
    (inRange_run id (fun _ _ => rfl) hcfg rfl hcalls)
  exact ⟨by decide, fun t ht => (hexact t ht).2.2⟩

section Failures

/-- More than a token each nanosecond. -/
def fast : BucketConfig := { fillRate := 2000000000 }

/-- A bucket that hands out any number of tokens at once. -/
def unlimited : BucketConfig := { fillRate := 1, maxTokensPerRequest := -1 }

/-- So many tokens that the time they take is a multiple of `2 ^ 64` nanoseconds. -/
def huge : Call := ⟨1700000000000000000, 36028797018964068, 1000000000⟩

/-- The first call of a fast bucket divides by zero, and an unlimited one hands out tokens for
nothing, which it would have to refuse. -/
theorem int64_not_exact :
    DividesByZero (newBucket "ns" "b" (applyBucketDefaults fast) false)
        ⟨1700000000000000000, 1, 1000000000⟩ ∧
      huge.Valid ∧
      ((newBucket "ns" "b" (applyBucketDefaults unlimited) false).calcWaitTime .int64 huge).2 = 0 ∧
      ((newBucket "ns" "b" (applyBucketDefaults unlimited) false).calcWaitTime .exact huge).2 =
        -1 := by
  refine ⟨by decide, ?_, by decide, by decide⟩
  exact ⟨by decide, by decide, by decide, by decide⟩

end Failures

end QuotaService.Memory
