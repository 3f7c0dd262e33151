import QuotaService.Buckets.Overflow
import Mathlib.Algebra.Order.Field.Rat
import Mathlib.Tactic.FieldSimp

/-! The states that a bucket reaches in 64-bit arithmetic, whatever its config, and what a call takes
out of it there. -/
namespace QuotaService.Memory
open Config Arith

/-- What the clock can show: nanoseconds since 1970, in 64 bits. -/
def Reading (now : ℤ) : Prop := 0 < now ∧ int64.Fits now

instance (now : ℤ) : Decidable (Reading now) := inferInstanceAs (Decidable (_ ∧ _))

/-- The states of a bucket of a config. A call that divides by zero ends the program instead. -/
inductive Reached (cfg : BucketConfig) (dyn : Bool) : TokenBucket → Prop
  | new (ns bucketName : String) : Reached cfg dyn (newBucket ns bucketName cfg dyn)
  | take {b : TokenBucket} {c : Call} (reached : Reached cfg dyn b) (reading : Reading c.now)
    (divisor : ¬ DividesByZero b c) : Reached cfg dyn (b.calcWaitTime .int64 c).1

/-- The stock after the refill. -/
def refilled (b : TokenBucket) (now : ℤ) : ℤ := (b.refill .int64 now).2

/-- The time up to which the tokens of a call are paid for, before it is stored in 64 bits. -/
def paidFor (b : TokenBucket) (c : Call) : ℤ :=
  b.horizon c.now + (c.requested - min (refilled b c.now) c.requested) * b.nanosBetweenTokens

/-- The tokens that have been taken out of a bucket: from its stock, and from those that are to come,
of which the horizon has been moved past. -/
def spent (b b' : TokenBucket) (now : ℤ) : ℚ :=
  (refilled b now - b'.accumulatedTokens) +
    (b'.tokensNextAvailableNanos - b.horizon now) / b.nanosBetweenTokens

/-- What a call that is served comes to. -/
inductive Taken (b : TokenBucket) (c : Call) : TokenBucket × ℤ → Prop
  | refused : Taken b c (b, -1)
  | granted (afforded : 0 < b.horizon c.now - c.now → b.horizon c.now - c.now ≤ c.maxWaitTimeNanos) :
    Taken b c ({ b with
      tokensNextAvailableNanos := int64.wrap (paidFor b c)
      accumulatedTokens :=
        int64.wrap (refilled b c.now - min (refilled b c.now) c.requested) },
      b.horizon c.now - c.now)

section Coherence
variable {cfg : BucketConfig} {dyn : Bool} {b : TokenBucket} {c : Call} {now : ℤ}

/-- A bucket that has been served has fields in 64 bits, and a rate that it can divide by. -/
structure Coherent (b : TokenBucket) : Prop where
  horizon : int64.Fits b.tokensNextAvailableNanos
  served : b.tokensNextAvailableNanos = 0 ∨
    int64.Fits b.accumulatedTokens ∧ b.nanosBetweenTokens ≠ 0

theorem refill_horizon (b : TokenBucket) (now : ℤ) :
    (b.refill .int64 now).1 = b.horizon now := by
  unfold TokenBucket.horizon TokenBucket.refill
  split_ifs <;> rfl

theorem Coherent.divisor (h : Coherent b) (hreading : Reading c.now) (hc : ¬ DividesByZero b c) :
    b.nanosBetweenTokens ≠ 0 := by
  intro hzero
  have hpos := hreading.1
  rcases h.served with hnew | ⟨-, hdivisor⟩
  · have hlt : b.tokensNextAvailableNanos < c.now := by omega
    exact hc ⟨hlt, hzero⟩
  · exact hdivisor hzero

theorem Coherent.fits_horizon (h : Coherent b) (hreading : Reading now) :
    int64.Fits (b.horizon now) := by
  rw [TokenBucket.horizon_eq_max]
  rcases max_choice b.tokensNextAvailableNanos now with hmax | hmax
  · rw [hmax]
    exact h.horizon
  · rw [hmax]
    exact hreading.2

theorem Coherent.refilled_lt (h : Coherent b) (hreading : Reading now) : refilled b now < 2 ^ 63 := by
  have hpos := hreading.1
  unfold refilled TokenBucket.refill
  split_ifs with hlt
  · have hwrapped := int64_fits_iff.mp (int64_fits_wrap (b.accumulatedTokens + int64.wrap
      ((int64.wrap (now - b.tokensNextAvailableNanos)).tdiv b.nanosBetweenTokens)))
    exact lt_of_le_of_lt (min_le_right _ _) hwrapped.2
  · rcases h.served with hnew | ⟨hfits, -⟩
    · omega
    · exact (int64_fits_iff.mp hfits).2

theorem Coherent.calcWaitTime_eq (h : Coherent b) (hreading : Reading c.now) :
    b.calcWaitTime .int64 c =
      if int64.wrap (b.cfg.maxDebtMillis * 1000000) < int64.wrap (paidFor b c - c.now) ∨
          WaitsTooLong b c then (b, -1)
      else ({ b with
        tokensNextAvailableNanos := int64.wrap (paidFor b c)
        accumulatedTokens :=
          int64.wrap (refilled b c.now - min (refilled b c.now) c.requested) },
        b.horizon c.now - c.now) := by
  have hhorizon := int64_fits_iff.mp (h.fits_horizon hreading)
  have hle := b.le_horizon c.now
  have hpos := hreading.1
  have hwait : int64.wrap (b.horizon c.now - c.now) = b.horizon c.now - c.now :=
    int64_fits_iff.mpr (by omega)
  have hstock : (b.refill .int64 c.now).2 = refilled b c.now := rfl
  have hpaid : b.horizon c.now + (c.requested - min (refilled b c.now) c.requested) *
      b.nanosBetweenTokens = paidFor b c := rfl
  unfold TokenBucket.calcWaitTime
  simp only [refill_horizon, hstock, int64_wrap_wrap_mul, int64_wrap_add_wrap, int64_wrap_wrap_sub,
    hpaid, hwait]
  rfl

/-- A call that is served is refused, or granted with a wait that the caller can afford. -/
theorem Coherent.taken (h : Coherent b) (hreading : Reading c.now) :
    Taken b c (b.calcWaitTime .int64 c) := by
  rw [h.calcWaitTime_eq hreading]
  split_ifs with hrefuses
  · exact .refused
  · refine .granted fun hlater => ?_
    by_contra hlong
    exact hrefuses (Or.inr ⟨hlater, not_le.mp hlong⟩)

theorem Coherent.calcWaitTime (h : Coherent b) (hreading : Reading c.now) (hc : ¬ DividesByZero b c) :
    Coherent (b.calcWaitTime .int64 c).1 := by
  have hdivisor := h.divisor hreading hc
  have htaken := h.taken hreading
  generalize b.calcWaitTime .int64 c = p at htaken ⊢
  cases htaken with
  | refused => exact h
  | granted => exact ⟨int64_fits_wrap _, Or.inr ⟨int64_fits_wrap _, hdivisor⟩⟩

theorem Reached.coherent (h : Reached cfg dyn b) : Coherent b := by
  induction h with
  | new ns bucketName =>
    have hzero : int64.Fits 0 := by decide
    exact ⟨hzero, Or.inl rfl⟩
  | take reached reading divisor ih => exact ih.calcWaitTime reading divisor

end Coherence

section Spent
variable {b : TokenBucket} {c : Call}

/-- A bucket that grants a call has lost the tokens asked for exactly if what they are paid up to can be
stored. -/
theorem spent_eq_iff (h : Coherent b) (hreading : Reading c.now) (hdivisor : ¬ DividesByZero b c)
    (hrequested : 1 ≤ c.requested) {b' : TokenBucket}
    (hhorizon : b'.tokensNextAvailableNanos = int64.wrap (paidFor b c))
    (hstock : b'.accumulatedTokens =
      int64.wrap (refilled b c.now - min (refilled b c.now) c.requested)) :
    spent b b' c.now = c.requested ↔ int64.Fits (paidFor b c) := by
  have hlt := h.refilled_lt hreading
  have hn : (b.nanosBetweenTokens : ℚ) ≠ 0 := by
    exact_mod_cast h.divisor hreading hdivisor
  have hleft : int64.wrap (refilled b c.now - min (refilled b c.now) c.requested) =
      refilled b c.now - min (refilled b c.now) c.requested := int64_fits_iff.mpr (by omega)
  rw [hleft] at hstock
  have hscaled : spent b b' c.now = c.requested ↔
      ((b'.tokensNextAvailableNanos - b.horizon c.now : ℤ) : ℚ) =
        (((c.requested - min (refilled b c.now) c.requested) * b.nanosBetweenTokens : ℤ) : ℚ) := by
    have hfrom : (refilled b c.now : ℚ) - b'.accumulatedTokens =
        ((min (refilled b c.now) c.requested : ℤ) : ℚ) := by
      rw [hstock]
      push_cast
      ring
    rw [spent, hfrom, ← eq_sub_iff_add_eq', div_eq_iff hn]
    push_cast
    rfl
  rw [hscaled, Int.cast_inj, hhorizon, Arith.Fits]
  unfold paidFor
  constructor
  · intro heq
    omega
  · intro heq
    omega

end Spent

end QuotaService.Memory
