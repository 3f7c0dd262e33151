import QuotaService.Buckets.Overflow
import Mathlib.Algebra.Order.Field.Rat
import Mathlib.Tactic.FieldSimp

/-! The bucket against an ideal one, which fills continuously. A refill floors the fresh tokens and
moves the horizon to the clock all the same: what it has dropped is lost if the call is granted. The
losses add up until the bucket is full. -/
namespace QuotaService.Memory
open Config Arith

structure IdealBucket where
  level : ℚ
  updated : ℤ

/-- The level of an ideal bucket at a time. -/
def IdealBucket.refill (cfg : BucketConfig) (i : IdealBucket) (now : ℤ) : ℚ :=
  min cfg.size (i.level + (now - i.updated) / nanosBetween cfg)

/-- The level of the bucket: the stock after the refill, less what is owed. -/
def realLevel (b : TokenBucket) (now : ℤ) : ℚ :=
  (b.refill .int64 now).2 - max 0 (b.tokensNextAvailableNanos - now) / b.nanosBetweenTokens

/-- The time that a refill does not pay out. -/
def dropped (b : TokenBucket) (now : ℤ) : ℤ :=
  if b.tokensNextAvailableNanos < now then
    (now - b.tokensNextAvailableNanos) % b.nanosBetweenTokens
  else 0

/-- The bucket is full after its refill. -/
def Full (b : TokenBucket) (now : ℤ) : Prop := b.horizon now = now ∧ b.stock now = b.cfg.size

instance (b : TokenBucket) (now : ℤ) : Decidable (Full b now) :=
  inferInstanceAs (Decidable (_ ∧ _))

/-- A bucket, an ideal one that loses the tokens that the bucket grants, and the time that granted
calls have dropped since the bucket was full. -/
structure Compared where
  bucket : TokenBucket
  ideal : IdealBucket
  lost : ℤ

def compare (cfg : BucketConfig) (s : Compared) (c : Call) : Compared × ℤ :=
  let r := s.bucket.calcWaitTime .int64 c
  let level := s.ideal.refill cfg c.now
  (if 0 ≤ r.2 then
    { bucket := r.1
      ideal := ⟨level - c.requested, c.now⟩
      lost := if Full s.bucket c.now then 0 else s.lost + dropped s.bucket c.now }
  else { s with bucket := r.1, ideal := ⟨level, c.now⟩ }, r.2)

/-- The bucket and the ideal one when they are full. -/
def startFull (cfg : BucketConfig) (ns bucketName : String) (dyn : Bool) (start : ℤ) : Compared :=
  ⟨newBucket ns bucketName cfg dyn, ⟨cfg.size, start⟩, 0⟩

abbrev Comparison := Machine.Transition Compared Call ℤ

/-- At a call the bucket lacks less than a token. -/
def AlmostIdeal (cfg : BucketConfig) (t : Comparison) : Prop :=
  t.before.ideal.refill cfg t.input.now - 1 < realLevel t.before.bucket t.input.now

/-- At a call the bucket is full, or the time dropped since it was is worth less than a token. -/
def Kept (t : Comparison) : Prop :=
  Full t.before.bucket t.input.now ∨
    t.before.lost + dropped t.before.bucket t.input.now < t.before.bucket.nanosBetweenTokens

instance (cfg : BucketConfig) (t : Comparison) : Decidable (AlmostIdeal cfg t) :=
  inferInstanceAs (Decidable (_ < _))

instance (t : Comparison) : Decidable (Kept t) := inferInstanceAs (Decidable (_ ∨ _))

section Worth
variable {cfg : BucketConfig} {b : TokenBucket} {c : Call} {now : ℤ}

/-- The level of the bucket in nanoseconds. -/
def worth (b : TokenBucket) (now : ℤ) : ℤ :=
  b.nanosBetweenTokens * b.stock now - (b.horizon now - now)

theorem nanosBetween_pos (hcfg : Fills cfg) : (0 : ℚ) < nanosBetween cfg := by
  have hn := hcfg.one_le_nanosBetween
  exact_mod_cast (show 0 < nanosBetween cfg by omega)

theorem dropped_nonneg (hcfg : Fills cfg) (hb : Sound cfg b) (now : ℤ) : 0 ≤ dropped b now := by
  have hn := hcfg.one_le_nanosBetween
  unfold dropped
  split_ifs
  · rw [hb.nanos_eq]
    exact Int.emod_nonneg _ (by omega)
  · exact le_refl 0

/-- The bucket is worth the time since its potential, less what the refill drops, up to its size. -/
theorem worth_eq (hcfg : Fills cfg) (hb : Sound cfg b) (now : ℤ) :
    worth b now =
      min (nanosBetween cfg * cfg.size) (now - potential b - dropped b now) := by
  have hn := hcfg.one_le_nanosBetween
  unfold worth potential dropped TokenBucket.horizon TokenBucket.stock TokenBucket.refill
  split_ifs with hlt
  · have hdiv := Int.mul_ediv_add_emod (now - b.tokensNextAvailableNanos) (nanosBetween cfg)
    simp only [exact_wrap, hb.cfg_eq, hb.nanos_eq]
    rw [Int.tdiv_eq_ediv_of_nonneg (by omega), mul_min_of_nonneg _ _ (by omega), mul_add]
    omega
  · have hle : nanosBetween cfg * b.accumulatedTokens ≤ nanosBetween cfg * cfg.size :=
      mul_le_mul_of_nonneg_left hb.stock_le (by omega)
    simp only [hb.nanos_eq]
    omega

theorem full_iff (hcfg : Fills cfg) (hb : Sound cfg b) (now : ℤ) :
    Full b now ↔ worth b now = nanosBetween cfg * cfg.size := by
  have hn := hcfg.one_le_nanosBetween
  have hstock := (stock_bounds hcfg hb now).2
  have hhorizon := b.le_horizon now
  have hle : nanosBetween cfg * b.stock now ≤ nanosBetween cfg * cfg.size :=
    mul_le_mul_of_nonneg_left hstock (by omega)
  unfold Full worth
  rw [hb.cfg_eq, hb.nanos_eq]
  constructor
  · rintro ⟨h1, h2⟩
    rw [h1, h2]
    ring
  · intro h
    have heq : nanosBetween cfg * b.stock now = nanosBetween cfg * cfg.size := by omega
    exact ⟨by omega, mul_left_cancel₀ (by omega) heq⟩

/-- A bucket that is not full lacks at least one token, if it is not in debt with a full stock. -/
theorem worth_le_of_not_full (hcfg : Fills cfg) (hb : Sound cfg b)
    (hroom : b.tokensNextAvailableNanos ≤ now ∨ b.accumulatedTokens < cfg.size)
    (hfull : ¬ Full b now) :
    worth b now + nanosBetween cfg ≤ nanosBetween cfg * cfg.size := by
  have hn := hcfg.one_le_nanosBetween
  have hhorizon := TokenBucket.horizon_eq_max b now
  have hstock := (stock_bounds hcfg hb now).2
  have hless : b.stock now < cfg.size := by
    by_contra hge
    have heq : b.stock now = b.cfg.size := by
      rw [hb.cfg_eq]
      omega
    have hlater : now < b.tokensNextAvailableNanos := by
      by_contra hle
      exact hfull ⟨by omega, heq⟩
    have hkept : b.stock now = b.accumulatedTokens := by
      unfold TokenBucket.stock TokenBucket.refill
      rw [if_neg (by omega)]
    omega
  have hmul : nanosBetween cfg * (b.stock now + 1) ≤ nanosBetween cfg * cfg.size :=
    mul_le_mul_of_nonneg_left hless (by omega)
  rw [mul_add, mul_one] at hmul
  unfold worth
  rw [hb.nanos_eq]
  omega

theorem potential_of_granted (hb : Sound cfg b) (c : Call) :
    potential (b.granted c) = c.now - worth b c.now + nanosBetween cfg * c.requested := by
  rw [potential_granted, worth, hb.nanos_eq]
  ring

/-- In range, the level that the machine shows is what the bucket is worth. -/
theorem realLevel_eq (hcfg : Fills cfg) (hb : Sound cfg b) (hrange : InRange b c) :
    nanosBetween cfg * realLevel b c.now = worth b c.now := by
  have hn : (nanosBetween cfg : ℚ) ≠ 0 := (nanosBetween_pos hcfg).ne'
  have hhorizon : b.horizon c.now - c.now = max 0 (b.tokensNextAvailableNanos - c.now) := by
    rw [TokenBucket.horizon_eq_max]
    omega
  have hstock : (b.refill .int64 c.now).2 = b.stock c.now := by
    rw [refill_int64 hrange.elapsed hrange.fresh hrange.stock]
    rfl
  unfold realLevel worth
  rw [hstock, hhorizon, hb.nanos_eq]
  push_cast
  field_simp

end Worth

section Step
variable {cfg : BucketConfig} {s : Compared} {c : Call}

/-- The ideal bucket is ahead of the bucket by what has been lost, until it is full. -/
structure Tracks (cfg : BucketConfig) (s : Compared) : Prop where
  word : Word s.bucket
  sound : Sound cfg s.bucket
  room : s.bucket.tokensNextAvailableNanos ≤ s.ideal.updated ∨
    s.bucket.accumulatedTokens < cfg.size
  lost_nonneg : 0 ≤ s.lost
  level : nanosBetween cfg * s.ideal.level = ((min (nanosBetween cfg * cfg.size)
    (s.ideal.updated - potential s.bucket + s.lost) : ℤ) : ℚ)

/-- The ideal bucket in nanoseconds, at a later time. -/
theorem Tracks.refill (hcfg : Fills cfg) (h : Tracks cfg s) {now : ℤ}
    (hclock : s.ideal.updated ≤ now) :
    nanosBetween cfg * s.ideal.refill cfg now = ((min (nanosBetween cfg * cfg.size)
      (now - potential s.bucket + s.lost) : ℤ) : ℚ) := by
  have hn := nanosBetween_pos hcfg
  have hgain : (nanosBetween cfg : ℚ) * (s.ideal.level + (now - s.ideal.updated) /
      nanosBetween cfg) = ((min (nanosBetween cfg * cfg.size)
        (s.ideal.updated - potential s.bucket + s.lost) + (now - s.ideal.updated) : ℤ) : ℚ) := by
    rw [mul_add, h.level]
    push_cast
    field_simp
  have hcap : min (nanosBetween cfg * cfg.size) (now - potential s.bucket + s.lost) =
      min (nanosBetween cfg * cfg.size) (min (nanosBetween cfg * cfg.size)
        (s.ideal.updated - potential s.bucket + s.lost) + (now - s.ideal.updated)) := by
    omega
  rw [IdealBucket.refill, mul_min_of_nonneg _ _ hn.le, hgain, hcap]
  push_cast
  rfl

/-- At a later time, a bucket that is not full lacks at least one token. -/
theorem Tracks.gap (hcfg : Fills cfg) (h : Tracks cfg s) {now : ℤ} (hclock : s.ideal.updated ≤ now)
    (hfull : ¬ Full s.bucket now) :
    worth s.bucket now + nanosBetween cfg ≤ nanosBetween cfg * cfg.size :=
  worth_le_of_not_full hcfg h.sound (h.room.imp_left fun hle => hle.trans hclock) hfull

/-- At one call, the bucket is less than a token behind exactly when it has kept its refill. -/
theorem almostIdeal_iff (hcfg : Fills cfg) (h : Tracks cfg s)
    (hclock : s.ideal.updated ≤ c.now) (hrange : InRange s.bucket c) (r : Compared × ℤ) :
    AlmostIdeal cfg ⟨s, c, r.2, r.1⟩ ↔ Kept ⟨s, c, r.2, r.1⟩ := by
  have hn := hcfg.one_le_nanosBetween
  have hscaled : AlmostIdeal cfg ⟨s, c, r.2, r.1⟩ ↔
      min (nanosBetween cfg * cfg.size) (c.now - potential s.bucket + s.lost) - nanosBetween cfg <
        worth s.bucket c.now := by
    rw [AlmostIdeal, ← mul_lt_mul_iff_right₀ (nanosBetween_pos hcfg), mul_sub, mul_one, h.refill hcfg hclock,
      realLevel_eq hcfg h.sound hrange]
    exact_mod_cast Iff.rfl
  have hworth := worth_eq hcfg h.sound c.now
  have hfull := full_iff hcfg h.sound c.now
  have hlost := h.lost_nonneg
  have hdropped := dropped_nonneg hcfg h.sound c.now
  rw [hscaled, Kept, h.sound.nanos_eq]
  by_cases hf : Full s.bucket c.now
  · have heq := hfull.mp hf
    simp only [hf, true_or, iff_true]
    omega
  · have hgap := h.gap hcfg hclock hf
    simp only [hf, false_or]
    omega

/-- A call that keeps its refill leaves the ideal bucket ahead by what has been lost. -/
theorem tracks_compare (hcfg : Fills cfg) (hsize : 1 ≤ cfg.size) (h : Tracks cfg s)
    (hclock : s.ideal.updated ≤ c.now) (hc : c.Valid) (hrange : InRange s.bucket c)
    (hkept : Full s.bucket c.now ∨
      s.lost + dropped s.bucket c.now < s.bucket.nanosBetweenTokens) :
    Tracks cfg (compare cfg s c).1 := by
  have hn := hcfg.one_le_nanosBetween
  have hone := hc.one_le_requested
  have hword := word_calcWaitTime h.word hc hrange
  have hsound := sound_calcWaitTime hcfg h.sound (show 0 ≤ c.requested by omega)
  have hneg := TokenBucket.calcWaitTime_neg_iff s.bucket c
  have hlevel := h.refill hcfg hclock
  have hexact := calcWaitTime_int64 h.word hc hrange
  rw [hexact] at hword
  unfold compare
  dsimp only
  rw [hexact]
  by_cases hrefuses : s.bucket.Refuses c
  · rw [TokenBucket.calcWaitTime_exact, if_pos hrefuses] at hword hsound ⊢
    simp only [Int.reduceNeg, show ¬ (0 : ℤ) ≤ -1 by omega, if_false]
    exact ⟨h.word, h.sound, h.room.imp_left fun hle => hle.trans hclock, h.lost_nonneg, hlevel⟩
  · have hwait : 0 ≤ (s.bucket.calcWaitTime .exact c).2 := not_lt.mp (hneg.not.mpr hrefuses)
    rw [if_pos hwait]
    rw [TokenBucket.calcWaitTime_exact, if_neg hrefuses] at hword hsound ⊢
    have hpotential := potential_of_granted h.sound c
    have hstock := stock_bounds hcfg h.sound c.now
    have hroom : (s.bucket.granted c).accumulatedTokens < cfg.size := by
      dsimp only [TokenBucket.granted]
      omega
    have hdropped := dropped_nonneg hcfg h.sound c.now
    have hlost := h.lost_nonneg
    have hworth := worth_eq hcfg h.sound c.now
    have hfull := full_iff hcfg h.sound c.now
    have hcost : 0 ≤ nanosBetween cfg * c.requested := mul_nonneg (by omega) (by omega)
    -- what the ideal bucket has left is what the bucket has left and the losses
    have hleft : min (nanosBetween cfg * cfg.size) (c.now - potential s.bucket + s.lost) -
        nanosBetween cfg * c.requested = min (nanosBetween cfg * cfg.size)
          (c.now - potential (s.bucket.granted c) +
            if Full s.bucket c.now then 0 else s.lost + dropped s.bucket c.now) := by
      rw [hpotential]
      by_cases hf : Full s.bucket c.now
      · have heq := hfull.mp hf
        rw [if_pos hf]
        omega
      · have hgap := h.gap hcfg hclock hf
        have hsmall := hkept.resolve_left hf
        rw [h.sound.nanos_eq] at hsmall
        rw [if_neg hf]
        omega
    refine ⟨hword, hsound, Or.inr hroom, ?_, ?_⟩
    · dsimp only
      split_ifs <;> omega
    · dsimp only
      rw [← hleft, mul_sub, hlevel]
      push_cast
      rfl

end Step

section Runs

theorem compare_updated (cfg : BucketConfig) (s : Compared) (c : Call) :
    (compare cfg s c).1.ideal.updated = c.now := by
  unfold compare
  dsimp only
  split_ifs <;> rfl

theorem compare_bucket (cfg : BucketConfig) (s : Compared) (c : Call) :
    (compare cfg s c).1.bucket = (s.bucket.calcWaitTime .int64 c).1 := by
  unfold compare
  dsimp only
  split_ifs <;> rfl

/-- The ideal bucket is as old as the last call. -/
theorem updated_le (cfg : BucketConfig) (s : Compared) (calls : List Call)
    (hclock : (s.ideal.updated :: calls.map Call.now).IsChain (· ≤ ·)) :
    ∀ t ∈ Machine.trace (compare cfg) s calls, t.before.ideal.updated ≤ t.input.now := by
  induction calls generalizing s with
  | nil => simp
  | cons c calls ih =>
    obtain ⟨hle, hrest⟩ := List.isChain_cons_cons.mp hclock
    have hlater : ((compare cfg s c).1.ideal.updated :: calls.map Call.now).IsChain (· ≤ ·) := by
      rw [compare_updated]
      exact hrest
    rw [Machine.trace_cons]
    exact List.forall_mem_cons.mpr ⟨hle, ih _ hlater⟩

theorem startFull_tracks {cfg : BucketConfig} (hcfg : Fills cfg) (hfits : cfg.Fits) (ns bucketName : String)
    (dyn : Bool) {start : ℤ} (hstart : 0 ≤ start) :
    Tracks cfg (startFull cfg ns bucketName dyn start) := by
  have hzero : int64.Fits 0 := by decide
  have hsize : int64.Fits cfg.size := int64_fits_iff.mpr hfits.size
  refine ⟨⟨hsize, hzero, hsize⟩, newBucket_sound hcfg ns bucketName dyn, Or.inl hstart,
    le_refl 0, ?_⟩
  have hmin : min (nanosBetween cfg * cfg.size)
      (start - (0 - nanosBetween cfg * cfg.size) + 0) = nanosBetween cfg * cfg.size := by
    omega
  have hpotential : potential (newBucket ns bucketName cfg dyn) =
      0 - nanosBetween cfg * cfg.size := rfl
  dsimp only [startFull]
  rw [hpotential, hmin]
  push_cast
  rfl

end Runs

/-- In a run that stays in range, the bucket is less than a token behind the ideal one at every call,
exactly if at every call it is full or has dropped less than a token's time since it was. -/
theorem refill_kept_iff {cfg : BucketConfig} (hfits : cfg.Fits) (hsize : 1 ≤ cfg.size)
    (hrate : 1 ≤ cfg.fillRate) (hrate' : cfg.fillRate ≤ 1000000000) (ns bucketName : String)
    (dyn : Bool) {start : ℤ} (hstart : 0 ≤ start) (calls : List Call)
    (hclock : (start :: calls.map Call.now).IsChain (· ≤ ·)) (hcalls : ∀ c ∈ calls, c.Valid) :
    let run := Machine.trace (compare cfg) (startFull cfg ns bucketName dyn start) calls
    (∀ t ∈ run, InRange t.before.bucket t.input) →
      ((∀ t ∈ run, AlmostIdeal cfg t) ↔ ∀ t ∈ run, Kept t) := by
  intro run hrange
  have hcfg : Fills cfg := ⟨by omega, hrate, hrate'⟩
  have hvalid : ∀ t ∈ run, t.input.Valid := Machine.forall_input_trace hcalls
  have hupdated := updated_le cfg (startFull cfg ns bucketName dyn start) calls hclock
  apply Machine.forall_trace_congr (Tracks cfg)
    fun s c => s.ideal.updated ≤ c.now ∧ c.Valid ∧ InRange s.bucket c
  · rintro s c h ⟨hle, -, hin⟩
    exact almostIdeal_iff hcfg h hle hin _
  · rintro s c h ⟨hle, hc, hin⟩ hkept
    exact tracks_compare hcfg hsize h hle hc hin hkept
  · exact startFull_tracks hcfg hfits ns bucketName dyn hstart
  · intro t ht
    exact ⟨hupdated t ht, hvalid t ht, hrange t ht⟩

/-- A token each second into a bucket of ten. -/
def slow : BucketConfig := { size := 10, fillRate := 1, maxDebtMillis := 10000 }

theorem refill_kept_iff_slow :
    let calls : List Call := [⟨1700000000000000000, 10, 0⟩, ⟨1700000001999999999, 1, 0⟩]
    ∀ t ∈ Machine.trace (compare slow) (startFull slow "ns" "b" false 0) calls,
      AlmostIdeal slow t := by
  intro calls
  have hcfg : Admissible slow := ⟨by decide, by decide, by decide, by decide⟩
  have hfits : slow.Fits := ⟨by decide, by decide, by decide, by decide, by decide, by decide⟩
  have hcalls : ∀ c ∈ calls, c.Valid ∧ Moderate slow c := by
    intro c hc
    simp only [calls, List.mem_cons, List.not_mem_nil, or_false] at hc
    rcases hc with rfl | rfl
    · exact ⟨⟨by decide, by decide, by decide, by decide⟩, by decide, by decide, by decide, by decide⟩
    · exact ⟨⟨by decide, by decide, by decide, by decide⟩, by decide, by decide, by decide, by decide⟩
  have hrange := inRange_run Compared.bucket (compare_bucket slow) hcfg
    (show (startFull slow "ns" "b" false 0).bucket = newBucket "ns" "b" slow false from rfl) hcalls
  exact (refill_kept_iff hfits (by decide) (by decide) (by decide) "ns" "b" false (le_refl 0) calls
    (by decide) (fun c hc => (hcalls c hc).1) hrange).mpr (by decide)

/-- Calls that come almost two seconds apart lose almost a second each: at the third call the bucket
has one token, and the ideal one almost three. -/
theorem refill_thrown_away :
    ∃ t ∈ Machine.trace (compare slow) (startFull slow "ns" "b" false 0)
      [⟨1700000000000000000, 10, 0⟩, ⟨1700000001999999999, 1, 0⟩, ⟨1700000003999999998, 1, 0⟩],
      realLevel t.before.bucket t.input.now = 1 ∧ 2 < t.before.ideal.refill slow t.input.now ∧
        ¬ AlmostIdeal slow t := by
  decide +kernel

end QuotaService.Memory
