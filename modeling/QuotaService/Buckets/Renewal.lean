import Mathlib.Data.Int.ConditionallyCompleteOrder
import QuotaService.Buckets.Ideal
import QuotaService.Lib.Sharing

/-! A bucket that is left alone. Once it is out of debt and full, nothing tells it from a new one; and
however a call leaves it, it takes no longer than `refillTime` until it is. -/
namespace QuotaService.Memory
open Config

/-- How far ahead of the clock the horizon can be: not at all, if one token costs more than the debt
that is allowed. -/
def farthestDebt (cfg : BucketConfig) : ℤ :=
  if nanosBetween cfg ≤ cfg.maxDebtMillis * 1000000 then cfg.maxDebtMillis * 1000000 else 0

def refillTime (cfg : BucketConfig) : ℤ := nanosBetween cfg * cfg.size + farthestDebt cfg

/-- Buckets that differ in their horizon and their stock only. -/
def Akin (b b' : TokenBucket) : Prop :=
  b = { b' with
    tokensNextAvailableNanos := b.tokensNextAvailableNanos
    accumulatedTokens := b.accumulatedTokens }

/-- By `now` the bucket is as full as a new one. -/
structure Renewed (cfg : BucketConfig) (init : TokenBucket) (now : ℤ) (b : TokenBucket) : Prop where
  past : 0 ≤ now
  akin : Akin b init
  sound : Sound cfg b
  full : Full b now

/-- What a bucket that has not been asked since `now` may owe. -/
structure Repayable (cfg : BucketConfig) (init : TokenBucket) (now : ℤ) (b : TokenBucket) : Prop where
  past : 0 ≤ now
  akin : Akin b init
  sound : Sound cfg b
  debt : b.tokensNextAvailableNanos ≤ now + farthestDebt cfg

section Full
variable {cfg : BucketConfig} {b b' : TokenBucket} {now now' : ℤ}

theorem stock_eq_of_lt (b : TokenBucket) (h : b.tokensNextAvailableNanos < now) :
    b.stock now = min b.cfg.size
      (b.accumulatedTokens + (now - b.tokensNextAvailableNanos).tdiv b.nanosBetweenTokens) := by
  unfold TokenBucket.stock TokenBucket.refill
  rw [if_pos h]
  rfl

theorem stock_eq_of_le (b : TokenBucket) (h : now ≤ b.tokensNextAvailableNanos) :
    b.stock now = b.accumulatedTokens := by
  unfold TokenBucket.stock TokenBucket.refill
  rw [if_neg (not_lt.mpr h)]

/-- The bucket is full when the tokens that it lacks have had time to come. -/
theorem full_of_le (hcfg : Fills cfg) (hb : Sound cfg b)
    (h : b.tokensNextAvailableNanos + nanosBetween cfg * (cfg.size - b.accumulatedTokens) ≤ now) :
    Full b now := by
  have hn := hcfg.one_le_nanosBetween
  have hlack : 0 ≤ nanosBetween cfg * (cfg.size - b.accumulatedTokens) := by
    have hle := hb.stock_le
    exact mul_nonneg (by omega) (by omega)
  have hhorizon : b.horizon now = now := by
    rw [TokenBucket.horizon_eq_max]
    omega
  refine ⟨hhorizon, ?_⟩
  rw [hb.cfg_eq]
  by_cases hlt : b.tokensNextAvailableNanos < now
  · have hfresh : cfg.size - b.accumulatedTokens ≤
        (now - b.tokensNextAvailableNanos).tdiv b.nanosBetweenTokens := by
      rw [hb.nanos_eq, Int.tdiv_eq_ediv_of_nonneg (by omega), Int.le_ediv_iff_mul_le (by omega),
        mul_comm]
      omega
    rw [stock_eq_of_lt b hlt, hb.cfg_eq]
    omega
  · have hzero : nanosBetween cfg * (cfg.size - b.accumulatedTokens) = 0 := by omega
    have hfull : cfg.size - b.accumulatedTokens = 0 :=
      (mul_eq_zero.mp hzero).resolve_left (by omega)
    rw [stock_eq_of_le b (not_lt.mp hlt)]
    omega

/-- A full bucket stays full as long as it is left alone. -/
theorem Full.later (hcfg : Fills cfg) (hb : Sound cfg b) (h : Full b now) (hle : now ≤ now') :
    Full b now' := by
  have hn := hcfg.one_le_nanosBetween
  obtain ⟨hhorizon, hstock⟩ := h
  have hpast : b.tokensNextAvailableNanos ≤ now := by
    rw [TokenBucket.horizon_eq_max] at hhorizon
    omega
  refine ⟨by rw [TokenBucket.horizon_eq_max]; omega, ?_⟩
  rcases lt_or_eq_of_le hpast with hlt | heq
  · have hmono : (now - b.tokensNextAvailableNanos).tdiv b.nanosBetweenTokens ≤
        (now' - b.tokensNextAvailableNanos).tdiv b.nanosBetweenTokens := by
      rw [Int.tdiv_eq_ediv_of_nonneg (by omega), Int.tdiv_eq_ediv_of_nonneg (by omega), hb.nanos_eq]
      exact Int.ediv_le_ediv (by omega) (by omega)
    rw [stock_eq_of_lt b hlt] at hstock
    rw [stock_eq_of_lt b (by omega)]
    omega
  · rw [stock_eq_of_le b heq.ge, hb.cfg_eq] at hstock
    refine (full_of_le hcfg hb ?_).2
    rw [hstock, sub_self, mul_zero]
    omega

theorem newBucket_full (hcfg : Fills cfg) (ns bucketName : String) (dyn : Bool) (hnow : 0 ≤ now) :
    Full (newBucket ns bucketName cfg dyn) now := by
  refine full_of_le hcfg (newBucket_sound hcfg ns bucketName dyn) ?_
  simpa [newBucket] using hnow

/-- Two buckets that are full and differ in their horizon and stock only answer a call alike, and are
the same if it is granted. -/
theorem take_of_full {c : Call} (hakin : Akin b b') (h : Full b c.now) (h' : Full b' c.now) :
    (b.take .exact c).2 = (b'.take .exact c).2 ∧
      ((b.take .exact c).1 = (b'.take .exact c).1 ∨
        ((b.take .exact c).1 = b ∧ (b'.take .exact c).1 = b')) := by
  have hcfg : b.cfg = b'.cfg := by rw [hakin]
  have hnanos : b.nanosBetweenTokens = b'.nanosBetweenTokens := by rw [hakin]
  have hstock : b.stock c.now = b'.stock c.now := by rw [h.2, h'.2, hcfg]
  have hhorizon : b.horizon c.now = b'.horizon c.now := h.1.trans h'.1.symm
  have hrefuses : b.Refuses c ↔ b'.Refuses c := by
    unfold TokenBucket.Refuses
    rw [hhorizon, hstock, hcfg, hnanos]
  have hgranted : b.granted c = b'.granted c := by
    unfold TokenBucket.granted
    rw [hhorizon, hstock, hnanos]
    rw [hakin]
  rw [TokenBucket.take_exact, TokenBucket.take_exact]
  by_cases hr : b.Refuses c
  · rw [if_pos hr, if_pos (hrefuses.mp hr)]
    exact ⟨rfl, Or.inr ⟨rfl, rfl⟩⟩
  · rw [if_neg hr, if_neg (hrefuses.not.mp hr), hgranted, hhorizon]
    exact ⟨rfl, Or.inl rfl⟩

end Full

section Renewal
variable {cfg : BucketConfig} {init : TokenBucket} {b : TokenBucket} {now now' : ℤ} {c : Call}

theorem Akin.take (h : Akin b init) (c : Call) : Akin (b.take .exact c).1 init := by
  rw [TokenBucket.take_exact]
  split_ifs with hr
  · exact h
  · unfold Akin at h ⊢
    simp only [TokenBucket.granted]
    rw [h]

theorem take_fst (b : TokenBucket) (c : Call) :
    (b.take .exact c).1 = (b.calcWaitTime .exact c).1 := by
  unfold TokenBucket.take
  dsimp only
  split_ifs <;> rfl

theorem Renewed.later (hcfg : Fills cfg) (h : Renewed cfg init now b) (hle : now ≤ now') :
    Renewed cfg init now' b :=
  ⟨h.past.trans hle, h.akin, h.sound, h.full.later hcfg h.sound hle⟩

/-- From the time at which a bucket is renewed on, it may be replaced by a new one. -/
theorem newBucket_renews (hcfg : Fills cfg) (ns bucketName : String) (dyn : Bool) :
    Sharing.Renews (TokenBucket.take .exact) Call.now (newBucket ns bucketName cfg dyn)
      (Renewed cfg (newBucket ns bucketName cfg dyn)) := by
  have hstep : ∀ {now b} {c : Call}, Renewed cfg (newBucket ns bucketName cfg dyn) now b →
      now ≤ c.now → (b.take .exact c).2 = ((newBucket ns bucketName cfg dyn).take .exact c).2 ∧ _ :=
    fun h hle => take_of_full h.akin (h.full.later hcfg h.sound hle)
      (newBucket_full hcfg ns bucketName dyn (h.past.trans hle))
  constructor
  · intro now now' b h hle
    exact h.later hcfg hle
  · intro now b c h hle
    exact (hstep h hle).1
  · intro now b c h hle
    exact (hstep h hle).2

/-- A call that is granted leaves no more debt than the farthest. -/
theorem Repayable.take (hcfg : Admissible cfg) (h : Repayable cfg init now b) (hle : now ≤ c.now)
    (hc : 0 ≤ c.requested) : Repayable cfg init c.now (b.take .exact c).1 := by
  have hpast := h.past
  have hn := hcfg.one_le_nanosBetween
  refine ⟨hpast.trans hle, h.akin.take c, ?_, ?_⟩
  · rw [take_fst]
    exact sound_calcWaitTime hcfg.fills h.sound hc
  · have hdebt := h.debt
    rw [TokenBucket.take_exact]
    split_ifs with hr
    · dsimp only
      omega
    · obtain ⟨haccepted, -⟩ := not_or.mp hr
      have hhorizon := TokenBucket.horizon_eq_max b c.now
      have hwait : 0 ≤ c.requested - min (b.stock c.now) c.requested := by omega
      rw [h.sound.cfg_eq, h.sound.nanos_eq] at haccepted
      simp only [TokenBucket.granted, h.sound.nanos_eq]
      unfold farthestDebt at hdebt ⊢
      split_ifs at hdebt ⊢ with hone
      · omega
      · -- a token to wait for would cost more than the debt that is allowed
        have hnone : c.requested - min (b.stock c.now) c.requested = 0 := by
          by_contra hne
          have hcost : 1 * nanosBetween cfg ≤
              (c.requested - min (b.stock c.now) c.requested) * nanosBetween cfg :=
            mul_le_mul_of_nonneg_right (by omega) (by omega)
          omega
        rw [hnone, zero_mul]
        omega

theorem Repayable.later (h : Repayable cfg init now b) (hle : now ≤ now') :
    Repayable cfg init now' b := by
  have hdebt := h.debt
  exact ⟨h.past.trans hle, h.akin, h.sound, by omega⟩

theorem newBucket_repayable (hcfg : Fills cfg) (ns bucketName : String) (dyn : Bool)
    (hnow : 0 ≤ now) :
    Repayable cfg (newBucket ns bucketName cfg dyn) now (newBucket ns bucketName cfg dyn) := by
  refine ⟨hnow, rfl, newBucket_sound hcfg ns bucketName dyn, ?_⟩
  have hn := hcfg.one_le_nanosBetween
  unfold farthestDebt
  simp only [newBucket]
  split_ifs <;> omega

theorem Repayable.renewed (hcfg : Fills cfg) (h : Repayable cfg init now b) :
    Renewed cfg init (now + refillTime cfg) b := by
  have hn := hcfg.one_le_nanosBetween
  have hsize := hcfg.size_nonneg
  have hrefill : 0 ≤ nanosBetween cfg * cfg.size := mul_nonneg (by omega) hsize
  have hlack : nanosBetween cfg * (cfg.size - b.accumulatedTokens) ≤ nanosBetween cfg * cfg.size := by
    have hstock := h.sound.stock_nonneg
    exact mul_le_mul_of_nonneg_left (by omega) (by omega)
  have hdebt := h.debt
  have hfar : 0 ≤ farthestDebt cfg := by
    unfold farthestDebt
    split_ifs <;> omega
  have hpast := h.past
  refine ⟨?_, h.akin, h.sound, full_of_le hcfg h.sound ?_⟩
  · unfold refillTime
    omega
  · unfold refillTime
    omega

end Renewal

end QuotaService.Memory
