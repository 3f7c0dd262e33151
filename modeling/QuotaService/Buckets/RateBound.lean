import QuotaService.Buckets.Memory
import QuotaService.Lib.Machine
import Mathlib.Algebra.BigOperators.Ring.List
import Mathlib.Tactic.Linarith
import Mathlib.Tactic.Ring

/-! The rate that a token bucket enforces. Write `n` for the nanoseconds between tokens. The
potential of a bucket is its horizon less the worth of its stock, `tokensNextAvailableNanos -
n * accumulatedTokens`: refilling never lowers it, because flooring and the cap on the stock only
lose tokens, and granting `r` tokens raises it by exactly `n * r`, whether they are taken from
the stock or borrowed. -/
namespace QuotaService.Memory
open Config

/-- The configs for which a bucket means anything: a non-negative size and debt, and a rate
between one token each second and one each nanosecond. -/
structure Admissible (cfg : BucketConfig) : Prop where
  size_nonneg : 0 ≤ cfg.size
  one_le_fillRate : 1 ≤ cfg.fillRate
  fillRate_le : cfg.fillRate ≤ 1000000000
  maxDebtMillis_nonneg : 0 ≤ cfg.maxDebtMillis

def nanosBetween (cfg : BucketConfig) : ℤ := Int.tdiv 1000000000 cfg.fillRate

/-- A config by which a bucket fills, whatever its debt. -/
structure Fills (cfg : BucketConfig) : Prop where
  size_nonneg : 0 ≤ cfg.size
  one_le_fillRate : 1 ≤ cfg.fillRate
  fillRate_le : cfg.fillRate ≤ 1000000000

theorem Admissible.fills {cfg : BucketConfig} (h : Admissible cfg) : Fills cfg :=
  ⟨h.size_nonneg, h.one_le_fillRate, h.fillRate_le⟩

theorem Fills.one_le_nanosBetween {cfg : BucketConfig} (h : Fills cfg) :
    1 ≤ nanosBetween cfg := by
  have hpos : 0 < cfg.fillRate := h.one_le_fillRate
  rw [nanosBetween, Int.tdiv_eq_ediv_of_nonneg (by norm_num), Int.le_ediv_iff_mul_le hpos, one_mul]
  exact h.fillRate_le

theorem Admissible.one_le_nanosBetween {cfg : BucketConfig} (h : Admissible cfg) :
    1 ≤ nanosBetween cfg :=
  h.fills.one_le_nanosBetween

/-- The invariant of a bucket in use. -/
structure Sound (cfg : BucketConfig) (b : TokenBucket) : Prop where
  cfg_eq : b.cfg = cfg
  nanos_eq : b.nanosBetweenTokens = nanosBetween cfg
  stock_nonneg : 0 ≤ b.accumulatedTokens
  stock_le : b.accumulatedTokens ≤ cfg.size

theorem newBucket_sound {cfg : BucketConfig} (h : Fills cfg) (ns bucketName : String)
    (dyn : Bool) : Sound cfg (newBucket ns bucketName cfg dyn) :=
  ⟨rfl, rfl, h.size_nonneg, le_refl _⟩

/-- The instant up to which the tokens granted so far have been paid for. -/
def potential (b : TokenBucket) : ℤ :=
  b.tokensNextAvailableNanos - b.nanosBetweenTokens * b.accumulatedTokens

section Step
variable {cfg : BucketConfig} {b : TokenBucket}

theorem stock_bounds (hcfg : Fills cfg) (hb : Sound cfg b) (now : ℤ) :
    0 ≤ b.stock now ∧ b.stock now ≤ cfg.size := by
  have hn := hcfg.one_le_nanosBetween
  unfold TokenBucket.stock TokenBucket.refill
  split_ifs with h
  · have hfresh : 0 ≤ (now - b.tokensNextAvailableNanos).tdiv b.nanosBetweenTokens :=
      Int.tdiv_nonneg (by omega) (by rw [hb.nanos_eq]; omega)
    have hsize := hcfg.size_nonneg
    have hac := hb.stock_nonneg
    simp only [Arith.exact_wrap, hb.cfg_eq]
    exact ⟨le_min hsize (by omega), min_le_left _ _⟩
  · exact ⟨hb.stock_nonneg, hb.stock_le⟩

/-- Refilling never lowers the potential. -/
theorem potential_le_refill (hcfg : Admissible cfg) (hb : Sound cfg b) (now : ℤ) :
    potential b ≤ b.horizon now - b.nanosBetweenTokens * b.stock now := by
  have hn : 0 < b.nanosBetweenTokens := by
    rw [hb.nanos_eq]
    exact hcfg.one_le_nanosBetween
  unfold potential TokenBucket.horizon TokenBucket.stock TokenBucket.refill
  split_ifs with h
  · simp only [Arith.exact_wrap]
    -- the fresh tokens are worth at most the time that has passed
    have hfresh : b.nanosBetweenTokens *
        (now - b.tokensNextAvailableNanos).tdiv b.nanosBetweenTokens ≤
          now - b.tokensNextAvailableNanos := by
      rw [Int.tdiv_eq_ediv_of_nonneg (by omega)]
      exact Int.mul_ediv_self_le hn.ne'
    have hcap := mul_le_mul_of_nonneg_left (min_le_right b.cfg.size
      (b.accumulatedTokens + (now - b.tokensNextAvailableNanos).tdiv b.nanosBetweenTokens)) hn.le
    rw [mul_add] at hcap
    linarith
  · exact le_refl _

theorem potential_granted (b : TokenBucket) (c : Call) :
    potential (b.granted c) =
      b.horizon c.now - b.nanosBetweenTokens * b.stock c.now +
        b.nanosBetweenTokens * c.requested := by
  simp only [potential, TokenBucket.granted]
  ring

theorem sound_calcWaitTime (hcfg : Fills cfg) (hb : Sound cfg b) {c : Call}
    (hc : 0 ≤ c.requested) : Sound cfg (b.calcWaitTime .exact c).1 := by
  obtain ⟨hlo, hhi⟩ := stock_bounds hcfg hb c.now
  refine ⟨by simp [hb.cfg_eq], by simp [hb.nanos_eq], ?_, ?_⟩ <;>
    rw [TokenBucket.calcWaitTime_exact] <;> split_ifs
  · exact hb.stock_nonneg
  · simp [TokenBucket.granted]
  · exact hb.stock_le
  · have := le_min hlo hc
    simp only [TokenBucket.granted]
    omega

end Step

/-- A call of a run, with the bucket before and after it and the wait it was answered with. -/
abbrev Grant := Machine.Transition TokenBucket Call ℤ

/-- The accepted calls of a run, in order. -/
def grants (b : TokenBucket) (calls : List Call) : List Grant :=
  (Machine.trace (TokenBucket.calcWaitTime .exact) b calls).filter fun t => 0 ≤ t.output

/-- When the tokens of a granted call may be used. -/
def usableAt (g : Grant) : ℤ := g.input.now + g.output

section Grants
variable {cfg : BucketConfig} {b : TokenBucket} {calls : List Call}

/-- What a grant does to the bucket. -/
structure IsGrant (cfg : BucketConfig) (g : Grant) : Prop where
  before : Sound cfg g.before
  requested : 0 ≤ g.input.requested
  after_eq : g.after = g.before.granted g.input
  usableAt_eq : usableAt g = g.before.horizon g.input.now
  within_debt : g.after.tokensNextAvailableNanos ≤ g.input.now + cfg.maxDebtMillis * 1000000

theorem isGrant_of_mem (hcfg : Admissible cfg) (hb : Sound cfg b)
    (hcalls : ∀ c ∈ calls, 0 ≤ c.requested) {g : Grant} (hg : g ∈ grants b calls) :
    IsGrant cfg g := by
  obtain ⟨hmem, hout⟩ := List.mem_filter.mp hg
  obtain ⟨hbefore, hreq, hstep⟩ := Machine.trace_induction (Sound cfg) (fun c => 0 ≤ c.requested)
    (fun b c hb hc => sound_calcWaitTime hcfg.fills hb hc) hb hcalls hmem
  have hneg := TokenBucket.calcWaitTime_neg_iff g.before g.input
  rw [hstep] at hneg
  have hacc : ¬ g.before.Refuses g.input := hneg.not.mp (by simpa using hout)
  rw [TokenBucket.calcWaitTime_exact, if_neg hacc, Prod.mk.injEq] at hstep
  obtain ⟨hafter, hwait⟩ := hstep
  refine ⟨hbefore, hreq, hafter.symm, by rw [usableAt, ← hwait]; omega, ?_⟩
  have hdebt := (not_or.mp hacc).1
  rw [hbefore.cfg_eq] at hdebt
  rw [← hafter]
  simp only [TokenBucket.granted]
  omega

/-- A refused call leaves the bucket alone, so each grant starts where the last one ended. -/
theorem grants_isChain (b : TokenBucket) (calls : List Call) :
    (grants b calls).IsChain fun g h => h.before = g.after := by
  refine (Machine.isChain_filter_trace (fun b c hc => ?_) b calls).2
  have hneg : (b.calcWaitTime .exact c).2 < 0 := by simpa using hc
  have hr := (TokenBucket.calcWaitTime_neg_iff b c).mp hneg
  simp [TokenBucket.calcWaitTime_exact, hr]

theorem potential_grant (hcfg : Admissible cfg) {g : Grant} (hg : IsGrant cfg g) :
    potential g.before + nanosBetween cfg * g.input.requested ≤ potential g.after := by
  have h := potential_le_refill hcfg hg.before g.input.now
  rw [hg.after_eq, potential_granted, hg.before.nanos_eq] at *
  linarith

theorem usableAt_le_potential (hcfg : Admissible cfg) {g : Grant} (hg : IsGrant cfg g) :
    usableAt g + nanosBetween cfg * g.input.requested ≤
      nanosBetween cfg * cfg.size + potential g.after := by
  have hn := hcfg.one_le_nanosBetween
  have hstock := mul_le_mul_of_nonneg_left (stock_bounds hcfg.fills hg.before g.input.now).2
    (show 0 ≤ nanosBetween cfg by omega)
  rw [hg.after_eq, potential_granted, hg.before.nanos_eq, hg.usableAt_eq]
  linarith

theorem usableAt_le_horizon (hcfg : Admissible cfg) {g : Grant} (hg : IsGrant cfg g) :
    usableAt g ≤ g.after.tokensNextAvailableNanos := by
  have hn := hcfg.one_le_nanosBetween
  have hpay : 0 ≤ (g.input.requested - min (g.before.stock g.input.now) g.input.requested) *
      g.before.nanosBetweenTokens := by
    rw [hg.before.nanos_eq]
    exact mul_nonneg (by omega) (by omega)
  rw [hg.usableAt_eq, hg.after_eq]
  simp only [TokenBucket.granted]
  omega

/-- The stretch of grants from `a` to the last of `mid` costs no more than one full bucket and
the time from when `a`'s tokens are usable to the horizon it ends with. -/
theorem tokens_of_stretch (hcfg : Admissible cfg) {a : Grant} {mid : List Grant}
    (hall : ∀ g ∈ a :: mid, IsGrant cfg g)
    (hchain : (a :: mid).IsChain fun g h => h.before = g.after) :
    nanosBetween cfg * ((a :: mid).map fun g => g.input.requested).sum ≤
      nanosBetween cfg * cfg.size +
        ((a :: mid).getLast (by simp)).after.tokensNextAvailableNanos - usableAt a := by
  have hpot := Machine.potential_telescope (fun g : Grant => potential g.after)
    (fun g => nanosBetween cfg * g.input.requested) a mid (by
      refine hchain.imp_of_mem_imp fun g h _ hh heq => ?_
      have := potential_grant hcfg (hall h hh)
      rwa [heq] at this)
  have hfirst := usableAt_le_potential hcfg (hall a (by simp))
  have hlast : IsGrant cfg ((a :: mid).getLast (by simp)) := hall _ (List.getLast_mem _)
  have hafter : 0 ≤ nanosBetween cfg * ((a :: mid).getLast (by simp)).after.accumulatedTokens := by
    have hn := hcfg.one_le_nanosBetween
    have := stock_bounds hcfg.fills hlast.before ((a :: mid).getLast (by simp)).input.now
    rw [hlast.after_eq]
    simp only [TokenBucket.granted]
    exact mul_nonneg (by omega) (by omega)
  have hsound : ((a :: mid).getLast (by simp)).after.nanosBetweenTokens = nanosBetween cfg := by
    rw [hlast.after_eq]
    exact hlast.before.nanos_eq
  rw [List.sum_map_mul_left] at hpot
  simp only [List.map_cons, List.sum_cons, mul_add]
  unfold potential at hpot hfirst
  rw [hsound] at hpot
  linarith

theorem usableAt_pairwise (hcfg : Admissible cfg) {gs : List Grant}
    (hall : ∀ g ∈ gs, IsGrant cfg g) (hchain : gs.IsChain fun g h => h.before = g.after) :
    gs.Pairwise fun g h => usableAt g ≤ usableAt h := by
  have hmono : gs.IsChain fun g h => usableAt g ≤ usableAt h :=
    hchain.imp_of_mem_imp fun g h hg hh heq => by
      have hgu := usableAt_le_horizon hcfg (hall g hg)
      have hhu := (hall h hh).usableAt_eq
      rw [TokenBucket.horizon_eq_max, heq] at hhu
      rw [hhu]
      exact hgu.trans (le_max_left _ _)
  have htrans : IsTrans Grant fun g h => usableAt g ≤ usableAt h := ⟨fun _ _ _ => le_trans⟩
  exact List.isChain_iff_pairwise.mp hmono

end Grants

/-- In every state that a run reaches, the stock is between empty and full; the instants at which
granted tokens become usable never go back; and any stretch of grants, from `a` to the last of
`mid`, is paid for by one full bucket and the time between `a` and a horizon that is at most the
allowed debt away. -/
theorem memory_rate_bound {cfg : BucketConfig} (hcfg : Admissible cfg) (ns bucketName : String)
    (dyn : Bool) (calls : List Call) (hcalls : ∀ c ∈ calls, 0 < c.now ∧ 1 ≤ c.requested) :
    let b := newBucket ns bucketName cfg dyn
    let n := Int.tdiv 1000000000 cfg.fillRate
    let reached := Machine.final (TokenBucket.calcWaitTime .exact) b calls
    (0 ≤ reached.accumulatedTokens ∧ reached.accumulatedTokens ≤ cfg.size) ∧
    (grants b calls).Pairwise (fun g h => usableAt g ≤ usableAt h) ∧
    ∀ pre a mid post, grants b calls = pre ++ (a :: mid) ++ post →
      let last := (a :: mid).getLast (by simp)
      n * ((a :: mid).map fun g => g.input.requested).sum ≤
          n * cfg.size + last.after.tokensNextAvailableNanos - usableAt a ∧
        last.after.tokensNextAvailableNanos ≤ last.input.now + cfg.maxDebtMillis * 1000000 := by
  intro b n reached
  have hb : Sound cfg b := newBucket_sound hcfg.fills ns bucketName dyn
  have hreq : ∀ c ∈ calls, 0 ≤ c.requested := fun c hc => by have := (hcalls c hc).2; omega
  have hreached : Sound cfg reached := Machine.final_induction (Sound cfg) (fun c => 0 ≤ c.requested)
    (fun b c hb hc => sound_calcWaitTime hcfg.fills hb hc) hb hreq
  have hall : ∀ g ∈ grants b calls, IsGrant cfg g := fun g hg => isGrant_of_mem hcfg hb hreq hg
  have hchain := grants_isChain b calls
  refine ⟨⟨hreached.stock_nonneg, hreached.stock_le⟩, usableAt_pairwise hcfg hall hchain, ?_⟩
  intro pre a mid post heq last
  have hmem : ∀ g ∈ a :: mid, IsGrant cfg g := fun g hg => hall g (by
    rw [heq]
    exact List.mem_append_left _ (List.mem_append_right _ hg))
  rw [heq] at hchain
  have hmid := (List.isChain_append.mp (List.isChain_append.mp hchain).1).2.1
  exact ⟨tokens_of_stretch hcfg hmem hmid, (hmem last (List.getLast_mem _)).within_debt⟩

/-- One token each second into a bucket of two: a burst of three borrows a token. -/
theorem memory_rate_bound_burst :
    let cfg : BucketConfig := { size := 2, fillRate := 1, maxDebtMillis := 10000 }
    let calls : List Call := [⟨5, 3, 0⟩, ⟨6, 1, 0⟩, ⟨7, 1, 2000000000⟩]
    let b := newBucket "ns" "b" cfg false
    (grants b calls).map (fun g => g.input.requested) = [3, 1] ∧
      (grants b calls).Pairwise fun g h => usableAt g ≤ usableAt h :=
  ⟨by decide, (memory_rate_bound ⟨by decide, by decide, by decide, by decide⟩ "ns" "b" false
    [⟨5, 3, 0⟩, ⟨6, 1, 0⟩, ⟨7, 1, 2000000000⟩] (by decide)).2.1⟩

end QuotaService.Memory
