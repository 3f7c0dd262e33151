import QuotaService.Buckets.Renewal

/-! Asking for less. A caller that withdraws some of its requests, or asks for fewer tokens, takes
nothing away from the others: what the bucket has granted it still grants, and no later. -/
namespace QuotaService.Memory
open Config

/-- From `now` on, the second bucket has no fewer tokens than the first, and has them no later. -/
structure NoWorse (now : ℤ) (b b' : TokenBucket) : Prop where
  horizon : ∀ t, now ≤ t → b'.horizon t ≤ b.horizon t
  stock : ∀ t, now ≤ t → b.stock t ≤ b'.stock t

/-- The calls `cs'` are some of those that a bucket grants of `cs`, for fewer tokens and with more
patience, perhaps; `waits` are the waits that it has granted them with. -/
inductive Thinned : TokenBucket → List Call → List Call → List ℤ → Prop
  | nil (b : TokenBucket) : Thinned b [] [] []
  | drop {b : TokenBucket} {c : Call} {cs cs' : List Call} {waits : List ℤ}
    (rest : Thinned (b.calcWaitTime .exact c).1 cs cs' waits) : Thinned b (c :: cs) cs' waits
  | keep {b : TokenBucket} {c c' : Call} {cs cs' : List Call} {waits : List ℤ}
    (granted : ¬ b.Refuses c) (now : c'.now = c.now) (requested : 0 ≤ c'.requested)
    (fewer : c'.requested ≤ c.requested) (patient : c.maxWaitTimeNanos ≤ c'.maxWaitTimeNanos)
    (rest : Thinned (b.calcWaitTime .exact c).1 cs cs' waits) :
    Thinned b (c :: cs) (c' :: cs') ((b.calcWaitTime .exact c).2 :: waits)

section Step
variable {cfg : BucketConfig} {b b' : TokenBucket} {c c' : Call} {now : ℤ}

theorem sound_granted (hcfg : Fills cfg) (hb : Sound cfg b) (hreq : 0 ≤ c.requested) :
    Sound cfg (b.granted c) := by
  have hbounds := stock_bounds hcfg hb c.now
  refine ⟨hb.cfg_eq, hb.nanos_eq, ?_, ?_⟩ <;>
  · simp only [TokenBucket.granted]
    omega

/-- What has come since the horizon. -/
theorem stock_eq (hcfg : Fills cfg) (hb : Sound cfg b) (t : ℤ) :
    b.stock t = min cfg.size
      (b.accumulatedTokens + (b.horizon t - b.tokensNextAvailableNanos) / nanosBetween cfg) := by
  have hn := hcfg.one_le_nanosBetween
  have hle := hb.stock_le
  rw [TokenBucket.horizon_eq_max]
  by_cases hlt : b.tokensNextAvailableNanos < t
  · rw [stock_eq_of_lt b hlt, hb.cfg_eq, hb.nanos_eq, Int.tdiv_eq_ediv_of_nonneg (by omega),
      max_eq_right hlt.le]
  · rw [stock_eq_of_le b (not_lt.mp hlt), max_eq_left (not_lt.mp hlt), sub_self, Int.zero_ediv]
    omega

theorem noWorse_of_le (hcfg : Fills cfg) (hb : Sound cfg b) (hb' : Sound cfg b')
    (hhorizon : b'.tokensNextAvailableNanos ≤ b.tokensNextAvailableNanos)
    (hstock : b.accumulatedTokens ≤ b'.accumulatedTokens) (now : ℤ) : NoWorse now b b' := by
  have hn := hcfg.one_le_nanosBetween
  constructor
  · intro t _
    rw [TokenBucket.horizon_eq_max, TokenBucket.horizon_eq_max]
    omega
  · intro t _
    have hfresh : (b.horizon t - b.tokensNextAvailableNanos) / nanosBetween cfg ≤
        (b'.horizon t - b'.tokensNextAvailableNanos) / nanosBetween cfg := by
      apply Int.ediv_le_ediv (by omega)
      rw [TokenBucket.horizon_eq_max, TokenBucket.horizon_eq_max]
      omega
    rw [stock_eq hcfg hb, stock_eq hcfg hb']
    omega

/-- A bucket that has granted a call is no better for it. -/
theorem noWorse_granted (hcfg : Fills cfg) (hb : Sound cfg b) (hreq : 0 ≤ c.requested) :
    NoWorse c.now (b.granted c) b := by
  have hn := hcfg.one_le_nanosBetween
  have hbounds := stock_bounds hcfg hb c.now
  have hcost : 0 ≤ (c.requested - min (b.stock c.now) c.requested) * b.nanosBetweenTokens := by
    rw [hb.nanos_eq]
    exact mul_nonneg (by omega) (by omega)
  have hle : b.horizon c.now ≤ (b.granted c).tokensNextAvailableNanos := by
    simp only [TokenBucket.granted]
    omega
  constructor
  · intro t ht
    rw [TokenBucket.horizon_eq_max] at hle
    rw [TokenBucket.horizon_eq_max, TokenBucket.horizon_eq_max]
    omega
  · intro t ht
    have hsound := sound_granted hcfg hb hreq
    have hless : (b.granted c).accumulatedTokens ≤ b.stock c.now := by
      simp only [TokenBucket.granted]
      omega
    -- the time since the horizon of `b` is paid out in one piece instead of two
    have hsplit : ((b.granted c).horizon t - (b.granted c).tokensNextAvailableNanos) /
          nanosBetween cfg + (b.horizon c.now - b.tokensNextAvailableNanos) / nanosBetween cfg ≤
        (b.horizon t - b.tokensNextAvailableNanos) / nanosBetween cfg := by
      refine le_trans (Int.ediv_add_ediv_le_add_ediv (by omega)) (Int.ediv_le_ediv (by omega) ?_)
      rw [TokenBucket.horizon_eq_max] at hle
      rw [TokenBucket.horizon_eq_max, TokenBucket.horizon_eq_max, TokenBucket.horizon_eq_max]
      omega
    have hstock := stock_eq hcfg hb c.now
    rw [stock_eq hcfg hsound, stock_eq hcfg hb]
    omega

/-- Whether or not a bucket grants a call, one that is not asked stays no worse. -/
theorem NoWorse.drop (hcfg : Fills cfg) (hb : Sound cfg b) (h : NoWorse now b b')
    (hnow : now ≤ c.now) (hreq : 0 ≤ c.requested) :
    NoWorse c.now (b.calcWaitTime .exact c).1 b' := by
  rw [TokenBucket.calcWaitTime_exact]
  split_ifs
  · exact ⟨fun t ht => h.horizon t (hnow.trans ht), fun t ht => h.stock t (hnow.trans ht)⟩
  · have hgranted := noWorse_granted hcfg hb hreq
    refine ⟨fun t ht => ?_, fun t ht => ?_⟩
    · exact (h.horizon t (hnow.trans ht)).trans (hgranted.horizon t ht)
    · exact (hgranted.stock t ht).trans (h.stock t (hnow.trans ht))

/-- A bucket that is no worse grants what the other grants, and is no worse for it. -/
theorem NoWorse.keep (hcfg : Fills cfg) (hb : Sound cfg b) (hb' : Sound cfg b')
    (h : NoWorse now b b') (hnow : now ≤ c.now) (hgranted : ¬ b.Refuses c) (hsame : c'.now = c.now)
    (hreq : 0 ≤ c'.requested) (hfewer : c'.requested ≤ c.requested)
    (hpatient : c.maxWaitTimeNanos ≤ c'.maxWaitTimeNanos) :
    ¬ b'.Refuses c' ∧ b'.horizon c'.now ≤ b.horizon c.now ∧
      NoWorse c.now (b.granted c) (b'.granted c') := by
  have hn := hcfg.one_le_nanosBetween
  have hbounds := stock_bounds hcfg hb c.now
  have hbounds' := stock_bounds hcfg hb' c.now
  have hhorizon := h.horizon c.now hnow
  have hstock := h.stock c.now hnow
  have hcost : (c'.requested - min (b'.stock c.now) c'.requested) * b'.nanosBetweenTokens ≤
      (c.requested - min (b.stock c.now) c.requested) * b.nanosBetweenTokens := by
    rw [hb.nanos_eq, hb'.nanos_eq]
    exact mul_le_mul_of_nonneg_right (by omega) (by omega)
  have hsound := sound_granted hcfg hb (hreq.trans hfewer)
  have hsound' := sound_granted hcfg hb' hreq
  refine ⟨?_, hsame ▸ hhorizon, noWorse_of_le hcfg hsound hsound' ?_ ?_ c.now⟩
  · unfold TokenBucket.Refuses at hgranted ⊢
    rw [hb.cfg_eq] at hgranted
    rw [hb'.cfg_eq, hsame]
    omega
  · simp only [TokenBucket.granted, hsame]
    omega
  · simp only [TokenBucket.granted, hsame]
    omega

end Step

section Run
variable {cfg : BucketConfig} {b b' : TokenBucket} {calls calls' : List Call} {waits : List ℤ}

/-- A bucket that is no worse, and is asked for less. -/
theorem Thinned.outputs (hcfg : Fills cfg) (h : Thinned b calls calls' waits) (hb : Sound cfg b)
    (hb' : Sound cfg b') {now : ℤ} (hworse : NoWorse now b b')
    (htimed : Sharing.Timed Call.now now calls) (hreq : ∀ c ∈ calls, 0 ≤ c.requested) :
    List.Forall₂ (fun wait' wait => 0 ≤ wait' ∧ wait' ≤ wait)
      (Machine.outputs (TokenBucket.calcWaitTime .exact) b' calls') waits := by
  induction h generalizing b' now with
  | nil => exact .nil
  | @drop b c cs cs' waits rest ih =>
    obtain ⟨hfirst, hrest⟩ := List.forall_mem_cons.mp hreq
    obtain ⟨hnow, hlater⟩ := Sharing.timed_cons.mp htimed
    exact ih (sound_calcWaitTime hcfg hb hfirst) hb' (hworse.drop hcfg hb hnow hfirst) hlater hrest
  | @keep b c c' cs cs' waits granted now' requested fewer patient rest ih =>
    obtain ⟨hfirst, hrest⟩ := List.forall_mem_cons.mp hreq
    obtain ⟨hnow, hlater⟩ := Sharing.timed_cons.mp htimed
    obtain ⟨hgranted, hwait, hworse'⟩ :=
      hworse.keep hcfg hb hb' hnow granted now' requested fewer patient
    have hstep : b.calcWaitTime .exact c = (b.granted c, b.horizon c.now - c.now) := by
      rw [TokenBucket.calcWaitTime_exact, if_neg granted]
    have hstep' : b'.calcWaitTime .exact c' = (b'.granted c', b'.horizon c'.now - c'.now) := by
      rw [TokenBucket.calcWaitTime_exact, if_neg hgranted]
    have hle := b'.le_horizon c'.now
    rw [hstep] at ih ⊢
    rw [Machine.outputs_cons, hstep']
    refine .cons ⟨by dsimp only; omega, by dsimp only; omega⟩ ?_
    exact ih (sound_granted hcfg hb hfirst) (sound_granted hcfg hb' requested) hworse' hlater hrest

end Run

/-- When callers withdraw requests, ask for fewer tokens or wait longer for them, the bucket grants all
that is left of what it has granted, and none of it later. -/
theorem asking_less_harms_none {cfg : BucketConfig} (hcfg : Fills cfg) {b : TokenBucket}
    (hb : Sound cfg b) {calls calls' : List Call} {waits : List ℤ}
    (htimed : calls.Pairwise fun c d => c.now ≤ d.now) (hreq : ∀ c ∈ calls, 0 ≤ c.requested)
    (h : Thinned b calls calls' waits) :
    List.Forall₂ (fun wait' wait => 0 ≤ wait' ∧ wait' ≤ wait)
      (Machine.outputs (TokenBucket.calcWaitTime .exact) b calls') waits := by
  have hstart : ∃ now, ∀ c ∈ calls, now ≤ c.now := by
    cases calls with
    | nil => exact ⟨0, by simp⟩
    | cons c cs =>
      refine ⟨c.now, fun d hd => ?_⟩
      rcases List.mem_cons.mp hd with rfl | hd
      · exact le_refl _
      · exact (List.pairwise_cons.mp htimed).1 d hd
  obtain ⟨now, hnow⟩ := hstart
  have hself : NoWorse now b b := ⟨fun _ _ => le_refl _, fun _ _ => le_refl _⟩
  exact h.outputs hcfg hb hb hself ⟨hnow, htimed⟩ hreq

/-- The first of three calls is withdrawn, and the second asks for less: the third does not have to
wait any more. -/
theorem asking_less_harms_none_slow :
    List.Forall₂ (fun wait' wait => 0 ≤ wait' ∧ wait' ≤ wait)
      (Machine.outputs (TokenBucket.calcWaitTime .exact) (newBucket "ns" "b" slow false)
        [⟨2, 3, 0⟩, ⟨3, 1, 5000000000⟩]) [0, 3999999999] := by
  have hfills : Fills slow := ⟨by decide, by decide, by decide⟩
  have hthinned : Thinned (newBucket "ns" "b" slow false) [⟨1, 8, 0⟩, ⟨2, 6, 0⟩, ⟨3, 1, 5000000000⟩]
      [⟨2, 3, 0⟩, ⟨3, 1, 5000000000⟩] [0, 3999999999] :=
    .drop (.keep (by decide) rfl (by decide) (by decide) (by decide)
      (.keep (by decide) rfl (by decide) (by decide) (by decide) (.nil _)))
  exact asking_less_harms_none hfills (newBucket_sound hfills "ns" "b" false) (by decide) (by decide)
    hthinned

end QuotaService.Memory
