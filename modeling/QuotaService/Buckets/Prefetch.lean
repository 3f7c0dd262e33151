import QuotaService.Buckets.RateBound

/-! Asking for tokens in one request or in several. At one instant a bucket is refilled at most
once, because a granted call leaves the horizon at or after the instant; so what several calls
take from the stock and borrow adds up to what one call for the sum does. -/
namespace QuotaService.Memory
open Config

/-- What calls of any kind leave true of a bucket: tokens take time, and are not owed by the
stock. -/
structure Stocked (cfg : BucketConfig) (b : TokenBucket) : Prop where
  cfg_eq : b.cfg = cfg
  one_le_nanos : 1 ≤ b.nanosBetweenTokens
  stock_nonneg : 0 ≤ b.accumulatedTokens

/-- Whether every one of the calls is answered with tokens. -/
def AllAccepted (b : TokenBucket) (calls : List Call) : Prop :=
  ∀ answer ∈ Machine.outputs (TokenBucket.take .exact) b calls, answer.2 = true

/-- The tokens that the calls ask for together. -/
def totalRequested (calls : List Call) : ℤ := (calls.map Call.requested).sum

/-- How far ahead the horizon is once the bucket has granted `r` tokens. -/
def debtAfter (b : TokenBucket) (now r : ℤ) : ℤ :=
  (b.granted ⟨now, r, 0⟩).tokensNextAvailableNanos - now

section Step
variable {cfg : BucketConfig} {b : TokenBucket} {now : ℤ}

theorem newBucket_stocked (hcfg : Fills cfg) (ns bucketName : String) (dyn : Bool) :
    Stocked cfg (newBucket ns bucketName cfg dyn) :=
  ⟨rfl, hcfg.one_le_nanosBetween, hcfg.size_nonneg⟩

theorem Stocked.stock (h : Stocked cfg b) (hsize : 0 ≤ cfg.size) (now : ℤ) : 0 ≤ b.stock now := by
  have hn := h.one_le_nanos
  have hac := h.stock_nonneg
  unfold TokenBucket.stock TokenBucket.refill
  split_ifs with hlater
  · have hfresh : 0 ≤ (now - b.tokensNextAvailableNanos).tdiv b.nanosBetweenTokens :=
      Int.tdiv_nonneg (by omega) (by omega)
    simp only [Arith.exact_wrap, h.cfg_eq]
    exact le_min hsize (by omega)
  · exact hac

theorem Stocked.granted (h : Stocked cfg b) (c : Call) : Stocked cfg (b.granted c) := by
  refine ⟨h.cfg_eq, h.one_le_nanos, ?_⟩
  have hmin : min (b.stock c.now) c.requested ≤ b.stock c.now := min_le_left _ _
  simp only [TokenBucket.granted]
  omega

theorem Stocked.take (h : Stocked cfg b) (c : Call) : Stocked cfg (b.take .exact c).1 := by
  rw [TokenBucket.take_exact]
  split_ifs with hrefuses
  · exact h
  · exact h.granted c

theorem Stocked.le_granted (h : Stocked cfg b) (c : Call) :
    b.horizon c.now ≤ (b.granted c).tokensNextAvailableNanos := by
  have hn := h.one_le_nanos
  have hborrowed : 0 ≤ (c.requested - min (b.stock c.now) c.requested) * b.nanosBetweenTokens :=
    Int.mul_nonneg (by omega) (by omega)
  simp only [TokenBucket.granted]
  omega

/-- More tokens are not cheaper. -/
theorem Stocked.debtAfter_mono (h : Stocked cfg b) {r r' : ℤ} (hle : r ≤ r') :
    debtAfter b now r ≤ debtAfter b now r' := by
  have hn := h.one_le_nanos
  have hborrowed : (r - min (b.stock now) r) * b.nanosBetweenTokens ≤
      (r' - min (b.stock now) r') * b.nanosBetweenTokens :=
    Int.mul_le_mul_of_nonneg_right (by omega) (by omega)
  simp only [debtAfter, TokenBucket.granted]
  omega

theorem Stocked.wait_le_debtAfter (h : Stocked cfg b) (now r : ℤ) :
    b.horizon now - now ≤ debtAfter b now r := by
  have hlater : b.horizon now ≤ (b.granted ⟨now, r, 0⟩).tokensNextAvailableNanos :=
    h.le_granted ⟨now, r, 0⟩
  unfold debtAfter
  omega

theorem Stocked.accepts_iff (h : Stocked cfg b) (c : Call) :
    ¬ b.Refuses c ↔
      debtAfter b c.now c.requested ≤ cfg.maxDebtMillis * 1000000 ∧
        (0 < b.horizon c.now - c.now → b.horizon c.now - c.now ≤ c.maxWaitTimeNanos) := by
  rw [← h.cfg_eq, TokenBucket.Refuses, not_or, not_and, not_lt, not_lt]
  rfl

/-- A granted call leaves nothing to be refilled at its instant. -/
theorem Stocked.refill_granted (h : Stocked cfg b) (c : Call) :
    (b.granted c).horizon c.now = (b.granted c).tokensNextAvailableNanos ∧
      (b.granted c).stock c.now = (b.granted c).accumulatedTokens := by
  have hnow := (b.le_horizon c.now).trans (h.le_granted c)
  have hlater : ¬ (b.granted c).tokensNextAvailableNanos < c.now := not_lt.mpr hnow
  unfold TokenBucket.horizon TokenBucket.stock TokenBucket.refill
  rw [if_neg hlater]
  exact ⟨rfl, rfl⟩

/-- Two grants at one instant take what one grant of the sum takes. -/
theorem Stocked.granted_granted (h : Stocked cfg b) (hsize : 0 ≤ cfg.size) (c : Call) {r : ℤ}
    (hr : 0 ≤ r) (w w' : ℤ) :
    (b.granted c).granted ⟨c.now, r, w⟩ = b.granted ⟨c.now, c.requested + r, w'⟩ := by
  have hstock := h.stock hsize c.now
  obtain ⟨hhorizon, hleft⟩ := h.refill_granted c
  have hused : min (b.stock c.now) (c.requested + r) = min (b.stock c.now) c.requested +
      min (b.stock c.now - min (b.stock c.now) c.requested) r := by omega
  unfold TokenBucket.granted at hhorizon hleft ⊢
  simp only [TokenBucket.mk.injEq, true_and, and_true]
  rw [hhorizon, hleft, hused]
  constructor
  · ring
  · ring

theorem Stocked.debtAfter_granted (h : Stocked cfg b) (hsize : 0 ≤ cfg.size) (c : Call) {r : ℤ}
    (hr : 0 ≤ r) :
    debtAfter (b.granted c) c.now r = debtAfter b c.now (c.requested + r) := by
  unfold debtAfter
  rw [h.granted_granted hsize c hr 0 0]

end Step

section Calls
variable {cfg : BucketConfig} {b : TokenBucket} {now : ℤ} {c : Call} {calls : List Call}

theorem take_of_accepted (h : ¬ b.Refuses c) :
    b.take .exact c = (b.granted c, (b.horizon c.now - c.now, true)) := by
  rw [TokenBucket.take_exact, if_neg h]

theorem take_accepted_iff : (b.take .exact c).2.2 = true ↔ ¬ b.Refuses c := by
  rw [TokenBucket.take_exact]
  split_ifs with hrefuses
  · simp [hrefuses]
  · simp [hrefuses]

theorem allAccepted_cons :
    AllAccepted b (c :: calls) ↔ ¬ b.Refuses c ∧ AllAccepted (b.granted c) calls := by
  unfold AllAccepted
  rw [Machine.outputs_cons, List.forall_mem_cons, take_accepted_iff]
  apply and_congr_right
  intro haccepted
  rw [take_of_accepted haccepted]

@[simp] theorem totalRequested_cons :
    totalRequested (c :: calls) = c.requested + totalRequested calls := by
  simp [totalRequested]

theorem totalRequested_nonneg (h : ∀ x ∈ calls, x.now = now ∧ 0 < x.requested) :
    0 ≤ totalRequested calls := by
  apply List.sum_nonneg
  intro r hr
  obtain ⟨x, hx, rfl⟩ := List.mem_map.mp hr
  have hpos := (h x hx).2
  omega

/-- Calls at one instant that are all accepted stay within the debt together, and take what one
call for their sum takes. -/
theorem accepted_together (hb : Stocked cfg b) (hsize : 0 ≤ cfg.size)
    (hcalls : ∀ x ∈ c :: calls, x.now = now ∧ 0 < x.requested)
    (haccepted : AllAccepted b (c :: calls)) (w : ℤ) :
    debtAfter b now (totalRequested (c :: calls)) ≤ cfg.maxDebtMillis * 1000000 ∧
      Machine.final (TokenBucket.take .exact) b (c :: calls) =
        b.granted ⟨now, totalRequested (c :: calls), w⟩ := by
  induction calls generalizing b c with
  | nil =>
    obtain ⟨hfirst, -⟩ := allAccepted_cons.mp haccepted
    obtain ⟨rfl, -⟩ := hcalls c (by simp)
    have hsum : totalRequested [c] = c.requested := by simp [totalRequested]
    rw [hsum, Machine.final_cons, take_of_accepted hfirst]
    exact ⟨((hb.accepts_iff c).mp hfirst).1, rfl⟩
  | cons d calls ih =>
    obtain ⟨hfirst, hrest⟩ := allAccepted_cons.mp haccepted
    obtain ⟨⟨rfl, -⟩, hlater⟩ := List.forall_mem_cons.mp hcalls
    have hsum := totalRequested_nonneg hlater
    obtain ⟨hdebt, hfinal⟩ := ih (hb.granted c) hlater hrest
    rw [totalRequested_cons, Machine.final_cons, take_of_accepted hfirst,
      ← hb.debtAfter_granted hsize c hsum, ← hb.granted_granted hsize c hsum w w]
    exact ⟨hdebt, hfinal⟩

/-- A sum that stays within the debt, asked for piecemeal by callers who would wait as long as the
bucket lets anyone wait. -/
theorem accepted_piecemeal (hb : Stocked cfg b) (hsize : 0 ≤ cfg.size)
    (hcalls : ∀ x ∈ calls, x.now = now ∧ 0 < x.requested)
    (hwaits : ∀ x ∈ calls, cfg.maxDebtMillis * 1000000 ≤ x.maxWaitTimeNanos)
    (hdebt : debtAfter b now (totalRequested calls) ≤ cfg.maxDebtMillis * 1000000) :
    AllAccepted b calls := by
  induction calls generalizing b with
  | nil =>
    intro answer hanswer
    cases hanswer
  | cons c calls ih =>
    obtain ⟨⟨rfl, -⟩, hlater⟩ := List.forall_mem_cons.mp hcalls
    obtain ⟨hwait, hlonger⟩ := List.forall_mem_cons.mp hwaits
    have hsum := totalRequested_nonneg hlater
    rw [totalRequested_cons] at hdebt
    have hpart : debtAfter b c.now c.requested ≤ cfg.maxDebtMillis * 1000000 :=
      (hb.debtAfter_mono (by omega)).trans hdebt
    have hfirst : ¬ b.Refuses c := by
      apply (hb.accepts_iff c).mpr
      have hfits := hb.wait_le_debtAfter c.now c.requested
      exact ⟨hpart, fun _ => by omega⟩
    refine allAccepted_cons.mpr ⟨hfirst, ih (hb.granted c) hlater hlonger ?_⟩
    rwa [hb.debtAfter_granted hsize c hsum]

end Calls

/-- In a bucket that any calls have left behind, calls at one instant that are all accepted come to
the same as one call for their sum, which is answered as the first of them is; and a sum that is
accepted is accepted piecemeal, from callers who would wait as long as the debt may become. -/
theorem take_prefetch {cfg : BucketConfig} (hcfg : Fills cfg) (ns bucketName : String) (dyn : Bool)
    (history : List Call) (now : ℤ) (first : Call) (rest : List Call)
    (hcalls : ∀ c ∈ first :: rest, c.now = now ∧ 0 < c.requested) :
    let b := Machine.final (TokenBucket.take .exact) (newBucket ns bucketName cfg dyn) history
    let total := totalRequested (first :: rest)
    let reached := Machine.final (TokenBucket.take .exact) b (first :: rest)
    (AllAccepted b (first :: rest) →
      b.take .exact ⟨now, total, first.maxWaitTimeNanos⟩ =
        (reached, ((b.take .exact first).2.1, true))) ∧
    ∀ maxWaitTimeNanos, (b.take .exact ⟨now, total, maxWaitTimeNanos⟩).2.2 = true →
      (∀ c ∈ first :: rest, cfg.maxDebtMillis * 1000000 ≤ c.maxWaitTimeNanos) →
      AllAccepted b (first :: rest) ∧
        reached = (b.take .exact ⟨now, total, maxWaitTimeNanos⟩).1 := by
  intro b total reached
  have hsize := hcfg.size_nonneg
  have hb : Stocked cfg b := Machine.final_induction (Stocked cfg) (fun _ => True)
    (fun _ c hs _ => hs.take c) (newBucket_stocked hcfg ns bucketName dyn) (fun _ _ => trivial)
  constructor
  · intro haccepted
    obtain ⟨hdebt, hfinal⟩ := accepted_together hb hsize hcalls haccepted first.maxWaitTimeNanos
    obtain ⟨hfirst, -⟩ := allAccepted_cons.mp haccepted
    obtain ⟨rfl, -⟩ := hcalls first (by simp)
    have hall : ¬ b.Refuses ⟨first.now, total, first.maxWaitTimeNanos⟩ :=
      (hb.accepts_iff _).mpr ⟨hdebt, ((hb.accepts_iff first).mp hfirst).2⟩
    rw [take_of_accepted hall, take_of_accepted hfirst, ← hfinal]
  · intro maxWait hsingle hwaits
    have hall := take_accepted_iff.mp hsingle
    have hpieces := accepted_piecemeal hb hsize hcalls hwaits ((hb.accepts_iff _).mp hall).1
    obtain ⟨-, hfinal⟩ := accepted_together hb hsize hcalls hpieces maxWait
    rw [take_of_accepted hall]
    exact ⟨hpieces, hfinal⟩

/-- Four tokens out of a stock of two, in one call and in calls for one and for three. -/
theorem take_prefetch_past_stock :
    let cfg : BucketConfig := { size := 2, fillRate := 1, maxDebtMillis := 5000 }
    let b := newBucket "ns" "b" cfg false
    let pieces : List Call := [⟨1, 1, 5000000000⟩, ⟨1, 3, 5000000000⟩]
    b.take .exact ⟨1, 4, 5000000000⟩ =
        (Machine.final (TokenBucket.take .exact) b pieces, (0, true)) ∧
      AllAccepted b pieces := by
  intro cfg b pieces
  have hcfg : Fills cfg := ⟨by decide, by decide, by decide⟩
  obtain ⟨htogether, hpieces⟩ := take_prefetch hcfg "ns" "b" false [] 1 ⟨1, 1, 5000000000⟩
    [⟨1, 3, 5000000000⟩] (by decide)
  obtain ⟨haccepted, -⟩ := hpieces 5000000000 (by decide) (by decide)
  exact ⟨htogether haccepted, haccepted⟩

end QuotaService.Memory
