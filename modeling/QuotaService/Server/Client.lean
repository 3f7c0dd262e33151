import QuotaService.Server.Allowing

/-! The client, which waits as a response tells it to. A wait is told in milliseconds, and what it has
beyond them is not waited for. -/
namespace QuotaService.Client
open Allowing Arith Grpc Memory

/-- `AllowBlocking` with the response that it has got: the time that it sleeps for, in the nanoseconds of
a `time.Duration`, or the status of a response that rejects the request. -/
def allowBlocking (response : AllowResponse) : Except Status ℤ :=
  if response.status ≠ .ok then .error response.status
  else if 0 < response.waitMillis then .ok (int64.wrap (1000000 * response.waitMillis))
  else .ok 0

/-- By the time that the client goes on, it has waited for as long as the bucket has asked for, and the
tokens are there. -/
def InTime (x : Exchange) : Prop :=
  ∀ t ∈ x.taken, t.reply.error = none → ∃ slept, allowBlocking x.response = .ok slept ∧
    t.reply.wait ≤ slept ∧ t.before.horizon t.now ≤ t.now + slept

/-- A bucket that grants tokens has them now, or whole milliseconds later. -/
def WholeMillis (x : Exchange) : Prop :=
  ∀ t ∈ x.taken, t.reply.error = none → t.before.tokensNextAvailableNanos ≤ t.now ∨
    1000000 ∣ t.before.tokensNextAvailableNanos - t.now

instance (x : Exchange) : Decidable (WholeMillis x) :=
  inferInstanceAs (Decidable (∀ t ∈ x.taken, t.reply.error = none → _ ∨ _))

/-- The client sleeps for the milliseconds that it is told. -/
theorem allowBlocking_granted (req : AllowRequest) {wait : ℤ} (hwait : 0 ≤ wait)
    (hfits : int64.Fits wait) :
    allowBlocking (req.granted wait) = .ok (wait - wait % 1000000) := by
  have hbounds := int64_fits_iff.mp hfits
  have hmillis : wait.tdiv 1000000 = wait / 1000000 := Int.tdiv_eq_ediv_of_nonneg hwait
  have hslept : int64.wrap (1000000 * (wait / 1000000)) = 1000000 * (wait / 1000000) :=
    int64_fits_iff.mpr (by omega)
  unfold allowBlocking AllowRequest.granted
  rw [if_neg (by simp), hmillis]
  dsimp only
  split_ifs with hpos
  · rw [hslept]
    congr 1
    omega
  · congr 1
    omega

/-- The client is in time exactly if the wait is a whole number of milliseconds. -/
theorem inTime_iff {x : Exchange} (h : Exchanged x) : InTime x ↔ WholeMillis x := by
  cases h with
  | invalid req => constructor <;> rintro - t ⟨⟩
  | rejected req reply error => constructor <;> rintro - t ⟨⟩
  | served req t asked coherent reading divisor after reply =>
    rcases served_cases coherent reading after reply with ⟨herror, -⟩ | ⟨hreply, -, -⟩
    · constructor <;> rintro - t' ⟨⟩ hnone <;> exact absurd hnone herror
    · have herror : t.reply.error = none := by rw [hreply]
      have hwait : t.reply.wait = t.before.horizon t.now - t.now := by rw [hreply]
      have hhorizon := TokenBucket.horizon_eq_max t.before t.now
      have hbounds := int64_fits_iff.mp (coherent.fits_horizon reading)
      have hpos := reading.1
      have hslept : allowBlocking (exchangeOf req t.reply (some t)).response =
          .ok (t.reply.wait - t.reply.wait % 1000000) := by
        rw [exchangeOf, respond_ok req herror]
        exact allowBlocking_granted req (by omega) (int64_fits_iff.mpr (by omega))
      constructor
      · rintro h t' ⟨⟩ -
        obtain ⟨slept, hslept', hle, -⟩ := h t rfl herror
        rw [hslept, Except.ok.injEq] at hslept'
        omega
      · rintro h t' ⟨⟩ -
        have hwhole := h t rfl herror
        refine ⟨_, hslept, ?_, ?_⟩ <;> omega

/-- In every run of the endpoint, no client that waits as it is told goes on too early, exactly if every
bucket that grants tokens has them at once or whole milliseconds later. -/
theorem in_time_iff (now : ℤ) (actions : List Action) :
    (∀ x ∈ log now actions, InTime x) ↔ ∀ x ∈ log now actions, WholeMillis x := by
  have hiff : ∀ x ∈ log now actions, (InTime x ↔ WholeMillis x) := fun x hx =>
    inTime_iff (log_exchanged hx)
  exact forall₂_congr hiff

/-- A request for tokens of a bucket, which the call finds or creates in its last step. -/
def calling (i : ℕ) (last : Container.Action) (tokensRequested now : ℤ) : List Action :=
  [.allow { «namespace» := "a", bucketName := "x", tokensRequested := tokensRequested },
    .server (.base (.look i)), .server (.base last), .take i, .server (.receive i),
    .server (.respond 0 now)]

/-- Two requests use up the stock, the third borrows tokens that take a second to come in, and a fourth
comes a nanosecond later. -/
def borrowing : List Action :=
  .server (.base (.update [] Container.System.shortLived)) ::
    (calling 0 (.create 0) 50 1700000000000000000 ++ calling 1 (.report 1) 50 1700000000000000000 ++
      calling 2 (.report 2) 50 1700000000000000000 ++ calling 3 (.report 3) 1 1700000000000000001)

/-- The last client is told to wait for 999 milliseconds, almost a millisecond too little. -/
theorem goes_on_early :
    ∃ x ∈ log 0 borrowing, x.response = { status := .ok, tokensGranted := 1, waitMillis := 999 } ∧
      (∃ t ∈ x.taken, t.reply.wait = 999999999) ∧ ¬ InTime x := by
  have hrun : ∃ x ∈ log 0 borrowing,
      x.response = { status := .ok, tokensGranted := 1, waitMillis := 999 } ∧
      (∃ t ∈ x.taken, t.reply.wait = 999999999) ∧ ¬ WholeMillis x := by
    decide +kernel
  obtain ⟨x, hx, hresponse, hwait, hmillis⟩ := hrun
  exact ⟨x, hx, hresponse, hwait, (inTime_iff (log_exchanged hx)).not.mpr hmillis⟩

end QuotaService.Client
