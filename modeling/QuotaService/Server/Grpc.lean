import QuotaService.Lib.Machine
import QuotaService.Server.Events

/-! The gRPC endpoint, over any quota service. It lets a request pass when the service fails, and is to
report that to the producer that it was built with. -/
namespace QuotaService.Grpc
open Events

structure AllowRequest where
  «namespace» : String := ""
  bucketName : String := ""
  tokensRequested : ℤ := 0
  maxWaitMillisOverride : ℤ := 0
  maxWaitTimeOverride : Bool := false
deriving DecidableEq

inductive Status
  | ok
  | rejectedTimeout
  | rejectedNoBucket
  | rejectedTooManyBuckets
  | rejectedTooManyTokensRequested
  | rejectedInvalidRequest
  | rejectedServerError
deriving DecidableEq

structure AllowResponse where
  status : Status := .ok
  tokensGranted : ℤ := 0
  waitMillis : ℤ := 0
deriving DecidableEq

/-- The values of `ErrorReason`, which is an `int`. -/
def erTimeout : ℤ := 0

def erNoBucket : ℤ := 1

def erTooManyBuckets : ℤ := 2

def erTooManyTokensRequested : ℤ := 3

/-- An error, as the type assertion of the endpoint sees it. One that has been wrapped is another. -/
inductive Err
  | quotaServiceError (reason : ℤ)
  | other
deriving DecidableEq

/-- What a quota service is asked for. -/
structure Query where
  «namespace» : String
  bucketName : String
  tokensRequested : ℤ
  maxWaitMillisOverride : ℤ
  maxWaitTimeOverride : Bool

/-- What it answers. -/
structure Answer where
  wait : ℤ
  dynamic : Bool
  err : Option Err
deriving DecidableEq

/-- An implementation of `QuotaService`, with its state. -/
abbrev QuotaService (σ : Type) := σ → Query → σ × Answer

structure GrpcEndpoint where
  hostport : String
  producer : EventProducer := {}
deriving DecidableEq

/-- `none` is a panic. -/
def New (hostport : String) (producer : Option EventProducer) : Option GrpcEndpoint :=
  match producer with
  | none => none
  | some _ => if ':' ∈ hostport.toList then some { hostport := hostport } else none

def invalid (req : AllowRequest) : Bool := req.bucketName == "" || req.namespace == ""

/-- Fewer tokens than one are one token. -/
def AllowRequest.query (req : AllowRequest) : Query where
  «namespace» := req.namespace
  bucketName := req.bucketName
  tokensRequested := if 0 < req.tokensRequested then req.tokensRequested else 1
  maxWaitMillisOverride := req.maxWaitMillisOverride
  maxWaitTimeOverride := req.maxWaitTimeOverride

def toPBStatus (reason : ℤ) : Status :=
  if reason = erNoBucket then .rejectedNoBucket
  else if reason = erTooManyBuckets then .rejectedTooManyBuckets
  else if reason = erTooManyTokensRequested then .rejectedTooManyTokensRequested
  else if reason = erTimeout then .rejectedTimeout
  else .rejectedServerError

/-- The status of a response to an error, before the endpoint fails open. -/
def Err.status : Err → Status
  | quotaServiceError reason => toPBStatus reason
  | other => .rejectedServerError

/-- The response to a request that has been granted. -/
def AllowRequest.granted (req : AllowRequest) (wait : ℤ) : AllowResponse where
  status := .ok
  tokensGranted := req.tokensRequested
  waitMillis := wait.tdiv 1000000

/-- What `Allow` makes of an answer: the response, and the event that it emits. -/
def AllowRequest.respond (req : AllowRequest) (answer : Answer) : AllowResponse × Option Event :=
  match answer.err with
  | none => (req.granted answer.wait, none)
  | some err =>
    if err.status = .rejectedServerError then
      (req.granted answer.wait,
        some (newServerErrorEvent req.namespace req.bucketName answer.dynamic))
    else ({ status := err.status }, none)

/-- The service, and the channels of all producers. -/
structure State (σ : Type) where
  service : σ
  channels : Channels

/-- A request comes in, or the listener of a producer takes an event. -/
inductive Input
  | allow (req : AllowRequest)
  | notify (c : ℕ)

/-- What a request comes to; an invalid one is not answered by the service. -/
structure Output where
  answer : Option Answer := none
  response : Option AllowResponse := none
  emitted : Option Event := none

section Allow
variable {σ : Type} (qs : QuotaService σ) (g : GrpcEndpoint)

def GrpcEndpoint.allow (s : State σ) (req : AllowRequest) : State σ × Output :=
  if invalid req = true then
    (s, { response := some { status := .rejectedInvalidRequest } })
  else
    let p := qs s.service req.query
    let r := req.respond p.2
    (⟨p.1, match r.2 with
      | none => s.channels
      | some event => g.producer.emit s.channels event⟩, ⟨p.2, r.1, r.2⟩)

def step (s : State σ) : Input → State σ × Output
  | .allow req => g.allow qs s req
  | .notify c => (⟨s.service, fun i => if i = c then (s.channels c).receive else s.channels i⟩, {})

end Allow

section Visibility
variable {σ : Type}

/-- The response is OK although the service has returned an error. -/
def FailsOpen (o : Output) : Prop :=
  ∃ answer ∈ o.answer, answer.err ≠ none ∧ ∃ r ∈ o.response, r.status = .ok

/-- The event that a request which fails open is to be reported by. -/
def report (i : Input) (o : Output) : Option Event :=
  match i, o.answer with
  | .allow req, some answer =>
    some (newServerErrorEvent req.namespace req.bucketName answer.dynamic)
  | _, _ => none

instance (o : Output) : Decidable (FailsOpen o) :=
  inferInstanceAs (Decidable (∃ answer ∈ o.answer, _))

/-- A request that fails open offers one event to the channel, which gets it if it is ready; all others
offer nothing. -/
structure Visible (g : GrpcEndpoint) (c : ℕ) (t : Machine.Transition (State σ) Input Output) :
    Prop where
  offered : g.producer.offered c t.output.emitted =
    if FailsOpen t.output then (report t.input t.output).toList else []
  delivered : FailsOpen t.output → (t.before.channels c).Ready →
    (t.after.channels c).sent = (t.before.channels c).sent ++ (report t.input t.output).toList

/-- An error with one of the reasons that there are for one. -/
def Err.Known (err : Err) : Prop :=
  ∃ reason, err = .quotaServiceError reason ∧
    (reason = erTimeout ∨ reason = erNoBucket ∨ reason = erTooManyBuckets ∨
      reason = erTooManyTokensRequested)

/-- The service has answered without an error, or with one that has a known reason. -/
def Explained (o : Output) : Prop := ∀ answer ∈ o.answer, ∀ err ∈ answer.err, err.Known

/-- Only the known reasons keep the endpoint from failing open. -/
theorem status_eq_serverError_iff (err : Err) :
    err.status = .rejectedServerError ↔ ¬ err.Known := by
  cases err with
  | other => simp [Err.status, Err.Known]
  | quotaServiceError reason =>
    have hcases : toPBStatus reason = .rejectedServerError ↔
        ¬ (reason = erTimeout ∨ reason = erNoBucket ∨ reason = erTooManyBuckets ∨
          reason = erTooManyTokensRequested) := by
      unfold toPBStatus
      split_ifs <;> simp_all
    rw [Err.status, hcases]
    apply not_congr
    constructor
    · intro hknown
      exact ⟨reason, rfl, hknown⟩
    · rintro ⟨_, hreason, hknown⟩
      cases hreason
      exact hknown

variable (qs : QuotaService σ) (g : GrpcEndpoint) (s : State σ)

/-- A step either fails open and emits its report, or emits nothing. -/
theorem step_cases (i : Input) :
    ((step qs g s i).2.emitted = none ∧ ¬ FailsOpen (step qs g s i).2 ∧
      Explained (step qs g s i).2) ∨
    ∃ event, (step qs g s i).2.emitted = some event ∧ report i (step qs g s i).2 = some event ∧
      (step qs g s i).1.channels = g.producer.emit s.channels event ∧
      FailsOpen (step qs g s i).2 ∧ ¬ Explained (step qs g s i).2 := by
  cases i with
  | notify c => exact .inl ⟨rfl, by simp [step, FailsOpen], by simp [step, Explained]⟩
  | allow req =>
    by_cases hinvalid : invalid req = true
    · left
      simp only [step, GrpcEndpoint.allow, if_pos hinvalid, true_and]
      constructor
      · simp [FailsOpen]
      · simp [Explained]
    simp only [step, GrpcEndpoint.allow, if_neg hinvalid]
    generalize qs s.service req.query = p
    cases herr : p.2.err with
    | none =>
      left
      simp [AllowRequest.respond, herr, FailsOpen, Explained]
    | some err =>
      have hstatus := status_eq_serverError_iff err
      by_cases hknown : err.Known
      · left
        have hserver : err.status ≠ .rejectedServerError := by
          rw [Ne, hstatus, not_not]
          exact hknown
        have hok : err.status ≠ .ok := by
          cases err with
          | other => simp [Err.status]
          | quotaServiceError reason =>
            rw [Err.status, toPBStatus]
            split_ifs <;> simp
        simp only [AllowRequest.respond, herr, if_neg hserver, true_and]
        constructor
        · simp [FailsOpen, hok]
        · simp [Explained, herr, hknown]
      · right
        simp only [AllowRequest.respond, herr, if_pos (hstatus.mpr hknown)]
        have hopen : FailsOpen ⟨some p.2, some (req.granted p.2.wait),
            some (newServerErrorEvent req.namespace req.bucketName p.2.dynamic)⟩ :=
          ⟨p.2, rfl, by rw [herr]; simp, _, rfl, rfl⟩
        have hunexplained : ¬ Explained ⟨some p.2, some (req.granted p.2.wait),
            some (newServerErrorEvent req.namespace req.bucketName p.2.dynamic)⟩ :=
          fun hexplained => hknown (hexplained p.2 rfl err herr)
        exact ⟨_, rfl, rfl, rfl, hopen, hunexplained⟩

/-- A request fails open exactly on an error without a known reason. -/
theorem failsOpen_iff (i : Input) :
    FailsOpen (step qs g s i).2 ↔ ¬ Explained (step qs g s i).2 := by
  rcases step_cases qs g s i with ⟨-, hopen, hexplained⟩ | ⟨_, -, -, -, hopen, hexplained⟩
  · simp [hopen, hexplained]
  · simp [hopen, hexplained]

/-- An endpoint with a producer makes every request that fails open visible. -/
theorem visible_of_producer {c : ℕ} (hc : g.producer.c = some c) (i : Input) :
    Visible g c ⟨s, i, (step qs g s i).2, (step qs g s i).1⟩ := by
  rcases step_cases qs g s i with ⟨hemitted, hopen, -⟩ | ⟨event, hemitted, hreport, hafter, hopen, -⟩
  · constructor
    · rw [hemitted, if_neg hopen, EventProducer.offered, if_pos hc]
      rfl
    · intro hfails
      exact absurd hfails hopen
  · constructor
    · rw [hemitted, if_pos hopen, EventProducer.offered, if_pos hc, hreport]
    · intro _ hready
      rw [hreport, hafter, EventProducer.sent_emit hc _ _ hready]
      rfl

/-- Without a channel only what does not fail open is as it should be. -/
theorem visible_iff_of_nil (hc : g.producer.c = none) (c : ℕ) (i : Input) :
    Visible g c ⟨s, i, (step qs g s i).2, (step qs g s i).1⟩ ↔ Explained (step qs g s i).2 := by
  have hoffered (event : Option Event) : g.producer.offered c event = [] := by
    rw [EventProducer.offered, if_neg]
    rw [hc]
    simp
  rcases step_cases qs g s i with ⟨-, hopen, hexplained⟩ | ⟨event, -, hreport, -, hopen, hexplained⟩
  · simp only [hexplained, iff_true]
    constructor
    · rw [hoffered, if_neg hopen]
    · intro hfails
      exact absurd hfails hopen
  · simp only [hexplained, iff_false]
    intro hvisible
    have hnone := hvisible.offered
    rw [hoffered, if_pos hopen, hreport] at hnone
    simp at hnone

/-- The producer that the endpoint is given is not the one that it keeps. -/
theorem new_producer {hostport : String} {producer : Option EventProducer} {g : GrpcEndpoint}
    (h : New hostport producer = some g) : g.producer = {} := by
  unfold New at h
  cases producer with
  | none => cases h
  | some _ =>
    simp only [Option.ite_none_right_eq_some, Option.some.injEq] at h
    rw [← h.2]

end Visibility

/-- Every request that fails open is visible to the producer passed to `New`, and nothing else is,
exactly in the runs in which none fails open: those in which the service returns errors with known
reasons only. -/
theorem failing_open_visible_iff {σ : Type} (qs : QuotaService σ) {hostport : String}
    {c : ℕ} {g : GrpcEndpoint} (hnew : New hostport (some ⟨some c⟩) = some g) (s : State σ)
    (inputs : List Input) :
    (∀ t ∈ Machine.trace (step qs g) s inputs, Visible g c t) ↔
      ∀ t ∈ Machine.trace (step qs g) s inputs, Explained t.output := by
  have hnil : g.producer.c = none := by rw [new_producer hnew]
  apply Machine.forall_trace_congr (fun _ => True) fun _ _ => True
  · exact fun s i _ _ => visible_iff_of_nil qs g s hnil c i
  · exact fun _ _ _ _ _ => trivial
  · trivial
  · exact fun _ _ => trivial

/-- A service whose bucket has failed. -/
def failing : QuotaService Unit := fun s _ => (s, ⟨0, false, some .other⟩)

/-- The endpoint that is made for the producer of channel 0. -/
def endpoint : GrpcEndpoint := ⟨"localhost:1", {}⟩

/-- Channel 0 has room for one event. -/
def quiet : State Unit := ⟨(), fun _ => Channel.make 1⟩

/-- A service that makes its first caller wait too long, and whose bucket fails then. -/
def worsening : QuotaService Bool := fun failed _ =>
  (true, ⟨0, false, some (if failed = true then .other else .quotaServiceError erTimeout)⟩)

/-- A request that times out is as it should be, and one that fails open after it is not. -/
theorem failing_open_visible_iff_worsening :
    let req : Input := .allow { «namespace» := "a", bucketName := "b" }
    let start : State Bool := ⟨false, fun _ => Channel.make 1⟩
    New "localhost:1" (some ⟨some 0⟩) = some endpoint ∧
      (∀ t ∈ Machine.trace (step worsening endpoint) start [req], Visible endpoint 0 t) ∧
      ¬ ∀ t ∈ Machine.trace (step worsening endpoint) start [req, req], Visible endpoint 0 t := by
  intro req start
  have hnew : New "localhost:1" (some ⟨some 0⟩) = some endpoint := by decide
  refine ⟨hnew, (failing_open_visible_iff worsening hnew start [req]).mpr fun t ht => ?_,
    fun hvisible => ?_⟩
  · rw [List.mem_singleton.mp ht]
    intro answer hanswer err herr
    cases hanswer
    cases herr
    exact ⟨erTimeout, rfl, Or.inl rfl⟩
  · have hexplained := (failing_open_visible_iff worsening hnew start [req, req]).mp hvisible _
      (List.mem_cons_of_mem _ (List.mem_singleton_self _))
    have hopen : FailsOpen (step worsening endpoint (step worsening endpoint start req).1 req).2 := by
      decide
    exact (failsOpen_iff worsening endpoint _ req).mp hopen hexplained

/-- A request that fails open while the producer has room is not reported. -/
theorem failing_open_unseen :
    New "localhost:1" (some ⟨some 0⟩) = some endpoint ∧
      ∃ t ∈ Machine.trace (step failing endpoint) quiet
        [.allow { «namespace» := "a", bucketName := "b" }],
        FailsOpen t.output ∧ (t.before.channels 0).Ready ∧ ¬ Visible endpoint 0 t := by
  have hopen : FailsOpen (step failing endpoint quiet
      (.allow { «namespace» := "a", bucketName := "b" })).2 := by decide
  have hready : (quiet.channels 0).Ready := by decide
  refine ⟨by decide, _, List.mem_singleton_self _, hopen, hready, ?_⟩
  intro hvisible
  have hone := hvisible.offered
  rw [if_pos hopen] at hone
  revert hone
  decide

end QuotaService.Grpc
