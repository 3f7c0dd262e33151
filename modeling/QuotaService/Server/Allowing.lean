import QuotaService.Container.Provenance
import QuotaService.Server.Grpc

/-! The gRPC endpoint on a server with in-memory buckets. What it makes of a request is put out when the
server has answered: the response, the event that the server emits, and what a loop has done with the
bucket, if it has got that far. -/
namespace QuotaService.Allowing
open Events Grpc Container Memory

section Answers

/-- The number of an `ErrorReason`. -/
def code : ErrorReason → ℤ
  | .timeout => erTimeout
  | .noBucket => erNoBucket
  | .tooManyBuckets => erTooManyBuckets
  | .tooManyTokensRequested => erTooManyTokensRequested

/-- What `server.Allow` returns, as the endpoint sees it. -/
def answer (reply : Reply) : Answer :=
  ⟨reply.wait, reply.dynamic, reply.error.map fun reason => .quotaServiceError (code reason)⟩

/-- The event that `server.Allow` emits. -/
def emitted (query : Query) (reply : Reply) : Events.Event :=
  match reply.error with
  | some .tooManyBuckets => newBucketMissedEvent query.namespace query.bucketName true
  | some .noBucket => newBucketMissedEvent query.namespace query.bucketName false
  | some .tooManyTokensRequested => newTooManyTokensRequestedEvent query.namespace query.bucketName
      reply.dynamic query.tokensRequested
  | some .timeout =>
    newTimedOutEvent query.namespace query.bucketName reply.dynamic query.tokensRequested
  | none => newTokensServedEvent query.namespace query.bucketName reply.dynamic
      query.tokensRequested reply.wait

/-- What the bucket is asked for. -/
def request (query : Query) : Request :=
  ⟨query.tokensRequested, query.maxWaitMillisOverride, query.maxWaitTimeOverride⟩

/-- A request that has been answered. An invalid one makes the server emit nothing, and of the others
not all have got to a loop. -/
structure Exchange where
  request : AllowRequest
  response : AllowResponse
  event : Option Events.Event
  taken : Option Served

def exchangeOf (req : AllowRequest) (reply : Reply) (taken : Option Served) : Exchange :=
  ⟨req, (req.respond (answer reply)).1, some (emitted req.query reply), taken⟩

end Answers

/-- The server, and the requests that the endpoint has made its calls for. -/
structure State where
  loops : Loops
  requests : AList fun _ : ℕ => AllowRequest

def init (now : ℤ) : State := ⟨Loops.init now, ∅⟩

/-- A request comes in; a call that has come back from `FindBucket` goes on with what it was made for;
anything else that the server and its loops do. -/
inductive Action
  | allow (req : AllowRequest)
  | take (i : ℕ)
  | server (a : LoopAction)

/-- One step. The clock shows a time, and a panic of a loop is the end of the program. -/
def step (s : State) : Action → Option State
  | .allow req =>
    if invalid req = true then some s
    else (s.loops.step (.base (.enter req.namespace req.bucketName))).map fun loops =>
      ⟨loops, s.requests.insert s.loops.sys.calls.length req⟩
  | .take i => (s.requests.lookup i).bind fun req =>
    (s.loops.step (.take i (request req.query))).map fun loops => { s with loops := loops }
  | .server a =>
    match a with
    | .base (.enter _ _) => none
    | .take _ _ => none
    | _ =>
      if s.loops.Sane a then (s.loops.step a).map fun loops => { s with loops := loops } else none

/-- The request that a step answers. -/
def exchange (s : State) : Action → Option Exchange
  | .allow req =>
    if invalid req = true then
      some ⟨req, { status := .rejectedInvalidRequest }, none, none⟩
    else none
  | .take i => (s.requests.lookup i).bind fun req =>
    match s.loops.sys.calls[i]?.map Call.phase with
    | some (.returned result) =>
      match (request req.query).afterFind result with
      | .replied reply => some (exchangeOf req reply none)
      | _ => none
    | _ => none
  | .server a => (s.loops.served a).bind fun x =>
    (s.requests.lookup x.call).map fun req => exchangeOf req x.reply (some x)

/-- The exchanges of a run. -/
def log (now : ℤ) (actions : List Action) : List Exchange :=
  Machine.collect step exchange (init now) actions

section Routing
variable {s s' : State} {a : Action}

/-- What a step does to the server. -/
inductive Stepped (s : State) : Action → State → Prop
  | invalid (req : AllowRequest) : Stepped s (.allow req) s
  | allow (req : AllowRequest) {loops : Loops}
    (step : s.loops.step (.base (.enter req.namespace req.bucketName)) = some loops) :
    Stepped s (.allow req) ⟨loops, s.requests.insert s.loops.sys.calls.length req⟩
  | take {i : ℕ} {req : AllowRequest} {loops : Loops} (asked : s.requests.lookup i = some req)
    (step : s.loops.step (.take i (request req.query)) = some loops) :
    Stepped s (.take i) { s with loops := loops }
  | server {a : LoopAction} {loops : Loops} (other : ∀ i r, a ≠ .take i r) (sane : s.loops.Sane a)
    (step : s.loops.step a = some loops) : Stepped s (.server a) { s with loops := loops }

theorem step_stepped (h : step s a = some s') : Stepped s a s' := by
  cases a with
  | allow req =>
    simp only [step] at h
    split_ifs at h
    · cases h
      exact .invalid req
    · obtain ⟨loops, hloops, rfl⟩ := Option.map_eq_some_iff.mp h
      exact .allow req hloops
  | take i =>
    obtain ⟨req, hreq, h⟩ := Option.bind_eq_some_iff.mp h
    obtain ⟨loops, hloops, rfl⟩ := Option.map_eq_some_iff.mp h
    exact .take hreq hloops
  | server a =>
    have hserver : (∀ i r, a ≠ .take i r) ∧ s.loops.Sane a ∧
        (s.loops.step a).map (fun loops => { s with loops := loops }) = some s' := by
      simp only [step] at h
      split at h
      · cases h
      · cases h
      · rename_i htake
        split_ifs at h with hsane
        exact ⟨fun i r heq => htake i r heq, hsane, h⟩
    obtain ⟨hother, hsane, h⟩ := hserver
    obtain ⟨loops, hloops, rfl⟩ := Option.map_eq_some_iff.mp h
    exact .server hother hsane hloops

/-- The calls ask for what their requests ask for. -/
structure Routed (s : State) : Prop where
  descended : s.loops.Descended
  known : ∀ i req, s.requests.lookup i = some req → i < s.loops.sys.calls.length
  asked : ∀ i c, s.loops.clients.lookup i = some c →
    ∃ req, s.requests.lookup i = some req ∧ c.request = request req.query

theorem routed_init (now : ℤ) : Routed (init now) := by
  refine ⟨Loops.descended_init now, ?_, ?_⟩
  · intro i req hreq
    cases hreq
  · intro i c hc
    cases hc

/-- The steps that do not start a call do not change what calls ask for. -/
theorem loops_step_request {s s' : Loops} {a : LoopAction} (htake : ∀ i r, a ≠ .take i r)
    (hs : s.step a = some s') {i : ℕ} {c' : Client} (hc' : s'.clients.lookup i = some c') :
    ∃ c, s.clients.lookup i = some c ∧ c'.request = c.request := by
  have hset : ∀ (j : ℕ) (c : Client) (progress : Progress), s.clients.lookup j = some c →
      (s.clients.insert j { c with progress := progress }).lookup i = some c' →
      ∃ c, s.clients.lookup i = some c ∧ c'.request = c.request := by
    intro j c progress hc hc'
    rcases AList.lookup_insert_cases hc' with ⟨rfl, rfl⟩ | ⟨-, hold⟩
    · exact ⟨c, hc, rfl⟩
    · exact ⟨c', hold, rfl⟩
  cases Loops.step_turned hs with
  | base | exit => exact ⟨c', hc', rfl⟩
  | take => exact absurd rfl (htake _ _)
  | receive client => exact hset _ _ _ client hc'
  | respond reply tokens served client => exact hset _ _ _ client hc'

theorem loops_calls_length {s s' : Loops} {a : LoopAction} (hs : s.step a = some s') :
    s.sys.calls.length ≤ s'.sys.calls.length := by
  cases Loops.step_turned hs with
  | base step => exact System.step_calls_length step
  | take | receive | respond | exit => exact le_refl _

theorem step_routed (h : Routed s) (hs : step s a = some s') : Routed s' := by
  -- only a loop that serves can fail to be sane
  have hquiet : ∀ a : LoopAction, s.loops.served a = none → s.loops.Sane a := by
    intro a ha x hx
    rw [ha] at hx
    cases hx
  cases step_stepped hs with
  | invalid => exact h
  | @allow req loops hloops =>
    have hlength : loops.sys.calls.length = s.loops.sys.calls.length + 1 := by
      cases Loops.step_turned hloops with
      | base step =>
        cases step
        simp
    have hother : ∀ i < s.loops.sys.calls.length, (s.requests.insert s.loops.sys.calls.length
        req).lookup i = s.requests.lookup i := fun i hi => AList.lookup_insert_ne hi.ne
    refine ⟨Loops.step_descended h.descended (hquiet _ rfl) hloops, fun i req' hreq' => ?_,
      fun i c hc => ?_⟩
    · dsimp only at hreq' ⊢
      by_cases hi : i = s.loops.sys.calls.length
      · omega
      · rw [AList.lookup_insert_ne hi] at hreq'
        have hlt := h.known i req' hreq'
        omega
    · obtain ⟨c₀, hc₀, hsame⟩ := loops_step_request (fun i r heq => by cases heq) hloops hc
      obtain ⟨req', hreq', hasked⟩ := h.asked i c₀ hc₀
      exact ⟨req', (hother i (h.known i req' hreq')).trans hreq', hsame.trans hasked⟩
  | @take i req loops asked hloops =>
    refine ⟨Loops.step_descended h.descended (hquiet _ rfl) hloops, fun j req' hreq' => ?_,
      fun j c hc => ?_⟩
    · exact (h.known j req' hreq').trans_le (loops_calls_length hloops)
    · cases Loops.step_turned hloops with
      | take absent call returned =>
        rcases AList.lookup_insert_cases hc with ⟨rfl, rfl⟩ | ⟨-, hold⟩
        · exact ⟨req, asked, rfl⟩
        · exact h.asked j c hold
  | @server a loops other sane hloops =>
    refine ⟨Loops.step_descended h.descended sane hloops, fun i req hreq => ?_, fun i c hc => ?_⟩
    · exact (h.known i req hreq).trans_le (loops_calls_length hloops)
    · obtain ⟨c₀, hc₀, hsame⟩ := loops_step_request other hloops hc
      obtain ⟨req, hreq, hasked⟩ := h.asked i c₀ hc₀
      exact ⟨req, hreq, hsame.trans hasked⟩

/-- What an exchange of a run can be. A request that a loop has served has been served by a bucket in a
state that buckets reach. -/
inductive Exchanged : Exchange → Prop
  | invalid (req : AllowRequest) :
    Exchanged ⟨req, { status := .rejectedInvalidRequest }, none, none⟩
  | rejected (req : AllowRequest) (reply : Reply) (error : reply.error ≠ none) :
    Exchanged (exchangeOf req reply none)
  | served (req : AllowRequest) (x : Served) (asked : x.request = request req.query)
    (coherent : Coherent x.before) (reading : Reading x.now)
    (divisor : ¬ DividesByZero x.before x.input)
    (after : x.after = (x.before.calcWaitTime .int64 x.input).1)
    (reply : x.reply = Request.afterTake x.bucket (x.before.calcWaitTime .int64 x.input).2) :
    Exchanged (exchangeOf req x.reply (some x))

theorem exchange_exchanged (h : Routed s) (hs : step s a = some s') {x : Exchange}
    (hx : exchange s a = some x) : Exchanged x := by
  cases step_stepped hs with
  | invalid req =>
    simp only [exchange] at hx
    split_ifs at hx
    cases hx
    exact .invalid req
  | allow req =>
    simp only [exchange] at hx
    split_ifs at hx
    cases hx
    exact .invalid req
  | @take i req loops asked hloops =>
    simp only [exchange, asked, Option.bind_some] at hx
    split at hx
    · rename_i result _
      have hfailed : ∀ reply, (request req.query).afterFind result = .replied reply →
          reply.error ≠ none := by
        intro reply hreply
        unfold Request.afterFind at hreply
        split at hreply
        · cases hreply
          exact Option.some_ne_none _
        · cases hreply
          exact Option.some_ne_none _
        · split_ifs at hreply
          cases hreply
          exact Option.some_ne_none _
      split at hx
      · rename_i reply hreply
        cases hx
        exact .rejected req reply (hfailed reply hreply)
      · cases hx
    · cases hx
  | @server a loops other sane hloops =>
    obtain ⟨t, ht, hx⟩ := Option.bind_eq_some_iff.mp hx
    obtain ⟨req, hreq, rfl⟩ := Option.map_eq_some_iff.mp hx
    obtain ⟨hreading, hdivisor⟩ := sane t ht
    obtain ⟨cfg, dyn, hreached⟩ := h.descended.served ht
    obtain ⟨id, -, -, hc, -, hafter, hreply, -⟩ := Loops.served_eq_some ht
    obtain ⟨req', hreq', hasked⟩ := h.asked t.call _ hc
    cases hreq.symm.trans hreq'
    exact .served req t hasked hreached.coherent hreading hdivisor hafter hreply

theorem log_exchanged {now : ℤ} {actions : List Action} {x : Exchange} (hx : x ∈ log now actions) :
    Exchanged x := by
  obtain ⟨s, a, s', h, hs, hx⟩ :=
    Machine.collect_induction Routed (fun _ _ _ => step_routed) (routed_init now) hx
  exact exchange_exchanged h hs hx

end Routing

section Reports

/-- The tokens that a response grants are those that the bucket has lost and that the event reports, and
a response that grants none leaves the bucket as it was. -/
structure Honest (x : Exchange) : Prop where
  granted : ∀ t ∈ x.taken, t.reply.error = none → x.response.status = .ok ∧
    (x.response.tokensGranted : ℚ) = spent t.before t.after t.now ∧
    x.event = some (newTokensServedEvent x.request.namespace x.request.bucketName
      t.bucket.dynamic x.response.tokensGranted t.reply.wait)
  refused : x.response.status ≠ .ok → ∀ t ∈ x.taken, t.after = t.before

/-- A request that takes tokens asks for at least one, and what they are paid up to can be stored. -/
def Counted (x : Exchange) : Prop :=
  ∀ t ∈ x.taken, t.reply.error = none →
    1 ≤ x.request.tokensRequested ∧ Arith.int64.Fits (paidFor t.before t.input)

instance (x : Exchange) : Decidable (Counted x) :=
  inferInstanceAs (Decidable (∀ t ∈ x.taken, t.reply.error = none → _ ∧ _))

/-- The tokens that the bucket has lost. -/
def Exchange.deducted (x : Exchange) : ℚ :=
  match x.taken with
  | none => 0
  | some t => if t.reply.error = none then spent t.before t.after t.now else 0

/-- The tokens that the responses report. -/
def reported (log : List Exchange) : ℤ :=
  ((log.filter fun x => x.response.status = .ok).map fun x => x.response.tokensGranted).sum

variable {x : Exchange}

theorem respond_ok (req : AllowRequest) {reply : Reply} (h : reply.error = none) :
    (req.respond (answer reply)).1 = req.granted reply.wait := by
  simp [AllowRequest.respond, answer, h]

theorem respond_rejected (req : AllowRequest) {reply : Reply} (h : reply.error ≠ none) :
    (req.respond (answer reply)).1.status ≠ .ok := by
  obtain ⟨reason, hreason⟩ := Option.ne_none_iff_exists'.mp h
  cases reason <;> simp [AllowRequest.respond, answer, hreason, code, Err.status, toPBStatus,
    erTimeout, erNoBucket, erTooManyBuckets, erTooManyTokensRequested]

/-- The responses that are OK are those to the requests that have got tokens. -/
theorem Exchanged.ok_iff (h : Exchanged x) :
    x.response.status = .ok ↔ ∃ t ∈ x.taken, t.reply.error = none := by
  cases h with
  | invalid req => simp
  | rejected req reply error => simp [exchangeOf, respond_rejected req error]
  | served req t =>
    by_cases herror : t.reply.error = none
    · simp [exchangeOf, respond_ok req herror, herror, AllowRequest.granted]
    · simp [exchangeOf, respond_rejected req herror, herror]

/-- A request that a loop has served is refused, and leaves the bucket as it was, or is granted with the
wait until tokens are available. -/
theorem served_cases {t : Served} (coherent : Coherent t.before) (reading : Reading t.now)
    (after : t.after = (t.before.calcWaitTime .int64 t.input).1)
    (reply : t.reply = Request.afterTake t.bucket (t.before.calcWaitTime .int64 t.input).2) :
    (t.reply.error ≠ none ∧ t.after = t.before) ∨
      (t.reply = ⟨t.before.horizon t.now - t.now, t.bucket.dynamic, none⟩ ∧
        t.after.tokensNextAvailableNanos = Arith.int64.wrap (paidFor t.before t.input) ∧
        t.after.accumulatedTokens = Arith.int64.wrap
          (refilled t.before t.now - min (refilled t.before t.now) t.input.requested)) := by
  have htaken := coherent.taken (c := t.input) reading
  have hle := t.before.le_horizon t.now
  generalize t.before.calcWaitTime .int64 t.input = p at htaken after reply
  cases htaken with
  | refused =>
    left
    rw [reply, after]
    exact ⟨Option.some_ne_none _, rfl⟩
  | granted =>
    right
    rw [reply, after]
    exact ⟨if_neg (by dsimp only [Served.input]; omega), rfl, rfl⟩

theorem query_tokensRequested (req : AllowRequest) :
    (1 ≤ req.tokensRequested ∧ req.query.tokensRequested = req.tokensRequested) ∨
      (req.tokensRequested < 1 ∧ req.query.tokensRequested = 1) := by
  unfold AllowRequest.query
  dsimp only
  split_ifs <;> omega

theorem honest_iff_of_taken {t : Served} (ht : x.taken = some t) :
    Honest x ↔
      (t.reply.error = none → x.response.status = .ok ∧
        (x.response.tokensGranted : ℚ) = spent t.before t.after t.now ∧
        x.event = some (newTokensServedEvent x.request.namespace x.request.bucketName
          t.bucket.dynamic x.response.tokensGranted t.reply.wait)) ∧
      (x.response.status ≠ .ok → t.after = t.before) := by
  constructor
  · intro h
    exact ⟨h.granted t ht, fun hstatus => h.refused hstatus t ht⟩
  · rintro ⟨hgranted, hrefused⟩
    constructor
    · intro t' ht'
      cases ht.symm.trans ht'
      exact hgranted
    · intro hstatus t' ht'
      cases ht.symm.trans ht'
      exact hrefused hstatus

theorem counted_iff_of_taken {t : Served} (ht : x.taken = some t) :
    Counted x ↔ (t.reply.error = none →
      1 ≤ x.request.tokensRequested ∧ Arith.int64.Fits (paidFor t.before t.input)) := by
  constructor
  · intro h
    exact h t ht
  · intro h t' ht'
    cases ht.symm.trans ht'
    exact h

theorem honest_iff (h : Exchanged x) : Honest x ↔ Counted x := by
  cases h with
  | invalid req =>
    refine ⟨fun _ t ht => ?_, fun _ => ⟨fun t ht => ?_, fun _ t ht => ?_⟩⟩ <;> cases ht
  | rejected req reply error =>
    refine ⟨fun _ t ht => ?_, fun _ => ⟨fun t ht => ?_, fun _ t ht => ?_⟩⟩ <;> cases ht
  | served req t asked coherent reading divisor after reply =>
    have htaken : (exchangeOf req t.reply (some t)).taken = some t := rfl
    have hrequested : t.input.requested = req.query.tokensRequested := by
      rw [Served.input, asked]
      rfl
    rw [honest_iff_of_taken htaken, counted_iff_of_taken htaken]
    rcases served_cases coherent reading after reply with ⟨herror, hsame⟩ | ⟨hreply, hhorizon, hstock⟩
    · exact iff_of_true ⟨fun hnone => absurd hnone herror, fun _ => hsame⟩
        fun hnone => absurd hnone herror
    · have herror : t.reply.error = none := by rw [hreply]
      have hresponse := respond_ok req herror
      have hspent : 1 ≤ t.input.requested → (spent t.before t.after t.now = t.input.requested ↔
          Arith.int64.Fits (paidFor t.before t.input)) := fun hone =>
        spent_eq_iff coherent reading divisor hone hhorizon hstock
      have hevent : emitted req.query t.reply = newTokensServedEvent req.namespace req.bucketName
          t.bucket.dynamic req.query.tokensRequested t.reply.wait := by
        rw [hreply]
        rfl
      simp only [exchangeOf, hresponse, hevent, herror, forall_const]
      rcases query_tokensRequested req with ⟨hone, hquery⟩ | ⟨hless, hquery⟩
      · rw [hrequested, hquery] at hspent
        rw [hquery]
        constructor
        · rintro ⟨⟨-, hgranted, -⟩, -⟩
          exact ⟨hone, (hspent hone).mp hgranted.symm⟩
        · rintro ⟨-, hfits⟩
          refine ⟨⟨rfl, ((hspent hone).mpr hfits).symm, rfl⟩, fun hstatus => ?_⟩
          exact absurd rfl hstatus
      · -- the response repeats what was asked for, the event tells what was taken
        refine iff_of_false (fun h => ?_) fun h => absurd h.1 (not_le.mpr hless)
        have hone : (1 : ℤ) = req.tokensRequested :=
          hquery ▸ congrArg Events.Event.numTokens (Option.some.inj h.1.2.2)
        omega

end Reports

/-- The sums of what honest responses report and of what the buckets have lost. -/
theorem reported_eq {log : List Exchange} (hlog : ∀ x ∈ log, Exchanged x)
    (h : ∀ x ∈ log, Honest x) : (reported log : ℚ) = (log.map Exchange.deducted).sum := by
  induction log with
  | nil => rfl
  | cons x log ih =>
    obtain ⟨hx, hlog⟩ := List.forall_mem_cons.mp hlog
    obtain ⟨hhonest, h⟩ := List.forall_mem_cons.mp h
    have hrest := ih hlog h
    rw [List.map_cons, List.sum_cons, ← hrest]
    unfold reported
    by_cases hok : x.response.status = .ok
    · obtain ⟨t, ht, herror⟩ := hx.ok_iff.mp hok
      obtain ⟨-, hspent, -⟩ := hhonest.granted t ht herror
      have hdeducted : x.deducted = x.response.tokensGranted := by
        rw [Exchange.deducted, Option.mem_def.mp ht, hspent]
        exact if_pos herror
      rw [List.filter_cons_of_pos (by simpa using hok), hdeducted]
      simp
    · have hdeducted : x.deducted = 0 := by
        unfold Exchange.deducted
        cases ht : x.taken with
        | none => rfl
        | some t => exact if_neg fun herror => hok (hx.ok_iff.mpr ⟨t, ht, herror⟩)
      rw [List.filter_cons_of_neg (by simpa using hok), hdeducted, zero_add]

/-- In every run of the endpoint, its responses report what the buckets lose, one by one and in sum,
exactly if every request that takes tokens asks for at least one, and what they are paid up to can be
stored. -/
theorem tokens_reported_iff (now : ℤ) (actions : List Action) :
    ((∀ x ∈ log now actions, Honest x) ∧
      (reported (log now actions) : ℚ) = ((log now actions).map Exchange.deducted).sum) ↔
      ∀ x ∈ log now actions, Counted x := by
  constructor
  · rintro ⟨h, -⟩ x hx
    exact (honest_iff (log_exchanged hx)).mp (h x hx)
  · intro h
    have hhonest : ∀ x ∈ log now actions, Honest x := fun x hx =>
      (honest_iff (log_exchanged hx)).mpr (h x hx)
    exact ⟨hhonest, reported_eq (fun x hx => log_exchanged hx) hhonest⟩

/-- A request for a number of tokens of a dynamic bucket, which is created for it. -/
def asking (tokensRequested : ℤ) : List Action :=
  [.server (.base (.update [] System.shortLived)),
    .allow { «namespace» := "a", bucketName := "x", tokensRequested := tokensRequested },
    .server (.base (.look 0)), .server (.base (.create 0)), .take 0, .server (.receive 0),
    .server (.respond 0 1700000000000000000)]

/-- A request that does not say how many tokens it is for takes one, and the response says none. -/
theorem default_not_reported :
    ∃ x ∈ log 0 (asking 0), x.response = { status := .ok, tokensGranted := 0, waitMillis := 0 } ∧
      x.deducted = 1 ∧ (∃ e ∈ x.event, e.numTokens = 1) ∧ ¬ Honest x := by
  have hrun : ∃ x ∈ log 0 (asking 0),
      x.response = { status := .ok, tokensGranted := 0, waitMillis := 0 } ∧
      x.deducted = 1 ∧ (∃ e ∈ x.event, e.numTokens = 1) ∧ ¬ Counted x := by
    decide +kernel
  obtain ⟨x, hx, hresponse, hdeducted, hevent, hcounted⟩ := hrun
  exact ⟨x, hx, hresponse, hdeducted, hevent, (honest_iff (log_exchanged hx)).not.mpr hcounted⟩

end QuotaService.Allowing
