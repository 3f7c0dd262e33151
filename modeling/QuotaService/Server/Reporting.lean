import QuotaService.Server.Allowing
import QuotaService.Stats.Agreement

/-! What the stats show of what the endpoint has answered. A call of `Allow` emits its event once its
bucket has answered, and other calls may get in between. The producer drops what it cannot send at
once, and a goroutine hands the events to the listeners, one after the other. -/
namespace QuotaService.Reporting
open Allowing Arith Events Grpc Machine Stats
open Container (Reply Request Served)

section Model

/-- The endpoint, the events that calls of `Allow` are about to emit, the channel of the producer with
what it has dropped, and the listeners. -/
structure State where
  endpoint : Allowing.State
  owed : List Event
  channel : Channel Event
  dropped : List Event
  listeners : Stats.State

def start (eventQueueBufSize now : ℤ) : State where
  endpoint := Allowing.init now
  owed := []
  channel := .make (if eventQueueBufSize < 1 then 1 else eventQueueBufSize).toNat
  dropped := []
  listeners := Stats.start

def State.emit (s : State) (event : Event) : State :=
  { s with
    channel := s.channel.trySend event
    dropped := if s.channel.Ready then s.dropped else s.dropped ++ [event] }

/-- A step of the endpoint; a call emits its event; the container emits one, about a bucket that it has
made or removed; the goroutine of the listeners takes an event, or hands it to them; a step of the
batcher or of Redis. -/
inductive Action
  | endpoint (a : Allowing.Action)
  | emit (n : ℕ)
  | notify (event : Event)
  | receive
  | handle
  | listeners (a : Stats.Action)

def step (batchSize : ℤ) (s : State) : Action → Option State
  | .endpoint a => (Allowing.step s.endpoint a).map fun endpoint =>
    { s with
      endpoint := endpoint
      owed := s.owed ++ ((exchange s.endpoint a).bind Exchange.event).toList }
  | .emit n => (s.owed[n]?).map fun event =>
    { s with owed := s.owed.eraseIdx n }.emit event
  | .notify event =>
    if event.eventType = .bucketCreated ∨ event.eventType = .bucketRemoved then some (s.emit event)
    else none
  | .receive =>
    if s.channel.waiting = false ∧ s.channel.received.length = s.listeners.events.length then
      some { s with channel := s.channel.receive }
    else none
  | .handle => (s.channel.received[s.listeners.events.length]?).bind fun event =>
    (Stats.step batchSize s.listeners (.handle event)).map fun listeners =>
      { s with listeners := listeners }
  | .listeners a =>
    match a with
    | .handle _ => none
    | _ => (Stats.step batchSize s.listeners a).map fun listeners =>
      { s with listeners := listeners }

/-- What the endpoint has answered in a step. -/
def answered (s : State) : Action → Option Exchange
  | .endpoint a => exchange s.endpoint a
  | _ => none

def log (batchSize eventQueueBufSize now : ℤ) (actions : List Action) : List Exchange :=
  collect (step batchSize) answered (start eventQueueBufSize now) actions

/-- The events that the listeners have not got. -/
def missing (s : State) : List Event :=
  s.owed ++ s.channel.sent.drop s.listeners.events.length ++ s.dropped

end Model

section Worth

/-- What an answer is worth in the stats: the tokens that a dynamic bucket has granted, or one for a
dynamic bucket that could not be made. -/
def worth : Kind → Exchange → ℤ
  | .hits, x =>
    if x.response.status = .ok ∧ (x.taken.any fun t => t.bucket.dynamic) = true then
      x.request.query.tokensRequested
    else 0
  | .misses, x => if x.response.status = .rejectedTooManyBuckets then 1 else 0

/-- What all answers to the requests for a bucket are worth. -/
def expected (kind : Kind) («namespace» bucket : String) (log : List Exchange) : ℤ :=
  ((log.filter fun x => x.request.namespace = «namespace» ∧ x.request.bucketName = bucket).map
    (worth kind)).sum

def eventsOf (log : List Exchange) : List Event := log.filterMap Exchange.event

variable {x : Exchange} {kind : Kind} {ns bucket : String}

theorem one_le_tokensRequested (req : AllowRequest) : 1 ≤ req.query.tokensRequested := by
  rcases query_tokensRequested req with ⟨hone, hquery⟩ | ⟨-, hquery⟩ <;> omega

theorem worth_nonneg (kind : Kind) (x : Exchange) : 0 ≤ worth kind x := by
  have hone := one_le_tokensRequested x.request
  cases kind <;> simp only [worth] <;> split_ifs <;> omega

/-- An answer is worth what its event counts for, if it is worth anything. -/
inductive Weighed (x : Exchange) : Prop
  | nothing (worthless : ∀ kind, worth kind x = 0) (uncounted : x.event.bind counted = none)
  | something {kind : Kind} {event : Event} (emits : x.event = some event)
    (sameNamespace : event.namespace = x.request.namespace)
    (sameBucket : event.bucketName = x.request.bucketName)
    (counts : counted event = some (kind, worth kind x)) (positive : 0 < worth kind x)
    (other : ∀ kind', kind' ≠ kind → worth kind' x = 0)

theorem weighed_of_refused (req : AllowRequest) {reply : Reply} (taken : Option Served)
    (h : reply.error ≠ none) : Weighed (exchangeOf req reply taken) := by
  have hstatus := respond_rejected req h
  have hhits : worth .hits (exchangeOf req reply taken) = 0 := if_neg fun hok => hstatus hok.1
  obtain ⟨reason, hreason⟩ := Option.ne_none_iff_exists'.mp h
  have hevent : (exchangeOf req reply taken).event = some (emitted req.query reply) := rfl
  cases reason with
  | tooManyBuckets =>
    have hmisses : worth .misses (exchangeOf req reply taken) = 1 := by
      simp [worth, exchangeOf, AllowRequest.respond, answer, hreason, code, Err.status, toPBStatus,
        erNoBucket, erTooManyBuckets]
    have hemitted : emitted req.query reply =
        newBucketMissedEvent req.namespace req.bucketName true := by
      unfold emitted
      rw [hreason]
      rfl
    rw [hemitted] at hevent
    have hpositive : 0 < worth .misses (exchangeOf req reply taken) := by omega
    refine .something hevent rfl rfl ?_ hpositive fun kind' hkind => ?_
    · rw [hmisses]
      rfl
    · cases kind' with
      | hits => exact hhits
      | misses => exact absurd rfl hkind
  | timeout | noBucket | tooManyTokensRequested =>
    refine .nothing (fun kind => ?_) ?_
    · cases kind with
      | hits => exact hhits
      | misses =>
        simp [worth, exchangeOf, AllowRequest.respond, answer, hreason, code, Err.status,
          toPBStatus, erTimeout, erNoBucket, erTooManyBuckets, erTooManyTokensRequested]
    · rw [hevent]
      simp [emitted, hreason, counted, newBucketMissedEvent, newTimedOutEvent,
        newTooManyTokensRequestedEvent]

theorem weighed_of_granted (req : AllowRequest) (t : Served) (herror : t.reply.error = none)
    (hdynamic : t.reply.dynamic = t.bucket.dynamic) :
    Weighed (exchangeOf req t.reply (some t)) := by
  have hresponse : (exchangeOf req t.reply (some t)).response = req.granted t.reply.wait :=
    respond_ok req herror
  have hmisses : worth .misses (exchangeOf req t.reply (some t)) = 0 := by
    simp [worth, hresponse, AllowRequest.granted]
  have hhits : worth .hits (exchangeOf req t.reply (some t)) =
      if t.bucket.dynamic = true then req.query.tokensRequested else 0 := by
    have hok : (exchangeOf req t.reply (some t)).response.status = .ok := by
      rw [hresponse]
      rfl
    simp only [worth, hok, true_and]
    rfl
  have hevent : (exchangeOf req t.reply (some t)).event = some (newTokensServedEvent req.namespace
      req.bucketName t.bucket.dynamic req.query.tokensRequested t.reply.wait) := by
    simp [exchangeOf, emitted, herror, hdynamic, AllowRequest.query]
  cases hbucket : t.bucket.dynamic with
  | false =>
    rw [hbucket] at hhits hevent
    refine .nothing (fun kind => ?_) ?_
    · cases kind with
      | hits => exact hhits
      | misses => exact hmisses
    · rw [hevent]
      rfl
  | true =>
    rw [hbucket, if_pos rfl] at hhits
    rw [hbucket] at hevent
    have hone := one_le_tokensRequested req
    have hpositive : 0 < worth .hits (exchangeOf req t.reply (some t)) := by omega
    refine .something hevent rfl rfl ?_ hpositive fun kind' hkind => ?_
    · rw [hhits]
      rfl
    · cases kind' with
      | hits => exact absurd rfl hkind
      | misses => exact hmisses

theorem weighed_of_exchanged (h : Exchanged x) : Weighed x := by
  cases h with
  | invalid req => exact .nothing (fun kind => by cases kind <;> simp [worth]) rfl
  | rejected req reply error => exact weighed_of_refused req none error
  | served req t asked coherent reading divisor after reply =>
    by_cases herror : t.reply.error = none
    · refine weighed_of_granted req t herror ?_
      rw [reply]
      unfold Request.afterTake
      split_ifs <;> rfl
    · exact weighed_of_refused req (some t) herror

theorem amounts_toList (kind : Kind) (ns : String) (event : Option Event) :
    amounts kind ns event.toList = (event.bind (amount kind ns)).toList := by
  cases event with
  | none => rfl
  | some event => cases h : amount kind ns event <;> simp [amounts, h]

/-- The event of an exchange counts for what the answer is worth, for the bucket that was asked for. -/
theorem amounts_event (h : Exchanged x) (kind : Kind) (ns : String) :
    amounts kind ns x.event.toList =
      if x.request.namespace = ns ∧ worth kind x ≠ 0 then
        [(x.request.bucketName, worth kind x)]
      else [] := by
  rw [amounts_toList]
  cases weighed_of_exchanged h with
  | nothing worthless uncounted =>
    have hnone : x.event.bind (amount kind ns) = none := by
      rw [Option.bind_eq_none_iff] at uncounted ⊢
      intro event hevent
      rw [amount, uncounted event hevent]
      rfl
    rw [hnone, worthless kind]
    simp
  | @something kind' event emits sameNamespace sameBucket counts positive other =>
    rw [emits, Option.bind_some, amount, counts, Option.bind_some, sameNamespace, sameBucket]
    by_cases hkind : kind' = kind
    · subst hkind
      simp only [true_and, positive.ne', ne_eq, not_false_eq_true, and_true]
      split_ifs <;> rfl
    · rw [if_neg fun hboth => hkind hboth.1, other kind (Ne.symm hkind)]
      simp

theorem amounts_eventsOf_cons (h : Exchanged x) (kind : Kind) (ns : String) (log : List Exchange) :
    amounts kind ns (eventsOf (x :: log)) =
      (if x.request.namespace = ns ∧ worth kind x ≠ 0 then
        [(x.request.bucketName, worth kind x)]
      else []) ++ amounts kind ns (eventsOf log) := by
  have hevents : eventsOf (x :: log) = x.event.toList ++ eventsOf log := by
    unfold eventsOf
    cases hevent : x.event <;> simp [hevent]
  rw [← amounts_event h, hevents]
  exact List.filterMap_append

/-- The sums over the events of a log are what its answers are worth. -/
theorem sumOf_eventsOf {log : List Exchange} (h : ∀ x ∈ log, Exchanged x) (kind : Kind)
    (ns bucket : String) : sumOf kind ns bucket (eventsOf log) = expected kind ns bucket log := by
  induction log with
  | nil => rfl
  | cons x log ih =>
    obtain ⟨hx, hlog⟩ := List.forall_mem_cons.mp h
    have htail := ih hlog
    unfold sumOf expected at htail ⊢
    rw [amounts_eventsOf_cons hx, Tally.total_append, htail, List.filter_cons]
    by_cases hns : x.request.namespace = ns
    · by_cases hbucket : x.request.bucketName = bucket
      · by_cases hworth : worth kind x = 0 <;> simp [hns, hbucket, hworth, Tally.total]
      · by_cases hworth : worth kind x = 0 <;> simp [hns, hbucket, hworth, Tally.total]
    · simp [hns, Tally.total]

theorem amounts_nonneg {log : List Exchange} (h : ∀ x ∈ log, Exchanged x) {e : String × ℤ}
    (he : e ∈ amounts kind ns (eventsOf log)) : 0 ≤ e.2 := by
  induction log with
  | nil => cases he
  | cons x log ih =>
    obtain ⟨hx, hlog⟩ := List.forall_mem_cons.mp h
    rw [amounts_eventsOf_cons hx] at he
    rcases List.mem_append.mp he with he | he
    · split_ifs at he
      · rw [List.mem_singleton.mp he]
        exact worth_nonneg kind x
      · cases he
    · exact ih hlog he

/-- No bucket has been granted, or was missing for, as much as a double does not count exactly. -/
def Small (log : List Exchange) : Prop :=
  ∀ kind «namespace» bucket, expected kind «namespace» bucket log < 2 ^ 53

theorem expected_append (kind : Kind) (ns bucket : String) (log log' : List Exchange) :
    expected kind ns bucket (log ++ log') =
      expected kind ns bucket log + expected kind ns bucket log' := by
  simp [expected]

theorem expected_nonneg (kind : Kind) (ns bucket : String) (log : List Exchange) :
    0 ≤ expected kind ns bucket log := by
  apply List.sum_nonneg
  intro n hn
  obtain ⟨x, -, rfl⟩ := List.mem_map.mp hn
  exact worth_nonneg kind x

theorem small_of_sum {log : List Exchange} (hhits : (log.map (worth .hits)).sum < 2 ^ 53)
    (hmisses : (log.map (worth .misses)).sum < 2 ^ 53) : Small log := by
  intro kind ns bucket
  have hle : expected kind ns bucket log ≤ (log.map (worth kind)).sum := by
    refine (List.filter_sublist.map (worth kind)).sum_le_sum fun n hn => ?_
    obtain ⟨x, -, rfl⟩ := List.mem_map.mp hn
    exact worth_nonneg kind x
  cases kind <;> omega

theorem Small.of_append {log log' : List Exchange} (h : Small (log ++ log')) : Small log := by
  intro kind ns bucket
  have hboth := h kind ns bucket
  rw [expected_append] at hboth
  have hnonneg := expected_nonneg kind ns bucket log'
  omega

end Worth

section Account
variable {s s' : State} {a : Action} {xs : List Exchange} {batchSize : ℤ}

/-- All events that there have been. -/
def State.events (s : State) : List Event := s.owed ++ s.channel.sent ++ s.dropped

/-- The listeners have got the first of the events that were sent, and the events count for what the
answers are worth. -/
structure Inv (s : State) (xs : List Exchange) : Prop where
  routed : Routed s.endpoint
  exchanged : ∀ x ∈ xs, Exchanged x
  handled : s.listeners.events <+: s.channel.received
  kept : ∀ kind ns, (amounts kind ns s.events).Perm (amounts kind ns (eventsOf xs))
  listeners : Small xs → Stats.Inv s.listeners

theorem events_emit (s : State) (event : Event) : (s.emit event).events.Perm (s.events ++ [event]) := by
  unfold State.emit State.events
  dsimp only
  rw [Channel.sent_trySend]
  split_ifs
  · simp only [List.append_assoc]
    exact (List.perm_append_comm.append_left _).append_left _
  · simp

theorem sent_sublist_events (s : State) : s.channel.sent.Sublist s.events :=
  (List.sublist_append_right _ _).trans (List.sublist_append_left _ _)

/-- What some of the events sent count for does not exceed what the answers are worth. -/
theorem Inv.sumOf_le (h : Inv s xs) {events : List Event} (hsent : events.Sublist s.channel.sent)
    (kind : Kind) (ns bucket : String) :
    sumOf kind ns bucket events ≤ expected kind ns bucket xs := by
  have hevents := hsent.trans (sent_sublist_events s)
  have hamounts : (amounts kind ns events).Subperm (amounts kind ns (eventsOf xs)) :=
    (hevents.filterMap _).subperm.trans (h.kept kind ns).subperm
  rw [← sumOf_eventsOf h.exchanged]
  exact Tally.total_le_of_subperm hamounts (fun e he => amounts_nonneg h.exchanged he) bucket

theorem Inv.amount_nonneg (h : Inv s xs) {event : Event} (hevent : event ∈ s.events) {kind : Kind}
    {ns : String} {e : String × ℤ} (he : amount kind ns event = some e) : 0 ≤ e.2 := by
  have hamounts : e ∈ amounts kind ns s.events := List.mem_filterMap.mpr ⟨event, hevent, he⟩
  exact amounts_nonneg h.exchanged ((h.kept kind ns).mem_iff.mp hamounts)

theorem Inv.amounts_nonneg (h : Inv s xs) {events : List Event} (hevents : events ⊆ s.events)
    {kind : Kind} {ns : String} : ∀ e ∈ amounts kind ns events, 0 ≤ e.2 := by
  intro e he
  obtain ⟨event, hevent, he⟩ := List.mem_filterMap.mp he
  exact h.amount_nonneg (hevents hevent) he

theorem Inv.prefix_next (h : Inv s xs) {event : Event}
    (hnext : s.channel.received[s.listeners.events.length]? = some event) :
    s.listeners.events ++ [event] <+: s.channel.received := by
  obtain ⟨rest, hrest⟩ := h.handled
  rw [← hrest, List.getElem?_append_right (le_refl _), Nat.sub_self] at hnext
  cases rest with
  | nil => cases hnext
  | cons first tail =>
    cases hnext
    refine ⟨tail, ?_⟩
    rw [List.append_assoc]
    exact hrest

/-- The next event can be counted. -/
theorem Inv.representable_handle (h : Inv s xs) (hsmall : Small xs) {event : Event}
    (hnext : s.channel.received[s.listeners.events.length]? = some event) :
    Representable s.listeners (.handle event) := by
  have hbegins := (h.prefix_next hnext).trans s.channel.received_prefix_sent
  have hevents := (hbegins.sublist.trans (sent_sublist_events s)).subset
  intro c hc
  have hamount : amount c.1 event.namespace event = some (event.bucketName, c.2) := by
    rw [amount, Option.mem_def.mp hc]
    simp
  have hsum : sumOf c.1 event.namespace event.bucketName (s.listeners.events ++ [event]) =
      sumOf c.1 event.namespace event.bucketName s.listeners.events + c.2 := by
    rw [sumOf, amounts_append, Tally.total_append, hamount]
    simp [Tally.total, sumOf]
  have hle := h.sumOf_le hbegins.sublist c.1 event.namespace event.bucketName
  have hbound := hsmall c.1 event.namespace event.bucketName
  have hold : 0 ≤ sumOf c.1 event.namespace event.bucketName s.listeners.events :=
    Tally.total_nonneg (h.amounts_nonneg fun _ hmem => hevents (List.mem_append_left _ hmem)) _
  have hnew : 0 ≤ c.2 := h.amount_nonneg (hevents (by simp)) hamount
  have hscore := ((h.listeners hsmall).memory.counts c.1 event.namespace).score_eq event.bucketName
  change _ = sumOf c.1 event.namespace event.bucketName s.listeners.events at hscore
  constructor
  · rw [hscore]
    exact int64_fits_iff.mpr (by omega)
  · exact float64_fits_of_lt (by omega)

theorem Inv.events_sublist (h : Inv s xs) : s.listeners.events.Sublist s.channel.sent :=
  (h.handled.trans s.channel.received_prefix_sent).sublist

/-- The commands add to the sets of the stats. -/
theorem key_of_mem_commands {events : List Event} {key member : String} {n : ℤ}
    (h : Command.zIncrBy key n member ∈ events.flatMap commands) :
    ∃ (kind : Kind) (ns : String), key = statsNamespace kind.key ns := by
  obtain ⟨event, -, hcommand⟩ := List.mem_flatMap.mp h
  unfold commands at hcommand
  split at hcommand
  · cases hcommand
  · rename_i kind amount hcounted
    simp only [List.mem_cons, Command.zIncrBy.injEq, reduceCtorEq, List.not_mem_nil, or_false]
      at hcommand
    exact ⟨kind, event.namespace, hcommand.1⟩

/-- What some of the commands of events add does not exceed what the events count for. -/
theorem total_increments_le {events : List Event} {cmds : List Command}
    (hcmds : cmds.Subperm (events.flatMap commands)) (kind : Kind) (ns : String)
    (hnonneg : ∀ e ∈ amounts kind ns events, 0 ≤ e.2) (member : String) :
    0 ≤ Tally.total (increments (statsNamespace kind.key ns) cmds) member ∧
      Tally.total (increments (statsNamespace kind.key ns) cmds) member ≤
        sumOf kind ns member events := by
  obtain ⟨l, hperm, hsub⟩ := hcmds
  have hsubperm : (increments (statsNamespace kind.key ns) cmds).Subperm (amounts kind ns events) := by
    rw [← increments_flatMap]
    exact ⟨_, hperm.filterMap _, hsub.filterMap _⟩
  exact ⟨Tally.total_nonneg (fun e he => hnonneg e (hsubperm.subset he)) member,
    Tally.total_le_of_subperm hsubperm hnonneg member⟩

/-- A command that has been sent can be executed exactly. -/
theorem Inv.representable_exec (h : Inv s xs) (hsmall : Small xs) (n : ℕ) :
    Representable s.listeners (.exec n) := by
  intro command hcommand
  cases command with
  | expireAt key => trivial
  | zIncrBy key increment member =>
    obtain ⟨executed, hperm, hcounts⟩ := (h.listeners hsmall).redis
    have hmem : Command.zIncrBy key increment member ∈ s.listeners.sent :=
      List.mem_of_getElem? hcommand
    have hqueued : Command.zIncrBy key increment member ∈ s.listeners.events.flatMap commands :=
      hperm.subset (by simp [hmem])
    obtain ⟨kind, ns, rfl⟩ := key_of_mem_commands hqueued
    have hsub : (executed ++ [Command.zIncrBy (statsNamespace kind.key ns) increment member]).Subperm
        (s.listeners.events.flatMap commands) := by
      have hone := List.singleton_sublist.mpr hmem
      have hsent := (hone.append_left executed).trans
        (List.sublist_append_left (executed ++ s.listeners.sent) s.listeners.redis.pipe)
      exact hsent.subperm.trans hperm.subperm
    have hlast : increments (statsNamespace kind.key ns)
        [.zIncrBy (statsNamespace kind.key ns) increment member] = [(member, increment)] := by
      simp [increments, Stats.increment]
    have htotal := total_increments_le hsub kind ns
      (h.amounts_nonneg (h.events_sublist.trans (sent_sublist_events s)).subset) member
    have hscore := (hcounts (statsNamespace kind.key ns)).score_eq member
    unfold increments at htotal hscore hlast
    rw [List.filterMap_append, Tally.total_append, hlast, ← hscore] at htotal
    have hone : Tally.total [(member, increment)] member = increment := by simp [Tally.total]
    rw [hone] at htotal
    have hle := h.sumOf_le h.events_sublist kind ns member
    have hbound := hsmall kind ns member
    exact float64_fits_of_lt (by omega)

/-- An event that is emitted is sent or dropped. -/
theorem Inv.emit (h : Inv s xs) {owed : List Event} {event : Event}
    (hkept : ∀ kind ns, (amounts kind ns (owed ++ s.channel.sent ++ s.dropped ++ [event])).Perm
      (amounts kind ns s.events)) : Inv ({ s with owed := owed }.emit event) xs where
  routed := h.routed
  exchanged := h.exchanged
  handled := h.handled.trans (s.channel.received_prefix_trySend event)
  kept kind ns := by
    have hemit := (events_emit { s with owed := owed } event).filterMap (amount kind ns)
    exact (hemit.trans (hkept kind ns)).trans (h.kept kind ns)
  listeners := h.listeners

/-- The listeners go on, in a way that they can represent. -/
theorem Inv.withListeners (h : Inv s xs) {a : Stats.Action} {listeners : Stats.State}
    (hrep : Small xs → Representable s.listeners a)
    (hs : Stats.step batchSize s.listeners a = some listeners)
    (hhandled : listeners.events <+: s.channel.received) :
    Inv { s with listeners := listeners } xs where
  routed := h.routed
  exchanged := h.exchanged
  handled := hhandled
  kept := h.kept
  listeners hsmall := Stats.step_inv batchSize (h.listeners hsmall) (hrep hsmall) hs

theorem events_of_step {l l' : Stats.State} {a : Stats.Action}
    (hs : Stats.step batchSize l a = some l') (hother : ∀ event, a ≠ .handle event) :
    l'.events = l.events := by
  cases a with
  | handle event => exact absurd rfl (hother event)
  | deadline =>
    simp only [Stats.step] at hs
    split_ifs at hs <;> cases hs <;> rfl
  | notified =>
    simp only [Stats.step] at hs
    split_ifs at hs <;> cases hs <;> rfl
  | exec n =>
    obtain ⟨command, -, rfl⟩ := Option.map_eq_some_iff.mp hs
    rfl

/-- What the endpoint answers in a step is owed by it as an event. -/
theorem inv_endpoint (h : Inv s xs) {a : Allowing.Action} {endpoint : Allowing.State}
    (hs : Allowing.step s.endpoint a = some endpoint) :
    Inv { s with
      endpoint := endpoint
      owed := s.owed ++ ((exchange s.endpoint a).bind Exchange.event).toList }
      (xs ++ (exchange s.endpoint a).toList) where
  routed := step_routed h.routed hs
  exchanged x hx := by
    rcases List.mem_append.mp hx with hx | hx
    · exact h.exchanged x hx
    · exact exchange_exchanged h.routed hs (Option.mem_toList.mp hx)
  handled := h.handled
  kept kind ns := by
    have hevents : eventsOf (exchange s.endpoint a).toList =
        ((exchange s.endpoint a).bind Exchange.event).toList := by
      unfold eventsOf
      cases exchange s.endpoint a with
      | none => rfl
      | some x => cases hevent : x.event <;> simp [hevent]
    have hlog : amounts kind ns (eventsOf (xs ++ (exchange s.endpoint a).toList)) =
        amounts kind ns (eventsOf xs) ++
          amounts kind ns ((exchange s.endpoint a).bind Exchange.event).toList := by
      rw [← hevents]
      simp [eventsOf, amounts]
    rw [hlog]
    refine List.Perm.trans ?_ ((h.kept kind ns).append_right _)
    simp only [State.events, amounts, List.filterMap_append, List.append_assoc]
    exact (List.perm_append_comm.trans (by simp)).append_left _
  listeners hsmall := h.listeners hsmall.of_append

theorem step_inv (h : Inv s xs) (hs : step batchSize s a = some s') :
    Inv s' (xs ++ (answered s a).toList) := by
  cases a with
  | endpoint a =>
    obtain ⟨endpoint, hendpoint, rfl⟩ := Option.map_eq_some_iff.mp hs
    exact inv_endpoint h hendpoint
  | emit n =>
    obtain ⟨event, hevent, rfl⟩ := Option.map_eq_some_iff.mp hs
    have hquiet : xs ++ (answered s (.emit n)).toList = xs := List.append_nil xs
    rw [hquiet]
    refine h.emit fun kind ns => List.Perm.filterMap _ ?_
    obtain ⟨hn, hget⟩ := List.getElem?_eq_some_iff.mp hevent
    have herase := List.getElem_cons_eraseIdx_perm hn
    rw [hget] at herase
    have howed : (s.owed.eraseIdx n ++ [event]).Perm s.owed := List.perm_append_comm.trans herase
    have hlast : (s.owed.eraseIdx n ++ s.channel.sent ++ s.dropped ++ [event]).Perm
        (s.owed.eraseIdx n ++ [event] ++ (s.channel.sent ++ s.dropped)) := by
      simp only [List.append_assoc]
      refine List.Perm.append_left _ ?_
      rw [← List.append_assoc]
      exact List.perm_append_comm
    rw [State.events, List.append_assoc s.owed]
    exact hlast.trans (howed.append_right _)
  | notify event =>
    simp only [step] at hs
    split_ifs at hs with htype
    cases hs
    have hquiet : xs ++ (answered s (.notify event)).toList = xs := List.append_nil xs
    rw [hquiet]
    refine h.emit fun kind ns => ?_
    have hnothing : amount kind ns event = none := by
      unfold amount counted
      rcases htype with htype | htype <;> simp [htype]
    simp [State.events, amounts, hnothing]
  | receive =>
    simp only [step] at hs
    split_ifs at hs
    cases hs
    have hquiet : xs ++ (answered s .receive).toList = xs := List.append_nil xs
    rw [hquiet]
    refine ⟨h.routed, h.exchanged, h.handled.trans s.channel.received_prefix_receive, ?_, h.listeners⟩
    simpa [State.events] using h.kept
  | handle =>
    obtain ⟨event, hevent, hs⟩ := Option.bind_eq_some_iff.mp hs
    obtain ⟨listeners, hlisteners, rfl⟩ := Option.map_eq_some_iff.mp hs
    have hquiet : xs ++ (answered s .handle).toList = xs := List.append_nil xs
    rw [hquiet]
    refine h.withListeners (fun hsmall => h.representable_handle hsmall hevent) hlisteners ?_
    cases hlisteners
    exact h.prefix_next hevent
  | listeners a =>
    have hquiet : xs ++ (answered s (.listeners a)).toList = xs := List.append_nil xs
    rw [hquiet]
    have hother : ∀ event, a ≠ .handle event := by
      rintro event rfl
      cases hs
    have hstep : (Stats.step batchSize s.listeners a).map (fun listeners =>
        { s with listeners := listeners }) = some s' := by
      cases a with
      | handle event => exact absurd rfl (hother event)
      | deadline | notified | exec => exact hs
    obtain ⟨listeners, hlisteners, rfl⟩ := Option.map_eq_some_iff.mp hstep
    have hevents := events_of_step hlisteners hother
    refine h.withListeners (fun hsmall => ?_) hlisteners (hevents ▸ h.handled)
    cases a with
    | handle event => exact absurd rfl (hother event)
    | deadline | notified => trivial
    | exec n => exact h.representable_exec hsmall n

theorem start_inv (eventQueueBufSize now : ℤ) : Inv (start eventQueueBufSize now) [] where
  routed := routed_init now
  exchanged _ hx := absurd hx List.not_mem_nil
  handled := List.prefix_rfl
  kept _ _ := List.Perm.refl _
  listeners _ := Stats.start_inv

/-- The events are those that the listeners have got, and the others. -/
theorem Inv.events_perm (h : Inv s xs) : (s.listeners.events ++ missing s).Perm s.events := by
  have hsent : s.listeners.events ++ s.channel.sent.drop s.listeners.events.length =
      s.channel.sent := by
    obtain ⟨rest, hrest⟩ := h.handled.trans s.channel.received_prefix_sent
    rw [← hrest, List.drop_left]
  unfold missing State.events
  have hfront : (s.listeners.events ++ (s.owed ++ s.channel.sent.drop s.listeners.events.length)).Perm
      (s.owed ++ s.channel.sent) := by
    rw [← List.append_assoc]
    refine (List.perm_append_comm.append_right _).trans ?_
    rw [List.append_assoc, hsent]
  rw [← List.append_assoc]
  exact hfront.append_right s.dropped

theorem Inv.sumOf_missing (h : Inv s xs) (kind : Kind) (ns bucket : String) :
    sumOf kind ns bucket s.listeners.events + sumOf kind ns bucket (missing s) =
      expected kind ns bucket xs := by
  have hperm := (h.events_perm.filterMap (amount kind ns)).trans (h.kept kind ns)
  rw [List.filterMap_append] at hperm
  rw [← sumOf_eventsOf h.exchanged]
  exact (Tally.total_append _ _ bucket).symm.trans (Tally.total_perm hperm bucket)

/-- In every run, what the stats show of a bucket falls short of what the clients were answered by what
the events count for that the listeners have not got, and the listener in Redis shows the same once
its commands have been executed, as long as the numbers are small. -/
theorem stats_account (batchSize eventQueueBufSize now : ℤ) (actions : List Action)
    (hrun : run (step batchSize) (start eventQueueBufSize now) actions = some s)
    (hsmall : Small (log batchSize eventQueueBufSize now actions)) (ns bucket : String) :
    let scores := s.listeners.memory.get ns bucket
    let answers := log batchSize eventQueueBufSize now actions
    scores.hits + sumOf .hits ns bucket (missing s) = expected .hits ns bucket answers ∧
      scores.misses + sumOf .misses ns bucket (missing s) = expected .misses ns bucket answers ∧
      (∀ kind, 0 ≤ sumOf kind ns bucket (missing s)) ∧
      (Quiescent s.listeners → redisGet s.listeners.db ns bucket = scores) := by
  have hinv : Inv s ([] ++ log batchSize eventQueueBufSize now actions) :=
    collect_run_invariant Inv (fun _ _ _ _ h hs => step_inv h hs)
      (start_inv eventQueueBufSize now) hrun
  rw [List.nil_append] at hinv
  have hstats := hinv.listeners hsmall
  have hmemory := memory_get hstats.memory ns bucket
  have hnonneg : ∀ kind, 0 ≤ sumOf kind ns bucket (missing s) := by
    intro kind
    apply Tally.total_nonneg
    apply hinv.amounts_nonneg
    intro event hevent
    exact hinv.events_perm.subset (List.mem_append_right _ hevent)
  refine ⟨?_, ?_, hnonneg, fun hquiescent => ?_⟩
  · rw [hmemory]
    exact hinv.sumOf_missing .hits ns bucket
  · rw [hmemory]
    exact hinv.sumOf_missing .misses ns bucket
  · rw [hmemory]
    exact redis_get hstats hquiescent ns bucket

/-- Two requests of a dynamic bucket, while the channel has room for one event: the one about the new
bucket is there when the first request emits its own. -/
def busy : List Action :=
  (asking 3).map .endpoint ++ [.notify ⟨.bucketCreated, "a", "x", true, 0, 0⟩, .emit 0, .receive,
    .handle, .receive,
    .endpoint (.allow { «namespace» := "a", bucketName := "x", tokensRequested := 5 }),
    .endpoint (.server (.base (.look 1))), .endpoint (.server (.base (.report 1))),
    .endpoint (.take 1), .endpoint (.server (.receive 1)),
    .endpoint (.server (.respond 0 1700000000000000001)), .emit 0, .handle]

/-- The stats show the five tokens of the second request, and miss the three of the first. -/
theorem stats_account_busy : ∃ s, run (step 2) (start 0 0) busy = some s ∧
    (s.listeners.memory.get "a" "x").hits = 5 ∧
    5 + sumOf .hits "a" "x" (missing s) = expected .hits "a" "x" (log 2 0 0 busy) := by
  have hexists : ∃ s, run (step 2) (start 0 0) busy = some s ∧
      (s.listeners.memory.get "a" "x").hits = 5 := exists_run (by decide +kernel)
  obtain ⟨s, hrun, hhits⟩ := hexists
  have hsmall : Small (log 2 0 0 busy) := small_of_sum (by decide +kernel) (by decide +kernel)
  have haccount := (stats_account 2 0 0 busy hrun hsmall "a" "x").1
  rw [hhits] at haccount
  exact ⟨s, hrun, hhits, haccount⟩

end Account

end QuotaService.Reporting
