import QuotaService.Buckets.Expiry
import QuotaService.Lib.Sharing
import QuotaService.Server.Allowing

/-! The requests to the gRPC endpoint as their clients see them. Each is answered once, and those that
get to one bucket are answered as by a bucket of its own that takes them one after the other, however
the calls, the loops, the passes of the reaper and the updates interleave. -/
namespace QuotaService.Container

/-- The step of the bucket in which a request is served. -/
def Served.transition (x : Served) : Machine.Transition Memory.TokenBucket Memory.Call ℤ :=
  ⟨x.before, x.input, (x.before.calcWaitTime .int64 x.input).2, x.after⟩

end QuotaService.Container

namespace QuotaService.Allowing
open Config Container Grpc Machine Memory

section Serial

/-- What the loops have done with the requests that got to a bucket. -/
def servedBy (id : ℕ) (log : List Exchange) : List Served :=
  (log.filterMap Exchange.taken).filter fun x => x.bucket.id = id

/-- The calls that a bucket has granted, each with its wait. -/
def granted (served : List Served) : List (Call × ℤ) :=
  served.filterMap fun x => if x.reply.error = none then some (x.input, x.reply.wait) else none

/-- A bucket that is made when it gets its first request, from what the request has found. -/
def serve (t : Option TokenBucket) (x : TokenBucket × Call) :
    Option TokenBucket × Transition TokenBucket Call ℤ :=
  let b := t.getD x.1
  let p := b.calcWaitTime .int64 x.2
  (some p.1, ⟨b, x.2, p.2, p.1⟩)

theorem outputs_serve_some (b : TokenBucket) (xs : List (TokenBucket × Call)) :
    outputs serve (some b) xs = trace (TokenBucket.calcWaitTime .int64) b (xs.map Prod.snd) := by
  induction xs generalizing b with
  | nil => rfl
  | cons x xs ih =>
    rw [outputs_cons, List.map_cons, trace_cons]
    exact congrArg _ (ih _)

theorem outputs_serve_none (x : TokenBucket × Call) (xs : List (TokenBucket × Call)) :
    outputs serve none (x :: xs) =
      trace (TokenBucket.calcWaitTime .int64) x.1 ((x :: xs).map Prod.snd) := by
  rw [← outputs_serve_some]
  rfl

variable {s s' : State} {a : Action} {x : Served}

/-- What a step does with a request, once a loop has got it. -/
def taken (s : State) (a : Action) : Option Served := (exchange s a).bind Exchange.taken

theorem taken_eq_some (h : taken s a = some x) :
    ∃ a' req, a = .server a' ∧ s.loops.served a' = some x ∧ s.requests.lookup x.call = some req ∧
      exchange s a = some (exchangeOf req x.reply (some x)) := by
  obtain ⟨e, he, hx⟩ := Option.bind_eq_some_iff.mp h
  cases a with
  | allow req =>
    simp only [exchange] at he
    split_ifs at he
    cases he
    cases hx
  | take i =>
    obtain ⟨req, -, hmatch⟩ := Option.bind_eq_some_iff.mp he
    split at hmatch
    · split at hmatch
      · cases hmatch
        cases hx
      · cases hmatch
    · cases hmatch
  | server a' =>
    have hexchange := he
    obtain ⟨t, ht, he⟩ := Option.bind_eq_some_iff.mp he
    obtain ⟨req, hreq, rfl⟩ := Option.map_eq_some_iff.mp he
    cases hx
    exact ⟨a', req, rfl, ht, hreq, hexchange⟩

/-- Whoever a loop serves has been asked for. -/
theorem taken_server (h : Routed s) {a' : LoopAction} (hx : s.loops.served a' = some x) :
    taken s (.server a') = some x := by
  obtain ⟨id, -, -, hclient, -⟩ := Loops.served_eq_some hx
  obtain ⟨req, hreq, -⟩ := h.asked _ _ hclient
  simp [taken, exchange, hx, hreq, exchangeOf]

/-- The loop that serves a request is that of the bucket that the call has found. -/
theorem served_id (h : s.loops.Paired) {a' : LoopAction} (hx : s.loops.served a' = some x) :
    ∃ loops, s.loops.step a' = some loops ∧
      loops.tokens = s.loops.tokens.insert x.bucket.id x.after := by
  obtain ⟨id, -, hserving, hclient, -, -, -, hstep⟩ := Loops.served_eq_some hx
  obtain ⟨c, b, hc, hwaiting, hid⟩ := h.serving id x.call hserving
  cases hclient.symm.trans hc
  cases hwaiting
  rw [← hid] at hstep
  exact ⟨_, hstep, rfl⟩

theorem taken_eq_none (h : ∀ a', a ≠ .server a') : taken s a = none := by
  rw [Option.eq_none_iff_forall_ne_some]
  intro x hx
  obtain ⟨a', -, ha, -⟩ := taken_eq_some hx
  exact h a' ha

/-- A step changes the bucket whose loop serves, and no other. -/
theorem step_tokens (h : Routed s) (hpaired : s.loops.Paired) (hs : step s a = some s') :
    s'.loops.tokens =
      ((taken s a).map fun x => s.loops.tokens.insert x.bucket.id x.after).getD s.loops.tokens := by
  cases step_stepped hs with
  | invalid req =>
    rw [taken_eq_none (by simp)]
    rfl
  | @allow req loops step =>
    rw [taken_eq_none (by simp)]
    exact Loops.tokens_of_served_eq_none rfl step
  | @take i req loops asked step =>
    rw [taken_eq_none (by simp)]
    exact Loops.tokens_of_served_eq_none rfl step
  | @server a' loops other sane step =>
    cases hserved : s.loops.served a' with
    | some x =>
      obtain ⟨loops', hloops', htokens⟩ := served_id hpaired hserved
      cases hloops'.symm.trans step
      rw [taken_server h hserved]
      exact htokens
    | none =>
      have hnone : taken s (.server a') = none := by
        simp [taken, exchange, hserved]
      rw [hnone]
      exact Loops.tokens_of_served_eq_none hserved step

theorem step_paired (h : s.loops.Paired) (hs : step s a = some s') : s'.loops.Paired := by
  cases step_stepped hs with
  | invalid => exact h
  | allow req step => exact Loops.step_paired h step
  | take asked step => exact Loops.step_paired h step
  | server other sane step => exact Loops.step_paired h step

/-- Only valid requests make calls. -/
theorem step_valid (h : ∀ i req, s.requests.lookup i = some req → invalid req = false)
    (hs : step s a = some s') {i : ℕ} {req : AllowRequest}
    (hreq : s'.requests.lookup i = some req) : invalid req = false := by
  cases a with
  | allow req' =>
    simp only [step] at hs
    split_ifs at hs with hinvalid
    · cases hs
      exact h i req hreq
    · obtain ⟨loops, -, rfl⟩ := Option.map_eq_some_iff.mp hs
      rcases AList.lookup_insert_cases hreq with ⟨-, rfl⟩ | ⟨-, hold⟩
      · exact Bool.eq_false_iff.mpr hinvalid
      · exact h i req hold
  | take i' =>
    cases step_stepped hs with
    | take => exact h i req hreq
  | server a' =>
    cases step_stepped hs with
    | server => exact h i req hreq

/-- What holds of the server in every run. -/
structure Ordered (s : State) : Prop where
  routed : Routed s
  paired : s.loops.Paired
  valid : ∀ i req, s.requests.lookup i = some req → invalid req = false

theorem ordered_init (now : ℤ) : Ordered (init now) :=
  ⟨routed_init now, Loops.paired_init now, nofun⟩

theorem step_ordered (h : Ordered s) (hs : step s a = some s') : Ordered s' :=
  ⟨step_routed h.routed hs, step_paired h.paired hs, fun _ _ => step_valid h.valid hs⟩

/-- A bucket goes on from where its loop has left it. -/
theorem transition_of_taken (h : Ordered s) (hs : step s a = some s') (hx : taken s a = some x) :
    x.transition = (serve (s.loops.tokens.lookup x.bucket.id) (x.bucket.impl, x.input)).2 ∧
      s'.loops.tokens.lookup x.bucket.id =
        (serve (s.loops.tokens.lookup x.bucket.id) (x.bucket.impl, x.input)).1 := by
  obtain ⟨a', req, rfl, hserved, -⟩ := taken_eq_some hx
  obtain ⟨id, -, -, -, hbefore, hafter, -⟩ := Loops.served_eq_some hserved
  have htokens := step_tokens h.routed h.paired hs
  rw [hx] at htokens
  have hbefore' : x.before = (s.loops.tokens.lookup x.bucket.id).getD x.bucket.impl := hbefore
  constructor
  · unfold Served.transition serve
    dsimp only
    rw [hafter, hbefore']
  · rw [htokens]
    unfold serve
    dsimp only [Option.map_some, Option.getD_some]
    rw [AList.lookup_insert, hafter, hbefore']

theorem log_filterMap_taken (now : ℤ) (actions : List Action) :
    (log now actions).filterMap Exchange.taken = collect step taken (init now) actions :=
  (collect_bind step exchange Exchange.taken (init now) actions).symm

/-- The steps of a bucket, over all the steps of the server. -/
theorem transitions_eq (now : ℤ) (actions : List Action) (id : ℕ) :
    (servedBy id (log now actions)).map Served.transition =
      outputs serve none ((servedBy id (log now actions)).map fun x => (x.bucket.impl, x.input)) := by
  unfold servedBy
  rw [log_filterMap_taken]
  refine Sharing.outputs_of_collect (fun x : Served => decide (x.bucket.id = id))
    (fun x => (x.bucket.impl, x.input)) Served.transition
    (fun s t => Ordered s ∧ s.loops.tokens.lookup id = t) (fun _ => True) (fun _ => True)
    ?_ ?_ ⟨ordered_init now, rfl⟩ (fun _ _ => trivial) fun _ _ => trivial
  · rintro s t a s' x ⟨hordered, rfl⟩ - hs hx hmine -
    obtain rfl := of_decide_eq_true hmine
    obtain ⟨houtput, hstate⟩ := transition_of_taken hordered hs hx
    exact ⟨houtput, step_ordered hordered hs, hstate⟩
  · rintro s t a s' ⟨hordered, rfl⟩ - hs hother
    refine ⟨step_ordered hordered hs, ?_⟩
    rw [step_tokens hordered.routed hordered.paired hs]
    cases hx : taken s a with
    | none => rfl
    | some x =>
      have hid : x.bucket.id ≠ id := of_decide_eq_false (hother x hx)
      exact AList.lookup_insert_ne hid.symm

theorem genuine_of_taken (h : Ordered s) (hx : taken s a = some x) :
    x.bucket.Genuine memoryFactory := by
  obtain ⟨a', req, rfl, hserved, -⟩ := taken_eq_some hx
  obtain ⟨id, -, -, hclient, -⟩ := Loops.served_eq_some hserved
  exact h.routed.descended.pending x.call _ hclient x.bucket rfl

/-- The loop of a bucket serves its requests one after the other, from the bucket as the factory has made
it from a config on. -/
theorem serial_run (now : ℤ) (actions : List Action) (id : ℕ) :
    ∃ ns bucketName cfg dyn, (servedBy id (log now actions)).map Served.transition =
      trace (TokenBucket.calcWaitTime .int64) (newBucket ns bucketName cfg dyn)
        ((servedBy id (log now actions)).map Served.input) := by
  have hrun := transitions_eq now actions id
  have hgenuine : ∀ x ∈ servedBy id (log now actions), x.bucket.Genuine memoryFactory := by
    intro x hx
    have hx' := (List.mem_filter.mp hx).1
    rw [log_filterMap_taken] at hx'
    obtain ⟨s, a, s', hs, -, hout⟩ :=
      collect_induction Ordered (fun _ _ _ => step_ordered) (ordered_init now) hx'
    exact genuine_of_taken hs hout
  cases hserved : servedBy id (log now actions) with
  | nil => exact ⟨"", "", {}, false, rfl⟩
  | cons x xs =>
    rw [hserved] at hrun hgenuine
    obtain ⟨ns, bucketName, f, -, himpl⟩ := hgenuine x (by simp)
    have hmade : x.bucket.impl = newBucket ns bucketName x.bucket.cfg x.bucket.dynamic := himpl
    have hinputs : ((x :: xs).map fun x => (x.bucket.impl, x.input)).map Prod.snd =
        (x :: xs).map Served.input := by
      rw [List.map_map]
      rfl
    refine ⟨ns, bucketName, x.bucket.cfg, x.bucket.dynamic, ?_⟩
    rw [hrun, ← hinputs, ← hmade]
    exact outputs_serve_none _ _

/-- What a client gets to know of its request having been served. -/
structure Reported (e : Exchange) (x : Served) : Prop where
  asked : x.request = request e.request.query
  reply : x.reply = Request.afterTake x.bucket x.transition.output
  response : e.response = (e.request.respond (answer x.reply)).1
  event : e.event = some (emitted e.request.query x.reply)

theorem Exchanged.reported {e : Exchange} (h : Exchanged e) (hx : e.taken = some x) :
    Reported e x := by
  cases h with
  | invalid req => cases hx
  | rejected req reply error => cases hx
  | served req y asked coherent reading divisor after reply =>
    cases hx
    exact ⟨asked, reply, rfl, rfl⟩

/-- In every run of the endpoint the requests that get to a bucket are served one after the other, by
one bucket that starts as the factory makes it, and the clients are answered what it answers. -/
theorem bucket_serves_serially (now : ℤ) (actions : List Action) (id : ℕ) :
    (∃ ns bucketName cfg dyn, (servedBy id (log now actions)).map Served.transition =
      trace (TokenBucket.calcWaitTime .int64) (newBucket ns bucketName cfg dyn)
        ((servedBy id (log now actions)).map Served.input)) ∧
      ∀ e ∈ log now actions, ∀ x ∈ e.taken, Reported e x :=
  ⟨serial_run now actions id, fun _ he _ hx => (log_exchanged he).reported hx⟩

end Serial

section Bound
variable {cfg : BucketConfig} {b : TokenBucket} {calls : List Call}

theorem trace_moderate (hcfg : Admissible cfg) (hb : Near cfg b)
    (hcalls : ∀ c ∈ calls, c.Valid ∧ Moderate cfg c) :
    trace (TokenBucket.calcWaitTime .int64) b calls =
      trace (TokenBucket.calcWaitTime .exact) b calls := by
  induction calls generalizing b with
  | nil => rfl
  | cons c calls ih =>
    obtain ⟨⟨hvalid, hmoderate⟩, hrest⟩ := List.forall_mem_cons.mp hcalls
    have hexact := calcWaitTime_int64 (near_word hcfg hb hmoderate.size) hvalid
      (inRange_of_moderate hcfg hb hvalid hmoderate)
    have hafter := near_calcWaitTime hcfg hb hvalid hmoderate
    rw [hexact] at hafter
    rw [trace_cons, trace_cons, hexact, ih hafter hrest]

theorem cfg_of_trace (arith : Arith) {t : Transition TokenBucket Call ℤ}
    (ht : t ∈ trace (TokenBucket.calcWaitTime arith) b calls) : t.before.cfg = b.cfg := by
  have hkeeps : ∀ (b' : TokenBucket) (c : Call), b'.cfg = b.cfg → True →
      (b'.calcWaitTime arith c).1.cfg = b.cfg := by
    intro b' c hb' _
    rw [← hb']
    unfold TokenBucket.calcWaitTime
    dsimp only
    split_ifs <;> rfl
  exact (trace_induction (fun b' => b'.cfg = b.cfg) (fun _ => True) hkeeps rfl
    (fun _ _ => trivial) ht).1

/-- What a bucket has granted, from its steps. -/
theorem granted_eq {served : List Served}
    (h : ∀ x ∈ served, x.reply = Request.afterTake x.bucket x.transition.output) :
    granted served = ((served.map Served.transition).filter fun t => 0 ≤ t.output).map
      fun t => (t.input, t.output) := by
  induction served with
  | nil => rfl
  | cons x served ih =>
    obtain ⟨hreply, hrest⟩ := List.forall_mem_cons.mp h
    have htail := ih hrest
    unfold granted at htail ⊢
    rw [List.filterMap_cons, List.map_cons, List.filter_cons, htail, hreply]
    unfold Request.afterTake
    by_cases hneg : x.transition.output < 0
    · simp [hneg, not_le.mpr hneg]
    · have hpos := not_lt.mp hneg
      have hinput : x.transition.input = x.input := rfl
      simp [hneg, hpos, hinput]

/-- The calls that the loops serve are valid, as long as their numbers fit. -/
theorem valid_of_exchanged {e : Exchange} (he : Exchanged e) {x : Served} (hx : e.taken = some x)
    (hcfg : Admissible x.before.cfg) (hmoderate : Moderate x.before.cfg x.input) :
    x.input.Valid := by
  cases he with
  | invalid req => cases hx
  | rejected req reply error => cases hx
  | served req y asked coherent reading divisor after reply =>
    cases hx
    have hrequested : x.input.requested = req.query.tokensRequested := by
      unfold Served.input
      rw [asked]
      rfl
    have hone : 1 ≤ x.input.requested := by
      rcases query_tokensRequested req with ⟨hone, hquery⟩ | ⟨-, hquery⟩
      · rw [hrequested, hquery]
        exact hone
      · rw [hrequested, hquery]
    have hfits : x.input.requested ≤ 2 ^ 61 := by
      have hcost := hmoderate.cost
      have hnanos := hcfg.one_le_nanosBetween
      have hle : x.input.requested * 1 ≤ x.input.requested * nanosBetween x.before.cfg :=
        mul_le_mul_of_nonneg_left hnanos (by omega)
      omega
    exact ⟨reading.1, reading.2, hone, Arith.int64_fits_iff.mpr (by omega)⟩

/-- The tokens that a bucket of a config grants keep within it. -/
theorem granted_within (now : ℤ) (actions : List Action) (id : ℕ) {cfg : BucketConfig}
    (hcfg : Admissible cfg)
    (h : ∀ x ∈ servedBy id (log now actions), x.before.cfg = cfg ∧ Moderate cfg x.input) :
    Redis.WindowBound cfg (granted (servedBy id (log now actions))) := by
  obtain ⟨ns, bucketName, cfg', dyn, hrun⟩ := serial_run now actions id
  have hknown : ∀ x ∈ servedBy id (log now actions), ∃ e, Exchanged e ∧ e.taken = some x := by
    intro x hx
    obtain ⟨e, he, hx⟩ := List.mem_filterMap.mp (List.mem_filter.mp hx).1
    exact ⟨e, log_exchanged he, hx⟩
  have hreplies : ∀ x ∈ servedBy id (log now actions),
      x.reply = Request.afterTake x.bucket x.transition.output := by
    intro x hx
    obtain ⟨e, he, htaken⟩ := hknown x hx
    exact (he.reported htaken).reply
  cases hserved : servedBy id (log now actions) with
  | nil =>
    intro pre x mid post hsplit
    have hlength := congrArg List.length hsplit
    simp [granted] at hlength
  | cons first rest =>
    have hsame : cfg' = cfg := by
      have hfirst : first ∈ servedBy id (log now actions) := by simp [hserved]
      have ht := List.mem_map_of_mem (f := Served.transition) hfirst
      rw [hrun] at ht
      exact (cfg_of_trace .int64 ht).symm.trans (h first hfirst).1
    subst hsame
    rw [← hserved]
    have hcalls : ∀ c ∈ (servedBy id (log now actions)).map Served.input,
        c.Valid ∧ Moderate cfg' c := by
      intro c hc
      obtain ⟨x, hx, rfl⟩ := List.mem_map.mp hc
      obtain ⟨e, he, htaken⟩ := hknown x hx
      obtain ⟨hbefore, hmoderate⟩ := h x hx
      exact ⟨valid_of_exchanged he htaken (hbefore ▸ hcfg) (hbefore ▸ hmoderate), hmoderate⟩
    have hsound := newBucket_sound hcfg.fills ns bucketName dyn
    have hnew : Near cfg' (newBucket ns bucketName cfg' dyn) :=
      ⟨hsound, le_refl 0, by norm_num [newBucket]⟩
    rw [granted_eq hreplies, hrun, trace_moderate hcfg hnew hcalls]
    apply Redis.windowBound_grants hcfg hsound
    intro c hc
    exact le_trans zero_le_one (hcalls c hc).1.one_le_requested

/-- In every run of the endpoint the tokens that a bucket grants keep within the rate, the size and
the debt of its config, in every window, as long as the numbers are moderate. -/
theorem endpoint_window_bound (now : ℤ) (actions : List Action) (id : ℕ)
    (h : ∀ x ∈ servedBy id (log now actions),
      Admissible x.before.cfg ∧ Moderate x.before.cfg x.input) :
    ∀ x ∈ servedBy id (log now actions),
      Redis.WindowBound x.before.cfg (granted (servedBy id (log now actions))) := by
  intro x hx
  obtain ⟨ns, bucketName, cfg, dyn, hrun⟩ := serial_run now actions id
  have hcfg : ∀ y ∈ servedBy id (log now actions), y.before.cfg = cfg := by
    intro y hy
    have ht := List.mem_map_of_mem (f := Served.transition) hy
    rw [hrun] at ht
    exact cfg_of_trace .int64 ht
  refine granted_within now actions id (h x hx).1 fun y hy => ⟨?_, ?_⟩
  · rw [hcfg y hy, hcfg x hx]
  · rw [hcfg x hx, ← hcfg y hy]
    exact (h y hy).2

/-- Two requests to a bucket of the first config, of which one is sent while the other is served. -/
def crossing : List Action :=
  [.server (.base (.update [] System.shortLived)),
    .allow { «namespace» := "a", bucketName := "x", tokensRequested := 40 },
    .allow { «namespace» := "a", bucketName := "x", tokensRequested := 45 },
    .server (.base (.look 0)), .server (.base (.look 1)), .server (.base (.create 1)),
    .server (.base (.create 0)), .take 0, .take 1, .server (.receive 1),
    .server (.respond 0 1700000000000000000), .server (.receive 0),
    .server (.respond 0 1700000000100000000)]

theorem endpoint_window_bound_crossing : ∃ x ∈ servedBy 0 (log 0 crossing),
    Redis.WindowBound x.before.cfg (granted (servedBy 0 (log 0 crossing))) := by
  have hnumbers : ∀ x ∈ servedBy 0 (log 0 crossing),
      (0 ≤ x.before.cfg.size ∧ 1 ≤ x.before.cfg.fillRate ∧ x.before.cfg.fillRate ≤ 1000000000 ∧
        0 ≤ x.before.cfg.maxDebtMillis) ∧
      x.before.cfg.size ≤ 2 ^ 62 ∧ x.before.cfg.maxDebtMillis * 1000000 ≤ 2 ^ 61 ∧
        x.input.now ≤ 2 ^ 61 ∧ x.input.requested * nanosBetween x.before.cfg ≤ 2 ^ 61 := by
    decide +kernel
  have hserved : servedBy 0 (log 0 crossing) ≠ [] := by decide +kernel
  obtain ⟨first, hfirst⟩ := List.exists_mem_of_ne_nil _ hserved
  refine ⟨first, hfirst, endpoint_window_bound 0 crossing 0 (fun x hx => ?_) first hfirst⟩
  obtain ⟨⟨hsize, hrate, hrate', hdebt⟩, hsize', hdebt', hnow, hcost⟩ := hnumbers x hx
  exact ⟨⟨hsize, hrate, hrate', hdebt⟩, ⟨hsize', hdebt', hnow, hcost⟩⟩

end Bound

section Answers
variable {s s' : State} {a : Action} {i : ℕ} {x : Exchange}

/-- The call that a step answers, with the exchange that this completes. A request that is invalid makes
no call. -/
def answered (s : State) (a : Action) : Option (ℕ × Exchange) :=
  match a with
  | .allow _ => none
  | .take i => (exchange s a).map fun x => (i, x)
  | .server a' => (s.loops.served a').bind fun t => (exchange s a).map fun x => (t.call, x)

/-- A call has its answer. -/
def Replied (s : State) (i : ℕ) : Prop :=
  ∃ c reply, s.loops.clients.lookup i = some c ∧ c.progress = .replied reply

theorem replied_congr (h : s'.loops.clients = s.loops.clients) : Replied s' i ↔ Replied s i := by
  unfold Replied
  rw [h]

/-- Of one call that goes on. -/
theorem replied_insert {j : ℕ} {c : Client} (h : s'.loops.clients = s.loops.clients.insert j c) :
    Replied s' i ↔ (i = j ∧ ∃ reply, c.progress = .replied reply) ∨ (i ≠ j ∧ Replied s i) := by
  unfold Replied
  rw [h]
  by_cases hij : i = j
  · subst hij
    simp
  · simp [hij, AList.lookup_insert_ne hij]

/-- What a step does to the answers: it gives one to a call that has none, or it changes nothing. -/
inductive Answering (s : State) (a : Action) (s' : State) : Prop
  | quiet (silent : answered s a = none) (replied : ∀ i, Replied s' i ↔ Replied s i)
  | answer {i : ℕ} {x : Exchange} (gave : answered s a = some (i, x)) (fresh : ¬ Replied s i)
    (replied : ∀ j, Replied s' j ↔ j = i ∨ Replied s j)
    (request : s.requests.lookup i = some x.request) (event : x.event.isSome = true)

theorem answering_of_insert {j : ℕ} {c : Client} {reply : Reply}
    (hclients : s'.loops.clients = s.loops.clients.insert j c) (hreply : c.progress = .replied reply)
    (i : ℕ) : Replied s' i ↔ i = j ∨ Replied s i := by
  rw [replied_insert hclients]
  by_cases hij : i = j
  · subst hij
    simp [hreply]
  · simp [hij]

theorem quiet_of_insert {j : ℕ} {c : Client} (fresh : ¬ Replied s j)
    (hclients : s'.loops.clients = s.loops.clients.insert j c)
    (hnone : ∀ reply, c.progress ≠ .replied reply) (i : ℕ) : Replied s' i ↔ Replied s i := by
  rw [replied_insert hclients]
  by_cases hij : i = j
  · subst hij
    simp [hnone, fresh]
  · simp [hij]

theorem not_replied {c : Client} (hc : s.loops.clients.lookup i = some c)
    (hnone : ∀ reply, c.progress ≠ .replied reply) : ¬ Replied s i := by
  rintro ⟨c', reply, hc', hreply⟩
  cases hc.symm.trans hc'
  exact hnone reply hreply

theorem take_answering {req : AllowRequest} {loops : Loops}
    (asked : s.requests.lookup i = some req)
    (hstep : s.loops.step (.take i (request req.query)) = some loops) :
    Answering s (.take i) { s with loops := loops } := by
  cases Loops.step_turned hstep with
  | @take _ _ c result absent call returned =>
    have hfresh : ¬ Replied s i := by
      rintro ⟨c', reply, hc', -⟩
      cases absent.symm.trans hc'
    have hphase : s.loops.sys.calls[i]?.map Call.phase = some (.returned result) := by
      rw [call, Option.map_some, returned]
    cases hprogress : (request req.query).afterFind result with
    | replied reply =>
      have hanswered : answered s (.take i) = some (i, exchangeOf req reply none) := by
        simp only [answered, exchange, asked, Option.bind_some, hphase, hprogress, Option.map_some]
      exact .answer hanswered hfresh (answering_of_insert rfl rfl) asked rfl
    | sending b | waiting b =>
      have hanswered : answered s (.take i) = none := by
        simp only [answered, exchange, asked, Option.bind_some, hphase, hprogress, Option.map_none]
      refine .quiet hanswered (quiet_of_insert hfresh rfl fun reply hreply => ?_)
      cases hreply

theorem server_answering (h : Ordered s) {a' : LoopAction} {loops : Loops}
    (other : ∀ i r, a' ≠ .take i r) (hstep : s.loops.step a' = some loops) :
    Answering s (.server a') { s with loops := loops } := by
  cases hserved : s.loops.served a' with
  | some t =>
    obtain ⟨id, -, -, hclient, -, -, -, hserve⟩ := Loops.served_eq_some hserved
    cases hserve.symm.trans hstep
    obtain ⟨req, hreq, -⟩ := h.routed.asked _ _ hclient
    have hfresh : ¬ Replied s t.call :=
      not_replied hclient fun reply hreply => by cases hreply
    have hexchange : answered s (.server a') = some (t.call, exchangeOf req t.reply (some t)) := by
      simp [answered, exchange, hserved, hreq]
    refine .answer hexchange hfresh ?_ hreq rfl
    exact answering_of_insert rfl rfl
  | none =>
    have hnone : answered s (.server a') = none := by
      simp [answered, hserved]
    refine .quiet hnone ?_
    cases Loops.step_turned hstep with
    | base | exit => exact fun i => replied_congr rfl
    | take => exact absurd rfl (other _ _)
    | receive client sending =>
      have hfresh := not_replied client fun reply hreply => by cases sending.symm.trans hreply
      exact quiet_of_insert hfresh rfl fun reply hreply => by cases hreply
    | respond reply tokens hserving client waiting =>
      simp [Loops.served, hserving, client, waiting] at hserved

theorem step_answering (h : Ordered s) (hs : step s a = some s') : Answering s a s' := by
  cases step_stepped hs with
  | invalid => exact .quiet rfl fun i => Iff.rfl
  | allow req hstep =>
    refine .quiet rfl fun i => ?_
    cases Loops.step_turned hstep with
    | base => exact replied_congr rfl
  | take asked hstep => exact take_answering asked hstep
  | server other sane hstep => exact server_answering h other hstep

/-- A request that has been taken note of stays. -/
theorem step_requests (h : Ordered s) (hs : step s a = some s') {req : AllowRequest}
    (hreq : s.requests.lookup i = some req) : s'.requests.lookup i = some req := by
  cases step_stepped hs with
  | invalid | take | server => exact hreq
  | allow req' hstep =>
    have hlt := h.routed.known i req hreq
    exact (AList.lookup_insert_ne hlt.ne).trans hreq

/-- The answers of a run so far. -/
structure Settled (s : State) (answers : List (ℕ × Exchange)) : Prop where
  ordered : Ordered s
  once : (answers.map Prod.fst).Nodup
  replied : ∀ i, i ∈ answers.map Prod.fst ↔ Replied s i
  own : ∀ p ∈ answers, s.requests.lookup p.1 = some p.2.request ∧ p.2.event.isSome = true

theorem step_settled {answers : List (ℕ × Exchange)} (h : Settled s answers)
    (hs : step s a = some s') : Settled s' (answers ++ (answered s a).toList) := by
  have hordered := step_ordered h.ordered hs
  have hown : ∀ p ∈ answers, s'.requests.lookup p.1 = some p.2.request ∧ p.2.event.isSome = true :=
    fun p hp => ⟨step_requests h.ordered hs (h.own p hp).1, (h.own p hp).2⟩
  cases step_answering h.ordered hs with
  | quiet silent replied =>
    rw [silent, Option.toList_none, List.append_nil]
    exact ⟨hordered, h.once, fun i => (h.replied i).trans (replied i).symm, hown⟩
  | @answer i x gave fresh replied request event =>
    rw [gave, Option.toList_some]
    refine ⟨hordered, ?_, fun j => ?_, fun p hp => ?_⟩
    · rw [List.map_append, List.nodup_append]
      refine ⟨h.once, List.nodup_singleton _, fun j hj k hk hjk => ?_⟩
      have hki : k = i := by simpa using hk
      exact fresh ((h.replied i).mp (hki ▸ hjk ▸ hj))
    · rw [List.map_append, List.mem_append, h.replied j, replied j]
      simp [or_comm]
    · rcases List.mem_append.mp hp with hp | hp
      · exact hown p hp
      · obtain rfl := List.mem_singleton.mp hp
        exact ⟨step_requests h.ordered hs request, event⟩

theorem map_snd_answered (s : State) (a : Action) (h : ∀ req, a ≠ .allow req) :
    (answered s a).map Prod.snd = exchange s a := by
  cases a with
  | allow req => exact absurd rfl (h req)
  | take i => cases hx : exchange s (.take i) <;> simp [answered, hx]
  | server a' => cases hserved : s.loops.served a' with
    | none => simp [answered, exchange, hserved]
    | some t => cases hx : exchange s (.server a') <;> simp [answered, hserved, hx]

/-- An exchange that is not of a call is of an invalid request. -/
theorem answered_eq (h : Ordered s) (hs : step s a = some s') :
    (answered s a).map Prod.snd = (exchange s a).filter fun x => !invalid x.request := by
  by_cases hallow : ∃ req, a = .allow req
  · obtain ⟨req, rfl⟩ := hallow
    simp only [answered, exchange]
    split_ifs with hinvalid
    · simp [Option.filter, hinvalid]
    · rfl
  · have hsame := map_snd_answered s a fun req ha => hallow ⟨req, ha⟩
    rw [hsame]
    cases step_answering h hs with
    | quiet silent =>
      rw [silent] at hsame
      rw [← hsame]
      rfl
    | answer gave fresh replied request =>
      have hvalid := h.valid _ _ request
      rw [gave] at hsame
      rw [← hsame]
      simp [Option.filter, hvalid]

/-- In every run of the endpoint, a valid request is answered at most once, with the response to itself
and an event, and those that are not answered are the calls that are still under way. -/
theorem answered_once (now : ℤ) (actions : List Action) (s : State)
    (hrun : run step (init now) actions = some s) :
    let answers := collect step answered (init now) actions
    (answers.map Prod.fst).Nodup ∧
      (∀ i, i ∈ answers.map Prod.fst ↔ Replied s i) ∧
      (∀ p ∈ answers, s.requests.lookup p.1 = some p.2.request ∧ p.2.event.isSome = true) ∧
      (log now actions).filter (fun x => !invalid x.request) = answers.map Prod.snd := by
  have hinit : Settled (init now) [] := by
    refine ⟨ordered_init now, List.nodup_nil, fun i => ?_, fun p hp => ?_⟩
    · constructor
      · intro hi
        exact absurd hi List.not_mem_nil
      · rintro ⟨c, reply, hc, -⟩
        cases hc
    · exact absurd hp List.not_mem_nil
  have hsettled : Settled s ([] ++ collect step answered (init now) actions) :=
    collect_run_invariant Settled (fun _ _ _ _ h hs => step_settled h hs) hinit hrun
  have hlog : (log now actions).filter (fun x => !invalid x.request) =
      (collect step answered (init now) actions).map Prod.snd := by
    rw [log, ← collect_filter, ← collect_map]
    exact (collect_congr Ordered (fun _ _ _ => step_ordered) (fun _ _ _ => answered_eq)
      (ordered_init now) actions).symm
  exact ⟨hsettled.once, hsettled.replied, hsettled.own, hlog⟩

/-- Two calls of the run have been answered, the second before the first. -/
theorem answered_once_crossing :
    ∃ s, run step (init 0) crossing = some s ∧
      (∀ i, i ∈ (collect step answered (init 0) crossing).map Prod.fst ↔ Replied s i) ∧
      (log 0 crossing).filter (fun x => !invalid x.request) =
        (collect step answered (init 0) crossing).map Prod.snd := by
  have hrun : (run step (init 0) crossing).isSome = true := by decide +kernel
  obtain ⟨s, hs⟩ := Option.isSome_iff_exists.mp hrun
  have honce := answered_once 0 crossing s hs
  exact ⟨s, hs, honce.2.1, honce.2.2.2⟩

end Answers

end QuotaService.Allowing
