import Mathlib.Data.List.Basic
import QuotaService.Lib.Machine

/-! How the Redis factory replaces a client that was closed. Clients are numbered as they are created,
so that to compare two of them is to compare their numbers. A section under the factory's lock is one
step, and so is a ping; sleeping is not a step. -/
namespace QuotaService.Redis.Reconnect

/-- Where `establishNewConnectionToRedis` is: before a call of `reconnectToRedis`, before one of
`Client`, before a ping, or past its loops. -/
inductive Position
  | reconnect
  | getClient
  | ping
  | connected
deriving DecidableEq

/-- The goroutine, with its local variables. The delay is in seconds. -/
structure Goroutine where
  client : ℕ
  position : Position
  attemptsRemaining : ℤ
  numsTried : ℕ
  exponentialDelay : ℤ

def exponentialDelayCeiling : ℤ := 180

/-- The start of `establishNewConnectionToRedis`. -/
def Goroutine.start (connectionRetries : ℤ) (oldClient : ℕ) : Goroutine :=
  ⟨oldClient, .reconnect, connectionRetries, 0, 1⟩

/-- After a ping that failed the next attempt follows, with a new count when there are none left. -/
def Goroutine.retry (connectionRetries : ℤ) (g : Goroutine) : Goroutine :=
  if 0 < g.attemptsRemaining then { g with position := .reconnect }
  else
    let exponentialDelay := g.exponentialDelay * 2
    { g with
      position := .reconnect
      attemptsRemaining := connectionRetries
      exponentialDelay :=
        if exponentialDelayCeiling < exponentialDelay then 1 else exponentialDelay }

/-- The factory, the clients that it has closed, and those that are held by calls of `Take`. -/
structure State where
  client : Option ℕ
  connectionRetries : ℤ
  connectionNeedsResolution : Bool
  numTimesConnResolved : ℕ
  created : ℕ
  closed : List ℕ
  goroutines : List Goroutine
  takes : List ℕ
  /-- The client that the last successful ping went to. -/
  pinged : Option ℕ

/-- `NewBucketFactory` and `NewClusterBucketFactory`. -/
def start (connectionRetries : ℤ) : State where
  client := none
  connectionRetries := if connectionRetries < 1 then 1 else connectionRetries
  connectionNeedsResolution := false
  numTimesConnResolved := 0
  created := 0
  closed := []
  goroutines := []
  takes := []
  pinged := none

namespace State

def connectToRedisLocked (s : State) : State :=
  { s with client := some s.created, created := s.created + 1 }

/-- `Init`, of which the client only is modelled. -/
def init (s : State) : State := if s.client = none then s.connectToRedisLocked else s

/-- `none` is the panic on a nil client. -/
def reconnectToRedis (s : State) (oldClient : ℕ) : Option State :=
  s.client.map fun client =>
    let s := { s with closed := s.closed ++ [client] }
    if oldClient = client then s.connectToRedisLocked else s

def handleConnectionFailure (s : State) (oldClient : ℕ) : State :=
  if some oldClient = s.client ∧ s.connectionNeedsResolution = false then
    { s with
      connectionNeedsResolution := true
      goroutines := s.goroutines ++ [.start s.connectionRetries oldClient] }
  else s

end State

/-- A `Take` gets its client and later reports that the client was closed, or does not. The other
actions are those of `Init` and of the goroutine with a number. -/
inductive Action
  | init
  | take
  | report (n : ℕ)
  | done (n : ℕ)
  | reconnect (n : ℕ)
  | getClient (n : ℕ)
  | ping (n : ℕ) (ok : Bool)
  | resolve (n : ℕ)

def step (s : State) : Action → Option State
  | .init => some s.init
  | .take => s.client.map fun client => { s with takes := s.takes ++ [client] }
  | .report n => s.takes[n]?.map fun oldClient =>
      { s with takes := s.takes.eraseIdx n }.handleConnectionFailure oldClient
  | .done n => if n < s.takes.length then some { s with takes := s.takes.eraseIdx n } else none
  | .reconnect n => do
    let g ← s.goroutines[n]?
    if g.position = .reconnect then
      let g' := { g with
        position := .getClient
        attemptsRemaining := g.attemptsRemaining - 1
        numsTried := g.numsTried + 1 }
      { s with goroutines := s.goroutines.set n g' }.reconnectToRedis g.client
    else none
  | .getClient n => do
    let g ← s.goroutines[n]?
    let client ← s.client
    if g.position = .getClient then
      some { s with goroutines := s.goroutines.set n { g with client := client, position := .ping } }
    else none
  | .ping n ok => do
    let g ← s.goroutines[n]?
    if g.position = .ping then
      if ok then
        some { s with
          goroutines := s.goroutines.set n { g with position := .connected }
          pinged := some g.client }
      else some { s with goroutines := s.goroutines.set n (g.retry s.connectionRetries) }
    else none
  | .resolve n => do
    let g ← s.goroutines[n]?
    if g.position = .connected then
      some { s with
        goroutines := s.goroutines.eraseIdx n
        connectionNeedsResolution := false
        numTimesConnResolved := s.numTimesConnResolved + 1 }
    else none

/-- What the goroutine knows of the current client. Only between closing the old client and asking for
the new one is its own client another one. -/
def Knows (s : State) (g : Goroutine) : Prop :=
  match g.position with
  | .reconnect | .ping => s.client = some g.client
  | .getClient => s.client.isSome = true
  | .connected => s.client = some g.client ∧ s.pinged = some g.client

/-- The flag tells whether there is a goroutine, and then there is one only. -/
inductive Flight (s : State) : Prop
  | idle (none_running : s.goroutines = []) (flag : s.connectionNeedsResolution = false)
  | resolving (g : Goroutine) (running : s.goroutines = [g])
      (flag : s.connectionNeedsResolution = true) (knows : Knows s g)

structure Inv (s : State) : Prop where
  flight : Flight s
  old_closed : ∀ c < s.created, s.client ≠ some c → c ∈ s.closed
  current_open : ∀ c ∈ s.client, c < s.created ∧ c ∉ s.closed
  closed_created : ∀ c ∈ s.closed, c < s.created

theorem start_inv (connectionRetries : ℤ) : Inv (start connectionRetries) where
  flight := .idle rfl rfl
  old_closed c hc := by cases hc
  current_open c hc := by cases hc
  closed_created c hc := by cases hc

/-- The clients are as they were. -/
structure SameClients (s s' : State) : Prop where
  client : s'.client = s.client
  created : s'.created = s.created
  closed : s'.closed = s.closed

theorem Inv.of_sameClients {s s' : State} (h : Inv s) (hsame : SameClients s s')
    (hflight : Flight s') : Inv s' where
  flight := hflight
  old_closed c hc hne := by
    rw [hsame.created] at hc
    rw [hsame.client] at hne
    rw [hsame.closed]
    exact h.old_closed c hc hne
  current_open c hc := by
    rw [hsame.client] at hc
    rw [hsame.created, hsame.closed]
    exact h.current_open c hc
  closed_created c hc := by
    rw [hsame.closed] at hc
    rw [hsame.created]
    exact h.closed_created c hc

theorem Flight.congr {s s' : State} (h : Flight s) (hclient : s'.client = s.client)
    (hpinged : s'.pinged = s.pinged) (hgoroutines : s'.goroutines = s.goroutines)
    (hflag : s'.connectionNeedsResolution = s.connectionNeedsResolution) : Flight s' := by
  cases h with
  | idle hnone hunset => exact .idle (hgoroutines.trans hnone) (hflag.trans hunset)
  | resolving g hrunning hset hknows =>
    refine .resolving g (hgoroutines.trans hrunning) (hflag.trans hset) ?_
    unfold Knows at hknows ⊢
    rw [hclient, hpinged]
    exact hknows

/-- The goroutine does not meet a nil client. -/
theorem Flight.client_isSome {s : State} (h : Flight s) (hrunning : s.goroutines ≠ []) :
    s.client.isSome = true := by
  cases h with
  | idle hnone _ => exact absurd hnone hrunning
  | resolving g _ _ hknows =>
    unfold Knows at hknows
    cases hposition : g.position <;> simp only [hposition] at hknows <;> simp [hknows]

/-- The goroutine that a step is one of is the only one. -/
theorem Flight.getElem? {s : State} (h : Flight s) {n : ℕ} {g : Goroutine}
    (hn : s.goroutines[n]? = some g) :
    n = 0 ∧ s.goroutines = [g] ∧ s.connectionNeedsResolution = true ∧ Knows s g := by
  cases h with
  | idle hnone _ =>
    rw [hnone] at hn
    cases hn
  | resolving g' hrunning hflag hknows =>
    rw [hrunning] at hn
    cases n with
    | zero =>
      cases hn
      exact ⟨rfl, hrunning, hflag, hknows⟩
    | succ n => cases hn

theorem Goroutine.retry_position (connectionRetries : ℤ) (g : Goroutine) :
    (g.retry connectionRetries).position = .reconnect ∧
      (g.retry connectionRetries).client = g.client := by
  unfold retry
  split_ifs <;> exact ⟨rfl, rfl⟩

theorem handleConnectionFailure_inv {s : State} (h : Inv s) (oldClient : ℕ) :
    Inv (s.handleConnectionFailure oldClient) := by
  unfold State.handleConnectionFailure
  split_ifs with hfailed
  · refine h.of_sameClients ⟨rfl, rfl, rfl⟩ ?_
    cases h.flight with
    | idle hnone _ =>
      exact .resolving (.start s.connectionRetries oldClient) (by simp [hnone]) rfl hfailed.1.symm
    | resolving g _ hflag _ =>
      rw [hflag] at hfailed
      cases hfailed.2
  · exact h

/-- Closing the current client and connecting anew, as the goroutine does. -/
theorem connect_inv {s : State} {client : ℕ} {g : Goroutine} (h : Inv s)
    (hclient : s.client = some client) (hposition : g.position = .getClient) {s' : State}
    (hs' : s' = { s with
      client := some s.created, created := s.created + 1, closed := s.closed ++ [client],
      goroutines := [g], connectionNeedsResolution := true }) : Inv s' := by
  subst hs'
  obtain ⟨hcreated, _⟩ := h.current_open client hclient
  constructor
  · exact .resolving g rfl rfl (by simp [Knows, hposition])
  · intro c hc hne
    have hlt : c < s.created + 1 := hc
    have hne : s.created ≠ c := fun heq => hne (congrArg some heq)
    rw [List.mem_append, List.mem_singleton]
    by_cases hcurrent : c = client
    · exact Or.inr hcurrent
    · apply Or.inl
      apply h.old_closed c (by omega)
      rw [hclient]
      exact fun heq => hcurrent (Option.some.inj heq).symm
  · intro c hc
    cases hc
    refine ⟨Nat.lt_succ_self _, fun hclosed => ?_⟩
    rcases List.mem_append.mp hclosed with hold | hold
    · have hlt := h.closed_created _ hold
      omega
    · have heq := List.mem_singleton.mp hold
      omega
  · intro c hc
    change c < s.created + 1
    rcases List.mem_append.mp hc with hold | hold
    · have hlt := h.closed_created _ hold
      omega
    · have heq := List.mem_singleton.mp hold
      omega

/-- The first client. There is no goroutine before it. -/
theorem init_inv {s : State} (h : Inv s) : Inv s.init := by
  unfold State.init
  split_ifs with hnone
  · constructor
    · cases h.flight with
      | idle hnot hflag => exact .idle hnot hflag
      | resolving g hrunning _ _ =>
        have hsome := h.flight.client_isSome (by simp [hrunning])
        simp [hnone] at hsome
    · intro c hc hne
      simp only [State.connectToRedisLocked, ne_eq, Option.some.injEq] at hc hne
      exact h.old_closed c (by omega) (by simp [hnone])
    · intro c hc
      cases hc
      refine ⟨Nat.lt_succ_self _, fun hclosed => ?_⟩
      have hlt := h.closed_created _ hclosed
      omega
    · intro c hc
      have hlt := h.closed_created c hc
      exact Nat.lt_succ_of_lt hlt
  · exact h

theorem step_inv {s s' : State} {a : Action} (h : Inv s) (hs : step s a = some s') : Inv s' := by
  cases a with
  | init =>
    cases hs
    exact init_inv h
  | take =>
    obtain ⟨client, -, rfl⟩ := Option.map_eq_some_iff.mp hs
    exact h.of_sameClients ⟨rfl, rfl, rfl⟩ (h.flight.congr rfl rfl rfl rfl)
  | report n =>
    obtain ⟨oldClient, -, rfl⟩ := Option.map_eq_some_iff.mp hs
    apply handleConnectionFailure_inv
    exact h.of_sameClients ⟨rfl, rfl, rfl⟩ (h.flight.congr rfl rfl rfl rfl)
  | done n =>
    simp only [step] at hs
    split_ifs at hs
    cases hs
    exact h.of_sameClients ⟨rfl, rfl, rfl⟩ (h.flight.congr rfl rfl rfl rfl)
  | reconnect n =>
    simp only [step, Option.bind_eq_bind, Option.bind_eq_some_iff] at hs
    obtain ⟨g, hn, hs⟩ := hs
    split_ifs at hs with hposition
    obtain ⟨rfl, hrunning, hflag, hknows⟩ := h.flight.getElem? hn
    rw [Knows, hposition] at hknows
    obtain ⟨client, hclient, rfl⟩ := Option.map_eq_some_iff.mp hs
    have heq : g.client = client := Option.some.inj (hknows.symm.trans hclient)
    refine connect_inv h hclient (g := { g with
      position := .getClient, attemptsRemaining := g.attemptsRemaining - 1,
      numsTried := g.numsTried + 1 }) rfl ?_
    simp [heq, State.connectToRedisLocked, hrunning, hflag]
  | getClient n =>
    simp only [step, Option.bind_eq_bind, Option.bind_eq_some_iff] at hs
    obtain ⟨g, hn, client, hclient, hs⟩ := hs
    split_ifs at hs with hposition
    cases hs
    obtain ⟨rfl, hrunning, hflag, -⟩ := h.flight.getElem? hn
    exact h.of_sameClients ⟨rfl, rfl, rfl⟩
      (.resolving { g with client := client, position := .ping } (by simp [hrunning]) hflag hclient)
  | ping n ok =>
    simp only [step, Option.bind_eq_bind, Option.bind_eq_some_iff] at hs
    obtain ⟨g, hn, hs⟩ := hs
    split_ifs at hs with hposition hok
    · cases hs
      obtain ⟨rfl, hrunning, hflag, hknows⟩ := h.flight.getElem? hn
      rw [Knows, hposition] at hknows
      exact h.of_sameClients ⟨rfl, rfl, rfl⟩
        (.resolving { g with position := .connected } (by simp [hrunning]) hflag ⟨hknows, rfl⟩)
    · cases hs
      obtain ⟨rfl, hrunning, hflag, hknows⟩ := h.flight.getElem? hn
      rw [Knows, hposition] at hknows
      obtain ⟨hnext, hclient⟩ := g.retry_position s.connectionRetries
      refine h.of_sameClients ⟨rfl, rfl, rfl⟩
        (.resolving (g.retry s.connectionRetries) (by simp [hrunning]) hflag ?_)
      rw [Knows, hnext, hclient]
      exact hknows
  | resolve n =>
    simp only [step, Option.bind_eq_bind, Option.bind_eq_some_iff] at hs
    obtain ⟨g, hn, hs⟩ := hs
    split_ifs at hs with hposition
    cases hs
    obtain ⟨rfl, hrunning, -, -⟩ := h.flight.getElem? hn
    exact h.of_sameClients ⟨rfl, rfl, rfl⟩ (.idle (by simp [hrunning]) rfl)

theorem run_inv {connectionRetries : ℤ} {as : List Action} {s : State}
    (hr : Machine.run step (start connectionRetries) as = some s) : Inv s :=
  Machine.run_invariant Inv (fun _ _ _ => step_inv) (start_inv connectionRetries) hr

/-- A report of a client that was replaced since. -/
theorem report_stale {s s' : State} {n c : ℕ} (hn : s.takes[n]? = some c) (hc : s.client ≠ some c)
    (hs : step s (.report n) = some s') : s'.goroutines = s.goroutines := by
  simp only [step, hn, Option.map_some, Option.some.injEq] at hs
  subst hs
  unfold State.handleConnectionFailure
  rw [if_neg (fun hfailed => hc hfailed.1.symm)]

/-- Only the goroutine closes clients. -/
theorem closed_of_idle {s s' : State} {a : Action} (hidle : s.goroutines = [])
    (hs : step s a = some s') : s'.closed = s.closed := by
  cases a with
  | init =>
    cases hs
    unfold State.init
    split_ifs <;> rfl
  | take =>
    obtain ⟨client, -, rfl⟩ := Option.map_eq_some_iff.mp hs
    rfl
  | report n =>
    obtain ⟨oldClient, -, rfl⟩ := Option.map_eq_some_iff.mp hs
    unfold State.handleConnectionFailure
    split_ifs <;> rfl
  | done n =>
    simp only [step] at hs
    split_ifs at hs
    cases hs
    rfl
  | reconnect n => simp [step, hidle] at hs
  | getClient n => simp [step, hidle] at hs
  | ping n ok => simp [step, hidle] at hs
  | resolve n => simp [step, hidle] at hs

/-- When a goroutine is done, the client is the one that it has pinged. -/
theorem Inv.resolved {s s' : State} {n : ℕ} (h : Inv s) (hs : step s (.resolve n) = some s') :
    s'.client.isSome = true ∧ s'.client = s'.pinged := by
  simp only [step, Option.bind_eq_bind, Option.bind_eq_some_iff] at hs
  obtain ⟨g, hn, hs⟩ := hs
  split_ifs at hs with hposition
  cases hs
  obtain ⟨-, -, -, hknows⟩ := h.flight.getElem? hn
  rw [Knows, hposition] at hknows
  exact ⟨by simp [hknows.1], hknows.1.trans hknows.2.symm⟩

/-- One reconnection at a time, started by failures of the current client only, which replaces clients
that are closed and leaves the current one open. -/
theorem run_single_flight {connectionRetries : ℤ} {as : List Action} {s : State}
    (hr : Machine.run step (start connectionRetries) as = some s) :
    s.goroutines.length ≤ 1 ∧
      (∀ c < s.created, s.client ≠ some c → c ∈ s.closed) ∧
      (∀ c ∈ s.client, c ∉ s.closed) ∧
      ∀ a s', step s a = some s' →
        (∀ n c, a = .report n → s.takes[n]? = some c → s.client ≠ some c →
          s'.goroutines = s.goroutines) ∧
        (s.goroutines = [] → s'.closed = s.closed) ∧
        (∀ n, a = .resolve n → s'.client.isSome = true ∧ s'.client = s'.pinged) := by
  have h := run_inv hr
  refine ⟨?_, h.old_closed, fun c hc => (h.current_open c hc).2, fun a s' hs => ⟨?_, ?_, ?_⟩⟩
  · cases h.flight with
    | idle hnone _ => simp [hnone]
    | resolving g hrunning _ _ => simp [hrunning]
  · intro n c ha hn hc
    subst ha
    exact report_stale hn hc hs
  · intro hidle
    exact closed_of_idle hidle hs
  · intro n ha
    subst ha
    exact h.resolved hs

theorem run_single_flight_stale :
    let as : List Action := [.init, .take, .take, .take, .report 0, .reconnect 0, .report 0,
      .getClient 0, .ping 0 false, .reconnect 0, .getClient 0, .ping 0 true, .resolve 0, .report 0]
    ∃ s, Machine.run step (start 3) as = some s ∧ (s.client = some 2 ∧ s.closed = [0, 1]) ∧
      s.goroutines.length ≤ 1 ∧
      (∀ c < s.created, s.client ≠ some c → c ∈ s.closed) ∧
      (∀ c ∈ s.client, c ∉ s.closed) ∧
      ∀ a s', step s a = some s' →
        (∀ n c, a = .report n → s.takes[n]? = some c → s.client ≠ some c →
          s'.goroutines = s.goroutines) ∧
        (s.goroutines = [] → s'.closed = s.closed) ∧
        (∀ n, a = .resolve n → s'.client.isSome = true ∧ s'.client = s'.pinged) := by
  intro as
  obtain ⟨s, hr, hclients⟩ : ∃ s, Machine.run step (start 3) as = some s ∧
      (s.client = some 2 ∧ s.closed = [0, 1]) := Machine.exists_run (by decide)
  exact ⟨s, hr, hclients, run_single_flight hr⟩

end QuotaService.Redis.Reconnect
