import Mathlib.Data.List.GetD
import Mathlib.Data.List.Nodup
import QuotaService.Stats.Listeners

/-! The batcher of the stats listener, with the calls of `HandleEvent` that run beside it. A section
between `Lock` and `Unlock` is one step, and so is a communication on a channel. What a goroutine does
to its own variables belongs to the step before it. -/
namespace QuotaService.Stats
open Events Arith

/-- The arguments of `queueStatsUpdate`. -/
structure StatsUpdate where
  «namespace» : String
  numTokens : ℤ
  bucket : String
deriving DecidableEq

/-- The call of `queueStatsUpdate` that an event leads to, if it is counted. -/
def statsUpdate (event : Event) : Option StatsUpdate :=
  if event.dynamic = false then none
  else match event.eventType with
    | .bucketMiss => some ⟨statsNamespace "misses" event.namespace, 1, event.bucketName⟩
    | .tokensServed =>
      some ⟨statsNamespace "hits" event.namespace, event.numTokens, event.bucketName⟩
    | _ => none

def StatsUpdate.commands (u : StatsUpdate) : List Command :=
  [.zIncrBy u.namespace (float64.wrap u.numTokens) u.bucket, .expireAt u.namespace]

theorem handleEvent_eq (l : RedisListener) (event : Event) :
    l.handleEvent event = match statsUpdate event with
      | none => l
      | some u => l.queueStatsUpdate u.namespace u.numTokens u.bucket := by
  unfold RedisListener.handleEvent statsUpdate
  by_cases hdynamic : event.dynamic = false
  · simp [hdynamic]
  · cases h : event.eventType <;> simp [hdynamic]

namespace Batching

/-- An update in a pipeline. Updates are numbered in the order in which they are queued. -/
structure Queued where
  number : ℕ
  update : StatsUpdate
deriving DecidableEq

abbrev Pipeline := List Queued

def commands (pipe : Pipeline) : List Command := pipe.flatMap fun q => q.update.commands

/-- A call of `HandleEvent` is about to queue its update, or about to notify the batcher. -/
inductive Call
  | queueing (event : Event) (update : StatsUpdate)
  | notifying
deriving DecidableEq

/-- The batcher waits in its `select`, is about to check the count after one of the two cases, or is
about to swap the pipelines. -/
inductive Batcher
  | select
  | timeoutCase
  | notificationCase
  | swap
deriving DecidableEq

/-- The listener with its goroutines; `submitted` are the pipelines that were handed to
`submitBatch`. -/
structure State where
  pipe : Pipeline
  queuedUpdates : ℕ
  notifyBatcher : Bool
  batcher : Batcher
  calls : List Call
  submitted : List Pipeline
  queued : List Queued

def start : State := ⟨[], 0, false, .select, [], [], []⟩

/-- All pipelines that there have been. -/
def State.pipelines (s : State) : List Pipeline := s.submitted ++ [s.pipe]

inductive Action
  | handleEvent (event : Event)
  | queue (n : ℕ)
  | notify (n : ℕ)
  | timeout
  | notification
  | check
  | swap

def step (batchSize : ℤ) (s : State) : Action → Option State
  | .handleEvent event => match statsUpdate event with
    | none => some s
    | some u => some { s with calls := s.calls ++ [.queueing event u] }
  | .queue n => match s.calls[n]? with
    | some (.queueing _ u) =>
      let q : Queued := ⟨s.queued.length, u⟩
      some { s with
        pipe := s.pipe ++ [q]
        queuedUpdates := s.queuedUpdates + 1
        calls := s.calls.set n .notifying
        queued := s.queued ++ [q] }
    | _ => none
  -- the channel holds one notification, and a second one is dropped
  | .notify n => match s.calls[n]? with
    | some .notifying => some { s with notifyBatcher := true, calls := s.calls.eraseIdx n }
    | _ => none
  | .timeout => if s.batcher = .select then some { s with batcher := .timeoutCase } else none
  | .notification =>
    if s.batcher = .select ∧ s.notifyBatcher = true then
      some { s with notifyBatcher := false, batcher := .notificationCase }
    else none
  | .check => match s.batcher with
    | .timeoutCase => some { s with batcher := if s.queuedUpdates ≠ 0 then .swap else .select }
    | .notificationCase =>
      some { s with batcher := if batchSize ≤ s.queuedUpdates then .swap else .select }
    | _ => none
  | .swap =>
    if s.batcher = .swap then
      some { s with
        pipe := []
        queuedUpdates := 0
        batcher := .select
        submitted := s.submitted ++ [s.pipe] }
    else none

/-- What a step can do. -/
inductive Stepped (batchSize : ℤ) (s : State) : Action → State → Prop
  | uncounted {event : Event} (hu : statsUpdate event = none) :
      Stepped batchSize s (.handleEvent event) s
  | called {event : Event} {u : StatsUpdate} (hu : statsUpdate event = some u) :
      Stepped batchSize s (.handleEvent event) { s with calls := s.calls ++ [.queueing event u] }
  | queued {n : ℕ} {event : Event} {u : StatsUpdate} (hn : s.calls[n]? = some (.queueing event u)) :
      Stepped batchSize s (.queue n) { s with
        pipe := s.pipe ++ [⟨s.queued.length, u⟩]
        queuedUpdates := s.queuedUpdates + 1
        calls := s.calls.set n .notifying
        queued := s.queued ++ [⟨s.queued.length, u⟩] }
  | notified {n : ℕ} (hn : s.calls[n]? = some .notifying) :
      Stepped batchSize s (.notify n) { s with notifyBatcher := true, calls := s.calls.eraseIdx n }
  | timedOut (hselect : s.batcher = .select) :
      Stepped batchSize s .timeout { s with batcher := .timeoutCase }
  | woken (hselect : s.batcher = .select) (hnotified : s.notifyBatcher = true) :
      Stepped batchSize s .notification
        { s with notifyBatcher := false, batcher := .notificationCase }
  | checkedAny (hcase : s.batcher = .timeoutCase) : Stepped batchSize s .check
      { s with batcher := if s.queuedUpdates ≠ 0 then .swap else .select }
  | checkedFull (hcase : s.batcher = .notificationCase) : Stepped batchSize s .check
      { s with batcher := if batchSize ≤ s.queuedUpdates then .swap else .select }
  | swapped (hswap : s.batcher = .swap) : Stepped batchSize s .swap { s with
      pipe := []
      queuedUpdates := 0
      batcher := .select
      submitted := s.submitted ++ [s.pipe] }

theorem step_cases {batchSize : ℤ} {s s' : State} {a : Action}
    (hs : step batchSize s a = some s') : Stepped batchSize s a s' := by
  cases a with
  | handleEvent event =>
    simp only [step] at hs
    split at hs
    · next hu =>
      cases hs
      exact .uncounted hu
    · next u hu =>
      cases hs
      exact .called hu
  | queue n =>
    simp only [step] at hs
    split at hs
    · next event u hn =>
      cases hs
      exact .queued hn
    · cases hs
  | notify n =>
    simp only [step] at hs
    split at hs
    · next hn =>
      cases hs
      exact .notified hn
    · cases hs
  | timeout =>
    simp only [step] at hs
    split_ifs at hs with hselect
    cases hs
    exact .timedOut hselect
  | notification =>
    simp only [step] at hs
    split_ifs at hs with hready
    cases hs
    exact .woken hready.1 hready.2
  | check =>
    simp only [step] at hs
    split at hs
    · next hcase =>
      cases hs
      exact .checkedAny hcase
    · next hcase =>
      cases hs
      exact .checkedFull hcase
    · cases hs
  | swap =>
    simp only [step] at hs
    split_ifs at hs with hswap
    cases hs
    exact .swapped hswap

/-- What the steps preserve. A full batch that the batcher does not know of yet is about to be
announced. -/
structure Inv (batchSize : ℤ) (s : State) : Prop where
  numbered : s.queued.map Queued.number = List.range s.queued.length
  conserved : s.pipelines.flatten = s.queued
  counted : s.queuedUpdates = s.pipe.length
  awake : batchSize ≤ s.queuedUpdates →
    .notifying ∈ s.calls ∨ s.notifyBatcher = true ∨ s.batcher ≠ .select

theorem start_inv {batchSize : ℤ} (hbatch : 1 ≤ batchSize) : Inv batchSize start where
  numbered := by simp [start]
  conserved := by simp [start, State.pipelines]
  counted := by simp [start]
  awake h := by
    simp only [start, Nat.cast_zero] at h
    omega

theorem step_inv {batchSize : ℤ} (hbatch : 1 ≤ batchSize) {s s' : State} {a : Action}
    (h : Inv batchSize s) (hs : step batchSize s a = some s') : Inv batchSize s' := by
  cases step_cases hs with
  | uncounted => exact h
  | called =>
    refine ⟨h.numbered, h.conserved, h.counted, fun hfull => ?_⟩
    have hawake := h.awake hfull
    simp only [List.mem_append]
    tauto
  | @queued n event u hn =>
    constructor
    · simp [h.numbered, List.range_succ]
    · have hconserved := h.conserved
      simp only [State.pipelines, List.flatten_append, List.flatten_singleton] at hconserved ⊢
      rw [← List.append_assoc, hconserved]
    · simp [h.counted]
    -- the call that filled the batch has yet to notify
    · intro _
      apply Or.inl
      have hlt : n < s.calls.length := (List.getElem?_eq_some_iff.mp hn).1
      exact List.mem_set hlt _
  | notified => exact ⟨h.numbered, h.conserved, h.counted, fun _ => Or.inr (Or.inl rfl)⟩
  | timedOut | woken =>
    exact ⟨h.numbered, h.conserved, h.counted, fun _ => Or.inr (Or.inr (by simp))⟩
  | checkedAny =>
    refine ⟨h.numbered, h.conserved, h.counted, fun hfull => ?_⟩
    -- a full batch is not empty
    have hne : s.queuedUpdates ≠ 0 := by
      have hcount : batchSize ≤ (s.queuedUpdates : ℤ) := hfull
      omega
    simp [hne]
  | checkedFull =>
    refine ⟨h.numbered, h.conserved, h.counted, fun hfull => ?_⟩
    have hcount : batchSize ≤ (s.queuedUpdates : ℤ) := hfull
    simp [hcount]
  | swapped =>
    constructor
    · exact h.numbered
    · have hconserved := h.conserved
      simp only [State.pipelines, List.flatten_append, List.flatten_singleton] at hconserved ⊢
      simpa using hconserved
    · rfl
    · intro hfull
      simp only [Nat.cast_zero] at hfull
      omega

/-- No update is queued twice. -/
theorem Inv.nodup {batchSize : ℤ} {s : State} (h : Inv batchSize s) : s.queued.Nodup := by
  have hnumbers : (s.queued.map Queued.number).Nodup := h.numbered ▸ List.nodup_range
  exact hnumbers.of_map

/-- What is in the pipelines is in one of them only. -/
theorem existsUnique_of_nodup_flatten {α : Type*} {ls : List (List α)} (h : ls.flatten.Nodup) {x : α}
    (hx : x ∈ ls.flatten) : ∃! n, x ∈ ls.getD n [] := by
  obtain ⟨l, hl, hxl⟩ := List.mem_flatten.mp hx
  obtain ⟨n, hn, rfl⟩ := List.getElem_of_mem hl
  refine ⟨n, by simpa [List.getD, hn] using hxl, fun m (hm : x ∈ ls.getD m []) => ?_⟩
  have hm' : m < ls.length := by
    by_contra hge
    rw [List.getD_eq_default _ _ (by omega)] at hm
    cases hm
  rw [List.getD_eq_getElem _ _ hm'] at hm
  have hdisjoint := (List.nodup_flatten.mp h).2
  rw [List.pairwise_iff_getElem] at hdisjoint
  rcases Nat.lt_trichotomy m n with hlt | rfl | hlt
  · exact (hdisjoint m n hm' hn hlt hm hxl).elim
  · rfl
  · exact (hdisjoint n m hn hm' hlt hxl hm).elim

theorem run_inv {batchSize : ℤ} (hbatch : 1 ≤ batchSize) {as : List Action} {s : State}
    (hr : Machine.run (step batchSize) start as = some s) : Inv batchSize s :=
  Machine.run_invariant (Inv batchSize) (fun _ _ _ => step_inv hbatch) (start_inv hbatch) hr

/-- Each update that was queued is in one pipeline, once, in the order of queueing, and no full batch
is left lying. -/
theorem run_batches {batchSize : ℤ} (hbatch : 1 ≤ batchSize) {as : List Action} {s : State}
    (hr : Machine.run (step batchSize) start as = some s) :
    (∀ q ∈ s.queued, (∃! n, q ∈ s.pipelines.getD n []) ∧ s.pipelines.flatten.count q = 1) ∧
      s.pipelines.flatten = s.queued ∧ s.queuedUpdates = s.pipe.length ∧
      (s.calls = [] → s.batcher = .select → s.notifyBatcher = false →
        (s.pipe.length : ℤ) < batchSize) := by
  have h := run_inv hbatch hr
  refine ⟨fun q hq => ⟨?_, ?_⟩, h.conserved, h.counted, fun hcalls hbatcher hslot => ?_⟩
  · rw [← h.conserved] at hq
    exact existsUnique_of_nodup_flatten (h.conserved ▸ h.nodup) hq
  · rw [h.conserved]
    exact List.count_eq_one_of_mem h.nodup hq
  · have hawake := h.awake
    simp only [hcalls, hslot, hbatcher, h.counted, List.not_mem_nil, Bool.false_eq_true, ne_eq,
      not_true_eq_false, or_self, imp_false, not_le] at hawake
    exact hawake

theorem run_batches_pair :
    let event := newBucketMissedEvent "ns" "b" true
    let u : StatsUpdate := ⟨"stats:ns:misses", 1, "b"⟩
    let s : State := ⟨[], 0, true, .select, [], [[⟨0, u⟩, ⟨1, u⟩]], [⟨0, u⟩, ⟨1, u⟩]⟩
    (1 : ℤ) ≤ 2 ∧
      Machine.run (step 2) start [.handleEvent event, .queue 0, .notify 0, .notification,
        .handleEvent event, .queue 0, .check, .swap, .notify 0] = some s ∧
      (∀ q ∈ s.queued, (∃! n, q ∈ s.pipelines.getD n []) ∧ s.pipelines.flatten.count q = 1) ∧
      s.pipelines.flatten = s.queued ∧ s.queuedUpdates = s.pipe.length ∧
      (s.calls = [] → s.batcher = .select → s.notifyBatcher = false → (s.pipe.length : ℤ) < 2) := by
  intro event u s
  have hr : Machine.run (step 2) start [.handleEvent event, .queue 0, .notify 0, .notification,
      .handleEvent event, .queue 0, .check, .swap, .notify 0] = some s := rfl
  exact ⟨by omega, hr, run_batches (by omega) hr⟩

section Coarse

/-- The listener of one step for each event and each batch, without the pending notifications. -/
structure Refines (s : State) (t : Stats.State) : Prop where
  pipe : t.redis.pipe = commands s.pipe
  queuedUpdates : t.redis.queuedUpdates = s.queuedUpdates
  sent : t.sent = commands s.submitted.flatten
  nonempty : s.batcher = .swap → s.queuedUpdates ≠ 0
  counted : ∀ event u, .queueing event u ∈ s.calls → statsUpdate event = some u

theorem start_refines : Refines start Stats.start where
  pipe := rfl
  queuedUpdates := rfl
  sent := rfl
  nonempty h := by cases h
  counted _ _ h := by cases h

/-- An event is handled when its update is queued, and a batch is sent when the pipelines are swapped;
for the other steps the listener does nothing. -/
theorem step_refines {batchSize : ℤ} (hbatch : 1 ≤ batchSize) {s s' : State} {t : Stats.State}
    {a : Action} (h : Refines s t) (hs : step batchSize s a = some s') :
    ∃ bs t', Machine.run (Stats.step batchSize) t bs = some t' ∧ Refines s' t' := by
  cases step_cases hs with
  | @uncounted event hu =>
    refine ⟨[.handle event], _, rfl, ?_⟩
    exact ⟨by simp [handleEvent_eq, hu, h.pipe], by simp [handleEvent_eq, hu, h.queuedUpdates],
      h.sent, h.nonempty, h.counted⟩
  | called hu =>
    refine ⟨[], t, rfl, h.pipe, h.queuedUpdates, h.sent, h.nonempty, fun event' u' hcall => ?_⟩
    rcases List.mem_append.mp hcall with hcall | hcall
    · exact h.counted event' u' hcall
    · cases List.mem_singleton.mp hcall
      exact hu
  | @queued n event u hn =>
    have hu := h.counted event u (List.mem_of_getElem? hn)
    refine ⟨[.handle event], _, rfl, ?_⟩
    constructor
    · simp [handleEvent_eq, hu, RedisListener.queueStatsUpdate, h.pipe, commands,
        StatsUpdate.commands]
    · simp [handleEvent_eq, hu, RedisListener.queueStatsUpdate, h.queuedUpdates]
    · exact h.sent
    · intro _
      exact Nat.succ_ne_zero _
    · intro event' u' hcall
      rcases List.mem_or_eq_of_mem_set hcall with hcall | hcall
      · exact h.counted event' u' hcall
      · cases hcall
  | notified =>
    exact ⟨[], t, rfl, h.pipe, h.queuedUpdates, h.sent, h.nonempty,
      fun event u hcall => h.counted event u (List.mem_of_mem_eraseIdx hcall)⟩
  | timedOut | woken | checkedAny =>
    exact ⟨[], t, rfl, h.pipe, h.queuedUpdates, h.sent, by simp, h.counted⟩
  | checkedFull =>
    refine ⟨[], t, rfl, h.pipe, h.queuedUpdates, h.sent, fun hswap => ?_, h.counted⟩
    have hready : batchSize ≤ (s.queuedUpdates : ℤ) := by simpa using hswap
    change s.queuedUpdates ≠ 0
    omega
  | swapped hswap =>
    have hne : t.redis.queuedUpdates ≠ 0 := by
      rw [h.queuedUpdates]
      exact h.nonempty hswap
    refine ⟨[.deadline], t.submit, by simp [Stats.step, hne], ?_⟩
    exact ⟨rfl, rfl, by simp [Stats.State.submit, h.sent, h.pipe, commands], by simp, h.counted⟩

theorem steps_refine {batchSize : ℤ} (hbatch : 1 ≤ batchSize) {as : List Action} {s s' : State}
    {t : Stats.State} (h : Refines s t) (hr : Machine.run (step batchSize) s as = some s') :
    ∃ bs t', Machine.run (Stats.step batchSize) t bs = some t' ∧ Refines s' t' := by
  induction as generalizing s t with
  | nil =>
    cases hr
    exact ⟨[], t, rfl, h⟩
  | cons a as ih =>
    rw [Machine.run_cons] at hr
    obtain ⟨s₁, hs₁, hr⟩ := Option.bind_eq_some_iff.mp hr
    obtain ⟨bs, t₁, ht₁, h₁⟩ := step_refines hbatch h hs₁
    obtain ⟨bs', t', ht', h'⟩ := ih h₁ hr
    exact ⟨bs ++ bs', t', by rw [Machine.run_append, ht₁]; exact ht', h'⟩

/-- The goroutines together send what the listener does that takes an event or a batch at a time. -/
theorem run_refines {batchSize : ℤ} (hbatch : 1 ≤ batchSize) {as : List Action} {s : State}
    (hr : Machine.run (step batchSize) start as = some s) :
    ∃ bs t, Machine.run (Stats.step batchSize) Stats.start bs = some t ∧
      t.sent = commands s.submitted.flatten := by
  obtain ⟨bs, t, ht, hrefines⟩ := steps_refine hbatch start_refines hr
  exact ⟨bs, t, ht, hrefines.sent⟩

end Coarse

end Batching

end QuotaService.Stats
