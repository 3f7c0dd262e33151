import QuotaService.Container.Reaping

/-! `Take` on the in-memory buckets. `server.Allow` finds its bucket under the server's read lock and
takes tokens from it after it has released the lock. A request goes over the unbuffered channel
`waitTimer` to the `waitTimeLoop` of the bucket, which serves one request at a time; the answer
goes into a channel that has room for it. Once the bucket is destroyed, the loop may pick the exit
instead of a request. A bucket is known by its number, also its loop. -/
namespace QuotaService.Container
open Config

/-- Why `Allow` fails. -/
inductive ErrorReason
  | timeout
  | noBucket
  | tooManyBuckets
  | tooManyTokensRequested
  deriving DecidableEq

/-- What `Allow` returns. -/
structure Reply where
  wait : ℤ
  dynamic : Bool
  error : Option ErrorReason
  deriving DecidableEq

/-- How far `Allow` has come with the bucket that it has found: it is sending its request, the loop
has got the request, or it has what it returns. -/
inductive Progress
  | sending (b : Bucket Memory.TokenBucket)
  | waiting (b : Bucket Memory.TokenBucket)
  | replied (reply : Reply)

/-- The bucket from which an answer is still to come. -/
def Progress.pending : Progress → Option (Bucket Memory.TokenBucket)
  | sending b => some b
  | waiting b => some b
  | replied _ => none

/-- What `Allow` is asked for, beside the names. -/
structure Request where
  tokensRequested : ℤ
  maxWaitMillisOverride : ℤ
  maxWaitTimeOverride : Bool

namespace Request

/-- The time that `Allow` is ready to wait, in the nanoseconds of a `time.Duration`. -/
def maxWaitTime (r : Request) (cfg : BucketConfig) : ℤ :=
  Arith.int64.wrap (1000000 *
    if r.maxWaitTimeOverride = true ∧ r.maxWaitMillisOverride < cfg.waitTimeoutMillis then
      r.maxWaitMillisOverride
    else cfg.waitTimeoutMillis)

/-- What `Allow` does with the result of `FindBucket`. -/
def afterFind (r : Request) : Except String (Option (Bucket Memory.TokenBucket)) → Progress
  | .error _ => .replied ⟨0, true, some .tooManyBuckets⟩
  | .ok none => .replied ⟨0, false, some .noBucket⟩
  | .ok (some b) =>
    if b.cfg.maxTokensPerRequest < r.tokensRequested ∧ 0 < b.cfg.maxTokensPerRequest then
      .replied ⟨0, b.dynamic, some .tooManyTokensRequested⟩
    else .sending b

/-- What `Allow` returns when the loop has answered. -/
def afterTake (b : Bucket Memory.TokenBucket) (waitTimeNanos : ℤ) : Reply :=
  if waitTimeNanos < 0 then ⟨0, b.dynamic, some .timeout⟩ else ⟨waitTimeNanos, b.dynamic, none⟩

end Request

/-- A call of `Allow` that has come back from `FindBucket`. -/
structure Client where
  request : Request
  progress : Progress

/-- A server with in-memory buckets: the calls of `Allow` that have come back from `FindBucket`, the
loops that have exited, the call that a loop is serving, and the buckets as their loops have left
them. -/
structure Loops where
  sys : System Unit Memory.TokenBucket
  clients : AList fun _ : ℕ => Client
  exited : Finset ℕ
  serving : AList fun _ : ℕ => ℕ
  tokens : AList fun _ : ℕ => Memory.TokenBucket

/-- The steps of the server, of the calls that have come back from `FindBucket`, and of the loops. -/
inductive LoopAction
  | base (a : Action)
  | take (i : ℕ) (r : Request)
  | receive (i : ℕ)
  | respond (id : ℕ) (now : ℤ)
  | exit (id : ℕ)

/-- The bucket that a call of `FindBucket` has got, whether it has reported on it or not. -/
def Phase.obtained {B : Type} : Phase B → Option (Bucket B)
  | reporting b => b
  | returned (.ok b) => b
  | _ => none

namespace System
variable {F B : Type} {fac : BucketFactory F B}

theorem getElem?_setPhase {s : System F B} {i j : ℕ} {c c' : Call B} {phase : Phase B}
    (h : (s.setPhase i c phase).calls[j]? = some c') :
    s.calls[j]? = some c' ∨ j = i ∧ c' = { c with phase := phase } := by
  unfold setPhase at h
  rw [List.getElem?_set] at h
  split_ifs at h with hji
  · exact Or.inr ⟨hji.symm, (Option.some.inj h).symm⟩
  · exact Or.inl h

theorem step_calls_length {s s' : System F B} {a : Action} (hs : s.step fac a = some s') :
    s.calls.length ≤ s'.calls.length := by
  cases step_moved hs with
  | enter => simp
  | look | create | report => simp [setPhase, setContainer]
  | update | reaper | remove => exact le_refl _

/-- A bucket that a step finds for a call has not been destroyed. -/
theorem step_obtained {s s' : System F B} {a : Action} (h : Intact s)
    (hs : s.step fac a = some s') {i : ℕ} {c' : Call B} (hc' : s'.calls[i]? = some c')
    {b : Bucket B} (hb : c'.phase.obtained = some b) :
    (∃ c, s.calls[i]? = some c ∧ c.phase.obtained = some b) ∨
      b.id ∉ s.server.bucketContainer.destroyed := by
  cases step_moved hs with
  | enter ns bucketName =>
    rcases List.mem_append.mp (List.mem_of_getElem? hc') with hmem | hmem
    · rw [List.getElem?_append_left] at hc'
      · exact Or.inl ⟨c', hc', hb⟩
      · by_contra hle
        rw [List.getElem?_append_right (not_lt.mp hle)] at hc'
        rw [List.mem_singleton.mp (List.mem_of_getElem? hc')] at hb
        cases hb
    · rw [List.mem_singleton.mp hmem] at hb
      cases hb
  | @look _ c r phase call fetched looked =>
    rcases getElem?_setPhase hc' with hc' | ⟨-, rfl⟩
    · exact Or.inl ⟨c', hc', hb⟩
    · have hfound : phase.found = some b := by
        cases look_looked looked with
        | missed => cases hb
        | global | found | default => exact hb
      exact Or.inr (h.looked (List.mem_of_getElem? call) fetched (look_looked looked) hfound).2
  | create call missed created =>
    rcases getElem?_setPhase hc' with hc' | ⟨-, rfl⟩
    · exact Or.inl ⟨c', hc', hb⟩
    · apply Or.inr
      cases createLocked_created created with
      | found acts object held =>
        cases hb
        have hget := h.get? (List.mem_of_getElem? call) (by rw [missed]; rfl) object
        exact (h.sound.intact hget (mem_ids_of_lookup held)).2
      | full => cases hb
      | created f acts ws object absent template id =>
        cases hb
        intro hmem
        have hlt := h.sound.destroyed_lt _ hmem
        omega
  | report call reporting =>
    rcases getElem?_setPhase hc' with hc' | ⟨rfl, rfl⟩
    · exact Or.inl ⟨c', hc', hb⟩
    · refine Or.inl ⟨_, call, ?_⟩
      rw [reporting]
      exact hb
  | update | reaper | remove => exact Or.inl ⟨c', hc', hb⟩

theorem step_destroyed {s s' : System F B} {a : Action} {id : ℕ}
    (hs : s.step fac a = some s')
    (h : id ∈ s.server.bucketContainer.destroyed) : id ∈ s'.server.bucketContainer.destroyed := by
  cases step_moved hs with
  | enter | look | report | reaper => exact h
  | create call missed created =>
    cases createLocked_created created with
    | found | full | created => exact h
  | update returned covers updated => exact updateBucketContainer_destroyed updated h
  | remove removing =>
    rcases remove_cases fac removing with ⟨heq, -⟩ | ⟨ns, b, -, -, -, heq⟩
    · simp only [setContainer, heq]
      exact h
    · simp only [setContainer, heq]
      exact Multiset.mem_cons_of_mem h

end System

namespace Loops

def init (now : ℤ) : Loops := ⟨.init () now, ∅, ∅, ∅, ∅⟩

def setProgress (s : Loops) (i : ℕ) (c : Client) (progress : Progress) : Loops :=
  { s with clients := s.clients.insert i { c with progress := progress } }

/-- The bucket as its loop has left it. -/
def bucket (s : Loops) (b : Bucket Memory.TokenBucket) : Memory.TokenBucket :=
  (s.tokens.lookup b.id).getD b.impl

/-- The loop of a bucket is about to receive. -/
def Idle (s : Loops) (id : ℕ) : Prop := id ∉ s.exited ∧ s.serving.lookup id = none

instance (s : Loops) (id : ℕ) : Decidable (s.Idle id) := inferInstanceAs (Decidable (_ ∧ _))

/-- One step; `none` means that the action is not enabled. -/
def step (s : Loops) : LoopAction → Option Loops
  | .base a => (s.sys.step memoryFactory a).map fun sys => { s with sys := sys }
  | .take i r =>
    match s.clients.lookup i, s.sys.calls[i]?.map Call.phase with
    | none, some (.returned result) =>
      some { s with clients := s.clients.insert i ⟨r, r.afterFind result⟩ }
    | _, _ => none
  | .receive i => (s.clients.lookup i).bind fun c =>
    match c.progress with
    | .sending b =>
      if s.Idle b.id then
        some { s.setProgress i c (.waiting b) with serving := s.serving.insert b.id i }
      else none
    | _ => none
  | .respond id now => (s.serving.lookup id).bind fun i => (s.clients.lookup i).bind fun c =>
    match c.progress with
    | .waiting b =>
      let p := (s.bucket b).calcWaitTime .int64
        ⟨now, c.request.tokensRequested, c.request.maxWaitTime b.cfg⟩
      some { s.setProgress i c (.replied (Request.afterTake b p.2)) with
        serving := s.serving.erase id
        tokens := s.tokens.insert id p.1 }
    | _ => none
  | .exit id =>
    if id ∈ s.sys.server.bucketContainer.destroyed ∧ s.Idle id then
      some { s with exited := insert id s.exited }
    else none

/-- The bucket that a call has found and that has not answered it yet. -/
def inHand (s : Loops) (i : ℕ) : Option (Bucket Memory.TokenBucket) :=
  match s.clients.lookup i with
  | some c => c.progress.pending
  | none => s.sys.calls[i]?.bind fun c => c.phase.obtained

/-- A call is sending its request to a loop that has exited, or waiting for its answer. -/
def Stranded (s : Loops) : Prop :=
  ∃ e ∈ s.clients.entries, ∃ b ∈ e.2.progress.pending, b.id ∈ s.exited

/-- A loop does not pick the exit while a call that has found its bucket is to be answered, and an
update replaces no namespace by one of another name. -/
def Prudent (s : Loops) : LoopAction → Prop
  | .exit id => ∀ i < s.sys.calls.length, ∀ b ∈ s.inHand i, b.id ≠ id
  | .base (.update _ newConfig) =>
    s.sys.Applies newConfig → Keyed newConfig s.sys.server.bucketContainer
  | _ => True

instance (s : Loops) : Decidable s.Stranded :=
  inferInstanceAs (Decidable (∃ e ∈ s.clients.entries, _))

instance (s : Loops) : ∀ a, Decidable (s.Prudent a)
  | .exit _ => inferInstanceAs (Decidable (∀ i < s.sys.calls.length, _))
  | .base (.update _ newConfig) => inferInstanceAs (Decidable (s.sys.Applies newConfig → _))
  | .take _ _ | .receive _ | .respond _ _ => isTrue trivial
  | .base (.enter _ _) | .base (.look _) | .base (.create _) | .base (.report _)
  | .base .addNewWatcher | .base (.checkExpirations _) | .base .check | .base .removeBucket
  | .base .removeFromNamespace | .base .endPass | .base (.elapse _) => isTrue trivial

section Invariant
variable {s s' : Loops} {a : LoopAction}

/-- No loop exits before the calls that have found its bucket are answered. -/
structure Manned (s : Loops) : Prop where
  intact : s.sys.Intact
  known : ∀ i ∈ s.clients, i < s.sys.calls.length
  exited : ∀ id ∈ s.exited, id ∈ s.sys.server.bucketContainer.destroyed
  inHand : ∀ i, ∀ b ∈ s.inHand i, b.id ∉ s.exited

/-- What a step can do. -/
inductive Turned (s : Loops) : LoopAction → Loops → Prop
  | base {a : Action} {sys : System Unit Memory.TokenBucket}
    (step : s.sys.step memoryFactory a = some sys) : Turned s (.base a) { s with sys := sys }
  | take {i : ℕ} {r : Request} {c : Call Memory.TokenBucket}
    {result : Except String (Option (Bucket Memory.TokenBucket))}
    (absent : s.clients.lookup i = none) (call : s.sys.calls[i]? = some c)
    (returned : c.phase = .returned result) :
    Turned s (.take i r) { s with clients := s.clients.insert i ⟨r, r.afterFind result⟩ }
  | receive {i : ℕ} {c : Client} {b : Bucket Memory.TokenBucket}
    (client : s.clients.lookup i = some c) (sending : c.progress = .sending b)
    (idle : s.Idle b.id) : Turned s (.receive i)
      { s.setProgress i c (.waiting b) with serving := s.serving.insert b.id i }
  | respond {id i : ℕ} {now : ℤ} {c : Client} {b : Bucket Memory.TokenBucket} (reply : Reply)
    (tokens : AList fun _ : ℕ => Memory.TokenBucket) (served : s.serving.lookup id = some i)
    (client : s.clients.lookup i = some c) (waiting : c.progress = .waiting b) :
    Turned s (.respond id now) { s.setProgress i c (.replied reply) with
      serving := s.serving.erase id, tokens := tokens }
  | exit {id : ℕ} (destroyed : id ∈ s.sys.server.bucketContainer.destroyed) (idle : s.Idle id) :
    Turned s (.exit id) { s with exited := insert id s.exited }

theorem step_turned (h : s.step a = some s') : Turned s a s' := by
  cases a with
  | base a =>
    obtain ⟨sys, hsys, rfl⟩ := Option.map_eq_some_iff.mp h
    exact .base hsys
  | take i r =>
    simp only [step] at h
    split at h
    · rename_i hclient hcall
      cases h
      obtain ⟨c, hc, hreturned⟩ := Option.map_eq_some_iff.mp hcall
      exact .take hclient hc hreturned
    · cases h
  | receive i =>
    obtain ⟨c, hc, h⟩ := Option.bind_eq_some_iff.mp h
    cases hprogress : c.progress with
    | sending b =>
      simp only [hprogress] at h
      split_ifs at h with hidle
      cases h
      exact .receive hc hprogress hidle
    | waiting b => simp [hprogress] at h
    | replied reply => simp [hprogress] at h
  | respond id now =>
    obtain ⟨i, hi, h⟩ := Option.bind_eq_some_iff.mp h
    obtain ⟨c, hc, h⟩ := Option.bind_eq_some_iff.mp h
    cases hprogress : c.progress with
    | sending b => simp [hprogress] at h
    | waiting b =>
      simp only [hprogress] at h
      cases h
      exact .respond _ _ hi hc hprogress
    | replied reply => simp [hprogress] at h
  | exit id =>
    simp only [step] at h
    split_ifs at h with hguard
    cases h
    exact .exit hguard.1 hguard.2

theorem inHand_of_lookup {i : ℕ} {c : Client} (h : s.clients.lookup i = some c) :
    s.inHand i = c.progress.pending := by
  simp [inHand, h]

theorem inHand_of_call {i : ℕ} (h : s.clients.lookup i = none) :
    s.inHand i = s.sys.calls[i]?.bind fun c => c.phase.obtained := by
  simp [inHand, h]

/-- Only a call that the server has received has found a bucket. -/
theorem Manned.lt_of_inHand (h : Manned s) {i : ℕ} {b : Bucket Memory.TokenBucket}
    (hb : b ∈ s.inHand i) : i < s.sys.calls.length := by
  cases hlookup : s.clients.lookup i with
  | some c => exact h.known i (AList.lookup_isSome.mp (by simp [hlookup]))
  | none =>
    rw [inHand_of_call hlookup] at hb
    obtain ⟨c, hc, -⟩ := Option.bind_eq_some_iff.mp hb
    exact (List.getElem?_eq_some_iff.mp hc).1

/-- A step of one call leaves what the other calls have in hand. -/
theorem inHand_setProgress {i j : ℕ} {c : Client} {progress : Progress}
    (serving : AList fun _ : ℕ => ℕ) (tokens : AList fun _ : ℕ => Memory.TokenBucket) :
    inHand { s.setProgress i c progress with serving := serving, tokens := tokens } j =
      if j = i then progress.pending else s.inHand j := by
  unfold inHand setProgress
  split_ifs with h
  · subst h
    simp
  · simp [AList.lookup_insert_ne h]

theorem lookup_setProgress {i j : ℕ} {c c' : Client} {progress : Progress}
    (h : (s.setProgress i c progress).clients.lookup j = some c') :
    (j = i ∧ c' = { c with progress := progress }) ∨ (j ≠ i ∧ s.clients.lookup j = some c') := by
  unfold setProgress at h
  exact AList.lookup_insert_cases h

/-- What holds of the bucket of each call that has one in hand still holds when one call goes on. -/
theorem pending_setProgress {P : Request → Bucket Memory.TokenBucket → Prop}
    (h : ∀ i c, s.clients.lookup i = some c → ∀ b ∈ c.progress.pending, P c.request b)
    {i : ℕ} {c : Client} {progress : Progress} (hprogress : ∀ b ∈ progress.pending, P c.request b) :
    ∀ j c', (s.setProgress i c progress).clients.lookup j = some c' →
      ∀ b ∈ c'.progress.pending, P c'.request b := by
  intro j c' hc' b hb
  rcases lookup_setProgress hc' with ⟨rfl, rfl⟩ | ⟨-, hc'⟩
  · exact hprogress b hb
  · exact h j c' hc' b hb

/-- Going on with a bucket that was found, or with none. -/
theorem pending_afterFind {r : Request}
    {result : Except String (Option (Bucket Memory.TokenBucket))} {b : Bucket Memory.TokenBucket}
    (hb : b ∈ (r.afterFind result).pending) : result = .ok (some b) := by
  unfold Request.afterFind at hb
  split at hb
  · cases hb
  · cases hb
  · split_ifs at hb
    · cases hb
    · cases hb
      rfl

theorem Manned.base (h : Manned s) {a : Action} {sys : System Unit Memory.TokenBucket}
    (hok : s.Prudent (.base a)) (hs : s.sys.step memoryFactory a = some sys) :
    Manned { s with sys := sys } := by
  have hintact : sys.Intact := by
    refine System.step_intact h.intact (fun order newConfig ha => ?_) hs
    subst ha
    exact hok
  refine ⟨hintact, ?_, ?_, ?_⟩
  · intro i hi
    exact (h.known i hi).trans_le (System.step_calls_length hs)
  · intro id hid
    exact System.step_destroyed hs (h.exited id hid)
  · intro i b hb
    cases hlookup : s.clients.lookup i with
    | some c =>
      rw [inHand_of_lookup (s := { s with sys := sys }) hlookup] at hb
      exact h.inHand i b ((inHand_of_lookup hlookup).symm ▸ hb)
    | none =>
      rw [inHand_of_call (s := { s with sys := sys }) hlookup] at hb
      obtain ⟨c', hc', hb⟩ := Option.bind_eq_some_iff.mp hb
      rcases System.step_obtained h.intact hs hc' hb with ⟨c, hc, hb⟩ | hnot
      · exact h.inHand i b (by rw [inHand_of_call hlookup, hc]; exact hb)
      · exact fun hexited => hnot (h.exited _ hexited)

theorem Manned.setProgress (h : Manned s) {i : ℕ} {c : Client} (client : s.clients.lookup i = some c)
    {progress : Progress} (hprogress : ∀ b ∈ progress.pending, b.id ∉ s.exited)
    (serving : AList fun _ : ℕ => ℕ) (tokens : AList fun _ : ℕ => Memory.TokenBucket) :
    Manned { s.setProgress i c progress with serving := serving, tokens := tokens } := by
  refine ⟨h.intact, ?_, h.exited, ?_⟩
  · intro j hj
    rcases (AList.mem_insert _).mp hj with rfl | hj
    · exact h.known j (AList.lookup_isSome.mp (by simp [client]))
    · exact h.known j hj
  · intro j b hb
    rw [inHand_setProgress] at hb
    split_ifs at hb
    · exact hprogress b hb
    · exact h.inHand j b hb

theorem step_manned (h : Manned s) (hok : s.Prudent a) (hs : s.step a = some s') :
    Manned s' := by
  cases step_turned hs with
  | base step => exact h.base hok step
  | @take i r c result absent call returned =>
    refine ⟨h.intact, ?_, h.exited, ?_⟩
    · intro j hj
      rcases (AList.mem_insert _).mp hj with rfl | hj
      · exact (List.getElem?_eq_some_iff.mp call).1
      · exact h.known j hj
    · intro j b hb
      by_cases hji : j = i
      · subst hji
        rw [inHand_of_lookup (AList.lookup_insert _)] at hb
        apply h.inHand j b
        rw [inHand_of_call absent, call, Option.bind_some, returned, pending_afterFind hb]
        rfl
      · apply h.inHand j b
        simpa [inHand, AList.lookup_insert_ne hji] using hb
  | @receive i c b client sending idle =>
    refine h.setProgress client (fun b' hb' => ?_) _ s.tokens
    apply h.inHand i b'
    rw [inHand_of_lookup client, sending]
    exact hb'
  | respond reply tokens served client waiting =>
    refine h.setProgress client (fun b' hb' => ?_) _ tokens
    cases hb'
  | exit destroyed idle =>
    refine ⟨h.intact, h.known, ?_, ?_⟩
    · intro id hid
      rcases Finset.mem_insert.mp hid with rfl | hid
      · exact destroyed
      · exact h.exited id hid
    · intro j b hb hexited
      rcases Finset.mem_insert.mp hexited with hid | hid
      · exact hok j (h.lt_of_inHand hb) b hb hid
      · exact h.inHand j b hb hid

theorem manned_init (now : ℤ) : Manned (init now) := by
  refine ⟨System.intact_init () now, ?_, ?_, ?_⟩
  · intro i hi
    exact absurd hi (AList.notMem_empty i)
  · intro id hid
    exact absurd hid (Finset.notMem_empty id)
  · intro i b _
    exact Finset.notMem_empty _

theorem Manned.not_stranded (h : Manned s) : ¬ s.Stranded := by
  rintro ⟨⟨i, c⟩, hc, b, hb, hexited⟩
  have hlookup : s.clients.lookup i = some c := AList.mem_lookup_iff.mpr hc
  refine h.inHand i b ?_ hexited
  rwa [inHand_of_lookup hlookup]

end Invariant

section Answers
variable {s s' : Loops} {a : LoopAction}

/-- The calls that wait for an answer are those that a loop is serving. -/
structure Paired (s : Loops) : Prop where
  waiting : ∀ i c b, s.clients.lookup i = some c → c.progress = .waiting b →
    s.serving.lookup b.id = some i
  serving : ∀ id i, s.serving.lookup id = some i →
    ∃ c b, s.clients.lookup i = some c ∧ c.progress = .waiting b ∧ b.id = id

theorem step_paired (h : Paired s) (hs : s.step a = some s') : Paired s' := by
  cases step_turned hs with
  | base | exit => exact ⟨h.waiting, h.serving⟩
  | @take i r c result absent call returned =>
    constructor
    · intro j c' b hc' hwaiting
      rcases AList.lookup_insert_cases hc' with ⟨-, rfl⟩ | ⟨-, hold⟩
      · -- whoever has just come from `FindBucket` does not wait yet
        cases result with
        | error message => cases hwaiting
        | ok found =>
          cases found with
          | none => cases hwaiting
          | some b' =>
            simp only [Request.afterFind] at hwaiting
            split_ifs at hwaiting
      · exact h.waiting j c' b hold hwaiting
    · intro id j hj
      obtain ⟨c', b, hc', hwaiting, hid⟩ := h.serving id j hj
      have hji : j ≠ i := by
        rintro rfl
        cases absent.symm.trans hc'
      exact ⟨c', b, (AList.lookup_insert_ne hji).trans hc', hwaiting, hid⟩
  | @receive i c b client sending idle =>
    constructor
    · intro j c' b' hc' hwaiting
      rcases lookup_setProgress hc' with ⟨rfl, rfl⟩ | ⟨hji, hc'⟩
      · cases hwaiting
        exact AList.lookup_insert _
      · have hserved := h.waiting j c' b' hc' hwaiting
        have hid : b'.id ≠ b.id := by
          intro hid
          rw [hid, idle.2] at hserved
          cases hserved
        exact (AList.lookup_insert_ne hid).trans hserved
    · intro id j hj
      rcases AList.lookup_insert_cases hj with ⟨rfl, rfl⟩ | ⟨-, hold⟩
      · exact ⟨_, b, AList.lookup_insert _, rfl, rfl⟩
      · obtain ⟨c', b', hc', hwaiting, hid'⟩ := h.serving id j hold
        have hji : j ≠ i := by
          rintro rfl
          cases client.symm.trans hc'
          cases sending.symm.trans hwaiting
        exact ⟨c', b', (AList.lookup_insert_ne hji).trans hc', hwaiting, hid'⟩
  | @respond id i now c b reply tokens served client waiting =>
    constructor
    · intro j c' b' hc' hwaiting
      rcases lookup_setProgress hc' with ⟨rfl, rfl⟩ | ⟨hji, hc'⟩
      · cases hwaiting
      · have hserved := h.waiting j c' b' hc' hwaiting
        have hid : b'.id ≠ id := by
          rintro rfl
          exact hji (Option.some.inj (hserved.symm.trans served))
        exact (AList.lookup_erase_ne hid).trans hserved
    · intro id' j hj
      obtain ⟨hid, hold⟩ := AList.lookup_erase_cases hj
      obtain ⟨c', b', hc', hwaiting, hid'⟩ := h.serving id' j hold
      have hji : j ≠ i := by
        rintro rfl
        -- a call waits for one bucket
        obtain ⟨c₁, b₁, hc₁, hwaiting₁, hid₁⟩ := h.serving id j served
        cases hc'.symm.trans hc₁
        cases hwaiting.symm.trans hwaiting₁
        exact hid (hid'.symm.trans hid₁)
      exact ⟨c', b', (AList.lookup_insert_ne hji).trans hc', hwaiting, hid'⟩

/-- The loop answers the call that it is serving. -/
theorem Paired.respond (h : Paired s) {i : ℕ} {c : Client} {b : Bucket Memory.TokenBucket}
    (hc : s.clients.lookup i = some c) (hwaiting : c.progress = .waiting b) (now : ℤ) :
    ∃ s' reply, s.step (.respond b.id now) = some s' ∧
      s'.clients = s.clients.insert i { c with progress := .replied reply } ∧
      s'.exited = s.exited ∧ s'.serving.lookup b.id = none := by
  have hserved := h.waiting i c b hc hwaiting
  simp only [step, hserved, Option.bind_some, hc, hwaiting]
  exact ⟨_, _, rfl, rfl, rfl, AList.lookup_erase _ _⟩

/-- Whoever is sending to a loop that has not exited, or waiting for its answer, gets an answer
when the loop goes on: it answers the call that it is serving, receives the request, and answers. -/
theorem Paired.exists_reply (h : Paired s) {i : ℕ} {c : Client} {b : Bucket Memory.TokenBucket}
    (hc : s.clients.lookup i = some c) (hb : c.progress.pending = some b)
    (hexited : b.id ∉ s.exited) (now : ℤ) :
    ∃ actions ⊆ [.respond b.id now, .receive i], ∃ s' reply, Machine.run step s actions = some s' ∧
      s'.clients.lookup i = some { c with progress := .replied reply } := by
  -- once the loop is idle, it takes the request and answers it
  have hidle : ∀ s₁ : Loops, Paired s₁ → s₁.clients.lookup i = some c →
      c.progress = .sending b → s₁.Idle b.id → ∃ s' reply,
      Machine.run step s₁ [.receive i, .respond b.id now] = some s' ∧
        s'.clients.lookup i = some { c with progress := .replied reply } := by
    intro s₁ hpaired hc₁ hsending hidle
    have hreceive : s₁.step (.receive i) = some { s₁.setProgress i c (.waiting b) with
        serving := s₁.serving.insert b.id i } := by
      simp [step, hc₁, hsending, hidle]
    obtain ⟨s', reply, hs', hclients, -⟩ :=
      (step_paired hpaired hreceive).respond (AList.lookup_insert _) rfl now
    refine ⟨s', reply, ?_, ?_⟩
    · simp [hreceive, hs']
    · rw [hclients]
      exact AList.lookup_insert _
  cases hprogress : c.progress with
  | sending b' =>
    rw [hprogress] at hb
    cases hb
    cases hserving : s.serving.lookup b.id with
    | none =>
      obtain ⟨s', reply, hrun, hreply⟩ := hidle s h hc hprogress ⟨hexited, hserving⟩
      exact ⟨_, by simp, s', reply, hrun, hreply⟩
    | some j =>
      obtain ⟨c₁, b₁, hc₁, hwaiting, hid⟩ := h.serving b.id j hserving
      obtain ⟨s₁, reply₁, hs₁, hclients, hexited₁, hserving₁⟩ := h.respond hc₁ hwaiting now
      have hij : i ≠ j := by
        rintro rfl
        cases hc.symm.trans hc₁
        cases hprogress.symm.trans hwaiting
      have hc' : s₁.clients.lookup i = some c := by
        rw [hclients, AList.lookup_insert_ne hij]
        exact hc
      rw [hid] at hs₁ hserving₁
      obtain ⟨s', reply, hrun, hreply⟩ := hidle s₁ (step_paired h hs₁) hc' hprogress
        ⟨hexited₁ ▸ hexited, hserving₁⟩
      refine ⟨[.respond b.id now, .receive i, .respond b.id now], by simp, s', reply, ?_, hreply⟩
      rw [Machine.run_cons, hs₁]
      exact hrun
  | waiting b' =>
    rw [hprogress] at hb
    cases hb
    obtain ⟨s', reply, hs', hclients, -⟩ := h.respond hc hprogress now
    refine ⟨[.respond b.id now], by simp, s', reply, by simp [hs'], ?_⟩
    rw [hclients]
    exact AList.lookup_insert _
  | replied reply =>
    rw [hprogress] at hb
    cases hb

theorem paired_init (now : ℤ) : Paired (init now) := by
  constructor
  · intro i c b hc
    cases hc
  · intro id i hi
    cases hi

end Answers

/-- In every run whose steps are prudent, no call is sending its request to a loop that has exited
or waiting for its answer, whatever the order of calls, requests, passes and updates. -/
theorem no_take_stranded (now : ℤ) (actions : List LoopAction)
    (hok : Machine.Along step Prudent (init now) actions) (s : Loops)
    (hrun : Machine.run step (init now) actions = some s) : ¬ s.Stranded := by
  have h : Manned s :=
    Machine.run_induction Manned (fun _ _ _ => step_manned) (manned_init now) hok hrun
  exact h.not_stranded

/-- In such a run the loops can always go on to answer a call that is sending or waiting. -/
theorem take_replied (now : ℤ) (actions : List LoopAction)
    (hok : Machine.Along step Prudent (init now) actions) (s : Loops)
    (hrun : Machine.run step (init now) actions = some s) {i : ℕ} {c : Client}
    {b : Bucket Memory.TokenBucket} (hc : s.clients.lookup i = some c)
    (hb : c.progress.pending = some b) :
    ∃ more ⊆ [.respond b.id now, .receive i], ∃ s' reply, Machine.run step s more = some s' ∧
      s'.clients.lookup i = some { c with progress := .replied reply } := by
  have hmanned : Manned s :=
    Machine.run_induction Manned (fun _ _ _ => step_manned) (manned_init now) hok hrun
  have hpaired : Paired s :=
    Machine.run_invariant Paired (fun _ _ _ => step_paired) (paired_init now) hrun
  refine hpaired.exists_reply hc hb (hmanned.inHand i b ?_) now
  rwa [inHand_of_lookup hc]

/-- A call finds a bucket of the first config and is sending its request. -/
def sending : List LoopAction :=
  [.base (.update [] System.shortLived), .base (.enter "a" "x"), .base (.look 0), .base (.create 0),
    .take 0 ⟨1, 0, false⟩]

/-- A loop answers the request that it has got although its bucket has been destroyed; then it
exits, and the next call does not find the bucket. -/
theorem no_take_stranded_served :
    ∃ s, Machine.run step (init 0) (sending ++ [.base (.update ["a"] { version := 1 }), .receive 0,
        .respond 0 5, .exit 0, .base (.enter "a" "x"), .base (.look 1), .base (.report 1),
        .take 1 ⟨1, 0, false⟩]) = some s ∧ ¬ s.Stranded := by
  have hrun := (Option.some_get (show (Machine.run step (init 0) (sending ++
    [.base (.update ["a"] { version := 1 }), .receive 0, .respond 0 5, .exit 0,
      .base (.enter "a" "x"), .base (.look 1), .base (.report 1),
      .take 1 ⟨1, 0, false⟩])).isSome = true by decide)).symm
  exact ⟨_, hrun, no_take_stranded 0 _ (by decide) _ hrun⟩

/-- An update drops the namespace while a call is sending its request, and the loop picks the
exit. -/
theorem take_stranded :
    let cfg : ServiceConfig := { version := 1 }
    Normalised System.shortLived ∧ Normalised cfg ∧
      ∃ s, Machine.run step (init 0) (sending ++ [.base (.update ["a"] cfg), .exit 0]) = some s ∧
        s.Stranded := by
  intro cfg
  refine ⟨⟨System.shortLived, System.shortLived, rfl, Or.inl rfl⟩, ⟨cfg, cfg, rfl, Or.inl rfl⟩, ?_⟩
  exact Machine.exists_run (by decide)

end Loops

end QuotaService.Container
