import QuotaService.Lib.Expiring
import QuotaService.Stats.Agreement

/-! The stats in Redis over time. The servers add to the same sorted sets, whose keys are told to expire
at the next full hour with each update; the pipelines of the servers are executed at any time. What
is shown belongs to the current hour. -/
namespace QuotaService.Stats.Hourly
open Arith Events Expiring

section Model

/-- An hour, in nanoseconds. -/
def hour : ℤ := 3600000000000

/-- `time.Now().Add(time.Hour).Truncate(time.Hour)`. -/
def nearestHour (now : ℤ) : ℤ := (now + hour) / hour * hour

/-- A `ZINCRBY` and the `EXPIREAT` that goes with it. -/
structure Update where
  key : String
  increment : ℤ
  member : String
  expiry : ℤ
deriving DecidableEq

/-- What `HandleEvent` queues. -/
def handleEvent (now : ℤ) (event : Event) : Option Update :=
  if event.dynamic = false then none
  else match event.eventType with
    | .bucketMiss => some
      ⟨statsNamespace "misses" event.namespace, float64.wrap 1, event.bucketName, nearestHour now⟩
    | .tokensServed => some ⟨statsNamespace "hits" event.namespace, float64.wrap event.numTokens,
      event.bucketName, nearestHour now⟩
    | _ => none

/-- A pipeline that has been submitted, with what is left of it. The first update may have been
incremented without having been told to expire yet. -/
structure Pipeline where
  updates : List Update
  incremented : Bool
deriving DecidableEq

abbrev Database := Store SortedSet

/-- The updates that the servers have queued, the pipelines on their way, the sets in Redis, and the events
that have been handled, with their times. -/
structure State (ι : Type) where
  now : ℤ
  queued : List (ι × Update)
  sent : List Pipeline
  db : Database
  events : List (ℤ × Event)

def init {ι : Type} (now : ℤ) : State ι := ⟨now, [], [], ∅, []⟩

/-- A server handles an event; a server submits its pipeline; Redis executes the next command of one; time
passes. -/
inductive Action (ι : Type)
  | handle (i : ι) (event : Event)
  | submit (i : ι)
  | exec (n : ℕ)
  | elapse (d : ℕ)

variable {ι : Type} [DecidableEq ι]

def step (s : State ι) : Action ι → Option (State ι)
  | .handle i event => some { s with
      queued := s.queued ++ ((handleEvent s.now event).map fun u => (i, u)).toList
      events := s.events ++ [(s.now, event)] }
  | .submit i => some { s with
      queued := s.queued.filter fun q => !decide (q.1 = i)
      sent := s.sent ++ [⟨(s.queued.filter fun q => decide (q.1 = i)).map Prod.snd, false⟩] }
  | .exec n => (s.sent[n]?).bind fun p =>
    match p.updates with
    | [] => none
    | u :: rest =>
      if p.incremented then
        some { s with
          sent := s.sent.set n ⟨rest, false⟩
          db := s.db.expireAt s.now u.key u.expiry }
      else
        some { s with
          sent := s.sent.set n ⟨u :: rest, true⟩
          db := s.db.write s.now u.key fun set => (set.getD ∅).zIncrBy u.increment u.member }
  | .elapse d => some { s with now := s.now + d }

/-- The sorted set of a key. -/
def Database.set (db : Database) (now : ℤ) (key : String) : SortedSet :=
  ((Store.live db now key).map Entry.value).getD ∅

def redisGet (db : Database) (now : ℤ) («namespace» bucket : String) : BucketScores where
  hits := int64.wrap (((Database.set db now (statsNamespace "hits" «namespace»)).zScore bucket).getD 0)
  misses :=
    int64.wrap (((Database.set db now (statsNamespace "misses" «namespace»)).zScore bucket).getD 0)

/-- All that has been queued has been executed. -/
def Quiescent (s : State ι) : Prop := s.queued = [] ∧ ∀ p ∈ s.sent, p.updates = []

instance (s : State ι) : Decidable (Quiescent s) :=
  inferInstanceAs (Decidable (s.queued = [] ∧ ∀ p ∈ s.sent, p.updates = []))

/-- No key is told to expire at a time that has passed. -/
def Punctual (s : State ι) : Action ι → Prop
  | .exec n => ∀ p ∈ s.sent[n]?, p.incremented = true → ∀ u ∈ p.updates.head?, s.now < u.expiry
  | _ => True

instance (s : State ι) : DecidablePred (Punctual s)
  | .exec n => inferInstanceAs (Decidable
      (∀ p ∈ s.sent[n]?, p.incremented = true → ∀ u ∈ p.updates.head?, s.now < u.expiry))
  | .handle .. | .submit _ | .elapse _ => inferInstanceAs (Decidable True)

/-- The events of the current hour. -/
def State.hourly (s : State ι) : List Event :=
  (s.events.filter fun e => nearestHour e.1 = nearestHour s.now).map Prod.snd

/-- No totals that a double does not count exactly, and no tokens given back. -/
structure Small (events : List Event) : Prop where
  nonneg : ∀ event ∈ events, 0 ≤ event.numTokens
  lt : ∀ kind «namespace» bucket, sumOf kind «namespace» bucket events < 2 ^ 53

end Model

section Hours

theorem nearestHour_gt (now : ℤ) : now < nearestHour now := by
  unfold nearestHour hour
  omega

theorem nearestHour_le {now d : ℤ} (hd : hour ∣ d) (hlt : now < d) : nearestHour now ≤ d := by
  obtain ⟨k, rfl⟩ := hd
  unfold nearestHour hour at *
  omega

theorem nearestHour_mono {now now' : ℤ} (h : now ≤ now') : nearestHour now ≤ nearestHour now' := by
  unfold nearestHour hour
  omega

theorem hour_dvd_nearestHour (now : ℤ) : hour ∣ nearestHour now := Dvd.intro_left _ rfl

end Hours

section Updates
variable {ι : Type} {s : State ι} {u : Update}

def Update.amount (u : Update) : String × ℤ := (u.member, u.increment)

/-- The updates that the events come to. -/
def State.updates (s : State ι) : List Update := s.events.filterMap fun e => handleEvent e.1 e.2

/-- The updates of a pipeline that have not been incremented. -/
def Pipeline.waiting (p : Pipeline) : List Update :=
  if p.incremented then p.updates.tail else p.updates

/-- The updates that have not been incremented. -/
def State.outstanding (s : State ι) : List Update :=
  s.queued.map Prod.snd ++ s.sent.flatMap Pipeline.waiting

/-- What an event counts for is what it is queued as. -/
theorem handleEvent_eq (now : ℤ) {event : Event} (hfits : ∀ c ∈ counted event, float64.Fits c.2) :
    handleEvent now event = (counted event).map fun c =>
      ⟨statsNamespace c.1.key event.namespace, c.2, event.bucketName, nearestHour now⟩ := by
  unfold handleEvent
  cases hdynamic : event.dynamic with
  | false => simp [counted, hdynamic]
  | true =>
    have hone : float64.wrap 1 = 1 := float64_fits_of_lt (by decide)
    cases htype : event.eventType with
    | tokensServed =>
      have hserved : float64.wrap event.numTokens = event.numTokens :=
        hfits (.hits, event.numTokens) (by simp [counted, hdynamic, htype])
      simp [counted, hdynamic, htype, Kind.key, hserved]
    | bucketMiss => simp [counted, hdynamic, htype, Kind.key, hone]
    | timeoutServingTokens | tooManyTokensRequested | bucketCreated | bucketRemoved | serverError
      | bucketError => simp [counted, hdynamic, htype]

theorem handleEvent_expiry {now : ℤ} {event : Event} (h : handleEvent now event = some u) :
    u.expiry = nearestHour now := by
  unfold handleEvent at h
  split_ifs at h
  split at h <;> cases h <;> rfl

theorem counted_bounds {event : Event} (h : 0 ≤ event.numTokens) {c : Kind × ℤ}
    (hc : counted event = some c) : 0 ≤ c.2 ∧ c.2 ≤ event.numTokens + 1 := by
  unfold counted at hc
  split_ifs at hc
  split at hc
  · cases hc
    constructor <;> omega
  · cases hc
    constructor <;> omega
  · cases hc

theorem amounts_nonneg {events : List Event} (h : ∀ event ∈ events, 0 ≤ event.numTokens) (kind : Kind)
    (ns : String) : ∀ e ∈ amounts kind ns events, 0 ≤ e.2 := by
  intro e he
  obtain ⟨event, hevent, he⟩ := List.mem_filterMap.mp he
  exact (counted_bounds (h event hevent) (amount_eq_some he).2.2).1

theorem Small.of_sublist {events events' : List Event} (h : Small events')
    (hsub : events.Sublist events') : Small events where
  nonneg event hevent := h.nonneg event (hsub.subset hevent)
  lt kind ns bucket := by
    have hle := Tally.total_le_of_subperm (hsub.filterMap (amount kind ns)).subperm
      (amounts_nonneg h.nonneg kind ns) bucket
    exact lt_of_le_of_lt hle (h.lt kind ns bucket)

theorem sumOf_cons_le {event : Event} (h : 0 ≤ event.numTokens) (kind : Kind) (ns bucket : String)
    (events : List Event) :
    sumOf kind ns bucket (event :: events) ≤ event.numTokens + 1 + sumOf kind ns bucket events := by
  have hsplit : amounts kind ns (event :: events) =
      (amount kind ns event).toList ++ amounts kind ns events := by
    cases hamount : amount kind ns event <;> simp [amounts, hamount]
  have hfirst : Tally.total (amount kind ns event).toList bucket ≤ event.numTokens + 1 := by
    cases hamount : amount kind ns event with
    | none =>
      simp only [Option.toList_none, Tally.total, List.filter_nil, List.map_nil, List.sum_nil]
      omega
    | some e =>
      have hcounted : e.2 ≤ event.numTokens + 1 :=
        (counted_bounds h (amount_eq_some hamount).2.2).2
      by_cases hbucket : e.1 = bucket
      · simpa [Tally.total, hbucket] using hcounted
      · simp only [Option.toList_some, Tally.total, hbucket, decide_false, List.filter_cons_of_neg,
          Bool.false_eq_true, not_false_eq_true, List.filter_nil, List.map_nil, List.sum_nil]
        omega
  unfold sumOf
  rw [hsplit, Tally.total_append]
  omega

theorem small_of_sum {events : List Event} (hnonneg : ∀ event ∈ events, 0 ≤ event.numTokens)
    (hsum : (events.map fun event => event.numTokens + 1).sum < 2 ^ 53) : Small events where
  nonneg := hnonneg
  lt kind ns bucket := by
    have hle : sumOf kind ns bucket events ≤ (events.map fun event => event.numTokens + 1).sum := by
      clear hsum
      induction events with
      | nil => exact le_of_eq rfl
      | cons event events ih =>
        have htail := ih fun e he => hnonneg e (List.mem_cons_of_mem event he)
        have hfirst := sumOf_cons_le (hnonneg event List.mem_cons_self) kind ns bucket events
        rw [List.map_cons, List.sum_cons]
        omega
    omega

/-- The amount of an event is a double. -/
theorem Small.fits {events : List Event} (h : Small events) {event : Event} (hevent : event ∈ events)
    {c : Kind × ℤ} (hc : c ∈ counted event) : float64.Fits c.2 := by
  have hone := h.of_sublist (List.singleton_sublist.mpr hevent)
  have hlt := hone.lt c.1 event.namespace event.bucketName
  have hnonneg := (counted_bounds (h.nonneg event hevent) hc).1
  have hamount : amounts c.1 event.namespace [event] = [(event.bucketName, c.2)] := by
    simp [amounts, amount, Option.mem_def.mp hc]
  rw [sumOf, hamount] at hlt
  have htotal : Tally.total [(event.bucketName, c.2)] event.bucketName = c.2 := by
    simp [Tally.total]
  exact float64_fits_of_lt (by omega)

/-- The updates of a key, among those of which the times are selected, are the amounts of the events. -/
theorem updates_amounts {events : List (ℤ × Event)} (h : Small (events.map Prod.snd)) (p : ℤ → Bool)
    (kind : Kind) (ns : String) :
    ((events.filterMap fun e => handleEvent e.1 e.2).filter fun u =>
        u.key = statsNamespace kind.key ns ∧ p u.expiry).map Update.amount =
      amounts kind ns ((events.filter fun e => p (nearestHour e.1)).map Prod.snd) := by
  rw [List.filter_filterMap, List.map_filterMap, amounts, List.filterMap_map, List.filterMap_filter]
  refine List.filterMap_congr fun e he => ?_
  have heq := handleEvent_eq e.1 fun c hc => h.fits (List.mem_map_of_mem he) hc
  cases hcounted : counted e.2 with
  | none =>
    rw [hcounted] at heq
    simp [heq, amount, hcounted]
  | some c =>
    rw [hcounted] at heq
    have hkey : statsNamespace c.1.key e.2.namespace = statsNamespace kind.key ns ↔
        c.1 = kind ∧ e.2.namespace = ns := by
      constructor
      · exact statsNamespace_inj
      · rintro ⟨rfl, rfl⟩
        rfl
    by_cases hp : p (nearestHour e.1) = true
    · by_cases hboth : c.1 = kind ∧ e.2.namespace = ns
      · simp [heq, amount, hcounted, hp, hboth, Update.amount]
      · simp [heq, amount, hcounted, hkey, hp, hboth]
    · simp [heq, hp]

end Updates

section Keys
variable {ι : Type} {s s' : State ι} {strict : Prop} {executed kept : List Update} {key : String}

/-- The key of an update expires no later than the update has said, or is about to be told so. -/
def Due (s : State ι) (key : String) (u : Update) : Prop :=
  (∃ p ∈ s.sent, p.incremented = true ∧ ∃ v ∈ p.updates.head?, v.key = key ∧ v.expiry = u.expiry) ∨
    ∃ e ∈ Store.live s.db s.now key, ∃ d ∈ e.expiry, d ≤ u.expiry

/-- A set holds some of what has been added to it, all of which is due, and in strict runs what has been
added in the current hour. -/
structure Keeps (strict : Prop) (s : State ι) (executed : List Update) (key : String)
    (kept : List Update) : Prop where
  some_of : kept.Subperm (executed.filter fun u => u.key = key)
  counts : Tally.Counts (kept.map Update.amount) (Database.set s.db s.now key)
  due : ∀ u ∈ kept, Due s key u
  all_of : strict →
    (executed.filter fun u => u.key = key ∧ u.expiry = nearestHour s.now).Subperm kept

/-- The entries of a run. -/
structure Inv (strict : Prop) (s : State ι) : Prop where
  stamped : ∀ e ∈ s.events, e.1 ≤ s.now
  aligned : ∀ key, ∀ e ∈ Store.live s.db s.now key, ∀ d ∈ e.expiry, hour ∣ d
  known : ∀ p ∈ s.sent, ∀ u ∈ p.updates, u ∈ s.updates
  queued : ∀ q ∈ s.queued, q.2 ∈ s.updates
  keeps : Small (s.events.map Prod.snd) → ∃ executed : List Update,
    (executed ++ s.outstanding).Perm s.updates ∧ ∀ key, ∃ kept, Keeps strict s executed key kept

theorem counts_empty_eq_nil (h : Tally.Counts (kept.map Update.amount) (∅ : SortedSet)) : kept = [] := by
  cases kept with
  | nil => rfl
  | cons u kept =>
    have hmember := h u.member
    rw [AList.lookup_empty, if_pos (by simp [Update.amount])] at hmember
    cases hmember

theorem set_of_live_none {db : Database} {now : ℤ} (h : Store.live db now key = none) :
    Database.set db now key = ∅ := by
  rw [Database.set, h]
  rfl

theorem set_congr {db db' : Database} {now now' : ℤ}
    (h : Store.live db' now' key = Store.live db now key) :
    Database.set db' now' key = Database.set db now key := by
  rw [Database.set, h, Database.set]

theorem Inv.expiry_le (h : Inv strict s) {u : Update} (hu : u ∈ s.updates) :
    u.expiry ≤ nearestHour s.now ∧ hour ∣ u.expiry := by
  obtain ⟨e, he, hevent⟩ := List.mem_filterMap.mp hu
  rw [handleEvent_expiry hevent]
  exact ⟨nearestHour_mono (h.stamped e he), hour_dvd_nearestHour e.1⟩

/-- What is kept of a key that nothing happens to. -/
theorem Keeps.congr (h : Keeps strict s executed key kept) (hnow : s'.now = s.now)
    (hlive : Store.live s'.db s'.now key = Store.live s.db s.now key)
    (hsent : ∀ p ∈ s.sent, p.incremented = true → (∃ v ∈ p.updates.head?, v.key = key) → p ∈ s'.sent)
    {executed' : List Update}
    (hexecuted : (executed'.filter fun u => u.key = key) = executed.filter fun u => u.key = key) :
    Keeps strict s' executed' key kept where
  some_of := by
    rw [hexecuted]
    exact h.some_of
  counts := by
    rw [set_congr hlive]
    exact h.counts
  due u hu := by
    rcases h.due u hu with ⟨p, hp, hincremented, v, hv, hkey, hexpiry⟩ | hlater
    · exact Or.inl ⟨p, hsent p hp hincremented ⟨v, hv, hkey⟩, hincremented, v, hv, hkey, hexpiry⟩
    · right
      rw [hlive]
      exact hlater
  all_of hstrict := by
    have hhour : (executed'.filter fun u => u.key = key ∧ u.expiry = nearestHour s'.now) =
        executed.filter fun u => u.key = key ∧ u.expiry = nearestHour s.now := by
      have hsplit : ∀ l : List Update, (l.filter fun u => u.key = key ∧ u.expiry = nearestHour s.now) =
          (l.filter fun u => u.key = key).filter fun u => u.expiry = nearestHour s.now := by
        intro l
        rw [List.filter_filter]
        refine List.filter_congr fun u _ => ?_
        by_cases hkey : u.key = key <;> simp [hkey]
      rw [hnow, hsplit, hsplit, hexecuted]
    rw [hhour]
    exact h.all_of hstrict

/-- Time passes: the key goes on, or it has expired with all that it held. -/
theorem Keeps.elapse (h : Keeps strict s executed key kept) (hinv : Inv strict s)
    (hexecuted : ∀ u ∈ executed, u.expiry ≤ nearestHour s.now) (d : ℕ) :
    ∃ kept', Keeps strict { s with now := s.now + d } executed key kept' := by
  have hle : s.now ≤ s.now + d := by omega
  have hhours := nearestHour_mono hle
  have hlater : Store.live s.db (s.now + d) key =
      (Store.live s.db s.now key).filter fun e => e.LiveAt (s.now + d) := Store.live_later hle
  -- what was executed for a later hour would have been executed in it
  have hnone : nearestHour s.now < nearestHour (s.now + d) →
      (executed.filter fun u => u.key = key ∧ u.expiry = nearestHour (s.now + d)) = [] := by
    intro hlt
    rw [List.filter_eq_nil_iff]
    intro u hu hboth
    have hexpiry := hexecuted u hu
    have hsame := (of_decide_eq_true hboth).2
    omega
  have hall : ∀ kept' : List Update, (nearestHour (s.now + d) = nearestHour s.now → kept' = kept) →
      strict → (executed.filter fun u => u.key = key ∧ u.expiry = nearestHour (s.now + d)).Subperm
        kept' := by
    intro kept' hkept hstrict
    rcases eq_or_lt_of_le hhours with hsame | hlt
    · rw [← hsame, hkept hsame.symm]
      exact h.all_of hstrict
    · rw [hnone hlt]
      exact List.nil_subperm
  cases hlive : Store.live s.db s.now key with
  | none =>
    have hgone : Store.live s.db (s.now + d) key = none := by
      rw [hlater, hlive]
      rfl
    refine ⟨kept, h.some_of, ?_, fun u hu => ?_, hall kept fun _ => rfl⟩
    · rw [set_of_live_none hgone, ← set_of_live_none hlive]
      exact h.counts
    · have hcounts := h.counts
      rw [set_of_live_none hlive] at hcounts
      rw [counts_empty_eq_nil hcounts] at hu
      cases hu
  | some e =>
    by_cases he : e.LiveAt (s.now + d)
    · have hstays : Store.live s.db (s.now + d) key = some e := by
        rw [hlater, hlive]
        simp [Option.filter, he]
      refine ⟨kept, h.some_of, ?_, fun u hu => ?_, hall kept fun _ => rfl⟩
      · rw [set_congr (hstays.trans hlive.symm)]
        exact h.counts
      · rcases h.due u hu with hpending | hexpires
        · exact Or.inl hpending
        · right
          rw [hstays, ← hlive]
          exact hexpires
    · have hgone : Store.live s.db (s.now + d) key = none := by
        rw [hlater, hlive]
        simp [Option.filter, he]
      refine ⟨[], List.nil_subperm, ?_, fun u hu => absurd hu List.not_mem_nil, hall [] fun hsame => ?_⟩
      · rw [set_of_live_none hgone]
        exact Tally.counts_empty
      · -- it expires at a full hour
        exfalso
        apply he
        intro time htime
        have hdvd := hinv.aligned key e hlive time htime
        have hbefore := (Store.live_eq_some.mp hlive).2 time htime
        have hnext := nearestHour_le hdvd hbefore
        have hafter := nearestHour_gt (s.now + d)
        omega

end Keys

section Execution
variable {ι : Type} {s : State ι} {strict : Prop} {executed kept : List Update} {key : String}
variable {n : ℕ} {p : Pipeline} {u : Update} {rest : List Update}

theorem mem_set_of_mem {α : Type} {l : List α} {n : ℕ} {a b x : α} (hl : l[n]? = some a) (hx : x ∈ l) :
    x = a ∨ x ∈ l.set n b := by
  obtain ⟨m, hm⟩ := List.getElem?_of_mem hx
  by_cases hmn : n = m
  · subst hmn
    exact Or.inl (Option.some.inj (hm.symm.trans hl))
  · right
    have hset := List.getElem?_set_ne (a := b) (l := l) hmn
    exact List.mem_of_getElem? (hset.trans hm)

theorem flatMap_set_perm {α β : Type} {l : List α} {n : ℕ} {a b : α} (hl : l[n]? = some a) (f : α → List β)
    {x : List β} (hf : f a = x ++ f b) : (l.flatMap f).Perm (x ++ (l.set n b).flatMap f) := by
  obtain ⟨hn, hget⟩ := List.getElem?_eq_some_iff.mp hl
  have hsplit : l = l.take n ++ a :: l.drop (n + 1) := by
    rw [← hget, List.getElem_cons_drop, List.take_append_drop]
  have hset : l.set n b = l.take n ++ b :: l.drop (n + 1) := List.set_eq_take_append_cons_drop.trans (if_pos hn)
  have hleft : l.flatMap f = (l.take n).flatMap f ++ (x ++ f b ++ (l.drop (n + 1)).flatMap f) := by
    conv_lhs => rw [hsplit]
    rw [List.flatMap_append, List.flatMap_cons, hf]
  rw [hleft, hset, List.flatMap_append, List.flatMap_cons]
  simp only [List.append_assoc]
  exact List.perm_append_comm_assoc _ _ _

/-- The state after the increment of an update. -/
def State.increment (s : State ι) (n : ℕ) (u : Update) (rest : List Update) : State ι :=
  { s with
    sent := s.sent.set n ⟨u :: rest, true⟩
    db := s.db.write s.now u.key fun set => (set.getD ∅).zIncrBy u.increment u.member }

/-- The state after a key has been told to expire. -/
def State.expire (s : State ι) (n : ℕ) (u : Update) (rest : List Update) : State ι :=
  { s with
    sent := s.sent.set n ⟨rest, false⟩
    db := s.db.expireAt s.now u.key u.expiry }

theorem Keeps.increment (h : Keeps strict s executed u.key kept) (hp : s.sent[n]? = some p)
    (hincremented : p.incremented = false)
    (hfits : float64.Fits ((Database.set s.db s.now u.key).score u.member + u.increment)) :
    Keeps strict (s.increment n u rest) (executed ++ [u]) u.key (kept ++ [u]) where
  some_of := by
    rw [List.filter_append]
    simpa using (List.subperm_append_right _).mpr h.some_of
  counts := by
    have hset : Database.set (s.increment n u rest).db s.now u.key =
        (Database.set s.db s.now u.key).add .float64 u.member u.increment := by
      rw [Database.set, State.increment, Store.live_write]
      rfl
    rw [List.map_append]
    change Tally.Counts _ (Database.set (s.increment n u rest).db s.now u.key)
    rw [hset]
    exact h.counts.add hfits
  due v hv := by
    rcases List.mem_append.mp hv with hv | hv
    · rcases h.due v hv with ⟨p', hp', hstarted, hhead⟩ | ⟨e, he, d, hd, hle⟩
      · left
        rcases mem_set_of_mem (b := ⟨u :: rest, true⟩) hp hp' with rfl | hmem
        · rw [hincremented] at hstarted
          cases hstarted
        · exact ⟨p', hmem, hstarted, hhead⟩
      · right
        have hbefore : Store.live s.db s.now u.key = some e := he
        have hexpiry : (Store.live s.db s.now u.key).bind Entry.expiry = some d := by
          rw [hbefore]
          exact hd
        exact ⟨_, Store.live_write _, d, hexpiry, hle⟩
    · obtain rfl := List.mem_singleton.mp hv
      have hn := (List.getElem?_eq_some_iff.mp hp).1
      exact Or.inl ⟨⟨v :: rest, true⟩, List.mem_set hn _, rfl, v, rfl, rfl, rfl⟩
  all_of hstrict := by
    rw [List.filter_append]
    have hlast : ([u].filter fun v => v.key = u.key ∧ v.expiry = nearestHour s.now).Subperm [u] :=
      List.filter_sublist.subperm
    exact ((List.subperm_append_right _).mpr (h.all_of hstrict)).trans
      ((List.subperm_append_left _).mpr hlast)

theorem Keeps.expire (h : Keeps strict s executed u.key kept) (hinv : Inv strict s)
    (hp : s.sent[n]? = some p) (hupdates : p.updates = u :: rest) (hincremented : p.incremented = true)
    (hpunctual : strict → s.now < u.expiry) :
    ∃ kept', Keeps strict (s.expire n u rest) executed u.key kept' := by
  have hlive : Store.live (s.expire n u rest).db s.now u.key = if s.now < u.expiry then
      (Store.live s.db s.now u.key).map fun e => { e with expiry := some u.expiry } else none :=
    Store.live_expireAt u.expiry
  have hknown : u ∈ s.updates :=
    hinv.known p (List.mem_of_getElem? hp) u (by simp [hupdates])
  by_cases htime : s.now < u.expiry
  · rw [if_pos htime] at hlive
    refine ⟨kept, h.some_of, ?_, fun v hv => ?_, h.all_of⟩
    · have hset : Database.set (s.expire n u rest).db s.now u.key =
          Database.set s.db s.now u.key := by
        rw [Database.set, hlive, Database.set, Option.map_map]
        rfl
      exact hset ▸ h.counts
    · cases hbefore : Store.live s.db s.now u.key with
      | none =>
        have hcounts := h.counts
        rw [set_of_live_none hbefore] at hcounts
        rw [counts_empty_eq_nil hcounts] at hv
        cases hv
      | some e =>
        rw [hbefore] at hlive
        have hexpires : u.expiry ≤ v.expiry → Due (s.expire n u rest) u.key v := fun hle =>
          Or.inr ⟨_, hlive, u.expiry, rfl, hle⟩
        rcases h.due v hv with ⟨p', hp', hstarted, w, hw, hkey, hexpiry⟩ | ⟨e', he', d, hd, hle⟩
        · rcases mem_set_of_mem (b := ⟨rest, false⟩) hp hp' with rfl | hmem
          · rw [hupdates] at hw
            cases hw
            exact hexpires hexpiry.le
          · exact Or.inl ⟨p', hmem, hstarted, w, hw, hkey, hexpiry⟩
        · -- the time that it had was no earlier than the next full hour
          have hdvd := hinv.aligned u.key e' he' d hd
          have hlater := nearestHour_le hdvd ((Store.live_eq_some.mp he').2 d hd)
          have hnext := (hinv.expiry_le hknown).1
          exact hexpires (by omega)
  · rw [if_neg htime] at hlive
    refine ⟨[], List.nil_subperm, ?_, fun v hv => absurd hv List.not_mem_nil, fun hstrict => ?_⟩
    · rw [show Database.set (s.expire n u rest).db (s.expire n u rest).now u.key = ∅ from
        set_of_live_none hlive]
      exact Tally.counts_empty
    · exact absurd (hpunctual hstrict) htime

end Execution

section Runs
variable {ι : Type} {s s' : State ι} {strict : Prop} {executed kept : List Update} {key : String}
variable {n : ℕ} {p : Pipeline} {u : Update} {rest : List Update}

theorem key_of_update (hu : u ∈ s.updates) : ∃ (kind : Kind) (ns : String),
    u.key = statsNamespace kind.key ns := by
  obtain ⟨e, -, hevent⟩ := List.mem_filterMap.mp hu
  unfold handleEvent at hevent
  split_ifs at hevent
  split at hevent
  · cases hevent
    exact ⟨.misses, e.2.namespace, rfl⟩
  · cases hevent
    exact ⟨.hits, e.2.namespace, rfl⟩
  · cases hevent

theorem subperm_map {α β : Type} {l l' : List α} (h : l.Subperm l') (f : α → β) :
    (l.map f).Subperm (l'.map f) := by
  obtain ⟨l₁, hperm, hsub⟩ := h
  exact ⟨l₁.map f, hperm.map f, hsub.map f⟩

/-- What some of the updates of a key add up to does not exceed what the events count for. -/
theorem total_le_sumOf (hsmall : Small (s.events.map Prod.snd)) (select : ℤ → Bool) {kind : Kind}
    {ns : String} {updates : List Update}
    (hsub : updates.Subperm
      (s.updates.filter fun v => v.key = statsNamespace kind.key ns ∧ select v.expiry))
    (member : String) :
    0 ≤ Tally.total (updates.map Update.amount) member ∧
      Tally.total (updates.map Update.amount) member ≤ sumOf kind ns member
        ((s.events.filter fun e => select (nearestHour e.1)).map Prod.snd) := by
  have hamounts := subperm_map hsub Update.amount
  rw [State.updates, updates_amounts hsmall select] at hamounts
  have hnonneg : ∀ e ∈ amounts kind ns
      ((s.events.filter fun e => select (nearestHour e.1)).map Prod.snd), 0 ≤ e.2 :=
    amounts_nonneg (hsmall.of_sublist (List.filter_sublist.map Prod.snd)).nonneg kind ns
  exact ⟨Tally.total_nonneg (fun e he => hnonneg e (hamounts.subset he)) member,
    Tally.total_le_of_subperm hamounts hnonneg member⟩

/-- An update can be incremented exactly. -/
theorem Keeps.fits (h : Keeps strict s executed u.key kept) (hsmall : Small (s.events.map Prod.snd))
    (hu : u ∈ s.updates) {others : List Update}
    (hperm : (executed ++ u :: others).Perm s.updates) :
    float64.Fits ((Database.set s.db s.now u.key).score u.member + u.increment) := by
  obtain ⟨kind, ns, hkey⟩ := key_of_update hu
  have hsub : (kept ++ [u]).Subperm
      (s.updates.filter fun v => v.key = statsNamespace kind.key ns ∧ (true : Bool)) := by
    have hall : ((executed ++ u :: others).filter fun v => v.key = u.key).Subperm
        (s.updates.filter fun v => v.key = u.key) := (hperm.filter _).subperm
    have hsame : (s.updates.filter fun v => v.key = statsNamespace kind.key ns ∧ (true : Bool)) =
        s.updates.filter fun v => v.key = u.key := by
      rw [hkey]
      simp
    rw [hsame]
    refine List.Subperm.trans ?_ hall
    rw [List.filter_append, List.filter_cons_of_pos (by simp)]
    refine ((List.subperm_append_right _).mpr h.some_of).trans ?_
    exact (List.subperm_append_left _).mpr
      (List.singleton_sublist.mpr (List.mem_cons_self)).subperm
  obtain ⟨hnonneg, hle⟩ := total_le_sumOf hsmall (fun _ => true) hsub u.member
  have hlt := hsmall.lt kind ns u.member
  have hevery : (s.events.filter fun e => (fun _ => true) (nearestHour e.1)).map Prod.snd =
      s.events.map Prod.snd := by simp
  have htotal : Tally.total ((kept ++ [u]).map Update.amount) u.member =
      (Database.set s.db s.now u.key).score u.member + u.increment := by
    rw [List.map_append, Tally.total_append, ← h.counts.score_eq]
    simp [Update.amount, Tally.total]
  rw [hevery] at hle
  rw [htotal] at hnonneg hle
  exact float64_fits_of_lt (by omega)

theorem expire_keeps (hinv : Inv strict s) (hp : s.sent[n]? = some p)
    (hupdates : p.updates = u :: rest) (hincremented : p.incremented = true)
    (hpunctual : strict → s.now < u.expiry) (h : ∀ key, ∃ kept, Keeps strict s executed key kept)
    (key : String) : ∃ kept, Keeps strict (s.expire n u rest) executed key kept := by
  obtain ⟨kept, hkept⟩ := h key
  by_cases hkey : key = u.key
  · subst hkey
    exact hkept.expire hinv hp hupdates hincremented hpunctual
  · have hnow : (s.expire n u rest).now = s.now := rfl
    refine ⟨kept, hkept.congr hnow (Store.live_expireAt_of_ne u.expiry hkey) ?_ rfl⟩
    intro p' hp' _ hhead
    rcases mem_set_of_mem (b := ⟨rest, false⟩) hp hp' with rfl | hmem
    · obtain ⟨v, hv, hsame⟩ := hhead
      rw [hupdates] at hv
      cases hv
      exact absurd hsame.symm hkey
    · exact hmem

theorem increment_keeps (hp : s.sent[n]? = some p) (hincremented : p.incremented = false)
    (hsmall : Small (s.events.map Prod.snd)) (hu : u ∈ s.updates) {others : List Update}
    (hperm : (executed ++ u :: others).Perm s.updates)
    (h : ∀ key, ∃ kept, Keeps strict s executed key kept) (key : String) :
    ∃ kept, Keeps strict (s.increment n u rest) (executed ++ [u]) key kept := by
  obtain ⟨kept, hkept⟩ := h key
  by_cases hkey : key = u.key
  · subst hkey
    exact ⟨_, hkept.increment hp hincremented (hkept.fits hsmall hu hperm)⟩
  · have hnow : (s.increment n u rest).now = s.now := rfl
    refine ⟨kept, hkept.congr hnow (Store.live_write_of_ne _ hkey) ?_ ?_⟩
    · intro p' hp' hstarted _
      rcases mem_set_of_mem (b := ⟨u :: rest, true⟩) hp hp' with rfl | hmem
      · rw [hincremented] at hstarted
        cases hstarted
      · exact hmem
    · rw [List.filter_append]
      simp [Ne.symm hkey]

/-- What a step does. -/
inductive Stepped [DecidableEq ι] (s : State ι) : Action ι → State ι → Prop
  | handle (i : ι) (event : Event) : Stepped s (.handle i event) { s with
      queued := s.queued ++ ((handleEvent s.now event).map fun u => (i, u)).toList
      events := s.events ++ [(s.now, event)] }
  | submit (i : ι) : Stepped s (.submit i) { s with
      queued := s.queued.filter fun q => !decide (q.1 = i)
      sent := s.sent ++ [⟨(s.queued.filter fun q => decide (q.1 = i)).map Prod.snd, false⟩] }
  | increment {n : ℕ} {p : Pipeline} {u : Update} {rest : List Update} (sent : s.sent[n]? = some p)
    (updates : p.updates = u :: rest) (first : p.incremented = false) :
    Stepped s (.exec n) (s.increment n u rest)
  | expire {n : ℕ} {p : Pipeline} {u : Update} {rest : List Update} (sent : s.sent[n]? = some p)
    (updates : p.updates = u :: rest) (second : p.incremented = true) :
    Stepped s (.exec n) (s.expire n u rest)
  | elapse (d : ℕ) : Stepped s (.elapse d) { s with now := s.now + d }

theorem step_stepped [DecidableEq ι] {a : Action ι} (hs : step s a = some s') : Stepped s a s' := by
  cases a with
  | handle i event =>
    cases hs
    exact .handle i event
  | submit i =>
    cases hs
    exact .submit i
  | elapse d =>
    cases hs
    exact .elapse d
  | exec n =>
    obtain ⟨p, hp, hs⟩ := Option.bind_eq_some_iff.mp hs
    cases hupdates : p.updates with
    | nil =>
      rw [hupdates] at hs
      cases hs
    | cons u rest =>
      rw [hupdates] at hs
      dsimp only at hs
      cases hincremented : p.incremented with
      | true =>
        rw [hincremented] at hs
        cases hs
        exact .expire hp hupdates hincremented
      | false =>
        rw [hincremented] at hs
        cases hs
        exact .increment hp hupdates hincremented

theorem updates_handle (event : Event) (q : List (ι × Update)) :
    ({ s with queued := q, events := s.events ++ [(s.now, event)] } : State ι).updates =
      s.updates ++ (handleEvent s.now event).toList := by
  unfold State.updates
  rw [List.filterMap_append]
  cases h : handleEvent s.now event <;> simp [h]

theorem inv_handle (h : Inv strict s) (i : ι) (event : Event) : Inv strict { s with
    queued := s.queued ++ ((handleEvent s.now event).map fun u => (i, u)).toList
    events := s.events ++ [(s.now, event)] } where
  stamped e he := by
    rcases List.mem_append.mp he with he | he
    · exact h.stamped e he
    · rw [List.mem_singleton.mp he]
  aligned := h.aligned
  known p hp u hu := by
    rw [updates_handle]
    exact List.mem_append_left _ (h.known p hp u hu)
  queued q hq := by
    rw [updates_handle]
    rcases List.mem_append.mp hq with hq | hq
    · exact List.mem_append_left _ (h.queued q hq)
    · obtain ⟨u, hu, rfl⟩ := Option.map_eq_some_iff.mp (Option.mem_toList.mp hq)
      exact List.mem_append_right _ (Option.mem_toList.mpr hu)
  keeps hsmall := by
    have hbefore : Small (s.events.map Prod.snd) := by
      refine hsmall.of_sublist ?_
      rw [List.map_append]
      exact List.sublist_append_left _ _
    obtain ⟨executed, hperm, hkeeps⟩ := h.keeps hbefore
    refine ⟨executed, ?_, fun key => ?_⟩
    · rw [updates_handle]
      have hqueued : (s.queued ++ ((handleEvent s.now event).map fun u => (i, u)).toList).map Prod.snd =
          s.queued.map Prod.snd ++ (handleEvent s.now event).toList := by
        cases handleEvent s.now event <;> simp
      simp only [State.outstanding, hqueued]
      refine List.Perm.trans ?_ (hperm.append_right _)
      simp only [State.outstanding, List.append_assoc]
      exact (List.perm_append_comm.append_left _).append_left _
    · obtain ⟨kept, hkept⟩ := hkeeps key
      exact ⟨kept, hkept.some_of, hkept.counts, hkept.due, hkept.all_of⟩

theorem inv_increment (h : Inv strict s) (hp : s.sent[n]? = some p) (hupdates : p.updates = u :: rest)
    (hincremented : p.incremented = false) : Inv strict (s.increment n u rest) where
  stamped := h.stamped
  aligned key e he d hd := by
    by_cases hkey : key = u.key
    · subst hkey
      have hlive : e = _ := (Option.some.inj ((Store.live_write _).symm.trans he)).symm
      rw [hlive] at hd
      obtain ⟨e', he', hexpiry⟩ := Option.bind_eq_some_iff.mp hd
      exact h.aligned u.key e' he' d hexpiry
    · have hlive : Store.live (s.increment n u rest).db s.now key = Store.live s.db s.now key :=
        Store.live_write_of_ne _ hkey
      exact h.aligned key e (hlive.symm.trans he) d hd
  known p' hp' v hv := by
    rcases List.mem_or_eq_of_mem_set hp' with hp' | rfl
    · exact h.known p' hp' v hv
    · rw [← hupdates] at hv
      exact h.known p (List.mem_of_getElem? hp) v hv
  queued := h.queued
  keeps hsmall := by
    obtain ⟨executed, hperm, hkeeps⟩ := h.keeps hsmall
    have hu : u ∈ s.updates := h.known p (List.mem_of_getElem? hp) u (by simp [hupdates])
    have hwaiting : p.waiting = [u] ++ Pipeline.waiting ⟨u :: rest, true⟩ := by
      simp [Pipeline.waiting, hupdates, hincremented]
    have houtstanding : (s.outstanding).Perm (u :: (s.increment n u rest).outstanding) := by
      have hsent := flatMap_set_perm hp Pipeline.waiting hwaiting
      refine (hsent.append_left _).trans ?_
      exact List.perm_append_comm_assoc _ [u] _
    have hperm' := (houtstanding.symm.append_left executed).trans hperm
    refine ⟨executed ++ [u], ?_, fun key => ?_⟩
    · rw [List.append_assoc]
      exact hperm'
    · exact increment_keeps hp hincremented hsmall hu hperm' hkeeps key

theorem inv_expire (h : Inv strict s) (hp : s.sent[n]? = some p) (hupdates : p.updates = u :: rest)
    (hincremented : p.incremented = true) (hpunctual : strict → s.now < u.expiry) :
    Inv strict (s.expire n u rest) where
  stamped := h.stamped
  aligned key e he d hd := by
    by_cases hkey : key = u.key
    · subst hkey
      have hlive := (Store.live_expireAt u.expiry).symm.trans he
      split_ifs at hlive
      obtain ⟨e', -, rfl⟩ := Option.map_eq_some_iff.mp hlive
      cases hd
      exact (h.expiry_le (h.known p (List.mem_of_getElem? hp) u (by simp [hupdates]))).2
    · have hlive : Store.live (s.expire n u rest).db s.now key = Store.live s.db s.now key :=
        Store.live_expireAt_of_ne u.expiry hkey
      exact h.aligned key e (hlive.symm.trans he) d hd
  known p' hp' v hv := by
    rcases List.mem_or_eq_of_mem_set hp' with hp' | rfl
    · exact h.known p' hp' v hv
    · refine h.known p (List.mem_of_getElem? hp) v ?_
      rw [hupdates]
      exact List.mem_cons_of_mem u hv
  queued := h.queued
  keeps hsmall := by
    obtain ⟨executed, hperm, hkeeps⟩ := h.keeps hsmall
    have hwaiting : p.waiting = [] ++ Pipeline.waiting ⟨rest, false⟩ := by
      simp [Pipeline.waiting, hupdates, hincremented]
    have hsent := flatMap_set_perm hp Pipeline.waiting hwaiting
    refine ⟨executed, ?_, expire_keeps h hp hupdates hincremented hpunctual hkeeps⟩
    exact ((hsent.symm.append_left _).append_left executed).trans hperm

theorem inv_elapse (h : Inv strict s) (d : ℕ) : Inv strict { s with now := s.now + d } where
  stamped e he := by
    have hbefore := h.stamped e he
    dsimp only
    omega
  aligned key e he := by
    rw [Store.live_later (by omega : s.now ≤ s.now + d)] at he
    exact h.aligned key e (Option.filter_eq_some_iff.mp he).1
  known := h.known
  queued := h.queued
  keeps hsmall := by
    obtain ⟨executed, hperm, hkeeps⟩ := h.keeps hsmall
    refine ⟨executed, hperm, fun key => ?_⟩
    obtain ⟨kept, hkept⟩ := hkeeps key
    refine hkept.elapse h (fun u hu => ?_) d
    exact (h.expiry_le (hperm.subset (List.mem_append_left _ hu))).1

theorem inv_submit [DecidableEq ι] (h : Inv strict s) (i : ι) : Inv strict { s with
    queued := s.queued.filter fun q => !decide (q.1 = i)
    sent := s.sent ++ [⟨(s.queued.filter fun q => decide (q.1 = i)).map Prod.snd, false⟩] } where
  stamped := h.stamped
  aligned := h.aligned
  known p hp u hu := by
    rcases List.mem_append.mp hp with hp | hp
    · exact h.known p hp u hu
    · rw [List.mem_singleton.mp hp] at hu
      obtain ⟨q, hq, rfl⟩ := List.mem_map.mp hu
      exact h.queued q (List.mem_of_mem_filter hq)
  queued q hq := h.queued q (List.mem_of_mem_filter hq)
  keeps hsmall := by
    obtain ⟨executed, hperm, hkeeps⟩ := h.keeps hsmall
    refine ⟨executed, ?_, fun key => ?_⟩
    · refine List.Perm.trans (List.Perm.append_left _ ?_) hperm
      have hsplit := (List.filter_append_perm (fun q : ι × Update => decide (q.1 = i)) s.queued).map
        Prod.snd
      rw [List.map_append] at hsplit
      have hnew : Pipeline.waiting
          ⟨(s.queued.filter fun q => decide (q.1 = i)).map Prod.snd, false⟩ =
            (s.queued.filter fun q => decide (q.1 = i)).map Prod.snd := rfl
      simp only [State.outstanding, List.flatMap_append, List.flatMap_singleton, hnew]
      refine List.Perm.trans ?_ (hsplit.append_right _)
      rw [← List.append_assoc]
      refine List.perm_append_comm.trans ?_
      rw [← List.append_assoc]
    · obtain ⟨kept, hkept⟩ := hkeeps key
      refine ⟨kept, hkept.some_of, hkept.counts, fun u hu => ?_, hkept.all_of⟩
      exact (hkept.due u hu).imp_left fun ⟨p, hp, hdue⟩ => ⟨p, List.mem_append_left _ hp, hdue⟩

theorem step_inv [DecidableEq ι] (h : Inv strict s) {a : Action ι} (hpunctual : strict → Punctual s a)
    (hs : step s a = some s') : Inv strict s' := by
  cases step_stepped hs with
  | handle i event => exact inv_handle h i event
  | submit i => exact inv_submit h i
  | elapse d => exact inv_elapse h d
  | increment sent updates first => exact inv_increment h sent updates first
  | expire sent updates second =>
    refine inv_expire h sent updates second fun hstrict => ?_
    exact hpunctual hstrict _ sent second _ (by simp [updates])

theorem init_inv (strict : Prop) (now : ℤ) : Inv strict (init now : State ι) where
  stamped _ he := absurd he List.not_mem_nil
  aligned key e he := by cases he
  known _ hp := absurd hp List.not_mem_nil
  queued _ hq := absurd hq List.not_mem_nil
  keeps _ := ⟨[], List.Perm.refl _, fun _ => ⟨[], {
    some_of := List.Subperm.refl _
    counts := Tally.counts_empty
    due := fun _ hu => absurd hu List.not_mem_nil
    all_of := fun _ => List.Subperm.refl _ }⟩⟩

/-- When nothing is on its way, a set holds updates of the current hour, and in strict runs all. -/
theorem kept_of_quiescent (h : Inv strict s) (hsmall : Small (s.events.map Prod.snd))
    (hquiescent : Quiescent s) (key : String) : ∃ kept : List Update,
    Tally.Counts (kept.map Update.amount) (Database.set s.db s.now key) ∧
    kept.Subperm (s.updates.filter fun u => u.key = key ∧ u.expiry = nearestHour s.now) ∧
    (strict →
      (s.updates.filter fun u => u.key = key ∧ u.expiry = nearestHour s.now).Subperm kept) := by
  obtain ⟨executed, hperm, hkeeps⟩ := h.keeps hsmall
  obtain ⟨kept, hkept⟩ := hkeeps key
  have hnone : s.outstanding = [] := by
    have hsent : s.sent.flatMap Pipeline.waiting = [] := by
      rw [List.flatMap_eq_nil_iff]
      intro p hp
      have hupdates := hquiescent.2 p hp
      unfold Pipeline.waiting
      split_ifs <;> simp [hupdates]
    rw [State.outstanding, hquiescent.1, hsent]
    rfl
  rw [hnone, List.append_nil] at hperm
  have hcurrent : ∀ u ∈ kept, u.expiry = nearestHour s.now := by
    intro u hu
    have hmem := List.mem_of_mem_filter (hkept.some_of.subset hu)
    have hle := (h.expiry_le (hperm.subset hmem)).1
    rcases hkept.due u hu with ⟨p, hp, -, v, hv, -⟩ | ⟨e, he, d, hd, hlater⟩
    · rw [hquiescent.2 p hp] at hv
      cases hv
    · have hnext := nearestHour_le (h.aligned key e he d hd)
        ((Store.live_eq_some.mp he).2 d hd)
      omega
  refine ⟨kept, hkept.counts, ?_, fun hstrict => ?_⟩
  · have hsame : kept = kept.filter fun u => u.expiry = nearestHour s.now := by
      rw [List.filter_eq_self.mpr fun u hu => decide_eq_true (hcurrent u hu)]
    have hboth : (s.updates.filter fun u => u.key = key ∧ u.expiry = nearestHour s.now) =
        (s.updates.filter fun u => u.key = key).filter fun u => u.expiry = nearestHour s.now := by
      rw [List.filter_filter]
      refine List.filter_congr fun u _ => ?_
      by_cases hkey : u.key = key <;> simp [hkey]
    rw [hsame, hboth]
    exact (hkept.some_of.trans (hperm.filter _).subperm).filter _
  · exact (hperm.symm.filter _).subperm.trans (hkept.all_of hstrict)

/-- What a set shows for a bucket is at most what the events of the current hour count for, and in strict
runs that. -/
theorem score_le (h : Inv strict s) (hsmall : Small (s.events.map Prod.snd))
    (hquiescent : Quiescent s) (kind : Kind) (ns bucket : String) :
    0 ≤ (Database.set s.db s.now (statsNamespace kind.key ns)).score bucket ∧
      (Database.set s.db s.now (statsNamespace kind.key ns)).score bucket ≤
        sumOf kind ns bucket s.hourly ∧
      (strict → (Database.set s.db s.now (statsNamespace kind.key ns)).score bucket =
        sumOf kind ns bucket s.hourly) := by
  obtain ⟨kept, hcounts, hsub, hall⟩ :=
    kept_of_quiescent h hsmall hquiescent (statsNamespace kind.key ns)
  have hselect : (s.updates.filter fun u =>
      u.key = statsNamespace kind.key ns ∧ u.expiry = nearestHour s.now) =
      s.updates.filter fun u => u.key = statsNamespace kind.key ns ∧
        (fun d => decide (d = nearestHour s.now)) u.expiry := by
    refine List.filter_congr fun u _ => ?_
    simp
  rw [hselect] at hsub hall
  have hle := total_le_sumOf hsmall (fun d => decide (d = nearestHour s.now)) hsub bucket
  have hhourly : ((s.events.filter fun e => (fun d => decide (d = nearestHour s.now))
      (nearestHour e.1)).map Prod.snd) = s.hourly := rfl
  rw [hhourly, ← hcounts.score_eq] at hle
  refine ⟨hle.1, hle.2, fun hstrict => ?_⟩
  have hperm := (hsub.antisymm (hall hstrict)).map Update.amount
  rw [State.updates, updates_amounts hsmall fun d => decide (d = nearestHour s.now)] at hperm
  rw [hcounts.score_eq]
  exact Tally.total_perm hperm bucket

theorem redisGet_eq (h : Inv strict s) (hsmall : Small (s.events.map Prod.snd))
    (hquiescent : Quiescent s) (ns bucket : String) :
    redisGet s.db s.now ns bucket =
      ⟨(Database.set s.db s.now (statsNamespace Kind.hits.key ns)).score bucket,
        (Database.set s.db s.now (statsNamespace Kind.misses.key ns)).score bucket⟩ := by
  have hfits : ∀ kind : Kind, int64.wrap
      ((Database.set s.db s.now (statsNamespace kind.key ns)).score bucket) =
        (Database.set s.db s.now (statsNamespace kind.key ns)).score bucket := by
    intro kind
    obtain ⟨hnonneg, hle, -⟩ := score_le h hsmall hquiescent kind ns bucket
    have hsub : s.hourly.Sublist (s.events.map Prod.snd) := List.filter_sublist.map Prod.snd
    have hhourly : sumOf kind ns bucket s.hourly < 2 ^ 53 := (hsmall.of_sublist hsub).lt kind ns bucket
    exact int64_fits_iff.mpr (by omega)
  have hhits := hfits .hits
  have hmisses := hfits .misses
  unfold redisGet
  rw [← hhits, ← hmisses]
  rfl

/-- In every run of any number of servers, once all updates have been executed the stats in Redis show at
most what the events of the current hour count for, and exactly that if no key was told to expire at
a time that had passed. -/
theorem stats_of_the_hour [DecidableEq ι] (now : ℤ) (actions : List (Action ι)) (s : State ι)
    (hrun : Machine.run step (init now) actions = some s) (hsmall : Small (s.events.map Prod.snd))
    (hquiescent : Quiescent s) (ns bucket : String) :
    let shown := redisGet s.db s.now ns bucket
    (0 ≤ shown.hits ∧ shown.hits ≤ sumOf .hits ns bucket s.hourly) ∧
      (0 ≤ shown.misses ∧ shown.misses ≤ sumOf .misses ns bucket s.hourly) ∧
      (Machine.Along step Punctual (init now) actions →
        shown = ⟨sumOf .hits ns bucket s.hourly, sumOf .misses ns bucket s.hourly⟩) := by
  have hinv : Inv False s :=
    Machine.run_invariant (Inv False) (fun _ _ _ h hs => step_inv h False.elim hs)
      (init_inv False now) hrun
  have hhits := score_le hinv hsmall hquiescent .hits ns bucket
  have hmisses := score_le hinv hsmall hquiescent .misses ns bucket
  have hshown := redisGet_eq hinv hsmall hquiescent ns bucket
  refine ⟨?_, ?_, fun hpunctual => ?_⟩
  · rw [hshown]
    exact ⟨hhits.1, hhits.2.1⟩
  · rw [hshown]
    exact ⟨hmisses.1, hmisses.2.1⟩
  · have hstrict : Inv True s :=
      Machine.run_induction (Inv True) (fun _ _ _ h hp hs => step_inv h (fun _ => hp) hs)
        (init_inv True now) hpunctual hrun
    rw [hshown, (score_le hstrict hsmall hquiescent .hits ns bucket).2.2 trivial,
      (score_le hstrict hsmall hquiescent .misses ns bucket).2.2 trivial]

/-- A hit, an hour later two more that two servers count, and all that they queue is executed. -/
def turning : List (Action Bool) :=
  [.handle true (hit "a"), .submit true, .exec 0, .exec 0, .elapse 3600000000000,
    .handle false (hit "a"), .handle true (hit "a"), .submit false, .submit true,
    .exec 1, .exec 2, .exec 2, .exec 1]

theorem stats_of_the_hour_turning : ∃ s, Machine.run step (init 1700000000000000000) turning = some s ∧
    s.events.length = 3 ∧ redisGet s.db s.now "ns" "a" = ⟨2, 0⟩ := by
  have hexists : ∃ s, Machine.run step (init 1700000000000000000) turning = some s ∧ Quiescent s ∧
      (s.events.length = 3 ∧ (∀ event ∈ s.events.map Prod.snd, 0 ≤ event.numTokens) ∧
        ((s.events.map Prod.snd).map fun event => event.numTokens + 1).sum < 2 ^ 53) ∧
      sumOf .hits "ns" "a" s.hourly = 2 ∧ sumOf .misses "ns" "a" s.hourly = 0 :=
    Machine.exists_run (by decide +kernel)
  have hpunctual : Machine.Along step Punctual (init 1700000000000000000) turning := by
    decide +kernel
  obtain ⟨s, hrun, hquiescent, ⟨hlength, hnonneg, hsum⟩, hhits, hmisses⟩ := hexists
  have hshown := (stats_of_the_hour _ turning s hrun (small_of_sum hnonneg hsum) hquiescent
    "ns" "a").2.2 hpunctual
  rw [hhits, hmisses] at hshown
  exact ⟨s, hrun, hlength, hshown⟩

end Runs

end QuotaService.Stats.Hourly
