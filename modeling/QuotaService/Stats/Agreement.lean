import QuotaService.Stats.Listeners

/-! What the listeners agree on. Both hold the totals of the events, but the list of the highest scores
that Redis is asked for is one longer than that of the listener in memory. -/
namespace QuotaService.Stats
open Events Arith

section Counting

/-- What an event counts for, if it does. -/
def counted (event : Event) : Option (Kind × ℤ) :=
  if event.dynamic = false then none
  else match event.eventType with
    | .bucketMiss => some (.misses, 1)
    | .tokensServed => some (.hits, event.numTokens)
    | _ => none

/-- What an event counts for in a namespace, with its bucket. -/
def amount (kind : Kind) («namespace» : String) (event : Event) : Option (String × ℤ) :=
  (counted event).bind fun c =>
    if c.1 = kind ∧ event.namespace = «namespace» then some (event.bucketName, c.2) else none

def amounts (kind : Kind) («namespace» : String) (events : List Event) : List (String × ℤ) :=
  events.filterMap (amount kind «namespace»)

/-- The sum over the events of a bucket. -/
def sumOf (kind : Kind) («namespace» bucket : String) (events : List Event) : ℤ :=
  Tally.total (amounts kind «namespace» events) bucket

/-- The buckets that have been counted, with their sums. -/
def standings (kind : Kind) («namespace» : String) (events : List Event) : List BucketScore :=
  (Tally.totals (amounts kind «namespace» events)).map fun e => ⟨e.1, e.2⟩

/-- The two lists of highest scores are as long, at most ten, have the same scores, which do not
increase, and leave out nothing that scores more. -/
structure SameTop (all memory redis : List BucketScore) : Prop where
  memory_le : memory.length ≤ 10
  redis_le : redis.length ≤ 10
  scores : memory.map BucketScore.score = redis.map BucketScore.score
  sorted : (memory.map BucketScore.score).Pairwise (· ≥ ·)
  memory_left_out : ∀ x ∈ all, x ∉ memory → ∀ y ∈ memory, x.score ≤ y.score
  redis_left_out : ∀ x ∈ all, x ∉ redis → ∀ y ∈ redis, x.score ≤ y.score

/-- The listeners show the same statistics of a namespace, those of the events. -/
structure Agree (s : State) («namespace» : String) : Prop where
  memory : ∀ bucket, s.memory.get «namespace» bucket =
    ⟨sumOf .hits «namespace» bucket s.events, sumOf .misses «namespace» bucket s.events⟩
  redis : ∀ bucket, redisGet s.db «namespace» bucket =
    ⟨sumOf .hits «namespace» bucket s.events, sumOf .misses «namespace» bucket s.events⟩
  hits : ∀ top, s.memory.topHits «namespace» top →
    SameTop (standings .hits «namespace» s.events) top (redisTopHits s.db «namespace»)
  misses : ∀ top, s.memory.topMisses «namespace» top →
    SameTop (standings .misses «namespace» s.events) top (redisTopMisses s.db «namespace»)

end Counting

section Memory

/-- The scores of a namespace, none if it is not there. -/
def MemoryListener.counts (l : MemoryListener) (kind : Kind) («namespace» : String) :
    Tally String :=
  ((l.namespaces.lookup «namespace»).getD {}).counts kind

/-- The totals that a step computes, and the amounts that it hands on, can be represented. -/
def Representable (s : State) : Action → Prop
  | .handle event => ∀ c ∈ counted event,
      int64.Fits ((s.memory.counts c.1 event.namespace).score event.bucketName + c.2) ∧
        float64.Fits c.2
  | .exec n => ∀ command ∈ s.sent[n]?, match command with
      | .zIncrBy key increment member => float64.Fits ((s.db.set key).score member + increment)
      | .expireAt _ => True
  | _ => True

instance (s : State) : ∀ command : Command, Decidable (match command with
    | .zIncrBy key increment member => float64.Fits ((s.db.set key).score member + increment)
    | .expireAt _ => True)
  | .zIncrBy _ _ _ => inferInstanceAs (Decidable (float64.Fits _))
  | .expireAt _ => inferInstanceAs (Decidable True)

instance (s : State) : ∀ a, Decidable (Representable s a)
  | .handle event => inferInstanceAs (Decidable (∀ c ∈ counted event, _ ∧ _))
  | .exec n => inferInstanceAs (Decidable (∀ command ∈ s.sent[n]?, _))
  | .deadline | .notified => inferInstanceAs (Decidable True)

theorem counts_handleEvent (l : MemoryListener) (event : Event) (kind : Kind)
    («namespace» : String) :
    (l.handleEvent event).counts kind «namespace» = match amount kind «namespace» event with
      | none => l.counts kind «namespace»
      | some e => (l.counts kind «namespace»).add .int64 e.1 e.2 := by
  cases hdynamic : event.dynamic with
  | false => simp [MemoryListener.handleEvent, amount, counted, hdynamic]
  | true =>
    by_cases hns : event.namespace = «namespace»
    · subst hns
      cases htype : event.eventType <;> cases kind <;>
        simp [MemoryListener.handleEvent, hdynamic, htype, amount, counted, NamespaceStats.counts,
          MemoryListener.counts]
    · cases htype : event.eventType <;>
        simp [MemoryListener.handleEvent, hdynamic, htype, amount, counted, MemoryListener.counts,
          AList.lookup_insert_ne (Ne.symm hns), hns]

/-- The listener in memory holds the totals, which fit. -/
structure Holds (l : MemoryListener) (events : List Event) : Prop where
  counts : ∀ kind ns, Tally.Counts (amounts kind ns events) (l.counts kind ns)
  fits : ∀ kind ns bucket, int64.Fits (sumOf kind ns bucket events)

theorem filterMap_concat {α β : Type} (f : α → Option β) (l : List α) (a : α) :
    (l ++ [a]).filterMap f = l.filterMap f ++ (f a).toList := by
  rw [List.filterMap_append]
  cases h : f a <;> simp [h]

theorem amounts_append (kind : Kind) (ns : String) (events : List Event) (event : Event) :
    amounts kind ns (events ++ [event]) =
      amounts kind ns events ++ (amount kind ns event).toList :=
  filterMap_concat (amount kind ns) events event

/-- An event counts for its own bucket. -/
theorem amount_eq_some {kind : Kind} {ns : String} {event : Event} {e : String × ℤ}
    (h : amount kind ns event = some e) :
    event.namespace = ns ∧ event.bucketName = e.1 ∧ counted event = some (kind, e.2) := by
  obtain ⟨c, hcounted, hc⟩ := Option.bind_eq_some_iff.mp h
  split_ifs at hc with hcond
  obtain ⟨rfl, rfl⟩ := hcond
  cases hc
  exact ⟨rfl, rfl, hcounted⟩

theorem fits_of_representable {s : State} {event : Event}
    (hrep : Representable s (.handle event)) {kind : Kind} {ns : String} {e : String × ℤ}
    (h : amount kind ns event = some e) : int64.Fits ((s.memory.counts kind ns).score e.1 + e.2) := by
  obtain ⟨rfl, hbucket, hcounted⟩ := amount_eq_some h
  have hfits := (hrep (kind, e.2) hcounted).1
  rwa [hbucket] at hfits

theorem holds_handleEvent {s : State} (h : Holds s.memory s.events) {event : Event}
    (hrep : Representable s (.handle event)) :
    Holds (s.memory.handleEvent event) (s.events ++ [event]) := by
  constructor
  · intro kind ns
    rw [amounts_append, counts_handleEvent]
    cases hamount : amount kind ns event with
    | none =>
      rw [Option.toList_none, List.append_nil]
      exact h.counts kind ns
    | some e =>
      exact (h.counts kind ns).add (fits_of_representable hrep hamount)
  · intro kind ns bucket
    rw [sumOf, amounts_append, Tally.total_append]
    cases hamount : amount kind ns event with
    | none =>
      have hzero : Tally.total (none : Option (String × ℤ)).toList bucket = 0 := rfl
      rw [hzero, add_zero]
      exact h.fits kind ns bucket
    | some e =>
      have hfits := fits_of_representable hrep hamount
      rw [(h.counts kind ns).score_eq] at hfits
      by_cases hbucket : e.1 = bucket
      · subst hbucket
        simpa [Tally.total] using hfits
      · have hother : Tally.total (some e).toList bucket = 0 := by
          apply Tally.total_eq_zero
          simpa using Ne.symm hbucket
        rw [hother, add_zero]
        exact h.fits kind ns bucket

end Memory

section Redis

/-- The commands that are queued for an event. -/
def commands (event : Event) : List Command :=
  match counted event with
  | none => []
  | some (kind, n) => [.zIncrBy (statsNamespace kind.key event.namespace) n event.bucketName,
      .expireAt (statsNamespace kind.key event.namespace)]

/-- What a command adds to the sorted set of a key. -/
def increment (key : String) : Command → Option (String × ℤ)
  | .zIncrBy key' n member => if key' = key then some (member, n) else none
  | .expireAt _ => none

def increments (key : String) (cmds : List Command) : List (String × ℤ) :=
  cmds.filterMap (increment key)

theorem statsNamespace_inj {kind kind' : Kind} {ns ns' : String}
    (h : statsNamespace kind.key ns = statsNamespace kind'.key ns') : kind = kind' ∧ ns = ns' := by
  -- the last letter but one tells the kinds apart
  have hkind : kind = kind' := by
    have hletter := congrArg (fun key : String => key.toList.reverse[1]?) h
    cases kind <;> cases kind' <;> simp [statsNamespace, Kind.key] at hletter ⊢
  subst hkind
  refine ⟨rfl, ?_⟩
  unfold statsNamespace at h
  rwa [String.append_left_inj, String.append_left_inj, String.append_right_inj] at h

/-- The commands of an event add what it counts for. -/
theorem increments_commands (kind : Kind) (ns : String) (event : Event) :
    increments (statsNamespace kind.key ns) (commands event) = (amount kind ns event).toList := by
  unfold commands amount
  cases counted event with
  | none => rfl
  | some c =>
    have hkey : statsNamespace c.1.key event.namespace = statsNamespace kind.key ns ↔
        c.1 = kind ∧ event.namespace = ns := by
      constructor
      · exact statsNamespace_inj
      · rintro ⟨rfl, rfl⟩
        rfl
    simp only [increments, List.filterMap_cons, increment, hkey, Option.bind_some,
      List.filterMap_nil]
    split_ifs <;> rfl

theorem increments_flatMap (kind : Kind) (ns : String) (events : List Event) :
    increments (statsNamespace kind.key ns) (events.flatMap commands) = amounts kind ns events := by
  induction events with
  | nil => rfl
  | cons event events ih =>
    rw [List.flatMap_cons, increments, List.filterMap_append]
    change increments _ _ ++ increments _ _ = _
    rw [increments_commands, ih]
    unfold amounts
    cases h : amount kind ns event <;> simp [h]

/-- The listener queues the commands of an event whose amount is a double. -/
theorem pipe_handleEvent (l : RedisListener) {event : Event}
    (hfits : ∀ c ∈ counted event, float64.Fits c.2) :
    (l.handleEvent event).pipe = l.pipe ++ commands event := by
  unfold RedisListener.handleEvent commands
  cases hdynamic : event.dynamic with
  | false => simp [counted, hdynamic]
  | true =>
    have hone : float64.wrap 1 = 1 := float64_fits_of_lt (by decide)
    cases htype : event.eventType with
    | tokensServed =>
      have hserved : float64.wrap event.numTokens = event.numTokens :=
        hfits (.hits, event.numTokens) (by simp [counted, hdynamic, htype])
      simp [counted, hdynamic, htype, RedisListener.queueStatsUpdate, Kind.key, hserved]
    | bucketMiss =>
      simp [counted, hdynamic, htype, RedisListener.queueStatsUpdate, Kind.key, hone]
    | timeoutServingTokens | tooManyTokensRequested | bucketCreated | bucketRemoved | serverError
      | bucketError => simp [counted, hdynamic, htype]

/-- What has been executed, sent and queued are the commands of the events, and the sorted sets hold
what has been executed. -/
def Delivers (s : State) : Prop :=
  ∃ executed : List Command,
    (executed ++ s.sent ++ s.redis.pipe).Perm (s.events.flatMap commands) ∧
      ∀ key, Tally.Counts (increments key executed) (s.db.set key)

theorem set_exec (db : Database) (command : Command) (key : String) :
    (db.exec command).set key = match increment key command with
      | none => db.set key
      | some e => (db.set key).zIncrBy e.2 e.1 := by
  cases command with
  | expireAt key' => rfl
  | zIncrBy key' n member =>
    unfold Database.exec Database.set increment
    by_cases hkey : key' = key
    · subst hkey
      simp
    · simp [AList.lookup_insert_ne (Ne.symm hkey), hkey]

/-- A command that is executed counts, if the total is a double. -/
theorem counts_exec {db : Database} {executed : List Command} {key : String}
    (h : Tally.Counts (increments key executed) (db.set key)) {command : Command}
    (hfits : ∀ e ∈ increment key command, float64.Fits ((db.set key).score e.1 + e.2)) :
    Tally.Counts (increments key (executed ++ [command])) ((db.exec command).set key) := by
  have hincrements : increments key (executed ++ [command]) =
      increments key executed ++ (increment key command).toList :=
    filterMap_concat (increment key) executed command
  rw [set_exec, hincrements]
  cases hinc : increment key command with
  | none =>
    rw [Option.toList_none, List.append_nil]
    exact h
  | some e => exact h.add (hfits e hinc)

theorem delivers_submit {s : State} (h : Delivers s) : Delivers s.submit := by
  obtain ⟨executed, hperm, hcounts⟩ := h
  refine ⟨executed, ?_, hcounts⟩
  simpa [State.submit] using hperm

theorem delivers_handle {s : State} (h : Delivers s) {event : Event}
    (hrep : Representable s (.handle event)) (memory : MemoryListener) :
    Delivers { s with
      memory := memory
      redis := s.redis.handleEvent event
      events := s.events ++ [event] } := by
  obtain ⟨executed, hperm, hcounts⟩ := h
  have hpipe := pipe_handleEvent s.redis fun c hc => (hrep c hc).2
  refine ⟨executed, ?_, hcounts⟩
  have hboth := hperm.append_right (commands event)
  simpa [hpipe] using hboth

theorem delivers_exec {s : State} (h : Delivers s) {n : ℕ} {command : Command}
    (hsent : s.sent[n]? = some command) (hrep : Representable s (.exec n)) :
    Delivers { s with sent := s.sent.eraseIdx n, db := s.db.exec command } := by
  obtain ⟨executed, hperm, hcounts⟩ := h
  refine ⟨executed ++ [command], ?_, fun key => counts_exec (hcounts key) ?_⟩
  · obtain ⟨hn, hcommand⟩ := List.getElem?_eq_some_iff.mp hsent
    have herase := List.getElem_cons_eraseIdx_perm hn
    rw [hcommand] at herase
    have hsame : (executed ++ [command] ++ s.sent.eraseIdx n).Perm (executed ++ s.sent) := by
      rw [List.append_assoc]
      exact herase.append_left executed
    exact (hsame.append_right s.redis.pipe).trans hperm
  · intro e he
    have hfits := hrep command hsent
    cases command with
    | expireAt key' => cases he
    | zIncrBy key' increment member =>
      simp only [Stats.increment, Option.mem_def, Option.ite_none_right_eq_some,
        Option.some.injEq] at he
      obtain ⟨rfl, rfl⟩ := he
      exact hfits

end Redis

section Runs

/-- The invariant of a run in which all totals can be represented. -/
structure Inv (s : State) : Prop where
  memory : Holds s.memory s.events
  redis : Delivers s

theorem start_inv : Inv start := by
  have hzero : int64.Fits 0 := by decide
  refine ⟨⟨fun kind ns => ?_, fun _ _ _ => hzero⟩, ⟨[], List.Perm.refl [], fun key => ?_⟩⟩
  · cases kind <;> exact Tally.counts_empty
  · exact Tally.counts_empty

theorem step_inv (batchSize : ℤ) {s s' : State} {a : Action} (h : Inv s)
    (hrep : Representable s a) (hs : step batchSize s a = some s') : Inv s' := by
  cases a with
  | handle event =>
    cases hs
    exact ⟨holds_handleEvent h.memory hrep, delivers_handle h.redis hrep _⟩
  | deadline =>
    simp only [step] at hs
    split_ifs at hs
    · cases hs
      exact h
    · cases hs
      exact ⟨h.memory, delivers_submit h.redis⟩
  | notified =>
    have hcleared : Inv { s with redis := { s.redis with notifyBatcher := false } } :=
      ⟨h.memory, h.redis⟩
    simp only [step] at hs
    split_ifs at hs
    · cases hs
      exact ⟨hcleared.memory, delivers_submit hcleared.redis⟩
    · cases hs
      exact hcleared
  | exec n =>
    obtain ⟨command, hsent, rfl⟩ := Option.map_eq_some_iff.mp hs
    exact ⟨h.memory, delivers_exec h.redis hsent hrep⟩

/-- When all commands have been executed, the sorted sets hold the totals. -/
theorem counts_of_quiescent {s : State} (h : Delivers s) (hquiescent : Quiescent s) (kind : Kind)
    (ns : String) :
    Tally.Counts (amounts kind ns s.events) (s.db.set (statsNamespace kind.key ns)) := by
  obtain ⟨executed, hperm, hcounts⟩ := h
  rw [hquiescent.1, hquiescent.2, List.append_nil, List.append_nil] at hperm
  rw [← increments_flatMap]
  exact (hcounts _).perm (hperm.filterMap _)

/-- The entries of the tally of a namespace, as the lists show them, are the standings. -/
theorem standings_of_counts {kind : Kind} {ns : String} {events : List Event} {t : Tally String}
    (h : Tally.Counts (amounts kind ns events) t) :
    (t.entries.map fun e => (⟨e.1, e.2⟩ : BucketScore)).Perm (standings kind ns events) := by
  have hentries := h.entries_perm.map fun e => (⟨e.1, e.2⟩ : BucketScore)
  rwa [List.map_map] at hentries

/-- The list in memory has the first ten. -/
theorem isTop_memory {l : MemoryListener} {events : List Event} (h : Holds l events) {kind : Kind}
    {ns : String} {top : List BucketScore} (htop : l.top kind ns top) :
    Ranking.IsTop BucketScore.score 10 (standings kind ns events) top := by
  have hcounts := h.counts kind ns
  unfold MemoryListener.top at htop
  unfold MemoryListener.counts at hcounts
  cases hstats : l.namespaces.lookup ns with
  | none =>
    rw [hstats] at htop hcounts
    have hempty : Tally.Counts (amounts kind ns events) (∅ : Tally String) := by
      cases kind <;> exact hcounts
    have hperm := standings_of_counts hempty
    exact ⟨[], hperm, List.Pairwise.nil, htop⟩
  | some stats =>
    rw [hstats] at htop hcounts
    exact htop.perm (standings_of_counts hcounts)

theorem exists_top (l : MemoryListener) (kind : Kind) (ns : String) : ∃ top, l.top kind ns top := by
  unfold MemoryListener.top
  cases l.namespaces.lookup ns with
  | none => exact ⟨[], rfl⟩
  | some stats => exact Ranking.exists_isTop _ _ _

/-- The list of Redis has one more. -/
theorem isTop_redis {s : State} (h : Inv s) (hquiescent : Quiescent s) (kind : Kind)
    (ns : String) :
    Ranking.IsTop BucketScore.score 11 (standings kind ns s.events) (redisTop s.db kind ns) := by
  have hcounts := counts_of_quiescent h.redis hquiescent kind ns
  have htop := SortedSet.isTop_zRevRangeWithScores (s.db.set (statsNamespace kind.key ns)) 10
  have hscore : ∀ e ∈ (s.db.set (statsNamespace kind.key ns)).entries,
      int64.wrap e.2 = e.2 := by
    intro e he
    have hlookup := AList.mem_lookup_iff.mpr he
    have hsum := hcounts.score_eq e.1
    rw [Tally.score, Option.mem_def.mp hlookup, Option.getD_some] at hsum
    rw [hsum]
    exact h.memory.fits kind ns e.1
  have hmapped : Ranking.IsTop BucketScore.score 11 _ (redisTop s.db kind ns) := htop.map hscore
  have hentries : ((s.db.set (statsNamespace kind.key ns)).entries.map
      fun e => (⟨e.1, int64.wrap e.2⟩ : BucketScore)) =
      (s.db.set (statsNamespace kind.key ns)).entries.map fun e => ⟨e.1, e.2⟩ := by
    apply List.map_congr_left
    intro e he
    rw [hscore e he]
  rw [hentries] at hmapped
  exact hmapped.perm (standings_of_counts hcounts)

theorem inv_run {batchSize : ℤ} {s : State} {as : List Action}
    (hrun : Machine.run (step batchSize) start as = some s)
    (hrep : Machine.Along (step batchSize) Representable start as) : Inv s :=
  Machine.run_induction Inv (fun _ _ _ h hr hs => step_inv batchSize h hr hs) start_inv hrep hrun

theorem memory_get {l : MemoryListener} {events : List Event} (h : Holds l events)
    (ns bucket : String) :
    l.get ns bucket = ⟨sumOf .hits ns bucket events, sumOf .misses ns bucket events⟩ := by
  have hget : l.get ns bucket =
      ⟨(l.counts .hits ns).score bucket, (l.counts .misses ns).score bucket⟩ := by
    unfold MemoryListener.get MemoryListener.counts
    cases l.namespaces.lookup ns <;> rfl
  rw [hget, (h.counts .hits ns).score_eq, (h.counts .misses ns).score_eq]
  rfl

theorem redis_get {s : State} (h : Inv s) (hquiescent : Quiescent s) (ns bucket : String) :
    redisGet s.db ns bucket =
      ⟨sumOf .hits ns bucket s.events, sumOf .misses ns bucket s.events⟩ := by
  have hscore : ∀ kind : Kind,
      int64.wrap ((s.db.set (statsNamespace kind.key ns)).score bucket) =
        sumOf kind ns bucket s.events := by
    intro kind
    rw [(counts_of_quiescent h.redis hquiescent kind ns).score_eq]
    exact h.memory.fits kind ns bucket
  have hhits := hscore .hits
  have hmisses := hscore .misses
  unfold redisGet
  rw [← hhits, ← hmisses]
  rfl

end Runs

section Lists
variable {all memory redis : List BucketScore}

/-- An eleventh entry is all that the lists differ by. -/
theorem sameTop_iff (hmemory : Ranking.IsTop BucketScore.score 10 all memory)
    (hredis : Ranking.IsTop BucketScore.score 11 all redis) :
    SameTop all memory redis ↔ all.length ≤ 10 := by
  have hlength := hredis.length
  constructor
  · intro h
    have hle := h.redis_le
    omega
  · intro hall
    have hle : redis.length ≤ 10 := by omega
    have hscores := hmemory.scores_eq hredis (List.Perm.refl _) (by decide)
    rw [List.take_of_length_le (by simpa using hle)] at hscores
    exact {
      memory_le := by
        rw [hmemory.length]
        omega
      redis_le := hle
      scores := hscores
      sorted := hmemory.sorted
      memory_left_out := fun _ hx hout => hmemory.left_out hx hout
      redis_left_out := fun _ hx hout => hredis.left_out hx hout }

end Lists

/-- In a run in which all totals can be represented, the listeners show the same statistics of a
namespace unless it has more than ten buckets that were hit, or more than ten that were missing. -/
theorem listeners_agree_iff (batchSize : ℤ) {s : State} {as : List Action}
    (hrun : Machine.run (step batchSize) start as = some s)
    (hrep : Machine.Along (step batchSize) Representable start as) (hquiescent : Quiescent s)
    (ns : String) :
    Agree s ns ↔ (standings .hits ns s.events).length ≤ 10 ∧
      (standings .misses ns s.events).length ≤ 10 := by
  have hinv := inv_run hrun hrep
  have hsame : ∀ kind top, s.memory.top kind ns top →
      (SameTop (standings kind ns s.events) top (redisTop s.db kind ns) ↔
        (standings kind ns s.events).length ≤ 10) := fun kind top htop =>
    sameTop_iff (isTop_memory hinv.memory htop) (isTop_redis hinv hquiescent kind ns)
  constructor
  · intro h
    obtain ⟨hits, hhits⟩ := exists_top s.memory .hits ns
    obtain ⟨misses, hmisses⟩ := exists_top s.memory .misses ns
    exact ⟨(hsame .hits hits hhits).mp (h.hits hits hhits),
      (hsame .misses misses hmisses).mp (h.misses misses hmisses)⟩
  · intro h
    exact {
      memory := memory_get hinv.memory ns
      redis := redis_get hinv hquiescent ns
      hits := fun top htop => (hsame .hits top htop).mpr h.1
      misses := fun top htop => (hsame .misses top htop).mpr h.2 }

section Cases

/-- A dynamic bucket serves a token. -/
def hit (bucket : String) : Event :=
  newTokensServedEvent "ns" bucket true 1 0

/-- The events come in and the batcher submits what they queue, which is executed in order. -/
def handled (events : List Event) : List Action :=
  events.map Action.handle ++ .deadline :: (events.flatMap commands).map fun _ => .exec 0

/-- The listeners agree on one bucket that was hit twice and one that was missing. -/
theorem listeners_agree_iff_two_buckets : ∃ s,
    Machine.run (step 2) start (handled [hit "a", hit "a", newBucketMissedEvent "ns" "b" true]) =
      some s ∧ Agree s "ns" ∧ s.memory.get "ns" "a" = ⟨2, 0⟩ := by
  have hexists : ∃ s,
      Machine.run (step 2) start (handled [hit "a", hit "a", newBucketMissedEvent "ns" "b" true]) =
        some s ∧ Quiescent s ∧ (standings .hits "ns" s.events).length ≤ 10 ∧
        (standings .misses "ns" s.events).length ≤ 10 ∧ s.memory.get "ns" "a" = ⟨2, 0⟩ :=
    Machine.exists_run (by decide +kernel)
  obtain ⟨s, hrun, hquiescent, hhits, hmisses, hget⟩ := hexists
  have hagree := listeners_agree_iff 2 hrun (by decide +kernel) hquiescent "ns"
  exact ⟨s, hrun, hagree.mpr ⟨hhits, hmisses⟩, hget⟩

def elevenBuckets : List Event :=
  ["a", "b", "c", "d", "e", "f", "g", "h", "i", "j", "k"].map hit

/-- Redis lists eleven buckets, and the listener in memory ten of them. -/
theorem eleven_buckets_listed : ∃ s,
    Machine.run (step 2) start (handled elevenBuckets) = some s ∧
      Machine.Along (step 2) Representable start (handled elevenBuckets) ∧ Quiescent s ∧
      (redisTopHits s.db "ns").length = 11 ∧ ¬ Agree s "ns" := by
  have hrep : Machine.Along (step 2) Representable start (handled elevenBuckets) := by
    decide +kernel
  have hexists : ∃ s, Machine.run (step 2) start (handled elevenBuckets) = some s ∧
      Quiescent s ∧ (standings .hits "ns" s.events).length = 11 :=
    Machine.exists_run (by decide +kernel)
  obtain ⟨s, hrun, hquiescent, hhits⟩ := hexists
  have hinv := inv_run hrun hrep
  have hlength : (redisTopHits s.db "ns").length = 11 := by
    have htop := (isTop_redis hinv hquiescent .hits "ns").length
    rw [hhits] at htop
    exact htop
  refine ⟨s, hrun, hrep, hquiescent, hlength, ?_⟩
  intro hagree
  obtain ⟨top, htop⟩ := exists_top s.memory .hits "ns"
  have hle := (hagree.hits top htop).redis_le
  omega

end Cases

end QuotaService.Stats
