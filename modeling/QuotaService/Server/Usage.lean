import QuotaService.Lib.Windows
import QuotaService.Server.Client
import QuotaService.Server.Serving

/-! Clients of the endpoint that block until they may use what they have been granted. What they use
from a bucket in a window of time keeps within its quota, however the requests interleave. -/
namespace QuotaService.Usage
open Allowing Client Config Grpc Machine Memory
open Container (Served)

section Model

/-- The endpoint, the answers that calls of `AllowBlocking` have got, and those with which they have
returned that the tokens may be used, with the times of that. -/
structure State where
  endpoint : Allowing.State
  blocked : List Exchange
  used : List (Exchange × ℤ)

def init (now : ℤ) : State := ⟨Allowing.init now, [], []⟩

/-- A step of the endpoint, or a call of `AllowBlocking` returns at a time. -/
inductive Action
  | endpoint (a : Allowing.Action)
  | goOn (n : ℕ) (time : ℤ)

/-- A client sleeps at least as long as it is told, after the bucket has answered. -/
def step (s : State) : Action → Option State
  | .endpoint a => (Allowing.step s.endpoint a).map fun endpoint =>
    { s with endpoint := endpoint, blocked := s.blocked ++ (exchange s.endpoint a).toList }
  | .goOn n time => (s.blocked[n]?).bind fun x =>
    match allowBlocking x.response with
    | .error _ => some { s with blocked := s.blocked.eraseIdx n }
    | .ok slept =>
      if ∀ t ∈ x.taken, t.now + slept ≤ time then
        some { s with blocked := s.blocked.eraseIdx n, used := s.used ++ [(x, time)] }
      else none

/-- The steps of the endpoint in a run. -/
def Action.ofEndpoint : Action → Option Allowing.Action
  | .endpoint a => some a
  | .goOn _ _ => none

/-- The client goes on no later than by `late` after its tokens are there. -/
def Prompt (late : ℤ) (s : State) : Action → Prop
  | .endpoint _ => True
  | .goOn n time => ∀ x ∈ s.blocked[n]?, ∀ t ∈ x.taken, time ≤ t.now + t.reply.wait + late

instance (late : ℤ) (s : State) : ∀ a, Decidable (Prompt late s a)
  | .endpoint _ => inferInstanceAs (Decidable True)
  | .goOn n _ => inferInstanceAs (Decidable (∀ x ∈ s.blocked[n]?, ∀ t ∈ x.taken, _))

/-- The bucket that has answered. -/
def answeredBy (id : ℕ) (x : Exchange) : Bool := x.taken.any fun t => t.bucket.id = id

/-- The tokens of a bucket that are used in a window of time. -/
def usedWithin (id : ℕ) (lo hi : ℤ) (used : List (Exchange × ℤ)) : ℤ :=
  ((used.filter fun u => answeredBy id u.1 ∧ lo ≤ u.2 ∧ u.2 ≤ hi).map fun u =>
    u.1.request.query.tokensRequested).sum

end Model

section Invariant
variable {s s' : State} {a : Action} {x : Exchange} {xs : List Exchange} {late : ℤ}

/-- The bucket from which tokens are used has granted them, and the time is between its answer and
`late` after the end of the wait. -/
def Timely (late : ℤ) (u : Exchange × ℤ) : Prop :=
  u.1.response.status = .ok ∧
    ∀ t ∈ u.1.taken, t.now ≤ u.2 ∧ u.2 ≤ t.now + t.reply.wait + late

/-- Each answer is used at most once, in time. -/
structure Inv (late : ℤ) (s : State) (xs : List Exchange) : Prop where
  exchanged : ∀ x ∈ xs, Exchanged x
  routed : Routed s.endpoint
  once : (s.blocked ++ s.used.map Prod.fst).Subperm xs
  timely : ∀ u ∈ s.used, Timely late u

theorem ok_of_slept {response : AllowResponse} {slept : ℤ}
    (h : allowBlocking response = .ok slept) : response.status = .ok := by
  by_contra hstatus
  rw [allowBlocking, if_pos hstatus] at h
  cases h

/-- No client sleeps for a negative time. -/
theorem slept_nonneg (h : Exchanged x) {slept : ℤ} (hslept : allowBlocking x.response = .ok slept) :
    0 ≤ slept := by
  obtain ⟨t, ht, herror⟩ := h.ok_iff.mp (ok_of_slept hslept)
  cases h with
  | invalid req => cases ht
  | rejected req reply error => cases ht
  | served req t' asked coherent reading divisor after reply =>
    cases ht
    rcases served_cases coherent reading after reply with ⟨hrefused, -⟩ | ⟨hreply, -, -⟩
    · exact absurd herror hrefused
    · have hwait : t.reply.wait = t.before.horizon t.now - t.now := by rw [hreply]
      have hle := t.before.le_horizon t.now
      have hbounds := Arith.int64_fits_iff.mp (coherent.fits_horizon reading)
      have hpos := reading.1
      have hgranted : allowBlocking (exchangeOf req t.reply (some t)).response =
          .ok (t.reply.wait - t.reply.wait % 1000000) := by
        rw [exchangeOf, respond_ok req herror]
        exact allowBlocking_granted req (by omega) (Arith.int64_fits_iff.mpr (by omega))
      rw [hgranted, Except.ok.injEq] at hslept
      omega

theorem init_inv (late now : ℤ) : Inv late (init now) [] where
  exchanged _ hx := absurd hx List.not_mem_nil
  routed := routed_init now
  once := List.Subperm.refl _
  timely _ hu := absurd hu List.not_mem_nil

theorem inv_endpoint (h : Inv late s xs) {a : Allowing.Action} {endpoint : Allowing.State}
    (hs : Allowing.step s.endpoint a = some endpoint) :
    Inv late { s with endpoint := endpoint, blocked := s.blocked ++ (exchange s.endpoint a).toList }
      (xs ++ (exchange s.endpoint a).toList) where
  exchanged x hx := by
    rcases List.mem_append.mp hx with hx | hx
    · exact h.exchanged x hx
    · exact exchange_exchanged h.routed hs (Option.mem_toList.mp hx)
  routed := step_routed h.routed hs
  once := by
    have hperm : (s.blocked ++ (exchange s.endpoint a).toList ++ s.used.map Prod.fst).Perm
        (s.blocked ++ s.used.map Prod.fst ++ (exchange s.endpoint a).toList) := by
      rw [List.append_assoc, List.append_assoc]
      exact List.perm_append_comm.append_left _
    exact hperm.subperm.trans ((List.subperm_append_right _).mpr h.once)
  timely := h.timely

/-- What a call that returns may do. -/
inductive Returned (s : State) (n : ℕ) (time : ℤ) (x : Exchange) : State → Prop
  | refused : Returned s n time x { s with blocked := s.blocked.eraseIdx n }
  | used {slept : ℤ} (sleeps : allowBlocking x.response = .ok slept)
    (after : ∀ t ∈ x.taken, t.now + slept ≤ time) :
    Returned s n time x
      { s with blocked := s.blocked.eraseIdx n, used := s.used ++ [(x, time)] }

theorem step_returned {n : ℕ} {time : ℤ} (hs : step s (.goOn n time) = some s') :
    ∃ x, s.blocked[n]? = some x ∧ Returned s n time x s' := by
  obtain ⟨x, hx, hs⟩ := Option.bind_eq_some_iff.mp hs
  refine ⟨x, hx, ?_⟩
  cases hslept : allowBlocking x.response with
  | error status =>
    rw [hslept] at hs
    cases hs
    exact .refused
  | ok slept =>
    rw [hslept] at hs
    dsimp only at hs
    split_ifs at hs with hafter
    cases hs
    exact .used hslept hafter

theorem step_inv (h : Inv late s xs) (hprompt : Prompt late s a) (hs : step s a = some s') :
    Inv late s' (xs ++ ((a.ofEndpoint).bind (exchange s.endpoint)).toList) := by
  cases a with
  | endpoint a =>
    obtain ⟨endpoint, hendpoint, rfl⟩ := Option.map_eq_some_iff.mp hs
    exact inv_endpoint h hendpoint
  | goOn n time =>
    have hquiet : xs ++ ((Action.goOn n time).ofEndpoint.bind (exchange s.endpoint)).toList = xs :=
      List.append_nil xs
    rw [hquiet]
    obtain ⟨x, hx, hreturned⟩ := step_returned hs
    have hmem : x ∈ xs := h.once.subset (List.mem_append_left _ (List.mem_of_getElem? hx))
    cases hreturned with
    | refused =>
      have hsub := (List.eraseIdx_sublist s.blocked n).append_right (s.used.map Prod.fst)
      exact ⟨h.exchanged, h.routed, hsub.subperm.trans h.once, h.timely⟩
    | @used slept sleeps after =>
      refine ⟨h.exchanged, h.routed, ?_, fun u hu => ?_⟩
      · obtain ⟨hn, hget⟩ := List.getElem?_eq_some_iff.mp hx
        have herase := List.getElem_cons_eraseIdx_perm hn
        rw [hget] at herase
        have hperm : (s.blocked.eraseIdx n ++ (s.used ++ [(x, time)]).map Prod.fst).Perm
            (s.blocked ++ s.used.map Prod.fst) := by
          rw [List.map_append, ← List.append_assoc]
          refine List.perm_append_comm.trans ?_
          exact herase.append_right _
        exact hperm.subperm.trans h.once
      · rcases List.mem_append.mp hu with hu | hu
        · exact h.timely u hu
        · obtain rfl := List.mem_singleton.mp hu
          refine ⟨ok_of_slept sleeps, fun t ht => ⟨?_, hprompt x hx t ht⟩⟩
          have hpositive := slept_nonneg (h.exchanged x hmem) sleeps
          have hafter := after t ht
          omega

/-- The endpoint runs by itself, and the clients use what it has answered. -/
theorem run_inv {now : ℤ} {actions : List Action} (hrun : run step (init now) actions = some s)
    (hprompt : Along step (Prompt late) (init now) actions) :
    Inv late s (log now (actions.filterMap Action.ofEndpoint)) := by
  have hinv : Inv late s ([] ++ collect step (fun s a => a.ofEndpoint.bind (exchange s.endpoint))
      (init now) actions) :=
    collect_run_induction (Inv late) (fun _ _ _ _ h hprompt hs => step_inv h hprompt hs)
      (init_inv late now) hprompt hrun
  have hmove : ∀ {s : State} {a : Action} {s' : State} {b : Allowing.Action}, step s a = some s' →
      a.ofEndpoint = some b → Allowing.step s.endpoint b = some s'.endpoint ∧
        a.ofEndpoint.bind (exchange s.endpoint) = exchange s.endpoint b := by
    intro s a s' b hs hselect
    cases a with
    | goOn n time => cases hselect
    | endpoint a =>
      cases hselect
      obtain ⟨endpoint, hendpoint, rfl⟩ := Option.map_eq_some_iff.mp hs
      exact ⟨hendpoint, rfl⟩
  have hstay : ∀ {s : State} {a : Action} {s' : State}, step s a = some s' → a.ofEndpoint = none →
      s'.endpoint = s.endpoint ∧ a.ofEndpoint.bind (exchange s.endpoint) = none := by
    intro s a s' hs hselect
    cases a with
    | endpoint a => cases hselect
    | goOn n time =>
      obtain ⟨x, -, hreturned⟩ := step_returned hs
      cases hreturned <;> exact ⟨rfl, rfl⟩
  have hpart := (collect_part State.endpoint Action.ofEndpoint hmove hstay hrun).2
  rw [List.nil_append, hpart] at hinv
  exact hinv

end Invariant

section Quota
variable {s : State} {xs : List Exchange} {late : ℤ} {cfg : BucketConfig}

/-- The call that a bucket has granted, with its wait. -/
def grant (id : ℕ) (x : Exchange) : Option (Call × ℤ) :=
  x.taken.bind fun t =>
    if t.bucket.id = id ∧ t.reply.error = none then some (t.input, t.reply.wait) else none

/-- The calls of a bucket whose tokens are used, with the times of that. -/
def usesOf (id : ℕ) (used : List (Exchange × ℤ)) : List ((Call × ℤ) × ℤ) :=
  used.filterMap fun u => (grant id u.1).map fun g => (g, u.2)

theorem grant_eq_some {id : ℕ} {x : Exchange} {g : Call × ℤ} (h : grant id x = some g) :
    ∃ t, x.taken = some t ∧ t.reply.error = none ∧ g = (t.input, t.reply.wait) := by
  obtain ⟨t, ht, hcond⟩ := Option.bind_eq_some_iff.mp h
  split_ifs at hcond with hboth
  cases hcond
  exact ⟨t, ht, hboth.2, rfl⟩

theorem granted_servedBy (id : ℕ) (log : List Exchange) :
    granted (servedBy id log) = log.filterMap (grant id) := by
  unfold granted servedBy
  rw [← List.filterMap_eq_filter, List.filterMap_filterMap, List.filterMap_filterMap]
  congr 1
  funext x
  cases htaken : x.taken with
  | none => simp [grant, htaken]
  | some t => by_cases hid : t.bucket.id = id <;> simp [grant, htaken, hid, Option.guard]

/-- What is used has been granted by the bucket that has answered. -/
theorem grant_of_ok {x : Exchange} (h : Exchanged x) (hok : x.response.status = .ok) (id : ℕ) :
    ∃ t, x.taken = some t ∧ t.input.requested = x.request.query.tokensRequested ∧
      grant id x = if answeredBy id x then some (t.input, t.reply.wait) else none := by
  obtain ⟨t, ht, herror⟩ := h.ok_iff.mp hok
  have ht' : x.taken = some t := ht
  refine ⟨t, ht', ?_, ?_⟩
  · cases h with
    | invalid req => cases ht
    | rejected req reply error => cases ht
    | served req t' asked =>
      cases ht
      rw [Served.input, asked]
      rfl
  · simp [grant, answeredBy, ht', herror]

theorem one_le_requested {id : ℕ} {x : Exchange} (h : Exchanged x) {g : Call × ℤ}
    (hg : grant id x = some g) : 1 ≤ g.1.requested := by
  obtain ⟨t, ht, herror, rfl⟩ := grant_eq_some hg
  obtain ⟨t', ht', hrequested, -⟩ := grant_of_ok h (h.ok_iff.mpr ⟨t, ht, herror⟩) id
  cases ht.symm.trans ht'
  rw [hrequested]
  rcases query_tokensRequested x.request with ⟨hone, hquery⟩ | ⟨-, hquery⟩ <;> omega

theorem Inv.exchanged_of_used (h : Inv late s xs) {u : Exchange × ℤ} (hu : u ∈ s.used) :
    Exchanged u.1 :=
  h.exchanged u.1 (h.once.subset (List.mem_append_right _ (List.mem_map_of_mem hu)))

theorem usedWithin_cons (id : ℕ) (lo hi : ℤ) (u : Exchange × ℤ) (used : List (Exchange × ℤ)) :
    usedWithin id lo hi (u :: used) =
      (if answeredBy id u.1 ∧ lo ≤ u.2 ∧ u.2 ≤ hi then u.1.request.query.tokensRequested else 0) +
        usedWithin id lo hi used := by
  unfold usedWithin
  rw [List.filter_cons]
  by_cases h : answeredBy id u.1 ∧ lo ≤ u.2 ∧ u.2 ≤ hi
  · have hp : decide (answeredBy id u.1 ∧ lo ≤ u.2 ∧ u.2 ≤ hi) = true := decide_eq_true h
    rw [if_pos h, if_pos hp, List.map_cons, List.sum_cons]
  · have hp : ¬ decide (answeredBy id u.1 ∧ lo ≤ u.2 ∧ u.2 ≤ hi) = true :=
      fun hp => h (of_decide_eq_true hp)
    rw [if_neg h, if_neg hp, zero_add]

theorem usedWithin_eq {used : List (Exchange × ℤ)}
    (h : ∀ u ∈ used, Exchanged u.1 ∧ Timely late u) (id : ℕ) (lo hi : ℤ) :
    usedWithin id lo hi used =
      (((usesOf id used).filter fun u => lo ≤ u.2 ∧ u.2 ≤ hi).map fun u => u.1.1.requested).sum := by
  induction used with
  | nil => rfl
  | cons u used ih =>
    obtain ⟨⟨hexchanged, htimely⟩, hrest⟩ := List.forall_mem_cons.mp h
    obtain ⟨t, -, hrequested, hgrant⟩ := grant_of_ok hexchanged htimely.1 id
    rw [usedWithin_cons, ih hrest]
    cases hmine : answeredBy id u.1 with
    | false =>
      have hskip : usesOf id (u :: used) = usesOf id used := by
        simp [usesOf, hgrant, hmine]
      rw [hskip]
      simp
    | true =>
      have huse : usesOf id (u :: used) = ((t.input, t.reply.wait), u.2) :: usesOf id used := by
        simp [usesOf, hgrant, hmine]
      rw [huse, List.filter_cons]
      by_cases hwithin : lo ≤ u.2 ∧ u.2 ≤ hi <;> simp [hwithin, hrequested]

theorem bounded_of_windowBound {calls : List (Call × ℤ)} (h : Redis.WindowBound cfg calls) :
    Windows.Bounded (fun g : Call × ℤ => nanosBetween cfg * g.1.requested) (fun g => g.1.now + g.2)
      (fun g => g.1.now) (nanosBetween cfg * cfg.size + cfg.maxDebtMillis * 1000000) calls := by
  intro pre x mid post hcalls
  have hspan := h pre x mid post hcalls
  rwa [← List.sum_map_mul_left] at hspan

/-- In every run each answer is used at most once, and what the clients use from a bucket in a window of
time keeps within what its config allows for a window that is longer by the time that clients are late. -/
theorem usage_within_quota (now : ℤ) (actions : List Action) (s : State)
    (hrun : run step (init now) actions = some s) {late : ℤ} (hlate : 0 ≤ late)
    (hprompt : Along step (Prompt late) (init now) actions) (id : ℕ) (hcfg : Admissible cfg)
    (h : ∀ x ∈ servedBy id (log now (actions.filterMap Action.ofEndpoint)),
      x.before.cfg = cfg ∧ Moderate cfg x.input) {lo hi : ℤ} (hwindow : lo ≤ hi) :
    (s.used.map Prod.fst).Subperm (log now (actions.filterMap Action.ofEndpoint)) ∧
      nanosBetween cfg * usedWithin id lo hi s.used ≤
        nanosBetween cfg * cfg.size + cfg.maxDebtMillis * 1000000 + (hi - lo) + late := by
  have hinv := run_inv hrun hprompt
  have honce : (s.used.map Prod.fst).Subperm (log now (actions.filterMap Action.ofEndpoint)) :=
    (List.sublist_append_right _ _).subperm.trans hinv.once
  have hbounded := bounded_of_windowBound (granted_within now _ id hcfg h)
  rw [granted_servedBy] at hbounded
  have hused : ∀ u ∈ s.used, Exchanged u.1 ∧ Timely late u := fun u hu =>
    ⟨hinv.exchanged_of_used hu, hinv.timely u hu⟩
  have hsub : ((usesOf id s.used).map Prod.fst).Subperm
      ((log now (actions.filterMap Action.ofEndpoint)).filterMap (grant id)) := by
    have hsame : (usesOf id s.used).map Prod.fst = (s.used.map Prod.fst).filterMap (grant id) := by
      unfold usesOf
      rw [List.map_filterMap, List.filterMap_map]
      congr 1
      funext u
      cases hgrant : grant id u.1 <;> simp [hgrant]
    rw [hsame]
    obtain ⟨l, hperm, hsublist⟩ := honce
    exact ⟨_, hperm.filterMap _, hsublist.filterMap _⟩
  have htimes : ∀ u ∈ usesOf id s.used,
      u.1.1.now ≤ u.2 ∧ u.2 ≤ u.1.1.now + u.1.2 + late := by
    intro u hu
    obtain ⟨v, hv, hgrant⟩ := List.mem_filterMap.mp hu
    obtain ⟨g, hg, rfl⟩ := Option.map_eq_some_iff.mp hgrant
    obtain ⟨t, ht, -, rfl⟩ := grant_eq_some hg
    exact (hinv.timely v hv).2 t ht
  have hcost : ∀ g ∈ (log now (actions.filterMap Action.ofEndpoint)).filterMap (grant id),
      0 ≤ nanosBetween cfg * g.1.requested := by
    intro g hg
    obtain ⟨x, hx, hgrant⟩ := List.mem_filterMap.mp hg
    have hrequested := one_le_requested (hinv.exchanged x hx) hgrant
    have hnanos := hcfg.one_le_nanosBetween
    exact mul_nonneg (by omega) (by omega)
  have hburst : 0 ≤ nanosBetween cfg * cfg.size + cfg.maxDebtMillis * 1000000 + (hi - lo) + late := by
    have hnanos := hcfg.one_le_nanosBetween
    have hsize : 0 ≤ nanosBetween cfg * cfg.size := mul_nonneg (by omega) hcfg.size_nonneg
    have hdebt := hcfg.maxDebtMillis_nonneg
    omega
  refine ⟨honce, ?_⟩
  rw [usedWithin_eq hused, ← List.sum_map_mul_left]
  exact hbounded.sum_used_le hcost hsub htimes hburst

/-- Three clients use the stock and borrow from the bucket, the last one goes on five nanoseconds after
its answer, and a fourth has to wait. -/
def blocking : List Action :=
  borrowing.map .endpoint ++ [.goOn 0 1700000000000000000, .goOn 0 1700000000000000000,
    .goOn 1 1700000001000000000, .goOn 0 1700000000000000005]

/-- The config of the bucket. -/
def lender : BucketConfig :=
  ((servedBy 0 (log 0 borrowing)).head?.map fun x => x.before.cfg).getD {}

theorem usage_within_quota_borrowing : ∃ s, run step (init 0) blocking = some s ∧
    usedWithin 0 1700000000000000000 1700000000000000005 s.used = 150 ∧
    nanosBetween lender * 150 ≤ nanosBetween lender * lender.size + lender.maxDebtMillis * 1000000 +
      (1700000000000000005 - 1700000000000000000) + 5 := by
  have hexists : ∃ s, run step (init 0) blocking = some s ∧
      usedWithin 0 1700000000000000000 1700000000000000005 s.used = 150 :=
    exists_run (by decide +kernel)
  obtain ⟨s, hrun, hused⟩ := hexists
  have hprompt : Along step (Prompt 5) (init 0) blocking := by decide +kernel
  have hadmissible : 0 ≤ lender.size ∧ 1 ≤ lender.fillRate ∧ lender.fillRate ≤ 1000000000 ∧
      0 ≤ lender.maxDebtMillis := by decide +kernel
  obtain ⟨hsize, hrate, hrate', hdebt⟩ := hadmissible
  have hserved : ∀ x ∈ servedBy 0 (log 0 (blocking.filterMap Action.ofEndpoint)),
      x.before.cfg = lender ∧ lender.size ≤ 2 ^ 62 ∧ lender.maxDebtMillis * 1000000 ≤ 2 ^ 61 ∧
        x.input.now ≤ 2 ^ 61 ∧ x.input.requested * nanosBetween lender ≤ 2 ^ 61 := by
    decide +kernel
  have hmoderate : ∀ x ∈ servedBy 0 (log 0 (blocking.filterMap Action.ofEndpoint)),
      x.before.cfg = lender ∧ Moderate lender x.input := by
    intro x hx
    obtain ⟨hcfg, hsize', hdebt', hnow, hcost⟩ := hserved x hx
    exact ⟨hcfg, hsize', hdebt', hnow, hcost⟩
  have hwithin : nanosBetween lender *
      usedWithin 0 1700000000000000000 1700000000000000005 s.used ≤ _ :=
    (usage_within_quota 0 blocking s hrun (by decide) hprompt 0 ⟨hsize, hrate, hrate', hdebt⟩
      hmoderate (by decide)).2
  rw [hused] at hwithin
  exact ⟨s, hrun, hused, hwithin⟩

end Quota

end QuotaService.Usage
