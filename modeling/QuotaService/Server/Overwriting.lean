import QuotaService.Server.Admin

/-! The `Version` header as an optimistic lock. The handler compares it with the version of the config
that the server has applied, and lets go of the mutex; the call clones what is applied then; and the
persister takes what it is given in the place of what it holds. Neither of the last two looks at the
header again. -/
namespace QuotaService.Admin
open Config Server

/-- A replacement of the whole config by a client that has seen this version. -/
def Replaces (r : Request) (version : ℤ) : Prop :=
  r.version = some version ∧ ∃ c, r.change = .updateConfig c

/-- Every replacement that carries a version and has returned nil was numbered after a config of
this version. -/
def Optimistic (s : State) : Prop :=
  ∀ x ∈ s.returns, x.result = .returned none → ∀ version, Replaces x.request version →
    ∃ cfg, x.clonedCfg = some cfg ∧ cfg.version = version

/-- No config is applied between the check of a replacement's version and its clone of the config,
unless the server ignores it. -/
def Undisturbed (s : State) : Action → Prop
  | .apply newConfig => (∃ r ∈ s.requests, ∃ version, Replaces r version) →
      ∀ cfgs, s.cfgs = some cfgs → newConfig.version ≤ cfgs.version
  | _ => True

/-- A server with its persister: the config that the persister holds, and the calls that have put
another in its place, each with what it found there. -/
structure Persisting where
  server : State
  held : Option ServiceConfig
  overwrites : List (Return × Option ServiceConfig)

namespace Persisting

/-- A step of the server, or a config that another server hands to the persister. -/
inductive Action
  | server (a : Admin.Action)
  | persist (cfg : ServiceConfig)

/-- The call that a step brings to its end, with what it persists. -/
def persisted (s : State) : Admin.Action → Option (Return × ServiceConfig)
  | .finish n date err => do
    let call ← s.calls[n]?
    let cfg ← (call.finish date err).persisted
    some (call.finish date err, cfg)
  | _ => none

def step (s : Persisting) : Action → Option Persisting
  | .persist cfg => some { s with held := some cfg }
  | .server a => (Admin.step s.server a).map fun server =>
    match persisted s.server a with
    | none => { s with server := server }
    | some (x, cfg) => ⟨server, some cfg, (x, s.held) :: s.overwrites⟩

def started (held : Option ServiceConfig) : Persisting :=
  ⟨Admin.started held, held, []⟩

/-- A replacement that carries a version and returns nil was numbered after a config of this version,
and what it has overwritten is no newer. -/
structure Locking (s : Persisting) : Prop where
  optimistic : Optimistic s.server
  overwrites_eq : s.overwrites.map Prod.fst =
    s.server.returns.filter fun x => x.result = .returned none
  no_newer : ∀ x ∈ s.overwrites, ∀ version, Replaces x.1.request version →
    ∀ cfg ∈ x.2, cfg.version ≤ version

/-- No config is applied between the check of a replacement's version and its clone, and a
replacement reaches a persister that holds a config of the version of its clone. -/
def Condition (s : Persisting) : Action → Prop
  | .server (.finish n _ none) => ∀ call ∈ s.server.calls[n]?,
      (∃ version, Replaces call.request version) → Accepted call.clonedCfg call.request.change →
        ∀ cfg ∈ s.held, cfg.version = call.clonedCfg.version
  | .server a => Undisturbed s.server a
  | .persist _ => True

end Persisting

section Versions
variable {s s' : State}

structure Versioned (s : State) : Prop where
  requests : ∀ r ∈ s.requests, ∀ version, Replaces r version →
    ∃ cfgs, s.cfgs = some cfgs ∧ cfgs.version = version
  calls : ∀ call ∈ s.calls, ∀ version, Replaces call.request version →
    call.clonedCfg.version = version
  optimistic : Optimistic s

theorem started_versioned (persisted : Option ServiceConfig) : Versioned (started persisted) :=
  ⟨List.forall_mem_nil _, List.forall_mem_nil _, List.forall_mem_nil _⟩

theorem receive_versioned (h : Versioned s) {r : Request} (hs : step s (.receive r) = some s') :
    Versioned s' := by
  have hpass : (∀ version, r.version = some version →
      ∃ cfgs, s.cfgs = some cfgs ∧ cfgs.version = version) →
      Versioned { s with requests := r :: s.requests } := by
    intro hr
    refine ⟨?_, h.calls, h.optimistic⟩
    intro x hx version hreplaces
    rcases List.mem_cons.mp hx with rfl | hx
    · exact hr version hreplaces.1
    · exact h.requests x hx version hreplaces
  simp only [step] at hs
  cases hv : r.version with
  | none =>
    rw [hv] at hs
    cases hs
    apply hpass
    intro version hversion
    cases hv.symm.trans hversion
  | some version =>
    simp only [hv] at hs
    split_ifs at hs with _ hcheck <;> cases hs
    · apply hpass
      intro version' hversion
      cases hv.symm.trans hversion
      obtain ⟨cfgs, hcfgs, heq⟩ := (Option.any_eq_true _ _).mp hcheck
      exact ⟨cfgs, hcfgs, of_decide_eq_true heq⟩
    · exact h

theorem clone_versioned (h : Versioned s) {n : ℕ} (hs : step s (.clone n) = some s') :
    Versioned s' := by
  simp only [step] at hs
  cases hr : s.requests[n]? with
  | none => simp [hr] at hs
  | some r =>
    have hmem : r ∈ s.requests := List.mem_of_getElem? hr
    have hrest : ∀ x ∈ s.requests.eraseIdx n, ∀ version, Replaces x version →
        ∃ cfgs, s.cfgs = some cfgs ∧ cfgs.version = version := fun x hx =>
      h.requests x (List.mem_of_mem_eraseIdx hx)
    -- a call that does not get as far as its clone does not return nil
    have hfail : ∀ result, result ≠ .returned none →
        ∀ x ∈ ⟨r, none, result, none⟩ :: s.returns, x.result = .returned none →
          ∀ version, Replaces x.request version →
            ∃ cfg, x.clonedCfg = some cfg ∧ cfg.version = version := by
      intro result hresult x hx hnil
      rcases List.mem_cons.mp hx with rfl | hx
      · exact absurd hnil hresult
      · exact h.optimistic x hx hnil
    simp only [hr] at hs
    split_ifs at hs
    · cases hs
      exact ⟨hrest, h.calls, hfail .blocked (by decide)⟩
    · cases hcfgs : s.cfgs with
      | none =>
        rw [hcfgs] at hs
        cases hs
        exact ⟨hcfgs ▸ hrest, h.calls, hfail .panicked (by decide)⟩
      | some cfgs =>
        simp only [hcfgs] at hs
        cases hs
        refine ⟨hcfgs ▸ hrest, ?_, h.optimistic⟩
        intro call hcall version hreplaces
        rcases List.mem_cons.mp hcall with rfl | hcall
        · obtain ⟨cfgs', hcfgs', hversion⟩ := h.requests r hmem version hreplaces
          cases hcfgs.symm.trans hcfgs'
          exact hversion
        · exact h.calls call hcall version hreplaces

theorem finish_versioned (h : Versioned s) {n : ℕ} {date : ℤ} {err : Option String}
    (hs : step s (.finish n date err) = some s') : Versioned s' := by
  simp only [step] at hs
  cases hc : s.calls[n]? with
  | none => simp [hc] at hs
  | some call =>
    rw [hc] at hs
    cases hs
    have hreturn : (call.finish date err).request = call.request ∧
        (call.finish date err).clonedCfg = some call.clonedCfg := by
      unfold Call.finish
      split <;> exact ⟨rfl, rfl⟩
    refine ⟨h.requests, fun c hcall => h.calls c (List.mem_of_mem_eraseIdx hcall), ?_⟩
    intro x hx hnil version hreplaces
    rcases List.mem_cons.mp hx with rfl | hx
    · rw [hreturn.1] at hreplaces
      exact ⟨_, hreturn.2, h.calls call (List.mem_of_getElem? hc) version hreplaces⟩
    · exact h.optimistic x hx hnil version hreplaces

theorem step_versioned (h : Versioned s) {a : Action} (hundisturbed : Undisturbed s a)
    (hs : step s a = some s') : Versioned s' := by
  cases a with
  | receive r => exact receive_versioned h hs
  | clone n => exact clone_versioned h hs
  | finish n date err => exact finish_versioned h hs
  | drop n =>
    cases hs
    exact ⟨fun x hx => h.requests x (List.mem_of_mem_eraseIdx hx), h.calls, h.optimistic⟩
  | apply newConfig =>
    simp only [step] at hs
    split_ifs at hs
    cases hs
    refine ⟨?_, h.calls, h.optimistic⟩
    intro r hr version hreplaces
    obtain ⟨cfgs, hcfgs, hversion⟩ := h.requests r hr version hreplaces
    have hold := hundisturbed ⟨r, hr, version, hreplaces⟩ cfgs hcfgs
    refine ⟨cfgs, ?_, hversion⟩
    simp [hcfgs, appliedConfig, hold]

/-- A call persists when it returns nil, which is when its change is accepted and the persister
agrees. -/
theorem finish_persisted {call : Call} {date : ℤ} {err : Option String} :
    ((call.finish date err).result = .returned none ↔
        ∃ cfg, (call.finish date err).persisted = some cfg) ∧
      ((call.finish date err).result = .returned none →
        err = none ∧ Accepted call.clonedCfg call.request.change) := by
  obtain ⟨haccepted, -⟩ := finish_spec call date err
  constructor
  · unfold Call.finish
    split <;> simp
  · intro hnil
    refine ⟨?_, haccepted.mp ⟨none, hnil⟩⟩
    revert hnil
    unfold Call.finish
    split <;> simp

end Versions

namespace Persisting

section Steps
variable {s s' : State}

/-- The calls that have returned nil are those that have persisted a config. -/
theorem step_returns {a : Admin.Action} (hs : Admin.step s a = some s') :
    (s'.returns.filter fun x => x.result = .returned none) =
      ((persisted s a).map Prod.fst).toList ++
        s.returns.filter fun x => x.result = .returned none := by
  cases a with
  | receive r =>
    simp only [Admin.step] at hs
    cases hv : r.version with
    | none =>
      rw [hv] at hs
      cases hs
      rfl
    | some version =>
      simp only [hv] at hs
      split_ifs at hs <;> cases hs <;> rfl
  | drop n =>
    cases hs
    rfl
  | clone n =>
    simp only [Admin.step] at hs
    cases hr : s.requests[n]? with
    | none => simp [hr] at hs
    | some r =>
      simp only [hr] at hs
      split_ifs at hs
      · cases hs
        simp [persisted]
      · cases hcfgs : s.cfgs <;> simp only [hcfgs] at hs <;> cases hs <;> simp [persisted]
  | finish n date err =>
    simp only [Admin.step] at hs
    cases hc : s.calls[n]? with
    | none => simp [hc] at hs
    | some call =>
      rw [hc] at hs
      cases hs
      obtain ⟨hnil, -⟩ : (_ ↔ ∃ cfg, (call.finish date err).persisted = some cfg) ∧ _ :=
        finish_persisted
      cases hp : (call.finish date err).persisted with
      | none =>
        have hfailed : (call.finish date err).result ≠ .returned none := by
          rw [ne_eq, hnil]
          simp [hp]
        simp [persisted, hc, hp, hfailed]
      | some cfg =>
        have hdone : (call.finish date err).result = .returned none := hnil.mpr ⟨cfg, hp⟩
        simp [persisted, hc, hp, hdone]
  | apply newConfig =>
    simp only [Admin.step] at hs
    split_ifs at hs
    cases hs
    rfl

/-- What a step persists comes from a call that the persister has agreed to. -/
theorem persisted_eq_some {a : Admin.Action} {x : Return} {cfg : ServiceConfig}
    (h : persisted s a = some (x, cfg)) : ∃ n date call, a = .finish n date none ∧
      s.calls[n]? = some call ∧ x = call.finish date none ∧
      Accepted call.clonedCfg call.request.change ∧ x.request = call.request := by
  cases a with
  | finish n date err =>
    simp only [persisted, Option.bind_eq_bind, Option.bind_eq_some_iff, Option.some.injEq,
      Prod.mk.injEq] at h
    obtain ⟨call, hc, cfg', hp, rfl, rfl⟩ := h
    obtain ⟨hnil, hagreed⟩ := @finish_persisted call date err
    obtain ⟨rfl, haccepted⟩ := hagreed (hnil.mpr ⟨_, hp⟩)
    refine ⟨n, date, call, rfl, hc, rfl, haccepted, ?_⟩
    unfold Call.finish
    split <;> rfl
  | receive r => cases h
  | drop n => cases h
  | clone n => cases h
  | apply newConfig => cases h

end Steps

variable {s s' : Persisting}

structure Inv (s : Persisting) : Prop where
  versioned : Versioned s.server
  locking : Locking s

theorem started_inv (held : Option ServiceConfig) : Inv (started held) :=
  ⟨started_versioned held, (started_versioned held).optimistic, rfl, List.forall_mem_nil _⟩

theorem server_inv (h : Inv s) {a : Admin.Action} (hcondition : Condition s (.server a))
    (hs : step s (.server a) = some s') : Inv s' := by
  obtain ⟨server, hserver, rfl⟩ := Option.map_eq_some_iff.mp hs
  have hundisturbed : Undisturbed s.server a := by
    cases a with
    | apply newConfig => exact hcondition
    | _ => trivial
  have hversioned := step_versioned h.versioned hundisturbed hserver
  have hreturns := step_returns hserver
  cases hp : persisted s.server a with
  | none =>
    rw [hp] at hreturns
    exact ⟨hversioned, hversioned.optimistic, h.locking.overwrites_eq.trans hreturns.symm,
      h.locking.no_newer⟩
  | some entry =>
    obtain ⟨x, cfg⟩ := entry
    rw [hp] at hreturns
    refine ⟨hversioned, hversioned.optimistic, ?_, ?_⟩
    · exact (congrArg (List.cons x) h.locking.overwrites_eq).trans hreturns.symm
    obtain ⟨n, date, call, rfl, hc, rfl, haccepted, hrequest⟩ := persisted_eq_some hp
    intro y hy version hreplaces old hold
    rcases List.mem_cons.mp hy with rfl | hy
    · rw [hrequest] at hreplaces
      have hcloned := h.versioned.calls call (List.mem_of_getElem? hc) version hreplaces
      have hheld := hcondition call hc ⟨version, hreplaces⟩ haccepted old hold
      exact le_of_eq (hheld.trans hcloned)
    · exact h.locking.no_newer y hy version hreplaces old hold

theorem step_inv (h : Inv s) {a : Action} (hcondition : Condition s a) (hs : step s a = some s') :
    Inv s' := by
  cases a with
  | server a => exact server_inv h hcondition hs
  | persist cfg =>
    cases hs
    exact ⟨h.versioned, h.locking.optimistic, h.locking.overwrites_eq, h.locking.no_newer⟩

end Persisting

/-- In every run in which no config is applied between the check of a replacement's version and its
clone, and the persister holds nothing newer when the replacement reaches it, no replacement
overwrites a config that is newer than the one its client has seen. -/
theorem version_locks (held : Option ServiceConfig) (actions : List Persisting.Action)
    (s : Persisting)
    (hcondition : Machine.Along Persisting.step Persisting.Condition (.started held) actions)
    (hrun : Machine.run Persisting.step (.started held) actions = some s) : s.Locking :=
  (Machine.run_induction Persisting.Inv (fun _ _ _ h hc hs => Persisting.step_inv h hc hs)
    (Persisting.started_inv held) hcondition hrun).locking

/-- Two replacements, each with the version that the server has when it arrives, and the first
applied before the second comes. -/
theorem version_locks_twice :
    let post (version : ℤ) : Request := ⟨some version, .updateConfig {}, "u"⟩
    ∃ s, Machine.run Persisting.step (.started (some {}))
        [.server (.receive (post 0)), .server (.clone 0), .server (.finish 0 0 none),
          .server (.apply { version := 1 }), .server (.receive (post 1)), .server (.clone 0),
          .server (.finish 0 0 none)] = some s ∧
      s.overwrites.map (fun x => (x.1.request, x.2.map (·.version))) =
        [(post 1, some 1), (post 0, some 0)] ∧ s.Locking := by
  intro post
  obtain ⟨s, hrun, hover⟩ : ∃ s, Machine.run Persisting.step (.started (some {}))
      [.server (.receive (post 0)), .server (.clone 0), .server (.finish 0 0 none),
        .server (.apply { version := 1 }), .server (.receive (post 1)), .server (.clone 0),
        .server (.finish 0 0 none)] = some s ∧
        s.overwrites.map (fun x => (x.1.request, x.2.map (·.version))) =
          [(post 1, some 1), (post 0, some 0)] := Machine.exists_run (by decide)
  refine ⟨s, hrun, hover, version_locks (some {}) _ s ?_ hrun⟩
  refine ⟨trivial, fun s₁ h₁ => ⟨trivial, fun s₂ h₂ => ⟨?_, fun s₃ h₃ => ⟨?_, fun s₄ h₄ => ?_⟩⟩⟩⟩
  · cases h₁
    cases h₂
    intro call hcall _ _ cfg hcfg
    cases hcall
    cases hcfg
    rfl
  · cases h₁
    cases h₂
    cases h₃
    intro hpending
    obtain ⟨r, hr, -⟩ := hpending
    cases hr
  · cases h₁
    cases h₂
    cases h₃
    cases h₄
    refine ⟨trivial, fun s₅ h₅ => ⟨trivial, fun s₆ h₆ => ⟨?_, fun _ _ => trivial⟩⟩⟩
    cases h₅
    cases h₆
    intro call hcall _ _ cfg hcfg
    cases hcall
    cases hcfg
    rfl

/-- Two replacements with the version of the same config, before it is applied that the first has
persisted: both return nil, and the second overwrites what the first has persisted. And one that has
passed the check when a config of version 1 is applied, which it clones and overwrites. -/
theorem newer_config_overwritten :
    let post (user : String) : Request := ⟨some 0, .updateConfig {}, user⟩
    (∃ s, Machine.run Persisting.step (.started (some {}))
        [.server (.receive (post "u")), .server (.receive (post "v")), .server (.clone 1),
          .server (.finish 0 0 none), .server (.clone 0), .server (.finish 0 0 none)] = some s ∧
      s.overwrites.map (fun x => (x.1.request, x.2.map fun cfg => (cfg.user, cfg.version))) =
        [(post "v", some ("u", 1)), (post "u", some ("", 0))] ∧ ¬ s.Locking) ∧
    ∃ s, Machine.run Persisting.step (.started (some {}))
        [.server (.receive (post "u")), .persist { version := 1, user := "v" },
          .server (.apply { version := 1, user := "v" }), .server (.clone 0),
          .server (.finish 0 0 none)] = some s ∧
      s.overwrites.map (fun x => (x.1.request, x.2.map fun cfg => (cfg.user, cfg.version))) =
        [(post "u", some ("v", 1))] ∧ ¬ s.Locking := by
  intro post
  -- what a client has overwritten that has seen version 0 is of version 1
  have hnewer : ∀ {s : Persisting} {user : String} {cfg : String × ℤ} {rest},
      s.overwrites.map (fun x => (x.1.request, x.2.map fun cfg => (cfg.user, cfg.version))) =
        (post user, some cfg) :: rest → 0 < cfg.2 → ¬ s.Locking := by
    intro s user cfg rest hover hpos h
    obtain ⟨x, xs, hxs, hx, -⟩ := List.map_eq_cons_iff.mp hover
    obtain ⟨hrequest, hold⟩ := Prod.mk.inj hx
    obtain ⟨old, hheld, rfl⟩ := Option.map_eq_some_iff.mp hold
    have hle := h.no_newer x (by simp [hxs]) 0 (by rw [hrequest]; exact ⟨rfl, _, rfl⟩) old hheld
    exact absurd hpos (not_lt.mpr hle)
  constructor
  · obtain ⟨s, hrun, hover⟩ : ∃ s, Machine.run Persisting.step (.started (some {}))
        [.server (.receive (post "u")), .server (.receive (post "v")), .server (.clone 1),
          .server (.finish 0 0 none), .server (.clone 0), .server (.finish 0 0 none)] = some s ∧
        s.overwrites.map (fun x => (x.1.request, x.2.map fun cfg => (cfg.user, cfg.version))) =
          [(post "v", some ("u", 1)), (post "u", some ("", 0))] := Machine.exists_run (by decide)
    exact ⟨s, hrun, hover, hnewer hover (by decide)⟩
  · obtain ⟨s, hrun, hover⟩ : ∃ s, Machine.run Persisting.step (.started (some {}))
        [.server (.receive (post "u")), .persist { version := 1, user := "v" },
          .server (.apply { version := 1, user := "v" }), .server (.clone 0),
          .server (.finish 0 0 none)] = some s ∧
        s.overwrites.map (fun x => (x.1.request, x.2.map fun cfg => (cfg.user, cfg.version))) =
          [(post "u", some ("v", 1))] := Machine.exists_run (by decide)
    exact ⟨s, hrun, hover, hnewer hover (by decide)⟩

end QuotaService.Admin
