import QuotaService.Lib.Machine

/-! Where a guarded transition system can get to by steps of a kind. A system of several components
comes to rest when each of them can, and none disturbs the others. -/
namespace Machine

variable {σ α ι : Type*} {step : σ → α → Option σ} {Ok Ok' : α → Prop} {s s' s'' : σ}

/-- Some run of allowed steps goes from the one state to the other. -/
def Leads (step : σ → α → Option σ) (Ok : α → Prop) (s s' : σ) : Prop :=
  ∃ as, (∀ a ∈ as, Ok a) ∧ run step s as = some s'

theorem Leads.refl (s : σ) : Leads step Ok s s :=
  ⟨[], List.forall_mem_nil Ok, rfl⟩

theorem Leads.of_step {a : α} (ha : Ok a) (hs : step s a = some s') : Leads step Ok s s' := by
  refine ⟨[a], by simpa using ha, ?_⟩
  rw [run_cons, hs]
  rfl

theorem Leads.trans (h : Leads step Ok s s') (h' : Leads step Ok s' s'') :
    Leads step Ok s s'' := by
  obtain ⟨as, has, hrun⟩ := h
  obtain ⟨bs, hbs, hrun'⟩ := h'
  refine ⟨as ++ bs, fun a ha => ?_, ?_⟩
  · rcases List.mem_append.mp ha with ha | ha
    · exact has a ha
    · exact hbs a ha
  · rw [run_append, hrun]
    exact hrun'

theorem Leads.mono (hmono : ∀ a, Ok a → Ok' a) (h : Leads step Ok s s') : Leads step Ok' s s' := by
  obtain ⟨as, has, hrun⟩ := h
  exact ⟨as, fun a ha => hmono a (has a ha), hrun⟩

/-- What every allowed step keeps is kept on the way. -/
theorem Leads.invariant (Inv : σ → Prop)
    (hstep : ∀ s a s', Inv s → Ok a → step s a = some s' → Inv s') (h : Leads step Ok s s')
    (hs : Inv s) : Inv s' := by
  obtain ⟨as, has, hrun⟩ := h
  have hok : Along step (fun _ a => Ok a) s as := along_of_forall (fun a ha _ => has a ha) s
  exact run_induction Inv hstep hs hok hrun

/-- The components of a system come to rest one after the other: from every state each of them can,
and its steps disturb no other. -/
theorem exists_all_rest {Own : ι → α → Prop} {Inv : σ → Prop} {Rest : σ → ι → Prop}
    (hinv : ∀ i s a s', Inv s → Own i a → step s a = some s' → Inv s')
    (hrest : ∀ i s, Inv s → ∃ s', Leads step (Own i) s s' ∧ Rest s' i)
    (hothers : ∀ i j s a s', j ≠ i → Own i a → step s a = some s' → Rest s j → Rest s' j)
    (l : List ι) (hs : Inv s) :
    ∃ s', Leads step (fun a => ∃ i, Own i a) s s' ∧ Inv s' ∧ ∀ i ∈ l, Rest s' i := by
  induction l with
  | nil => exact ⟨s, .refl s, hs, List.forall_mem_nil _⟩
  | cons i l ih =>
    obtain ⟨s₁, hleads₁, hinv₁, hrest₁⟩ := ih
    obtain ⟨s₂, hleads₂, hrest₂⟩ := hrest i s₁ hinv₁
    refine ⟨s₂, hleads₁.trans (hleads₂.mono fun a ha => ⟨i, ha⟩), ?_, fun j hj => ?_⟩
    · exact hleads₂.invariant Inv (hinv i) hinv₁
    · by_cases hij : j = i
      · exact hij ▸ hrest₂
      · have hmem : j ∈ l := (List.mem_cons.mp hj).resolve_left hij
        exact hleads₂.invariant (fun s => Rest s j)
          (fun s a s' hrest hown hs => hothers i j s a s' hij hown hs hrest) (hrest₁ j hmem)

end Machine
