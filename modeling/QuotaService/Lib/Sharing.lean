import QuotaService.Lib.Machine

/-! Machines behind a shared state. When each input is for one machine and leaves alone what the others
see, the outputs that a machine gives in an interleaved run are those that it gives on its own; and so
are those of a machine that is one part of a system, of which steps are also taken by the others. And a
machine whose state has become as good as its first one may be set back without a difference. -/
namespace Sharing
open Machine

section Interleaving
variable {T σ τ ι κ ο π : Type*} [Preorder T]

/-- What a run puts out for the inputs that are selected. -/
def outputsOf (step : σ → ι → σ × ο) (mine : ι → Bool) (s : σ) (is : List ι) : List ο :=
  ((trace step s is).filter fun t => mine t.input).map Transition.output

/-- Inputs whose times do not decrease, from `now` on. -/
def Timed (time : ι → T) (now : T) (is : List ι) : Prop :=
  (∀ i ∈ is, now ≤ time i) ∧ is.Pairwise fun i j => time i ≤ time j

theorem timed_cons {time : ι → T} {now : T} {i : ι} {is : List ι} :
    Timed time now (i :: is) ↔ now ≤ time i ∧ Timed time (time i) is := by
  unfold Timed
  rw [List.forall_mem_cons, List.pairwise_cons]
  constructor
  · rintro ⟨⟨hnow, -⟩, hlater, hsorted⟩
    exact ⟨hnow, hlater, hsorted⟩
  · rintro ⟨hnow, hlater, hsorted⟩
    exact ⟨⟨hnow, fun j hj => hnow.trans (hlater j hj)⟩, hlater, hsorted⟩

/-- The inputs of one machine move its view, and those of the others keep it. -/
theorem outputsOf_eq {step : σ → ι → σ × ο} {mine : ι → Bool} {time : ι → T}
    {stepOwn : τ → κ → τ × π} (enc : ι → κ) (dec : π → ο) (R : T → σ → τ → Prop) (Ok : ι → Prop)
    (hown : ∀ now s t i, R now s t → Ok i → now ≤ time i → mine i = true →
      R (time i) (step s i).1 (stepOwn t (enc i)).1 ∧ (step s i).2 = dec (stepOwn t (enc i)).2)
    (hother : ∀ now s t i, R now s t → Ok i → now ≤ time i → mine i = false →
      R (time i) (step s i).1 t)
    {now : T} {s : σ} {t : τ} {is : List ι} (hR : R now s t) (hok : ∀ i ∈ is, Ok i)
    (htimed : Timed time now is) :
    outputsOf step mine s is = (outputs stepOwn t ((is.filter mine).map enc)).map dec := by
  induction is generalizing now s t with
  | nil => rfl
  | cons i is ih =>
    obtain ⟨hi, hrest⟩ := List.forall_mem_cons.mp hok
    obtain ⟨hnow, hlater⟩ := timed_cons.mp htimed
    unfold outputsOf at ih ⊢
    cases hmine : mine i with
    | true =>
      obtain ⟨hR', hout⟩ := hown now s t i hR hi hnow hmine
      have htail := ih hR' hrest hlater
      simp [hmine, hout, htail]
    | false =>
      have hR' := hother now s t i hR hi hnow hmine
      have htail := ih hR' hrest hlater
      simpa [hmine] using htail

end Interleaving

section Parts
variable {σ τ α β ι ο : Type*}

/-- The events of a system that are those of one machine. A step with such an event is a step of the
machine, and the others keep it. -/
theorem outputs_of_collect {step : σ → α → Option σ} {event : σ → α → Option β}
    {seq : τ → ι → τ × ο} (mine : β → Bool) (input : β → ι) (output : β → ο) (R : σ → τ → Prop)
    (Ok : α → Prop) (OkEvent : β → Prop)
    (hmine : ∀ s t a s' x, R s t → Ok a → step s a = some s' → event s a = some x →
      mine x = true → OkEvent x → output x = (seq t (input x)).2 ∧ R s' (seq t (input x)).1)
    (hother : ∀ s t a s', R s t → Ok a → step s a = some s' →
      (∀ x ∈ event s a, mine x = false) → R s' t)
    {s : σ} {t : τ} {as : List α} (hR : R s t) (hok : ∀ a ∈ as, Ok a)
    (hevent : ∀ x ∈ (collect step event s as).filter mine, OkEvent x) :
    ((collect step event s as).filter mine).map output =
      outputs seq t (((collect step event s as).filter mine).map input) := by
  induction as generalizing s t with
  | nil => rfl
  | cons a as ih =>
    obtain ⟨ha, hrest⟩ := List.forall_mem_cons.mp hok
    unfold collect at hevent ⊢
    cases hs : step s a with
    | none => rfl
    | some s' =>
      simp only [hs, List.filter_append, List.map_append] at hevent ⊢
      have hlater : ∀ x ∈ (collect step event s' as).filter mine, OkEvent x := fun x hx =>
        hevent x (List.mem_append_right _ hx)
      by_cases hnone : ∀ x ∈ event s a, mine x = false
      · have hskip : (event s a).toList.filter mine = [] := by
          rw [List.filter_eq_nil_iff]
          intro x hx
          simp [hnone x (Option.mem_toList.mp hx)]
        rw [hskip]
        exact ih (hother s t a s' hR ha hs hnone) hrest hlater
      · push Not at hnone
        obtain ⟨x, hx, hxmine⟩ := hnone
        have hx' : event s a = some x := hx
        have hxmine' : mine x = true := by simpa using hxmine
        have hfirst : OkEvent x := hevent x (by simp [hx', hxmine'])
        obtain ⟨hout, hR'⟩ := hmine s t a s' x hR ha hs hx' hxmine' hfirst
        have htail := ih hR' hrest hlater
        simp [hx', hxmine', hout, htail]

end Parts

section Renewal
variable {T σ ι ο : Type*} {step : σ → ι → σ × ο} {time : ι → T} {init : σ}
variable {Renewed : T → σ → Prop} {t t' : T} {s s' : σ}

/-- The state `s'` is `s`, or has been set back since `s` was renewed. -/
def Follows (init : σ) (Renewed : T → σ → Prop) (t : T) (s s' : σ) : Prop :=
  s' = s ∨ (s' = init ∧ Renewed t s)

theorem follows_init (hfollows : Follows init Renewed t s s') (hrenewed : Renewed t s') :
    Follows init Renewed t s init := by
  rcases hfollows with rfl | ⟨rfl, hold⟩
  · exact Or.inr ⟨rfl, hrenewed⟩
  · exact Or.inr ⟨rfl, hold⟩

variable [Preorder T]

/-- From the time at which a state is renewed on, a step from it and one from the first state put out
the same, and reach the same state or leave both as they are. -/
structure Renews (step : σ → ι → σ × ο) (time : ι → T) (init : σ) (Renewed : T → σ → Prop) :
    Prop where
  later : ∀ {t t' s}, Renewed t s → t ≤ t' → Renewed t' s
  output : ∀ {t s i}, Renewed t s → t ≤ time i → (step s i).2 = (step init i).2
  state : ∀ {t s i}, Renewed t s → t ≤ time i →
    (step s i).1 = (step init i).1 ∨ ((step s i).1 = s ∧ (step init i).1 = init)

theorem Renews.follows_later (h : Renews step time init Renewed)
    (hfollows : Follows init Renewed t s s') (ht : t ≤ t') : Follows init Renewed t' s s' :=
  hfollows.imp_right (And.imp_right fun hrenewed => h.later hrenewed ht)

/-- A machine that follows another goes on following it, and puts out the same. -/
theorem Renews.follows_step (h : Renews step time init Renewed)
    (hfollows : Follows init Renewed t s s') {i : ι} (ht : t ≤ time i) :
    Follows init Renewed (time i) (step s i).1 (step s' i).1 ∧ (step s' i).2 = (step s i).2 := by
  rcases hfollows with rfl | ⟨rfl, hrenewed⟩
  · exact ⟨Or.inl rfl, rfl⟩
  · refine ⟨?_, (h.output hrenewed ht).symm⟩
    rcases h.state hrenewed ht with hsame | ⟨hleft, hinit⟩
    · exact Or.inl hsame.symm
    · rw [hleft, hinit]
      exact Or.inr ⟨rfl, h.later hrenewed ht⟩

end Renewal

end Sharing
