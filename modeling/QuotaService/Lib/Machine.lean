import Mathlib.Data.List.Chain
import Mathlib.Algebra.Order.BigOperators.Group.List

/-! Runs of deterministic machines. A machine with outputs is a step function
`σ → ι → σ × ο`; a guarded transition system is a partial one, `σ → α → Option σ`,
in which `none` means that the action is not enabled. -/
namespace Machine

section Outputs
variable {σ τ ι κ ο π : Type*}

/-- One step of a run: the state it left, its input and output, the state it reached. -/
structure Transition (σ ι ο : Type*) where
  before : σ
  input : ι
  output : ο
  after : σ

def trace (step : σ → ι → σ × ο) : σ → List ι → List (Transition σ ι ο)
  | _, [] => []
  | s, i :: is => ⟨s, i, (step s i).2, (step s i).1⟩ :: trace step (step s i).1 is

def final (step : σ → ι → σ × ο) (s : σ) (is : List ι) : σ :=
  is.foldl (fun s i => (step s i).1) s

def outputs (step : σ → ι → σ × ο) (s : σ) (is : List ι) : List ο :=
  (trace step s is).map Transition.output

@[simp] theorem trace_nil (step : σ → ι → σ × ο) (s : σ) : trace step s [] = [] := rfl

@[simp] theorem trace_cons (step : σ → ι → σ × ο) (s : σ) (i : ι) (is : List ι) :
    trace step s (i :: is) =
      ⟨s, i, (step s i).2, (step s i).1⟩ :: trace step (step s i).1 is := rfl

@[simp] theorem final_nil (step : σ → ι → σ × ο) (s : σ) : final step s [] = s := rfl

@[simp] theorem final_cons (step : σ → ι → σ × ο) (s : σ) (i : ι) (is : List ι) :
    final step s (i :: is) = final step (step s i).1 is := rfl

@[simp] theorem final_append (step : σ → ι → σ × ο) (s : σ) (is js : List ι) :
    final step s (is ++ js) = final step (final step s is) js := by
  simp [final]

@[simp] theorem outputs_nil (step : σ → ι → σ × ο) (s : σ) : outputs step s [] = [] := rfl

@[simp] theorem outputs_cons (step : σ → ι → σ × ο) (s : σ) (i : ι) (is : List ι) :
    outputs step s (i :: is) = (step s i).2 :: outputs step (step s i).1 is := rfl

/-- The invariant rule: what every admissible input preserves holds at the end of a run. -/
theorem final_induction {step : σ → ι → σ × ο} (Inv : σ → Prop) (Ok : ι → Prop)
    (hstep : ∀ s i, Inv s → Ok i → Inv (step s i).1) {s : σ} {is : List ι}
    (hs : Inv s) (hi : ∀ i ∈ is, Ok i) : Inv (final step s is) := by
  induction is generalizing s with
  | nil => exact hs
  | cons i is ih =>
    exact ih (hstep s i hs (hi i (by simp))) fun j hj => hi j (by simp [hj])

/-- Every transition of a run starts in a state that satisfies the invariant. -/
theorem trace_induction {step : σ → ι → σ × ο} (Inv : σ → Prop) (Ok : ι → Prop)
    (hstep : ∀ s i, Inv s → Ok i → Inv (step s i).1) {s : σ} {is : List ι}
    (hs : Inv s) (hi : ∀ i ∈ is, Ok i) {t : Transition σ ι ο} (ht : t ∈ trace step s is) :
    Inv t.before ∧ Ok t.input ∧ step t.before t.input = (t.after, t.output) := by
  induction is generalizing s with
  | nil => simp at ht
  | cons i is ih =>
    rcases List.mem_cons.mp ht with rfl | ht
    · exact ⟨hs, hi i (by simp), rfl⟩
    · exact ih (hstep s i hs (hi i (by simp))) (fun j hj => hi j (by simp [hj])) ht

theorem forall_input_trace {step : σ → ι → σ × ο} {P : ι → Prop} {s : σ} {is : List ι}
    (h : ∀ i ∈ is, P i) : ∀ t ∈ trace step s is, P t.input := fun _ ht =>
  (trace_induction (fun _ => True) P (fun _ _ _ _ => trivial) trivial h ht).2.1

/-- The same when the condition is on the states as well, for a run whose transitions all meet it. -/
theorem trace_induction_along {step : σ → ι → σ × ο} (Inv : σ → Prop) {Ok : σ → ι → Prop}
    (hstep : ∀ s i, Inv s → Ok s i → Inv (step s i).1) {s : σ} {is : List ι} (hs : Inv s)
    (hok : ∀ t ∈ trace step s is, Ok t.before t.input) {t : Transition σ ι ο}
    (ht : t ∈ trace step s is) : Inv t.before ∧ step t.before t.input = (t.after, t.output) := by
  induction is generalizing s with
  | nil => simp at ht
  | cons i is ih =>
    rw [trace_cons] at ht hok
    obtain ⟨hfirst, hrest⟩ := List.forall_mem_cons.mp hok
    rcases List.mem_cons.mp ht with rfl | ht
    · exact ⟨hs, rfl⟩
    · exact ih (hstep s i hs hfirst) hrest ht

/-- Two conditions on the transitions of a run that agree as long as an invariant holds, which one of
them preserves. -/
theorem forall_trace_congr {step : σ → ι → σ × ο} (Inv : σ → Prop) (Ok : σ → ι → Prop)
    {P Q : Transition σ ι ο → Prop}
    (h : ∀ s i, Inv s → Ok s i →
      (P ⟨s, i, (step s i).2, (step s i).1⟩ ↔ Q ⟨s, i, (step s i).2, (step s i).1⟩))
    (hstep : ∀ s i, Inv s → Ok s i → Q ⟨s, i, (step s i).2, (step s i).1⟩ → Inv (step s i).1)
    {s : σ} {is : List ι} (hs : Inv s) (hok : ∀ t ∈ trace step s is, Ok t.before t.input) :
    (∀ t ∈ trace step s is, P t) ↔ ∀ t ∈ trace step s is, Q t := by
  induction is generalizing s with
  | nil => simp
  | cons i is ih =>
    rw [trace_cons] at hok
    obtain ⟨hfirst, hrest⟩ := List.forall_mem_cons.mp hok
    simp only [trace_cons, List.forall_mem_cons]
    rw [h s i hs hfirst]
    apply and_congr_right
    intro hQ
    exact ih (hstep s i hs hfirst hQ) hrest

/-- When the steps that `p` drops leave the state alone, the steps it keeps fit together:
each one starts where the one before it ended. -/
theorem isChain_filter_trace {step : σ → ι → σ × ο} {p : Transition σ ι ο → Bool}
    (hskip : ∀ s i, p ⟨s, i, (step s i).2, (step s i).1⟩ = false → (step s i).1 = s)
    (s : σ) (is : List ι) :
    (∀ t ∈ ((trace step s is).filter p).head?, t.before = s) ∧
      ((trace step s is).filter p).IsChain (fun t u => u.before = t.after) := by
  induction is generalizing s with
  | nil => simp
  | cons i is ih =>
    obtain ⟨hhead, hchain⟩ := ih (step s i).1
    cases hp : p ⟨s, i, (step s i).2, (step s i).1⟩ with
    | false =>
      simp only [trace_cons, List.filter_cons, hp, Bool.false_eq_true, if_false]
      rw [hskip s i hp] at hhead hchain ⊢
      exact ⟨hhead, hchain⟩
    | true =>
      simp only [trace_cons, List.filter_cons, hp, if_true]
      exact ⟨by simp, List.isChain_cons.mpr ⟨hhead, hchain⟩⟩

/-- Forward simulation: two machines whose steps keep their states related and whose
outputs correspond produce corresponding outputs on every run. -/
theorem simulation {stepA : σ → ι → σ × ο} {stepB : τ → κ → τ × π} (R : σ → τ → Prop)
    (enc : κ → ι) (dec : ο → π) (Ok : κ → Prop)
    (hstep : ∀ s t k, R s t → Ok k → R (stepA s (enc k)).1 (stepB t k).1 ∧
      (stepB t k).2 = dec (stepA s (enc k)).2)
    {s : σ} {t : τ} {ks : List κ} (hR : R s t) (hk : ∀ k ∈ ks, Ok k) :
    R (final stepA s (ks.map enc)) (final stepB t ks) ∧
      outputs stepB t ks = (outputs stepA s (ks.map enc)).map dec := by
  induction ks generalizing s t with
  | nil => exact ⟨hR, rfl⟩
  | cons k ks ih =>
    obtain ⟨hR', ho⟩ := hstep s t k hR (hk k (by simp))
    obtain ⟨hfin, hout⟩ := ih hR' fun j hj => hk j (by simp [hj])
    exact ⟨hfin, by simp [ho, hout]⟩

end Outputs

section Guarded
variable {σ α : Type*}

def run (step : σ → α → Option σ) (s : σ) (as : List α) : Option σ := as.foldlM step s

/-- Every step that the run along `as` takes satisfies `P` in the state it is taken in. -/
def Along (step : σ → α → Option σ) (P : σ → α → Prop) : σ → List α → Prop
  | _, [] => True
  | s, a :: as => P s a ∧ ∀ s', step s a = some s' → Along step P s' as

@[simp] theorem run_nil (step : σ → α → Option σ) (s : σ) : run step s [] = some s := rfl

@[simp] theorem run_cons (step : σ → α → Option σ) (s : σ) (a : α) (as : List α) :
    run step s (a :: as) = (step s a).bind fun s' => run step s' as := by
  simp [run, List.foldlM_cons]

theorem run_append (step : σ → α → Option σ) (s : σ) (as bs : List α) :
    run step s (as ++ bs) = (run step s as).bind fun s' => run step s' bs :=
  List.foldlM_append

instance decidableAlong {step : σ → α → Option σ} {P : σ → α → Prop} [∀ s a, Decidable (P s a)] :
    ∀ s as, Decidable (Along step P s as)
  | _, [] => isTrue trivial
  | s, a :: as => match hs : step s a with
    | none => decidable_of_iff (P s a)
        ⟨fun h => ⟨h, fun s' hs' => by rw [hs] at hs'; cases hs'⟩, And.left⟩
    | some s₁ =>
      have : Decidable (Along step P s₁ as) := decidableAlong s₁ as
      decidable_of_iff (P s a ∧ Along step P s₁ as)
        ⟨fun h => ⟨h.1, fun s' hs' => by rw [hs] at hs'; cases hs'; exact h.2⟩,
          fun h => ⟨h.1, h.2 s₁ hs⟩⟩

theorem along_true (step : σ → α → Option σ) (s : σ) (as : List α) :
    Along step (fun _ _ => True) s as := by
  induction as generalizing s with
  | nil => trivial
  | cons a as ih => exact ⟨trivial, fun s' _ => ih s'⟩

theorem along_of_forall {step : σ → α → Option σ} {P : σ → α → Prop} {as : List α}
    (h : ∀ a ∈ as, ∀ s, P s a) (s : σ) : Along step P s as := by
  induction as generalizing s with
  | nil => trivial
  | cons a as ih =>
    exact ⟨h a (by simp) s, fun s' _ => ih (fun b hb => h b (by simp [hb])) s'⟩

theorem along_and {step : σ → α → Option σ} {P Q : σ → α → Prop} {s : σ} {as : List α}
    (hP : Along step P s as) (hQ : Along step Q s as) : Along step (fun s a => P s a ∧ Q s a) s as := by
  induction as generalizing s with
  | nil => trivial
  | cons a as ih =>
    exact ⟨⟨hP.1, hQ.1⟩, fun s' hs' => ih (hP.2 s' hs') (hQ.2 s' hs')⟩

/-- Two conditions on the steps of a run that agree as long as an invariant holds, which one of them
preserves. -/
theorem along_congr {step : σ → α → Option σ} (Inv : σ → Prop) {P Q : σ → α → Prop}
    (h : ∀ s a, Inv s → (P s a ↔ Q s a))
    (hstep : ∀ s a s', Inv s → P s a → step s a = some s' → Inv s') {s : σ} {as : List α}
    (hs : Inv s) : Along step P s as ↔ Along step Q s as := by
  induction as generalizing s with
  | nil => exact Iff.rfl
  | cons a as ih =>
    constructor
    · rintro ⟨hP, hrest⟩
      exact ⟨(h s a hs).mp hP, fun s' hs' => (ih (hstep s a s' hs hP hs')).mp (hrest s' hs')⟩
    · rintro ⟨hQ, hrest⟩
      have hP := (h s a hs).mpr hQ
      exact ⟨hP, fun s' hs' => (ih (hstep s a s' hs hP hs')).mpr (hrest s' hs')⟩

/-- The invariant rule for runs whose steps all satisfy a condition. -/
theorem run_induction {step : σ → α → Option σ} (Inv : σ → Prop) {Ok : σ → α → Prop}
    (hstep : ∀ s a s', Inv s → Ok s a → step s a = some s' → Inv s') {s s' : σ} {as : List α}
    (hs : Inv s) (hok : Along step Ok s as) (hr : run step s as = some s') : Inv s' := by
  induction as generalizing s with
  | nil => cases hr; exact hs
  | cons a as ih =>
    rw [run_cons] at hr
    obtain ⟨s₁, hs₁, hr⟩ := Option.bind_eq_some_iff.mp hr
    exact ih (hstep s a s₁ hs hok.1 hs₁) (hok.2 s₁ hs₁) hr

/-- The invariant rule for all runs. -/
theorem run_invariant {step : σ → α → Option σ} (Inv : σ → Prop)
    (hstep : ∀ s a s', Inv s → step s a = some s' → Inv s') {s s' : σ} {as : List α}
    (hs : Inv s) (hr : run step s as = some s') : Inv s' :=
  run_induction Inv (fun s a s' h _ => hstep s a s' h) hs (along_true step s as) hr

/-- Forward simulation: a run of the machine is matched by a run of the abstract one. -/
theorem run_refines {τ β : Type*} {step : σ → α → Option σ} {step' : τ → β → Option τ}
    (R : σ → τ → Prop) (enc : α → β) {Ok : σ → α → Prop} (Ok' : τ → β → Prop)
    (hstep : ∀ s t a s', R s t → Ok s a → step s a = some s' →
      Ok' t (enc a) ∧ ∃ t', step' t (enc a) = some t' ∧ R s' t')
    {s s' : σ} {t : τ} {as : List α} (hR : R s t) (hok : Along step Ok s as)
    (hr : run step s as = some s') :
    Along step' Ok' t (as.map enc) ∧ ∃ t', run step' t (as.map enc) = some t' ∧ R s' t' := by
  induction as generalizing s t with
  | nil => cases hr; exact ⟨trivial, t, rfl, hR⟩
  | cons a as ih =>
    rw [run_cons] at hr
    obtain ⟨s₁, hs₁, hr⟩ := Option.bind_eq_some_iff.mp hr
    obtain ⟨hok', t₁, ht₁, hR₁⟩ := hstep s t a s₁ hR hok.1 hs₁
    obtain ⟨halong, t', ht', hR'⟩ := ih hR₁ (hok.2 s₁ hs₁) hr
    refine ⟨⟨hok', fun u hu => ?_⟩, t', ?_, hR'⟩
    · cases ht₁.symm.trans hu
      exact halong
    · rw [List.map_cons, run_cons, ht₁]
      exact ht'

/-- What the steps of a run put out, up to the first that is not enabled. -/
def collect {β : Type*} (step : σ → α → Option σ) (out : σ → α → Option β) : σ → List α → List β
  | _, [] => []
  | s, a :: as => match step s a with
    | none => []
    | some s' => (out s a).toList ++ collect step out s' as

/-- What is put out comes from an enabled step, in a state that satisfies the invariant. -/
theorem collect_induction {β : Type*} {step : σ → α → Option σ} {out : σ → α → Option β}
    (Inv : σ → Prop) (hstep : ∀ s a s', Inv s → step s a = some s' → Inv s') {s : σ} {as : List α}
    (hs : Inv s) {x : β} (hx : x ∈ collect step out s as) :
    ∃ s₁ a s₂, Inv s₁ ∧ step s₁ a = some s₂ ∧ out s₁ a = some x := by
  induction as generalizing s with
  | nil => cases hx
  | cons a as ih =>
    rw [collect] at hx
    cases hs' : step s a with
    | none =>
      rw [hs'] at hx
      cases hx
    | some s' =>
      rw [hs'] at hx
      rcases List.mem_append.mp hx with hx | hx
      · exact ⟨s, a, s', hs, hs', by simpa using hx⟩
      · exact ih (hstep s a s' hs hs') hx

/-- What holds of the state and of what has been put out so far, in a run whose steps all satisfy a
condition. -/
theorem collect_run_induction {β : Type*} {step : σ → α → Option σ} {out : σ → α → Option β}
    (Inv : σ → List β → Prop) {Ok : σ → α → Prop}
    (hstep : ∀ s xs a s', Inv s xs → Ok s a → step s a = some s' → Inv s' (xs ++ (out s a).toList))
    {s s' : σ} {xs : List β} {as : List α} (hs : Inv s xs) (hok : Along step Ok s as)
    (hr : run step s as = some s') : Inv s' (xs ++ collect step out s as) := by
  induction as generalizing s xs with
  | nil =>
    cases hr
    simpa [collect] using hs
  | cons a as ih =>
    rw [run_cons] at hr
    obtain ⟨s₁, hs₁, hr⟩ := Option.bind_eq_some_iff.mp hr
    have hrest := ih (hstep s xs a s₁ hs hok.1 hs₁) (hok.2 s₁ hs₁) hr
    rw [List.append_assoc] at hrest
    rw [collect, hs₁]
    exact hrest

theorem collect_run_invariant {β : Type*} {step : σ → α → Option σ} {out : σ → α → Option β}
    (Inv : σ → List β → Prop)
    (hstep : ∀ s xs a s', Inv s xs → step s a = some s' → Inv s' (xs ++ (out s a).toList))
    {s s' : σ} {xs : List β} {as : List α} (hs : Inv s xs) (hr : run step s as = some s') :
    Inv s' (xs ++ collect step out s as) :=
  collect_run_induction Inv (fun s xs a s' h _ => hstep s xs a s' h) hs (along_true step s as) hr

/-- Putting out less. -/
theorem collect_bind {β γ : Type*} (step : σ → α → Option σ) (out : σ → α → Option β)
    (f : β → Option γ) (s : σ) (as : List α) :
    collect step (fun s a => (out s a).bind f) s as = (collect step out s as).filterMap f := by
  induction as generalizing s with
  | nil => rfl
  | cons a as ih =>
    have hfirst : ((out s a).bind f).toList = (out s a).toList.filterMap f := by
      cases out s a with
      | none => rfl
      | some x => cases hx : f x <;> simp [hx]
    rw [collect, collect]
    cases step s a with
    | none => rfl
    | some s' =>
      dsimp only
      rw [List.filterMap_append, hfirst, ih s']

theorem collect_map {β γ : Type*} (step : σ → α → Option σ) (out : σ → α → Option β) (f : β → γ)
    (s : σ) (as : List α) :
    collect step (fun s a => (out s a).map f) s as = (collect step out s as).map f := by
  simp only [Option.map_eq_bind]
  rw [collect_bind, List.filterMap_eq_map]

theorem collect_filter {β : Type*} (step : σ → α → Option σ) (out : σ → α → Option β) (p : β → Bool)
    (s : σ) (as : List α) :
    collect step (fun s a => (out s a).filter p) s as = (collect step out s as).filter p := by
  have hfilter : (fun s a => (out s a).filter p) = fun s a => (out s a).bind (Option.guard p) := by
    funext s a
    cases out s a <;> rfl
  rw [hfilter, collect_bind, List.filterMap_eq_filter]

/-- Two ways to put out, which agree as long as an invariant holds. -/
theorem collect_congr {β : Type*} {step : σ → α → Option σ} {out out' : σ → α → Option β}
    (Inv : σ → Prop) (hstep : ∀ s a s', Inv s → step s a = some s' → Inv s')
    (hout : ∀ s a s', Inv s → step s a = some s' → out s a = out' s a) {s : σ} (hs : Inv s)
    (as : List α) : collect step out s as = collect step out' s as := by
  induction as generalizing s with
  | nil => rfl
  | cons a as ih =>
    rw [collect, collect]
    cases hs' : step s a with
    | none => rfl
    | some s' =>
      dsimp only
      rw [hout s a s' hs hs', ih (hstep s a s' hs hs')]

/-- A part of a system, of which some steps of the system are steps and which the others leave alone,
runs by itself, and puts out what it puts out in the system. -/
theorem collect_part {τ β γ : Type*} {step : σ → α → Option σ} {part : τ → β → Option τ}
    (proj : σ → τ) (select : α → Option β) {out : σ → α → Option γ} {outPart : τ → β → Option γ}
    (hmove : ∀ {s a s' b}, step s a = some s' → select a = some b →
      part (proj s) b = some (proj s') ∧ out s a = outPart (proj s) b)
    (hstay : ∀ {s a s'}, step s a = some s' → select a = none →
      proj s' = proj s ∧ out s a = none)
    {s s' : σ} {as : List α} (hr : run step s as = some s') :
    run part (proj s) (as.filterMap select) = some (proj s') ∧
      collect step out s as = collect part outPart (proj s) (as.filterMap select) := by
  induction as generalizing s with
  | nil =>
    cases hr
    exact ⟨rfl, rfl⟩
  | cons a as ih =>
    rw [run_cons] at hr
    obtain ⟨s₁, hs₁, hr⟩ := Option.bind_eq_some_iff.mp hr
    obtain ⟨hrun, hcollect⟩ := ih hr
    cases hselect : select a with
    | none =>
      obtain ⟨hproj, hout⟩ := hstay hs₁ hselect
      rw [hproj] at hrun hcollect
      rw [List.filterMap_cons_none hselect, collect, hs₁]
      dsimp only
      rw [hout, hcollect]
      exact ⟨hrun, rfl⟩
    | some b =>
      obtain ⟨hpart, hout⟩ := hmove hs₁ hselect
      rw [List.filterMap_cons_some hselect, run_cons, hpart, Option.bind_some, collect, collect, hs₁,
        hpart]
      dsimp only
      rw [hout, hcollect]
      exact ⟨hrun, rfl⟩

/-- What a run puts out comes from one of its steps, after which the run goes on. -/
theorem exists_of_mem_collect {β : Type*} {step : σ → α → Option σ} {out : σ → α → Option β}
    {s s' : σ} {as : List α} (hr : run step s as = some s') {x : β}
    (hx : x ∈ collect step out s as) :
    ∃ before a after s₁ s₂, as = before ++ a :: after ∧ run step s before = some s₁ ∧
      step s₁ a = some s₂ ∧ out s₁ a = some x ∧ run step s₂ after = some s' := by
  induction as generalizing s with
  | nil => cases hx
  | cons a as ih =>
    rw [run_cons] at hr
    obtain ⟨s₁, hs₁, hr⟩ := Option.bind_eq_some_iff.mp hr
    rw [collect, hs₁] at hx
    rcases List.mem_append.mp hx with hx | hx
    · exact ⟨[], a, as, s, s₁, rfl, rfl, hs₁, by simpa using hx, hr⟩
    · obtain ⟨before, a', after, s₂, s₃, rfl, hbefore, hstep, hout, hafter⟩ := ih hr hx
      refine ⟨a :: before, a', after, s₂, s₃, rfl, ?_, hstep, hout, hafter⟩
      rw [run_cons, hs₁]
      exact hbefore

/-- Where a concrete run ends, with what can be decided about it. -/
theorem exists_run {step : σ → α → Option σ} {s : σ} {as : List α} {P : σ → Prop}
    [DecidablePred P] (h : ((run step s as).any fun s' => decide (P s')) = true) :
    ∃ s', run step s as = some s' ∧ P s' := by
  obtain ⟨s', hs', hP⟩ := (Option.any_eq_true _ _).mp h
  exact ⟨s', hs', of_decide_eq_true hP⟩

end Guarded

section Amortised
variable {α G : Type*} [AddCommMonoid G] [Preorder G] [AddLeftMono G]

/-- Amortised accounting: along a chain on which every element pays its cost out of a rise
of the potential, the costs after the first element are bounded by the total rise. -/
theorem potential_telescope (Φ cost : α → G) (a : α) (l : List α)
    (h : (a :: l).IsChain (fun x y => Φ x + cost y ≤ Φ y)) :
    Φ a + (l.map cost).sum ≤ Φ ((a :: l).getLast (by simp)) := by
  induction l generalizing a with
  | nil => simp
  | cons b l ih =>
    obtain ⟨hab, hl⟩ := List.isChain_cons_cons.mp h
    calc Φ a + ((b :: l).map cost).sum
        = Φ a + cost b + (l.map cost).sum := by simp [add_assoc]
      _ ≤ Φ b + (l.map cost).sum := add_le_add_left hab _
      _ ≤ Φ ((b :: l).getLast (by simp)) := ih b hl
      _ = Φ ((a :: b :: l).getLast (by simp)) := by simp

end Amortised

end Machine
