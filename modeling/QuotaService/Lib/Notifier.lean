import QuotaService.Lib.Machine
import Mathlib.Order.Basic

/-! A register with a one-slot notification channel. A writer stores values of growing rank and
leaves a notification, which is dropped if one is pending; a reader receives a notification, reads
the register, and takes in what it has read some time later, unless it has taken in something as
new. No wake-up is lost: a reader that waits on an empty channel has taken in the last value. -/
namespace Notifier
variable {V ι : Type*} [LinearOrder ι] (rank : V → ι)

/-- Where the reader is: waiting for a notification, having received one, or with a value read. -/
inductive Reader (V : Type*)
  | waiting
  | received
  | holding (v : V)

structure State (V : Type*) where
  stored : V
  notified : Bool
  reader : Reader V
  /-- What the reader has taken in, the newest first. -/
  taken : List V

inductive Move (V : Type*)
  | store (v : V)
  | receive
  | read
  | take

/-- The reader takes a value in unless it has one that is as new. -/
def accept (taken : List V) (v : V) : List V :=
  if ∀ t ∈ taken.head?, rank t < rank v then v :: taken else taken

def step (s : State V) : Move V → Option (State V)
  | .store v => some { s with stored := v, notified := true }
  | .receive =>
    match s.reader, s.notified with
    | .waiting, true => some { s with reader := .received, notified := false }
    | _, _ => none
  | .read =>
    match s.reader with
    | .received => some { s with reader := .holding s.stored }
    | _ => none
  | .take =>
    match s.reader with
    | .holding v => some { s with taken := accept rank s.taken v, reader := .waiting }
    | _ => none

/-- Values are stored in the order of their ranks. -/
def Grows (s : State V) : Move V → Prop
  | .store v => rank s.stored < rank v
  | _ => True

structure Inv (s : State V) : Prop where
  /-- No value that the reader has or has had is newer than the stored one, and one that is as
  new is the stored one. -/
  held_le : ∀ v, s.reader = .holding v → rank v < rank s.stored ∨ v = s.stored
  taken_le : ∀ v ∈ s.taken.head?, rank v < rank s.stored ∨ v = s.stored
  awake : (∀ v ∈ s.taken.head?, rank v < rank s.stored) →
    s.notified = true ∨ s.reader = .received ∨ s.reader = .holding s.stored

section Steps
variable {rank} {s s' : State V}

variable (rank) in
theorem head?_accept (taken : List V) (v : V) :
    (accept rank taken v).head? = some v ∨
      ∃ t, taken.head? = some t ∧ rank v ≤ rank t ∧ accept rank taken v = taken := by
  unfold accept
  split_ifs with h
  · exact Or.inl rfl
  · push Not at h
    obtain ⟨t, ht, hle⟩ := h
    exact Or.inr ⟨t, ht, hle, rfl⟩

/-- What has been taken in last is never followed by something older. -/
theorem step_taken {m : Move V} (hs : step rank s m = some s') {v : V}
    (hv : s.taken.head? = some v) : ∃ v', s'.taken.head? = some v' ∧ rank v ≤ rank v' := by
  cases m with
  | store w =>
    cases hs
    exact ⟨v, hv, le_rfl⟩
  | receive =>
    simp only [step] at hs
    split at hs
    · cases hs
      exact ⟨v, hv, le_rfl⟩
    · cases hs
  | read =>
    simp only [step] at hs
    split at hs
    · cases hs
      exact ⟨v, hv, le_rfl⟩
    · cases hs
  | take =>
    simp only [step] at hs
    split at hs
    · rename_i w _
      cases hs
      by_cases h : ∀ t ∈ s.taken.head?, rank t < rank w
      · exact ⟨w, by simp only [accept, if_pos h, List.head?_cons], (h v hv).le⟩
      · exact ⟨v, (congrArg List.head? (if_neg h)).trans hv, le_rfl⟩
    · cases hs

theorem store_inv (h : Inv rank s) {v : V} (hgrows : rank s.stored < rank v) :
    Inv rank { s with stored := v, notified := true } := by
  have hle : ∀ w, rank w < rank s.stored ∨ w = s.stored → rank w < rank v := by
    rintro w (hw | rfl)
    · exact hw.trans hgrows
    · exact hgrows
  exact ⟨fun w hw => Or.inl (hle w (h.held_le w hw)), fun w hw => Or.inl (hle w (h.taken_le w hw)),
    fun _ => Or.inl rfl⟩

theorem take_inv (h : Inv rank s) {v : V} (hreader : s.reader = .holding v) :
    Inv rank { s with taken := accept rank s.taken v, reader := .waiting } := by
  have hv := h.held_le v hreader
  refine ⟨fun w hw => (nomatch hw), fun w hw => ?_, fun hbehind => ?_⟩
  · rcases head?_accept rank s.taken v with hhead | ⟨t, ht, -, heq⟩
    · cases hhead.symm.trans hw
      exact hv
    · rw [heq] at hw
      exact h.taken_le w hw
  · rcases head?_accept rank s.taken v with hhead | ⟨t, ht, hle, heq⟩
    · -- what it held is older than what is stored, so it has been notified since it read
      have hlt := hbehind v hhead
      have hold : ∀ t ∈ s.taken.head?, rank t < rank s.stored := by
        intro t ht
        rcases h.taken_le t ht with hlt' | rfl
        · exact hlt'
        · have hnew : accept rank s.taken v = s.taken :=
            if_neg fun hall => lt_asymm hlt (hall _ ht)
          exact hbehind _ ((congrArg List.head? hnew).trans ht)
      rcases h.awake hold with hn | hr | hh
      · exact Or.inl hn
      · cases hreader.symm.trans hr
      · cases hreader.symm.trans hh
        exact absurd hlt (lt_irrefl _)
    · have hbehind' : ∀ t ∈ s.taken.head?, rank t < rank s.stored := heq ▸ hbehind
      rcases h.awake hbehind' with hn | hr | hh
      · exact Or.inl hn
      · cases hreader.symm.trans hr
      · cases hreader.symm.trans hh
        exact absurd (hle.trans_lt (hbehind' t ht)) (lt_irrefl _)

theorem step_inv (h : Inv rank s) {m : Move V} (hgrows : Grows rank s m)
    (hs : step rank s m = some s') : Inv rank s' := by
  cases m with
  | store v =>
    cases hs
    exact store_inv h hgrows
  | receive =>
    simp only [step] at hs
    split at hs
    · cases hs
      exact ⟨fun v hv => (nomatch hv), h.taken_le, fun _ => Or.inr (Or.inl rfl)⟩
    · cases hs
  | read =>
    simp only [step] at hs
    split at hs
    · cases hs
      refine ⟨fun v hv => ?_, h.taken_le, fun _ => Or.inr (Or.inr rfl)⟩
      cases hv
      exact Or.inr rfl
    · cases hs
  | take =>
    simp only [step] at hs
    split at hs
    · rename_i v hreader
      cases hs
      exact take_inv h hreader
    · cases hs

/-- Before anything has been taken in, a notification is pending. -/
theorem fresh_inv (v : V) : Inv rank ⟨v, true, .waiting, []⟩ :=
  ⟨fun _ hw => (nomatch hw), fun _ hw => (nomatch hw), fun _ => Or.inl rfl⟩

theorem run_inv {s s' : State V} {moves : List (Move V)} (h : Inv rank s)
    (hgrows : Machine.Along (step rank) (Grows rank) s moves)
    (hrun : Machine.run (step rank) s moves = some s') : Inv rank s' :=
  Machine.run_induction (Inv rank) (fun _ _ _ h hg hs => step_inv h hg hs) h hgrows hrun

theorem run_taken {s s' : State V} {moves : List (Move V)}
    (hrun : Machine.run (step rank) s moves = some s') {v : V} (hv : s.taken.head? = some v) :
    ∃ v', s'.taken.head? = some v' ∧ rank v ≤ rank v' := by
  refine Machine.run_invariant (fun t => ∃ v', t.taken.head? = some v' ∧ rank v ≤ rank v') ?_
    ⟨v, hv, le_rfl⟩ hrun
  rintro t m t' ⟨v', hv', hle⟩ hs
  obtain ⟨v'', hv'', hle'⟩ := step_taken hs hv'
  exact ⟨v'', hv'', hle.trans hle'⟩

/-- A reader that waits on an empty channel has taken in what is stored. -/
theorem taken_of_quiet (h : Inv rank s) (hnotified : s.notified = false)
    (hreader : s.reader = .waiting) : s.taken.head? = some s.stored := by
  by_contra hne
  have hbehind : ∀ v ∈ s.taken.head?, rank v < rank s.stored := by
    intro v hv
    rcases h.taken_le v hv with hlt | rfl
    · exact hlt
    · exact absurd hv hne
  rcases h.awake hbehind with hn | hr | hh
  · simp [hnotified] at hn
  · cases hreader.symm.trans hr
  · cases hreader.symm.trans hh

end Steps

end Notifier
