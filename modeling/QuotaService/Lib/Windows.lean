import Mathlib.Algebra.Order.BigOperators.Group.List
import Mathlib.Algebra.Order.Ring.Int
import Mathlib.Data.Int.ConditionallyCompleteOrder
import Mathlib.Data.List.Perm.Subperm

/-! Charges in windows of time. When every span of a list of charges costs no more than a burst and the
time that the span takes, no window costs more either, and not much more when each charge may be used
a little after its time. -/
namespace Windows
variable {α : Type*}

section Spans
variable {p : α → Bool} {l : List α}

/-- From the first element that is selected to the last one. -/
theorem exists_span (h : ∃ x ∈ l, p x = true) : ∃ pre x mid post, l = pre ++ (x :: mid) ++ post ∧
    p x = true ∧ p ((x :: mid).getLast (by simp)) = true ∧ l.filter p = (x :: mid).filter p := by
  obtain ⟨x, hx⟩ := Option.isSome_iff_exists.mp (List.find?_isSome.mpr h)
  obtain ⟨hpx, pre, rest, rfl, hpre⟩ := List.find?_eq_some_iff_append.mp hx
  have hlast : ((x :: rest).reverse.find? p).isSome = true :=
    List.find?_isSome.mpr ⟨x, by simp, hpx⟩
  obtain ⟨y, hy⟩ := Option.isSome_iff_exists.mp hlast
  obtain ⟨hpy, post, mid, hsplit, hpost⟩ := List.find?_eq_some_iff_append.mp hy
  have hrest : x :: rest = mid.reverse ++ [y] ++ post.reverse := by
    rw [← List.reverse_reverse (x :: rest), hsplit]
    simp
  have hfilter : (pre ++ x :: rest).filter p = (mid.reverse ++ [y]).filter p := by
    have hnone : pre.filter p = [] := by
      rw [List.filter_eq_nil_iff]
      intro z hz
      simpa using hpre z hz
    have hnone' : post.reverse.filter p = [] := by
      rw [List.filter_eq_nil_iff]
      intro z hz
      simpa using hpost z (List.mem_reverse.mp hz)
    rw [List.filter_append, hnone, hrest, List.filter_append, hnone']
    simp
  cases hmid : mid.reverse with
  | nil =>
    rw [hmid] at hrest hfilter
    obtain ⟨rfl, hpost'⟩ := List.cons.inj hrest
    exact ⟨pre, x, [], post.reverse, by simp [hpost'], hpx, hpx, hfilter⟩
  | cons z mid' =>
    rw [hmid] at hrest hfilter
    obtain ⟨rfl, hrest'⟩ := List.cons.inj hrest
    refine ⟨pre, x, mid' ++ [y], post.reverse, ?_, hpx, ?_, hfilter⟩
    · rw [hrest]
      simp
    · simpa using hpy

end Spans

section Charges
variable {cost opens closes : α → ℤ} {burst : ℤ} {l : List α}

/-- Every span of the list costs no more than a burst and the time from when its first charge opens to
when its last one closes. -/
def Bounded (cost opens closes : α → ℤ) (burst : ℤ) (l : List α) : Prop :=
  ∀ pre x mid post, l = pre ++ (x :: mid) ++ post →
    ((x :: mid).map cost).sum ≤ burst + (closes ((x :: mid).getLast (by simp)) - opens x)

/-- The charges that open and close in a window. -/
theorem Bounded.sum_window_le (h : Bounded cost opens closes burst l) (hcost : ∀ x ∈ l, 0 ≤ cost x)
    {lo hi : ℤ} (hburst : 0 ≤ burst + (hi - lo)) :
    ((l.filter fun x => lo ≤ opens x ∧ closes x ≤ hi).map cost).sum ≤ burst + (hi - lo) := by
  by_cases hsome : ∃ x ∈ l, decide (lo ≤ opens x ∧ closes x ≤ hi) = true
  · obtain ⟨pre, x, mid, post, hl, hx, hlast, hfilter⟩ := exists_span hsome
    have hspan := h pre x mid post hl
    have hmem : ∀ y ∈ x :: mid, y ∈ l := by
      intro y hy
      rw [hl]
      exact List.mem_append_left _ (List.mem_append_right _ hy)
    have hle := (List.filter_sublist.map cost : (((x :: mid).filter
      fun x => decide (lo ≤ opens x ∧ closes x ≤ hi)).map cost).Sublist _).sum_le_sum fun n hn => by
        obtain ⟨y, hy, rfl⟩ := List.mem_map.mp hn
        exact hcost y (hmem y hy)
    have hopens := (of_decide_eq_true hx).1
    have hcloses := (of_decide_eq_true hlast).2
    rw [hfilter]
    omega
  · have hnone : (l.filter fun x => lo ≤ opens x ∧ closes x ≤ hi) = [] := by
      rw [List.filter_eq_nil_iff]
      intro x hx hpx
      exact hsome ⟨x, hx, hpx⟩
    rw [hnone]
    exact hburst

/-- What is used in a window, when each charge is used at most once, after it closes and no later than by
`late` after it opens. -/
theorem Bounded.sum_used_le (h : Bounded cost opens closes burst l) (hcost : ∀ x ∈ l, 0 ≤ cost x)
    {uses : List (α × ℤ)} (hsub : (uses.map Prod.fst).Subperm l) {late : ℤ}
    (hused : ∀ u ∈ uses, closes u.1 ≤ u.2 ∧ u.2 ≤ opens u.1 + late) {lo hi : ℤ}
    (hburst : 0 ≤ burst + (hi - lo) + late) :
    ((uses.filter fun u => lo ≤ u.2 ∧ u.2 ≤ hi).map fun u => cost u.1).sum ≤
      burst + (hi - lo) + late := by
  have hwindow : ((l.filter fun x => lo - late ≤ opens x ∧ closes x ≤ hi).map cost).sum ≤
      burst + (hi - (lo - late)) := h.sum_window_le hcost (by omega)
  have hcharged : ((uses.filter fun u => lo ≤ u.2 ∧ u.2 ≤ hi).map Prod.fst).Subperm
      (l.filter fun x => lo - late ≤ opens x ∧ closes x ≤ hi) := by
    have hselected := hsub.filter fun x => decide (lo - late ≤ opens x ∧ closes x ≤ hi)
    rw [List.filter_map] at hselected
    have hwithin : (uses.filter fun u => lo ≤ u.2 ∧ u.2 ≤ hi) =
        (uses.filter ((fun x => decide (lo - late ≤ opens x ∧ closes x ≤ hi)) ∘
          Prod.fst)).filter fun u => lo ≤ u.2 ∧ u.2 ≤ hi := by
      rw [List.filter_filter]
      refine List.filter_congr fun u hu => ?_
      obtain ⟨hcloses, hopens⟩ := hused u hu
      rw [Function.comp_apply, ← Bool.decide_and]
      apply decide_eq_decide.mpr
      omega
    rw [hwithin]
    exact (List.filter_sublist.map Prod.fst).subperm.trans hselected
  obtain ⟨l', hperm, hsublist⟩ := hcharged
  have hsum := (hsublist.map cost).sum_le_sum fun n hn => by
    obtain ⟨x, hx, rfl⟩ := List.mem_map.mp hn
    exact hcost x (List.mem_of_mem_filter hx)
  have heq := (hperm.map cost).sum_eq
  rw [List.map_map] at heq
  have hsame : ((uses.filter fun u => lo ≤ u.2 ∧ u.2 ≤ hi).map (cost ∘ Prod.fst)).sum =
    ((uses.filter fun u => lo ≤ u.2 ∧ u.2 ≤ hi).map fun u => cost u.1).sum := rfl
  omega

end Charges

end Windows
