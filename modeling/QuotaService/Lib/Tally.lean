import QuotaService.Lib.Arith
import QuotaService.Lib.Ranking
import Mathlib.Algebra.Order.BigOperators.Group.List
import Mathlib.Data.List.AList
import Mathlib.Data.List.Dedup
import Mathlib.Data.Prod.Lex
import Mathlib.Data.String.Basic

/-! Totals by key, in machine arithmetic. A tally is determined by the amounts that have been added to
it, in whatever order. With ranges by rank, a tally is a sorted set of Redis. -/

abbrev Tally (κ : Type*) := AList fun _ : κ => ℤ

namespace Tally
variable {κ : Type*} [DecidableEq κ]

def score (t : Tally κ) (k : κ) : ℤ := (t.lookup k).getD 0

def add (A : Arith) (t : Tally κ) (k : κ) (n : ℤ) : Tally κ := t.insert k (A.wrap (t.score k + n))

/-- What a list of amounts comes to for a key. -/
def total (l : List (κ × ℤ)) (k : κ) : ℤ := ((l.filter fun e => e.1 = k).map Prod.snd).sum

/-- The tally holds the totals of the amounts, and a key for each of them. -/
def Counts (l : List (κ × ℤ)) (t : Tally κ) : Prop :=
  ∀ k, t.lookup k = if k ∈ l.map Prod.fst then some (total l k) else none

variable {l l' : List (κ × ℤ)} {t t' : Tally κ} {k : κ} {n : ℤ}

theorem counts_empty : Counts [] (∅ : Tally κ) := fun k => AList.lookup_empty k

theorem total_append (l l' : List (κ × ℤ)) (k : κ) : total (l ++ l') k = total l k + total l' k := by
  simp [total, List.filter_append]

theorem total_eq_zero (h : k ∉ l.map Prod.fst) : total l k = 0 := by
  have hnone : (l.filter fun e => e.1 = k) = [] := by
    rw [List.filter_eq_nil_iff]
    intro e he
    simp only [decide_eq_true_eq]
    rintro rfl
    exact h (List.mem_map_of_mem he)
  rw [total, hnone]
  rfl

theorem total_perm (h : l.Perm l') (k : κ) : total l k = total l' k :=
  ((h.filter _).map Prod.snd).sum_eq

theorem Counts.score_eq (h : Counts l t) (k : κ) : t.score k = total l k := by
  rw [score, h k]
  split_ifs with hk
  · rfl
  · rw [total_eq_zero hk]
    rfl

theorem Counts.perm (h : Counts l t) (hperm : l.Perm l') : Counts l' t := by
  intro k
  have hmem := (hperm.map Prod.fst).mem_iff (a := k)
  simp only [h k, total_perm hperm, hmem]

theorem total_nonneg (h : ∀ e ∈ l, 0 ≤ e.2) (k : κ) : 0 ≤ total l k := by
  apply List.sum_nonneg
  intro n hn
  obtain ⟨e, he, rfl⟩ := List.mem_map.mp hn
  exact h e (List.mem_of_mem_filter he)

/-- Amounts that are not negative, of which some are left out. -/
theorem total_le_of_subperm (h : l.Subperm l') (hnonneg : ∀ e ∈ l', 0 ≤ e.2) (k : κ) :
    total l k ≤ total l' k := by
  obtain ⟨l₁, hperm, hsub⟩ := h
  rw [← total_perm hperm]
  have hsums := ((hsub.filter fun e => e.1 = k).map Prod.snd)
  refine hsums.sum_le_sum fun n hn => ?_
  obtain ⟨e, he, rfl⟩ := List.mem_map.mp hn
  exact hnonneg e (List.mem_of_mem_filter he)

/-- Adding an amount whose total fits. -/
theorem Counts.add {A : Arith} (h : Counts l t) (hfits : A.Fits (t.score k + n)) :
    Counts (l ++ [(k, n)]) (t.add A k n) := by
  have hwrap : A.wrap (t.score k + n) = t.score k + n := hfits
  intro k'
  rw [Tally.add, hwrap, h.score_eq, total_append]
  by_cases hk : k' = k
  · subst hk
    rw [AList.lookup_insert]
    simp [total]
  · rw [AList.lookup_insert_ne hk, h k']
    have hother : total [(k, n)] k' = 0 := total_eq_zero (by simpa using hk)
    simp only [List.map_append, List.mem_append, List.map_cons, List.map_nil,
      List.mem_singleton, hk, or_false, hother, add_zero]

/-- The keys that amounts have been added to, with their totals. -/
def totals (l : List (κ × ℤ)) : List (κ × ℤ) :=
  (l.map Prod.fst).dedup.map fun k => (k, total l k)

/-- The entries of a tally are the totals. -/
theorem Counts.entries_perm (h : Counts l t) :
    (t.entries.map fun e => (e.1, e.2)).Perm (totals l) := by
  have hmem : ∀ k, k ∈ t.keys ↔ k ∈ (l.map Prod.fst).dedup := by
    intro k
    rw [← AList.mem_keys, ← AList.lookup_isSome, h k, List.mem_dedup]
    split_ifs with hk <;> simp [hk]
  have hkeys := (List.perm_ext_iff_of_nodup t.keys_nodup (List.nodup_dedup _)).mpr hmem
  have hentries : (t.entries.map fun e => (e.1, e.2)) = t.keys.map fun k => (k, total l k) := by
    rw [AList.keys, List.keys, List.map_map]
    apply List.map_congr_left
    intro e he
    have hlookup : t.lookup e.1 = some e.2 := AList.mem_lookup_iff.mpr he
    have hscore : t.score e.1 = e.2 := by
      rw [score, hlookup]
      rfl
    simp only [Function.comp_apply, ← h.score_eq, hscore]
  rw [hentries]
  exact hkeys.map _

end Tally

/-- A sorted set of Redis: the scores are doubles. -/
abbrev SortedSet := Tally String

namespace SortedSet

def zIncrBy (s : SortedSet) (increment : ℤ) (member : String) : SortedSet :=
  s.add .float64 member increment

def zScore (s : SortedSet) (member : String) : Option ℤ := s.lookup member

/-- The highest score comes first; among members with the same score, the last in the order of
strings. -/
def before (a b : Sigma fun _ : String => ℤ) : Prop := toLex (b.2, b.1) ≤ toLex (a.2, a.1)

instance : DecidableRel before := fun a b =>
  inferInstanceAs (Decidable (toLex (b.2, b.1) ≤ toLex (a.2, a.1)))

instance : Std.Total before := ⟨fun a b => le_total (toLex (b.2, b.1)) (toLex (a.2, a.1))⟩

instance : IsTrans _ before := ⟨fun _ _ _ hab hbc => le_trans hbc hab⟩

/-- A range by rank, both of whose ends belong to it. -/
def zRevRangeWithScores (s : SortedSet) (start stop : ℕ) : List (Sigma fun _ : String => ℤ) :=
  ((s.entries.insertionSort before).take (stop + 1)).drop start

theorem isTop_zRevRangeWithScores (s : SortedSet) (stop : ℕ) :
    Ranking.IsTop Sigma.snd (stop + 1) s.entries (s.zRevRangeWithScores 0 stop) := by
  have hscore : ∀ a b, before a b → b.2 ≤ a.2 := by
    intro a b hab
    rcases Prod.Lex.le_iff.mp hab with hlt | ⟨heq, -⟩
    · exact hlt.le
    · exact heq.le
  exact Ranking.isTop_insertionSort hscore (stop + 1) s.entries

end SortedSet
