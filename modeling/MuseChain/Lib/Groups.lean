/-
  File:      MuseChain/Lib/Groups.lean
  Subject:   A list that is summed group by group.

  The entries of a list with one key are a group. `sum_groups`: the sums of the groups make the sum
  of the list. `sum_map_of_nodup`: where every group has one entry at most.
-/
import Mathlib.Algebra.BigOperators.Group.Finset.Piecewise
import Mathlib.Algebra.BigOperators.Group.Finset.Sigma
import Mathlib.Algebra.Order.BigOperators.Group.List
import Mathlib.Algebra.Ring.Int.Defs

namespace MuseChain

variable {α κ M : Type} [AddCommMonoid M] [DecidableEq κ]

theorem sum_map_filter (l : List α) (p : α → Bool) (f : α → M) :
    ((l.filter p).map f).sum = (l.map fun a => if p a then f a else 0).sum := by
  induction l with
  | nil => rfl
  | cons a l ih =>
    rw [List.filter_cons, List.map_cons, List.sum_cons, ← ih]
    split
    · rw [List.map_cons, List.sum_cons]
    · rw [zero_add]

/-- **Every entry is in the group of its key.** -/
theorem sum_groups (l : List α) (key : α → κ) (f : α → M) {s : Finset κ}
    (h : ∀ a ∈ l, key a ∈ s) :
    ∑ k ∈ s, ((l.filter fun a => key a = k).map f).sum = (l.map f).sum := by
  induction l with
  | nil => simp
  | cons a l ih =>
    have hrest := ih fun b hb => h b (List.mem_cons_of_mem _ hb)
    have hsplit : ∀ k, (((a :: l).filter fun b => key b = k).map f).sum =
        (if key a = k then f a else 0) + ((l.filter fun b => key b = k).map f).sum := by
      intro k
      rw [sum_map_filter, sum_map_filter, List.map_cons, List.sum_cons]
      simp only [decide_eq_true_eq]
    rw [Finset.sum_congr rfl fun k _ => hsplit k, Finset.sum_add_distrib, hrest,
      Finset.sum_ite_eq, if_pos (h a List.mem_cons_self), List.map_cons, List.sum_cons]

/-- A list without repetitions is summed over a set that it is in. -/
theorem sum_map_of_nodup {l : List κ} (hnodup : l.Nodup) {s : Finset κ} (hmem : ∀ k ∈ l, k ∈ s)
    (f : κ → M) : (l.map f).sum = ∑ k ∈ s, if k ∈ l then f k else 0 := by
  rw [← List.sum_toFinset f hnodup, ← Finset.sum_filter]
  refine Finset.sum_congr ?_ fun _ _ => rfl
  ext k
  simp only [List.mem_toFinset, Finset.mem_filter]
  exact ⟨fun hk => ⟨hmem k hk, hk⟩, fun hk => hk.2⟩

end MuseChain
