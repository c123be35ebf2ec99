/-
  File:      MuseChain/Lib/Halving.lean
  Subject:   Going to the end of an interval in steps of half of the way and one.

  `rungs high low`: the numbers from `low` to `high`, each half of the way that is left further than
  the one before it, and one more. They rise (`pairwise_rungs`), the last one is `high`
  (`getLast?_rungs`), there are about as many as `high - low` has binary digits
  (`two_pow_rungs`), and of the way from any number in the interval back to the last rung before it,
  the end is no nearer (`exists_rung_le`).
-/
import Mathlib.Algebra.Group.Nat.Defs
import Mathlib.Data.List.Basic

namespace MuseChain

namespace Halving

/-- Half of the way from `low` to `high` and one further. -/
def next (high low : Nat) : Nat := low + (high - low + 2) / 2

theorem lt_next (high low : Nat) : low < next high low := by
  unfold next
  omega

def rungs (high low : Nat) : List Nat :=
  if low ≤ high then low :: rungs high (next high low) else []
termination_by high + 1 - low
decreasing_by
  have := lt_next high low
  omega

variable {high low : Nat}

theorem rungs_of_le (h : low ≤ high) : rungs high low = low :: rungs high (next high low) := by
  rw [rungs, if_pos h]

theorem rungs_of_lt (h : high < low) : rungs high low = [] := by
  rw [rungs, if_neg (Nat.not_le.mpr h)]

theorem mem_rungs {x : Nat} (h : x ∈ rungs high low) : low ≤ x ∧ x ≤ high := by
  fun_induction rungs high low with
  | case1 low hle ih =>
    rcases List.mem_cons.mp h with rfl | h
    · exact ⟨Nat.le_refl x, hle⟩
    · have := lt_next high low
      obtain ⟨h1, h2⟩ := ih h
      exact ⟨by omega, h2⟩
  | case2 low hlt => cases h

/-- The numbers rise. -/
theorem pairwise_rungs (high low : Nat) : (rungs high low).Pairwise (· < ·) := by
  fun_induction rungs high low with
  | case1 low hle ih =>
    refine List.pairwise_cons.mpr ⟨fun x hx => ?_, ih⟩
    exact Nat.lt_of_lt_of_le (lt_next high low) (mem_rungs hx).1
  | case2 low hlt => exact List.Pairwise.nil

/-- **The way ends at the end.** -/
theorem getLast?_rungs (h : low ≤ high) : (rungs high low).getLast? = some high := by
  fun_induction rungs high low with
  | case1 low hle ih =>
    by_cases hend : next high low ≤ high
    · rw [List.getLast?_cons, ih hend]
      rfl
    · -- only the end itself is followed by something behind it
      have hlow : low = high := by
        unfold next at hend
        omega
      rw [rungs_of_lt (Nat.lt_of_not_le hend), hlow]
      rfl
  | case2 low hlt => exact absurd h hlt

/-- **There are not many.** -/
theorem two_pow_rungs (h : low ≤ high) : 2 ^ (rungs high low).length ≤ 2 * (high - low + 1) := by
  fun_induction rungs high low with
  | case1 low hle ih =>
    by_cases hend : next high low ≤ high
    · have hrest := ih hend
      have hhalf : 2 * (high - next high low + 1) ≤ high - low + 1 := by
        unfold next at hend ⊢
        omega
      rw [List.length_cons, Nat.pow_succ]
      generalize 2 ^ (rungs high (next high low)).length = c at hrest ⊢
      omega
    · rw [rungs_of_lt (Nat.lt_of_not_le hend)]
      show 2 ^ 1 ≤ _
      omega
  | case2 low hlt => exact absurd h hlt

/-- **No number is further behind a rung than it is before the end.** -/
theorem exists_rung_le {c : Nat} (hlow : low ≤ c) (hhigh : c ≤ high) :
    ∃ (l r : List Nat) (x : Nat), rungs high low = l ++ x :: r ∧ x ≤ c ∧ (∀ y ∈ r, c < y) ∧
      c - x ≤ high - c := by
  fun_induction rungs high low with
  | case1 low hle ih =>
    by_cases hnext : next high low ≤ c
    · obtain ⟨l, r, x, he, hx, hr, hnear⟩ := ih hnext
      exact ⟨low :: l, r, x, by rw [he]; rfl, hx, hr, hnear⟩
    · refine ⟨[], _, low, rfl, hlow, fun y hy => ?_, ?_⟩
      · have := (mem_rungs hy).1
        omega
      · unfold next at hnext
        omega
  | case2 low hlt => omega

/-- Up to a number, and from there on. -/
theorem filter_append_filter {l : List Nat} (h : l.Pairwise (· < ·)) (c : Nat) :
    (l.filter fun x => decide (x ≤ c)) ++ (l.filter fun x => decide (c < x)) = l := by
  induction l with
  | nil => rfl
  | cons a l ih =>
    obtain ⟨ha, hl⟩ := List.pairwise_cons.mp h
    by_cases hac : a ≤ c
    · rw [List.filter_cons_of_pos (by simpa using hac),
        List.filter_cons_of_neg (by simpa using hac), List.cons_append, ih hl]
    · have hle : (l.filter fun x => decide (x ≤ c)) = [] := by
        refine List.filter_eq_nil_iff.mpr fun x hx => ?_
        have := ha x hx
        simp only [decide_eq_true_eq]
        omega
      have hlt : (l.filter fun x => decide (c < x)) = l := by
        refine List.filter_eq_self.mpr fun x hx => ?_
        have := ha x hx
        simp only [decide_eq_true_eq]
        omega
      rw [List.filter_cons_of_neg (by simpa using hac),
        List.filter_cons_of_pos (by simpa using Nat.lt_of_not_le hac), hle, hlt, List.nil_append]

end Halving

end MuseChain
