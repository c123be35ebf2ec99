/-
  File:      MuseChain/Lib/Roots.lean
  Subject:   Integer square roots, found digit by digit.

  `IsRoot a r`: the square of `r` is the largest one that is not above `a`. There is one such `r`
  (`IsRoot.unique`), a digit of base 4 at the end of `a` puts one bit at the end of it
  (`IsRoot.low`, `IsRoot.high`), and it needs half the digits of `a` (`IsRoot.lt_iff`).
-/
import Mathlib.Tactic.Ring
import Mathlib.Tactic.Linarith

namespace MuseChain

def IsRoot (a r : Nat) : Prop := r * r ≤ a ∧ a < (r + 1) * (r + 1)

instance (a r : Nat) : Decidable (IsRoot a r) := inferInstanceAs (Decidable (_ ∧ _))

namespace IsRoot

variable {a b r t d : Nat}

theorem zero : IsRoot 0 0 := ⟨le_rfl, Nat.one_pos⟩

/-- A number whose square fits is not above the root. -/
theorem le_of_mul_le (h : IsRoot a r) (ht : t * t ≤ a) : t ≤ r := by
  have hlt : t < r + 1 := lt_of_mul_self_lt_mul_self₀ (Nat.zero_le _) (ht.trans_lt h.2)
  exact Nat.lt_succ_iff.mp hlt

theorem unique (h : IsRoot a r) (ht : IsRoot a t) : t = r :=
  le_antisymm (h.le_of_mul_le ht.1) (ht.le_of_mul_le h.1)

/-- The root is below `b` exactly when the number is below the square. -/
theorem lt_iff (h : IsRoot a r) : r < b ↔ a < b * b := by
  constructor
  · intro hr
    exact h.2.trans_le (Nat.mul_le_mul hr hr)
  · intro ha
    exact lt_of_mul_self_lt_mul_self₀ (Nat.zero_le _) (h.1.trans_lt ha)

/-- What is left over is at most twice the root. -/
theorem rest_le (h : IsRoot a r) : a - r * r ≤ 2 * r := by
  have hsq : (r + 1) * (r + 1) = r * r + 2 * r + 1 := by ring
  have hlt := h.2
  omega

/-- The rest after one more digit, before the new bit is tried. -/
theorem rest_four (h : IsRoot a r) : 4 * a + d - 2 * r * (2 * r) = 4 * (a - r * r) + d := by
  have hsq : 2 * r * (2 * r) = 4 * (r * r) := by ring
  have hle := h.1
  omega

/-- The next bit is 0: twice the doubled root is not below the rest. -/
theorem low (h : IsRoot a r) (hd : 4 * (a - r * r) + d ≤ 4 * r) : IsRoot (4 * a + d) (2 * r) := by
  have hsq : 2 * r * (2 * r) = 4 * (r * r) := by ring
  have hnext : (2 * r + 1) * (2 * r + 1) = 4 * (r * r) + 4 * r + 1 := by ring
  have hle := h.1
  constructor <;> omega

/-- The next bit is 1. -/
theorem high (h : IsRoot a r) (hd : d < 4) (hr : 4 * r < 4 * (a - r * r) + d) :
    IsRoot (4 * a + d) (2 * r + 1) := by
  have hsq : (2 * r + 1) * (2 * r + 1) = 4 * (r * r) + 4 * r + 1 := by ring
  have hnext : (2 * r + 1 + 1) * (2 * r + 1 + 1) = 4 * (r * r) + 8 * r + 4 := by ring
  have hroot : (r + 1) * (r + 1) = r * r + 2 * r + 1 := by ring
  have hle := h.1
  have hlt := h.2
  constructor <;> omega

end IsRoot

end MuseChain
