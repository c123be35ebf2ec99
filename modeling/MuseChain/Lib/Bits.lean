/-
  File:      MuseChain/Lib/Bits.lean
  Subject:   The number of one bits of a register, and what a shift does to it.

  * `ones w x`: the one bits of `x` among the lowest `w`.
  * **`ones_shift`**: a bit is shifted in at the low end; the count gains it and loses the bit that
    falls off at the high end.
-/
import Mathlib.Data.Nat.Bitwise
import Mathlib.Data.List.Range

namespace MuseChain

namespace Bits

variable {w x : Nat}

/-- The number of one bits among the lowest `w`. -/
def ones (w x : Nat) : Nat := (List.range w).countP x.testBit

theorem ones_le (w x : Nat) : ones w x ≤ w := by
  have hle := (List.countP_le_length (p := x.testBit) (l := List.range w))
  rwa [List.length_range] at hle

/-- The highest bit apart from the others. -/
theorem ones_succ (w x : Nat) : ones (w + 1) x = ones w x + (x.testBit w).toNat := by
  unfold ones
  rw [List.range_succ, List.countP_append, List.countP_singleton]
  cases x.testBit w <;> rfl

/-- The lowest bit apart from the others. -/
theorem ones_succ_low (w x : Nat) : ones (w + 1) x = (x.testBit 0).toNat + ones w (x / 2) := by
  induction w with
  | zero =>
    rw [ones_succ]
    simp [ones]
  | succ w ih =>
    rw [ones_succ (w + 1) x, ih, ones_succ w (x / 2), Nat.testBit_div_two, Nat.add_assoc]

/-- Only the lowest bits are looked at. -/
theorem ones_mod (w x : Nat) : ones w (x % 2 ^ w) = ones w x := by
  unfold ones
  refine List.countP_congr fun i hi => ?_
  rw [Nat.testBit_mod_two_pow, decide_eq_true (List.mem_range.mp hi), Bool.true_and]

theorem testBit_high (hx : x < 2 ^ (w + 1)) : x.testBit w = decide (2 ^ w ≤ x) := by
  by_cases h : 2 ^ w ≤ x
  · rw [decide_eq_true h]
    exact Nat.testBit_of_two_pow_le_and_two_pow_add_one_gt h hx
  · rw [decide_eq_false h]
    exact Nat.testBit_lt_two_pow (not_le.mp h)

/-- **A shift by one bit.** -/
theorem ones_shift (hx : x < 2 ^ (w + 1)) (b : Bool) :
    ones (w + 1) ((x * 2 + b.toNat) % 2 ^ (w + 1)) + (if 2 ^ w ≤ x then 1 else 0) =
      ones (w + 1) x + b.toNat := by
  have hhalf : (x * 2 + b.toNat) / 2 = x := by
    have hbit := Bool.toNat_le b
    omega
  have hlow : (x * 2 + b.toNat).testBit 0 = b := by
    rw [Nat.testBit_zero]
    cases b <;> simp
  have hhigh : (if 2 ^ w ≤ x then 1 else 0) = (x.testBit w).toNat := by
    rw [testBit_high hx]
    by_cases h : 2 ^ w ≤ x <;> simp [h]
  rw [ones_mod, ones_succ_low, hhalf, hlow, hhigh, ones_succ w x]
  omega

theorem ones_full (w : Nat) : ones w (2 ^ w - 1) = w := by
  unfold ones
  have hall : ∀ i ∈ List.range w, (2 ^ w - 1).testBit i = true := fun i hi => by
    rw [Nat.testBit_two_pow_sub_one]
    exact decide_eq_true (List.mem_range.mp hi)
  rw [List.countP_eq_length.mpr hall, List.length_range]

end Bits

end MuseChain
