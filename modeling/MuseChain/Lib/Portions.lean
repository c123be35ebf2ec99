/-
  File:      MuseChain/Lib/Portions.lean
  Subject:   An amount that is shared out in parts of a whole, each rounded down.

  `portions b x l`: the shares of `x` for the parts `l`, of which `b` make a whole. They never make
  more than `x` when the parts make no more than a whole, and when `x` is a multiple of `b`, never
  otherwise: `portions_sum_le`, `portions_sum_of_dvd`, `portions_le_iff`.
-/
import Mathlib.Algebra.BigOperators.Group.List.Basic
import Mathlib.Algebra.Order.BigOperators.Group.List
import Mathlib.Algebra.BigOperators.Ring.List
import Mathlib.Tactic.Ring
import Mathlib.Tactic.Linarith

namespace MuseChain

def portions (b x : Int) (l : List Nat) : List Int := l.map fun p : Nat => x * p / b

section

variable {b x : Int} {l : List Nat}

theorem portions_cons (b x : Int) (p : Nat) (l : List Nat) :
    portions b x (p :: l) = x * p / b :: portions b x l := rfl

theorem portions_nonneg (hb : 0 < b) (hx : 0 ≤ x) : ∀ y ∈ portions b x l, 0 ≤ y := by
  intro y hy
  obtain ⟨p, _, rfl⟩ := List.mem_map.mp hy
  exact Int.ediv_nonneg (mul_nonneg hx (Int.natCast_nonneg p)) hb.le

theorem portions_sum_nonneg (hb : 0 < b) (hx : 0 ≤ x) : 0 ≤ (portions b x l).sum :=
  List.sum_nonneg (portions_nonneg hb hx)

/-- Rounding down never adds to the parts. -/
theorem portions_sum_mul_le (hb : 0 < b) : (portions b x l).sum * b ≤ x * (l.sum : Nat) := by
  induction l with
  | nil => simp [portions]
  | cons p l ih =>
    have hfloor : x * p / b * b ≤ x * p := Int.ediv_mul_le _ (ne_of_gt hb)
    rw [portions_cons, List.sum_cons, List.sum_cons, add_mul, Nat.cast_add, mul_add]
    exact add_le_add hfloor ih

theorem portions_sum_le (hb : 0 < b) (hx : 0 ≤ x) (h : (l.sum : Int) ≤ b) :
    (portions b x l).sum ≤ x := by
  have hparts : x * (l.sum : Nat) ≤ x * b := mul_le_mul_of_nonneg_left h hx
  exact le_of_mul_le_mul_right ((portions_sum_mul_le hb).trans hparts) hb

/-- Nothing is rounded when the whole divides the amount. -/
theorem portions_sum_of_dvd (h : b ∣ x) : (portions b x l).sum = x / b * (l.sum : Nat) := by
  induction l with
  | nil => simp [portions]
  | cons p l ih =>
    have hexact : x * p / b = x / b * p := Int.mul_ediv_assoc' _ h
    rw [portions_cons, List.sum_cons, List.sum_cons, ih, hexact, Nat.cast_add, mul_add]

/-- **The shares make no more than the amount if and only if the parts make no more than a
    whole.** -/
theorem portions_le_iff (hb : 0 < b) (hx : 0 < x) (h : b ∣ x) :
    (portions b x l).sum ≤ x ↔ (l.sum : Int) ≤ b := by
  refine ⟨fun hle => ?_, portions_sum_le hb hx.le⟩
  have hquot : 0 < x / b := Int.ediv_pos_of_pos_of_dvd hx hb.le h
  rw [portions_sum_of_dvd h] at hle
  have hwhole : x / b * (l.sum : Nat) ≤ x / b * b := by
    rw [Int.ediv_mul_cancel h]
    exact hle
  exact le_of_mul_le_mul_left hwhole hquot

end

end MuseChain
