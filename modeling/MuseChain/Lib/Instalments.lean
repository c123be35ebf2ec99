/-
  File:      MuseChain/Lib/Instalments.lean
  Subject:   An amount that is paid in equal parts, and in a last one that is the remainder.

  `instalments v r`: the parts of `v`, of `r` each. They are positive, their sum is `v`, and there are
  as many as `v / r` rounded up. A payer who pays `r` as long as as much is left, and `v % r` when
  less is left, pays them in this order: `replicate_prefix`, `instalments_of_even`,
  `instalments_of_rest`.
-/
import Mathlib.Algebra.BigOperators.Group.List.Basic
import Mathlib.Data.Int.ModEq
import Mathlib.Tactic.Ring

namespace MuseChain

def instalments (v r : Int) : List Int :=
  List.replicate (v / r).toNat r ++ if v % r = 0 then [] else [v % r]

section

variable {v r : Int} {k : Nat}

theorem instalments_pos (hr : 0 < r) {x : Int} (hx : x ∈ instalments v r) : 0 < x := by
  unfold instalments at hx
  rcases List.mem_append.mp hx with hx | hx
  · rw [List.eq_of_mem_replicate hx]
    exact hr
  · split at hx
    · cases hx
    · rename_i hne
      rw [List.mem_singleton.mp hx]
      exact lt_of_le_of_ne (Int.emod_nonneg v (ne_of_gt hr)) (Ne.symm hne)

theorem instalments_sum (hr : 0 < r) (hv : 0 ≤ v) : (instalments v r).sum = v := by
  have hquot : ((v / r).toNat : Int) = v / r := Int.toNat_of_nonneg (Int.ediv_nonneg hv hr.le)
  have hsplit : v / r * r + v % r = v := by
    rw [mul_comm]
    exact Int.mul_ediv_add_emod v r
  unfold instalments
  rw [List.sum_append, List.sum_replicate, nsmul_eq_mul, hquot]
  split
  · rename_i hzero
    rw [List.sum_nil]
    omega
  · rw [List.sum_singleton]
    exact hsplit

theorem instalments_length (hr : 0 < r) (hv : 0 ≤ v) :
    ((instalments v r).length : Int) = (v + r - 1) / r := by
  have hquot : ((v / r).toNat : Int) = v / r := Int.toNat_of_nonneg (Int.ediv_nonneg hv hr.le)
  have hrest := Int.emod_nonneg v (ne_of_gt hr)
  have hlt := Int.emod_lt_of_pos v hr
  have hsplit : v + r - 1 = (v % r + r - 1) + v / r * r := by
    have := Int.mul_ediv_add_emod v r
    rw [mul_comm] at this
    omega
  rw [hsplit, Int.add_mul_ediv_right _ _ (ne_of_gt hr)]
  unfold instalments
  rw [List.length_append, List.length_replicate]
  push_cast
  rw [hquot]
  split
  · rename_i hzero
    have hnone : (v % r + r - 1) / r = 0 := Int.ediv_eq_zero_of_lt (by omega) (by omega)
    rw [hnone]
    simp
  · rename_i hne
    have hone : (v % r + r - 1) / r = 1 := by
      rw [show v % r + r - 1 = (v % r - 1) + 1 * r by ring,
        Int.add_mul_ediv_right _ _ (ne_of_gt hr), Int.ediv_eq_zero_of_lt (by omega) (by omega)]
      rfl
    rw [hone]
    simp [add_comm]

/-- While a whole part is left, or nothing, as many parts were paid as the quotient allows. -/
theorem replicate_prefix (hr : 0 < r) (hk : k * r ≤ v) :
    List.replicate k r <+: instalments v r := by
  have hle : (k : Int) ≤ v / r := (Int.le_ediv_iff_mul_le hr).mpr hk
  obtain ⟨j, hj⟩ := Nat.exists_eq_add_of_le (show k ≤ (v / r).toNat by omega)
  unfold instalments
  rw [hj, List.replicate_add, List.append_assoc]
  exact List.prefix_append ..

/-- All is paid in whole parts. -/
theorem instalments_of_even (hr : 0 < r) (hk : k * r = v) :
    List.replicate k r = instalments v r := by
  subst hk
  unfold instalments
  rw [Int.mul_ediv_cancel _ (ne_of_gt hr), Int.mul_emod_left, if_pos rfl, List.append_nil,
    Int.toNat_natCast]

/-- Less than a part is left: it is the remainder of the whole amount. -/
theorem rest_eq_emod (hk : k * r < v) (hlt : v - k * r < r) : v % r = v - k * r := by
  have hshift : v % r = (v - k * r) % r := (Int.sub_mul_emod_self_right ..).symm
  rw [hshift]
  exact Int.emod_eq_of_lt (by omega) hlt

theorem instalments_of_rest (hr : 0 < r) (hk : k * r < v) (hlt : v - k * r < r) :
    List.replicate k r ++ [v % r] = instalments v r := by
  have hrest := rest_eq_emod hk hlt
  have hquot : v / r = k := by
    rw [show v = (v - k * r) + k * r by ring, Int.add_mul_ediv_right _ _ (ne_of_gt hr),
      Int.ediv_eq_zero_of_lt (by omega) hlt, zero_add]
  unfold instalments
  rw [hquot, if_neg (by omega), Int.toNat_natCast]

end

end MuseChain
