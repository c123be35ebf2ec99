/-
  File:      MuseChain/Lib/Decimals.lean
  Subject:   Words of decimal digits and the numbers they stand for.

  `decimal w` is the number, `Nat.toDigits 10` the shortest word. A word put behind another one
  shifts it (`decimal_append`), zeros at the end scale it (`decimal_pad`). A number above zero
  starts with a digit that is not 0 (`toDigits_head`), so `10 ^ k + f` is a 1 and then `f` at `k`
  places (`toDigits_pow_add`). Below `10 ^ k` what stands behind the first digit, moved to the
  front of the `k` places, is never what `m` lacks to `10 ^ k` (`tail_ne_lack`).
-/
import Mathlib.Data.Nat.GCD.Basic
import Mathlib.Tactic.Linarith
import Mathlib.Tactic.Ring

namespace MuseChain

/-- The number a word of digits stands for. -/
def decimal (w : List Char) : Nat := Nat.ofDigitChars 10 w 0

def AllDigits (w : List Char) : Prop := ∀ c ∈ w, c.isDigit = true

instance (w : List Char) : Decidable (AllDigits w) :=
  List.decidableBAll (fun c : Char => c.isDigit = true) w

variable {v w : List Char} {c : Char} {n k f m : Nat}

theorem AllDigits.append (hv : AllDigits v) (hw : AllDigits w) : AllDigits (v ++ w) := by
  intro c hc
  rcases List.mem_append.mp hc with hc | hc
  · exact hv c hc
  · exact hw c hc

theorem AllDigits.take (h : AllDigits w) (n : Nat) : AllDigits (w.take n) :=
  fun c hc => h c (List.mem_of_mem_take hc)

theorem AllDigits.tail (h : AllDigits (c :: w)) : AllDigits w :=
  fun d hd => h d (List.mem_cons_of_mem c hd)

theorem allDigits_zeros (n : Nat) : AllDigits (List.replicate n '0') := by
  intro c hc
  rw [List.eq_of_mem_replicate hc]
  rfl

theorem allDigits_toDigits (n : Nat) : AllDigits (Nat.toDigits 10 n) :=
  fun _ hc => Nat.isDigit_of_mem_toDigits (by decide) (by decide) hc

/-- A character that is no digit does not stand in a word of digits. -/
theorem AllDigits.not_mem (h : AllDigits w) (hc : c.isDigit = false) : c ∉ w := by
  intro hmem
  rw [h c hmem] at hc
  cases hc

@[simp] theorem decimal_nil : decimal [] = 0 := rfl

theorem decimal_cons (c : Char) (w : List Char) :
    decimal (c :: w) = (c.toNat - 48) * 10 ^ w.length + decimal w := by
  unfold decimal
  rw [Nat.ofDigitChars_cons, Nat.ofDigitChars_eq_ofDigitChars_zero, Nat.mul_comm]
  simp

theorem decimal_append (v w : List Char) :
    decimal (v ++ w) = decimal v * 10 ^ w.length + decimal w := by
  unfold decimal
  rw [Nat.ofDigitChars_append, Nat.ofDigitChars_eq_ofDigitChars_zero, Nat.mul_comm]

theorem decimal_pad (w : List Char) (n : Nat) :
    decimal (w ++ List.replicate n '0') = decimal w * 10 ^ n := by
  unfold decimal
  rw [Nat.ofDigitChars_append, Nat.ofDigitChars_replicate_zero, Nat.mul_comm]

@[simp] theorem decimal_toDigits (n : Nat) : decimal (Nat.toDigits 10 n) = n :=
  Nat.ofDigitChars_ten_toDigits

theorem digit_lt (h : c.isDigit = true) : c.toNat - 48 < 10 := by
  obtain ⟨_, hle⟩ : 48 ≤ c.toNat ∧ c.toNat ≤ 57 := by
    simpa [Char.isDigit, UInt32.le_iff_toNat_le] using h
  omega

theorem decimal_lt (h : AllDigits w) : decimal w < 10 ^ w.length := by
  induction w with
  | nil => exact Nat.one_pos
  | cons c w ih =>
    have hc : c.toNat - 48 < 10 := digit_lt (h c List.mem_cons_self)
    have hw : decimal w < 10 ^ w.length := ih h.tail
    rw [decimal_cons, List.length_cons, Nat.pow_succ]
    calc (c.toNat - 48) * 10 ^ w.length + decimal w
        < (c.toNat - 48) * 10 ^ w.length + 10 ^ w.length := by omega
      _ = (c.toNat - 48 + 1) * 10 ^ w.length := by ring
      _ ≤ 10 * 10 ^ w.length := Nat.mul_le_mul_right _ hc
      _ = 10 ^ w.length * 10 := Nat.mul_comm _ _

theorem length_toDigits_le (hk : 0 < k) : (Nat.toDigits 10 n).length ≤ k ↔ n < 10 ^ k :=
  Nat.length_toDigits_le_iff (by decide) hk

/-- A number above zero does not start with the digit 0. -/
theorem toDigits_head (hn : 0 < n) :
    ∃ a t, Nat.toDigits 10 n = a :: t ∧ 0 < a.toNat - 48 ∧ a.toNat - 48 < 10 := by
  induction n using Nat.strongRecOn with
  | ind n ih =>
    rcases Nat.lt_or_ge n 10 with hlt | hge
    · refine ⟨n.digitChar, [], Nat.toDigits_of_lt_base hlt, ?_⟩
      rw [Nat.toNat_digitChar_sub_48_of_lt_ten hlt]
      exact ⟨hn, hlt⟩
    · obtain ⟨a, t, heq, ha⟩ := ih (n / 10) (by omega) (by omega)
      refine ⟨a, t ++ [(n % 10).digitChar], ?_, ha⟩
      rw [Nat.toDigits_of_base_le (by decide) hge, heq]
      rfl

/-- The digits behind a 1 that was put in front of `k` places. -/
theorem toDigits_pow_add (hf : f < 10 ^ k) :
    ∃ a t, Nat.toDigits 10 (10 ^ k + f) = a :: t ∧ t.length = k ∧ AllDigits t ∧ decimal t = f := by
  have hpos : 0 < 10 ^ k := Nat.pow_pos (by decide)
  obtain ⟨a, t, heq, ha, _⟩ := toDigits_head (n := 10 ^ k + f) (by omega)
  have hdigits : AllDigits t := (heq ▸ allDigits_toDigits (10 ^ k + f)).tail
  have hlen : t.length = k := by
    have hle : (Nat.toDigits 10 (10 ^ k + f)).length ≤ k + 1 := by
      rw [length_toDigits_le (Nat.succ_pos k), Nat.pow_succ]
      omega
    have hgt : ¬ (Nat.toDigits 10 (10 ^ k + f)).length ≤ k := by
      rcases Nat.eq_zero_or_pos k with rfl | hk
      · exact Nat.not_le.mpr Nat.length_toDigits_pos
      · rw [length_toDigits_le hk]
        omega
    rw [heq, List.length_cons] at hle hgt
    omega
  have hlt : decimal t < 10 ^ k := hlen ▸ decimal_lt hdigits
  have hval : (a.toNat - 48) * 10 ^ k + decimal t = 10 ^ k + f := by
    rw [← hlen, ← decimal_cons, ← heq, decimal_toDigits, hlen]
  have hone : a.toNat - 48 = 1 := by
    by_contra hne
    have htwo : 2 * 10 ^ k ≤ (a.toNat - 48) * 10 ^ k := Nat.mul_le_mul_right _ (by omega)
    omega
  rw [hone, Nat.one_mul] at hval
  exact ⟨a, t, heq, hlen, hdigits, by omega⟩

/-- What stands behind the first digit of `m`, as the first of `k` places, is not what `m` lacks
    to `10 ^ k`: the two would make a multiple of `10 ^ k` out of a number prime to 10. -/
theorem tail_ne_lack (hm : 0 < m) (hlt : m < 10 ^ k) {a : Char} {t : List Char}
    (heq : Nat.toDigits 10 m = a :: t) : decimal t * 10 ^ (k - t.length) + m ≠ 10 ^ k := by
  intro h
  have hk : 0 < k := by
    rcases Nat.eq_zero_or_pos k with rfl | hk
    · simp at hlt
      omega
    · exact hk
  have hlen : t.length + 1 ≤ k := by
    rw [← List.length_cons (a := a), ← heq]
    exact (length_toDigits_le hk).mpr hlt
  obtain ⟨e, he⟩ : ∃ e, k = t.length + (e + 1) := ⟨k - t.length - 1, by omega⟩
  have hval : m = (a.toNat - 48) * 10 ^ t.length + decimal t := by
    rw [← decimal_cons, ← heq, decimal_toDigits]
  rw [he, Nat.add_sub_cancel_left] at h
  have hmul : m * (10 ^ (e + 1) + 1) = 10 ^ k * (a.toNat - 48 + 1) := by
    rw [pow_add 10 t.length] at h
    rw [he, pow_add 10 t.length]
    calc m * (10 ^ (e + 1) + 1)
        = ((a.toNat - 48) * 10 ^ t.length + decimal t) * 10 ^ (e + 1) + m := by
          rw [Nat.mul_add, Nat.mul_one, ← hval]
      _ = (a.toNat - 48) * (10 ^ t.length * 10 ^ (e + 1)) + (decimal t * 10 ^ (e + 1) + m) := by
          ring
      _ = 10 ^ t.length * 10 ^ (e + 1) * (a.toNat - 48 + 1) := by
          rw [h]
          ring
  have hcop : Nat.Coprime (10 ^ k) (10 ^ (e + 1) + 1) := by
    apply Nat.Coprime.pow_left
    rw [Nat.pow_succ, Nat.mul_comm]
    exact (Nat.coprime_mul_left_add_right 10 1 (10 ^ e)).mpr (Nat.coprime_one_right 10)
  have hdvd : 10 ^ k ∣ m := hcop.dvd_of_dvd_mul_right ⟨_, hmul⟩
  exact absurd (Nat.le_of_dvd hm hdvd) (Nat.not_le.mpr hlt)

end MuseChain
