/-
  File:      MuseChain/Lib/Pool.lean
  Subject:   A fund that is divided into shares.

  `issue m` puts `m` into the fund for new shares, `redeem x` takes `x` shares out of it; both round
  down. `Keeps p q`: a share of `q` is worth no less than one of `p`, without a division.
-/
import Mathlib.Algebra.Order.Field.Rat
import Mathlib.Tactic.FieldSimp
import Mathlib.Tactic.Linarith
import Mathlib.Tactic.Ring

namespace MuseChain

/-- A fund and the number of its shares. -/
structure Pool where
  fund : Int
  shares : Int

namespace Pool

variable {p q r : Pool}

/-- There is something for every share. -/
structure Sound (p : Pool) : Prop where
  fund : 0 ≤ p.fund
  shares : 0 ≤ p.shares
  backed : 0 < p.shares → 0 < p.fund

/-- A share is worth no less than before. -/
def Keeps (p q : Pool) : Prop := p.fund * q.shares ≤ q.fund * p.shares

theorem Keeps.refl (p : Pool) : p.Keeps p := le_refl _

theorem Keeps.trans (h : p.Keeps q) (h' : q.Keeps r) (hp : 0 ≤ p.shares) (hq : 0 < q.shares)
    (hr : 0 ≤ r.shares) : p.Keeps r := by
  refine le_of_mul_le_mul_right ?_ hq
  calc p.fund * r.shares * q.shares = p.fund * q.shares * r.shares := by ring
    _ ≤ q.fund * p.shares * r.shares := mul_le_mul_of_nonneg_right h hr
    _ = q.fund * r.shares * p.shares := by ring
    _ ≤ r.fund * q.shares * p.shares := mul_le_mul_of_nonneg_right h' hp
    _ = r.fund * p.shares * q.shares := by ring

/-- `Keeps` compares what a share is worth. -/
theorem keeps_iff_ratio (hp : 0 < p.shares) (hq : 0 < q.shares) :
    p.Keeps q ↔ (p.fund : ℚ) / p.shares ≤ (q.fund : ℚ) / q.shares := by
  have hp' : (0 : ℚ) < p.shares := by exact_mod_cast hp
  have hq' : (0 : ℚ) < q.shares := by exact_mod_cast hq
  rw [div_le_div_iff₀ hp' hq']
  unfold Keeps
  exact_mod_cast Iff.rfl

/-! ## Putting in -/

def issue (p : Pool) (m : Int) : Pool := ⟨p.fund + m, p.shares + m * p.shares / p.fund⟩

/-- New shares are rounded down, so that none is worth less. -/
theorem keeps_issue (hf : 0 < p.fund) (m : Int) : p.Keeps (p.issue m) := by
  have hround : m * p.shares / p.fund * p.fund ≤ m * p.shares :=
    Int.ediv_mul_le _ (ne_of_gt hf)
  unfold Keeps issue
  calc p.fund * (p.shares + m * p.shares / p.fund)
      = p.fund * p.shares + m * p.shares / p.fund * p.fund := by ring
    _ ≤ p.fund * p.shares + m * p.shares := by linarith
    _ = (p.fund + m) * p.shares := by ring

/-! ## Taking out -/

def redeem (p : Pool) (x : Int) : Pool := ⟨p.fund - x * p.fund / p.shares, p.shares - x⟩

/-- What some of the shares are worth is not more than the fund. -/
theorem redeem_le (hf : 0 ≤ p.fund) (hs : 0 < p.shares) {x : Int} (hx : x ≤ p.shares) :
    x * p.fund / p.shares ≤ p.fund := by
  refine Int.ediv_le_of_le_mul hs ?_
  calc x * p.fund ≤ p.shares * p.fund := mul_le_mul_of_nonneg_right hx hf
    _ = p.fund * p.shares := by ring

/-- What is left after some shares are taken: no more than before, sound, and each share worth no
less. -/
structure Left (p q : Pool) : Prop where
  sound : q.Sound
  fund : q.fund ≤ p.fund
  shares : q.shares ≤ p.shares
  keeps : p.Keeps q

theorem Left.refl (h : p.Sound) : p.Left p := ⟨h, le_rfl, le_rfl, Keeps.refl p⟩

theorem Left.trans (h : p.Left q) (h' : q.Left r) : p.Left r := by
  have hq := h.sound.shares
  have hr := h'.sound.shares
  have hle := h'.shares
  have hp := le_trans hq h.shares
  refine ⟨h'.sound, le_trans h'.fund h.fund, le_trans hle h.shares, ?_⟩
  rcases hq.lt_or_eq with hpos | hzero
  · exact h.keeps.trans h'.keeps hp hpos hr
  · -- no share is left
    have hnone : r.shares = 0 := by omega
    unfold Keeps
    rw [hnone, mul_zero]
    exact mul_nonneg h'.sound.fund hp

theorem left_redeem (h : p.Sound) {x : Int} (h0 : 0 ≤ x) (hx : x ≤ p.shares) :
    p.Left (p.redeem x) := by
  rcases h.shares.lt_or_eq with hpos | hzero
  · have hf := h.backed hpos
    have hpaid := redeem_le h.fund hpos hx
    have hpaid0 : 0 ≤ x * p.fund / p.shares := Int.ediv_nonneg (mul_nonneg h0 hf.le) hpos.le
    have hround : x * p.fund / p.shares * p.shares ≤ x * p.fund :=
      Int.ediv_mul_le _ (ne_of_gt hpos)
    have hkeeps : p.Keeps (p.redeem x) := by
      unfold Keeps redeem
      calc p.fund * (p.shares - x) = p.fund * p.shares - x * p.fund := by ring
        _ ≤ p.fund * p.shares - x * p.fund / p.shares * p.shares := by linarith
        _ = (p.fund - x * p.fund / p.shares) * p.shares := by ring
    refine ⟨⟨?_, ?_, fun hrest => ?_⟩, ?_, ?_, hkeeps⟩
    · show 0 ≤ p.fund - x * p.fund / p.shares
      omega
    · show 0 ≤ p.shares - x
      omega
    · have hmul : 0 < (p.redeem x).fund * p.shares :=
        lt_of_lt_of_le (mul_pos hf hrest) hkeeps
      exact (pos_iff_pos_of_mul_pos hmul).mpr hpos
    · show p.fund - x * p.fund / p.shares ≤ p.fund
      omega
    · show p.shares - x ≤ p.shares
      omega
  · have hx0 : x = 0 := by omega
    have hsame : p.redeem x = p := by
      unfold redeem
      rw [hx0, zero_mul, Int.zero_ediv, sub_zero, sub_zero]
    rw [hsame]
    exact Left.refl h

end Pool

end MuseChain
