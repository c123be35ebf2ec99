/-
  File:      MuseChain/Safety/Numbers.lean
  Subject:   The fixed-width arithmetic of the scores and of the rewards.

  Section 1: the digit loop of `detail::isqrt`. It keeps twice the root of the digits it has read
  in 32 bits, which is enough for every round but the last one of a number from 2^62 on:
  `isqrt_isRoot`, `isqrt_lt`.
  Section 2: the rates of inflation. A rate whose product fits in 64 bits and makes no more than a
  whole is computed exactly by `calc_percent_reward`: `Rate.reward_ok`, `Rate.rounded_le`. The six
  rates of the rewards are such: `inflationRates_sound`.
-/
import MuseChain.Chain.Rewards
import MuseChain.Lib.Roots

namespace MuseChain

/-! ## 1. Square roots -/

/-- The root it returns has 31 bits, whatever it is given. -/
theorem isqrtLoop_lt (i a rem root : Nat) (h : root < 2 ^ 32) :
    isqrtLoop i a rem root < 2 ^ 31 := by
  induction i generalizing a rem root with
  | zero =>
    show root / 2 < 2 ^ 31
    omega
  | succ i ih =>
    have hlt : ∀ x, u32 x < 2 ^ 32 := fun x => Nat.mod_lt x (by decide)
    rw [isqrtLoop]
    dsimp only
    split
    · exact ih _ _ _ (hlt _)
    · exact ih _ _ _ (hlt _)

theorem isqrt_lt (a : Nat) : isqrt a < 2 ^ 31 := isqrtLoop_lt 32 a 0 0 (by decide)

/-- The digit that a round reads, and what it leaves of the number. -/
theorem digit_of_shifted {i l : Nat} (hi : i < 32) :
    l * 4 ^ (31 - i) / 2 ^ 62 = l / 4 ^ i ∧
      u64 (l * 4 ^ (31 - i) * 4) = l % 4 ^ i * 4 ^ (32 - i) := by
  have hpow : 4 ^ i * 4 ^ (31 - i) = 2 ^ 62 := by
    rw [← Nat.pow_add, show i + (31 - i) = 31 by omega]
    norm_num
  have hpow' : 4 ^ i * 4 ^ (32 - i) = 2 ^ 64 := by
    rw [← Nat.pow_add, show i + (32 - i) = 32 by omega]
    norm_num
  have hnext : 4 ^ (31 - i) * 4 = 4 ^ (32 - i) := by
    rw [← Nat.pow_succ, show (31 - i).succ = 32 - i by omega]
  constructor
  · rw [← hpow]
    exact Nat.mul_div_mul_right _ _ (Nat.pow_pos (by decide))
  · unfold u64
    rw [mul_assoc, hnext, ← hpow', Nat.mul_mod_mul_right]

/-- **The loop with `i` rounds to go**: it has read the digits `p`, of root `r`, and `l` is what
    remains of the number. The registers hold the doubled root, the rest and the digits to come
    at the top of 64 bits, and none of them wraps while the whole number is below 2^62. -/
theorem isqrtLoop_isRoot {i p l r : Nat} (hi : i ≤ 32) (hp : IsRoot p r) (hl : l < 4 ^ i)
    (hsmall : p * 4 ^ i + l < 2 ^ 62) :
    IsRoot (p * 4 ^ i + l) (isqrtLoop i (l * 4 ^ (32 - i)) (p - r * r) (2 * r)) := by
  induction i generalizing p l r with
  | zero =>
    obtain rfl : l = 0 := Nat.lt_one_iff.mp hl
    have hroot : isqrtLoop 0 (0 * 4 ^ (32 - 0)) (p - r * r) (2 * r) = r :=
      Nat.mul_div_cancel_left r (by decide)
    rw [hroot, pow_zero, mul_one, add_zero]
    exact hp
  | succ i ih =>
    have hpos : 0 < 4 ^ i := Nat.pow_pos (by decide)
    obtain ⟨hdigit, hleft⟩ := digit_of_shifted (l := l) hi
    have hd : l / 4 ^ i < 4 := Nat.div_lt_of_lt_mul (by rw [← Nat.pow_succ]; exact hl)
    have hl' : l % 4 ^ i < 4 ^ i := Nat.mod_lt _ hpos
    generalize hdef : l / 4 ^ i = d at hd hdigit
    have hsplit : p * 4 ^ (i + 1) + l = (4 * p + d) * 4 ^ i + l % 4 ^ i := by
      have hl := Nat.div_add_mod l (4 ^ i)
      rw [hdef] at hl
      calc p * 4 ^ (i + 1) + l = p * 4 ^ (i + 1) + (4 ^ i * d + l % 4 ^ i) := by rw [hl]
        _ = (4 * p + d) * 4 ^ i + l % 4 ^ i := by ring
    -- the digits read so far are below 2^60, their root below 2^30
    have hp60 : p < 2 ^ 30 * 2 ^ 30 := by
      have hle : p * 4 ≤ p * 4 ^ (i + 1) := Nat.mul_le_mul_left p (by rw [pow_succ]; omega)
      omega
    have hr30 : r < 2 ^ 30 := hp.lt_iff.mpr hp60
    have hrest := hp.rest_le
    have hroot : u32 (2 * r * 2) = 2 * (2 * r) := by
      rw [u32_of_lt (by omega), Nat.mul_comm]
    have hrem : u64 (u64 ((p - r * r) * 4) + d) = 4 * (p - r * r) + d := by
      rw [u64, u64, Nat.mod_eq_of_lt (a := (p - r * r) * 4) (by omega),
        Nat.mod_eq_of_lt (by omega), Nat.mul_comm]
    rw [hsplit] at hsmall ⊢
    rw [show 32 - (i + 1) = 31 - i by omega, isqrtLoop]
    dsimp only
    rw [hdigit, hleft, hroot, hrem]
    split
    case isTrue hlt =>
      have hhigh : IsRoot (4 * p + d) (2 * r + 1) := hp.high hd (by omega)
      have hstep := ih (by omega) hhigh hl' hsmall
      have hroot1 : u32 (2 * (2 * r) + 1) = 2 * (2 * r) + 1 := u32_of_lt (by omega)
      have hroot2 : u32 (2 * (2 * r) + 1 + 1) = 2 * (2 * r + 1) := u32_of_lt (by omega)
      have hsub : u64 (4 * (p - r * r) + d + (2 ^ 64 - (2 * (2 * r) + 1))) =
          4 * p + d - (2 * r + 1) * (2 * r + 1) := by
        have hsq : (2 * r + 1) * (2 * r + 1) = 4 * (r * r) + 4 * r + 1 := by ring
        have hle := hp.1
        unfold u64
        omega
      rw [hroot1, hroot2, hsub]
      exact hstep
    case isFalse hge =>
      have hlow : IsRoot (4 * p + d) (2 * r) := hp.low (by omega)
      have hstep := ih (by omega) hlow hl' hsmall
      rw [hp.rest_four] at hstep
      exact hstep

theorem isqrt_isRoot {a : Nat} (h : a < 2 ^ 62) : IsRoot a (isqrt a) := by
  have hloop := isqrtLoop_isRoot (i := 32) (l := a) le_rfl IsRoot.zero (by omega) (by omega)
  simpa [isqrt] using hloop

/-- **Integer square root.** What `isqrt` returns is the one root of its argument if and only if
    the argument is below 2^62. -/
theorem isqrt_root_iff (a : Nat) :
    (∀ r, r * r ≤ a ∧ a < (r + 1) * (r + 1) ↔ r = isqrt a) ↔ a < 2 ^ 62 := by
  constructor
  · intro hroot
    have hr : IsRoot a (isqrt a) := (hroot _).mpr rfl
    exact hr.lt_iff.mp (isqrt_lt a)
  · intro hsmall r
    have hr := isqrt_isRoot hsmall
    constructor
    · exact fun ht => hr.unique ht
    · rintro rfl
      exact hr

/-- From 2^62 on the last shift loses the top bit: the root of 2^62 comes out as 0. -/
theorem isqrt_overflows :
    isqrt (2 ^ 62) = 0 ∧
      ¬ (isqrt (2 ^ 62) * isqrt (2 ^ 62) ≤ 2 ^ 62 ∧
        2 ^ 62 < (isqrt (2 ^ 62) + 1) * (isqrt (2 ^ 62) + 1)) := by
  decide +kernel

/-! ## 2. Inflation -/

/-- The arguments of an instantiation of `calc_percent_reward`. -/
structure Rate where
  percent : Nat
  multiplyConstant : Nat
  shiftConstant : Nat
deriving Repr, DecidableEq

namespace Rate

def reward (c : Rate) (currentSupply : Int) : Except Exn Int :=
  calcPercentReward c.percent c.multiplyConstant c.shiftConstant currentSupply

/-- The part of a supply, rounded to the nearest whole number. -/
def rounded (c : Rate) (s : Int) : Int :=
  (s * (c.percent * c.multiplyConstant) + 2 ^ (c.shiftConstant - 1)) / 2 ^ c.shiftConstant

/-- What the constants must satisfy. The assertions of the source say it of the shift, and of the
    product only through its factors. -/
structure Sound (c : Rate) : Prop where
  shift_pos : 0 < c.shiftConstant
  shift_lt : c.shiftConstant < 128
  product_lt : c.percent * c.multiplyConstant < 2 ^ 64
  product_le : c.percent * c.multiplyConstant ≤ 2 ^ c.shiftConstant

variable {c : Rate} {s t : Int}

theorem half_lt (h : c.Sound) : (2 : Int) ^ (c.shiftConstant - 1) < 2 ^ c.shiftConstant :=
  pow_lt_pow_right₀ (by decide) (Nat.sub_lt h.shift_pos Nat.one_pos)

theorem rounded_nonneg (hs : 0 ≤ s) : 0 ≤ c.rounded s :=
  Int.ediv_nonneg (by positivity) (by positivity)

/-- A part of the supply is not above the supply, the rounding included. -/
theorem rounded_le (h : c.Sound) (hs : 0 ≤ s) : c.rounded s ≤ s := by
  have hwhole : (c.percent * c.multiplyConstant : Int) ≤ 2 ^ c.shiftConstant := by
    exact_mod_cast h.product_le
  have hpart : s * (c.percent * c.multiplyConstant) ≤ s * 2 ^ c.shiftConstant :=
    mul_le_mul_of_nonneg_left hwhole hs
  have hlt : c.rounded s < s + 1 := by
    refine Int.ediv_lt_of_lt_mul (by positivity) ?_
    rw [add_mul, one_mul]
    exact add_lt_add_of_le_of_lt hpart (half_lt h)
  exact Int.lt_add_one_iff.mp hlt

theorem rounded_mono (hst : s ≤ t) : c.rounded s ≤ c.rounded t := by
  refine Int.ediv_le_ediv (by positivity) ?_
  have hprod := mul_le_mul_of_nonneg_right hst
    (show (0 : Int) ≤ c.percent * c.multiplyConstant by positivity)
  exact Int.add_le_add_right hprod _

/-- The numerator fits in 128 bits: a supply of 63 bits times a product of 64, and half. -/
theorem numerator_lt (h : c.Sound) (hmax : s < 2 ^ 63) :
    s * (c.percent * c.multiplyConstant) + 2 ^ (c.shiftConstant - 1) < 2 ^ 128 := by
  have hprod : (c.percent * c.multiplyConstant : Int) < 2 ^ 64 := by exact_mod_cast h.product_lt
  have hpart : s * (c.percent * c.multiplyConstant) ≤ 2 ^ 63 * 2 ^ 64 :=
    mul_le_mul hmax.le hprod.le (by positivity) (by positivity)
  have hhalf : (2 : Int) ^ (c.shiftConstant - 1) ≤ 2 ^ 126 :=
    pow_le_pow_right₀ (by decide) (by have := h.shift_lt; omega)
  omega

/-- **No step of `calc_percent_reward` wraps or throws** at a sound rate. -/
theorem reward_ok (h : c.Sound) (hs : 0 ≤ s) (hmax : s < 2 ^ 63) :
    c.reward s = .ok (c.rounded s) := by
  obtain ⟨m, rfl⟩ := Int.eq_ofNat_of_zero_le hs
  have hprod : u64 (c.percent * c.multiplyConstant) = c.percent * c.multiplyConstant :=
    Nat.mod_eq_of_lt h.product_lt
  have hnum := numerator_lt h hmax
  have hnum' : m * (c.percent * c.multiplyConstant) + 2 ^ (c.shiftConstant - 1) < 2 ^ 128 := by
    exact_mod_cast hnum
  have hsupply : uint128OfInt m = m := by
    unfold uint128OfInt
    omega
  have hmul : u128 (m * (c.percent * c.multiplyConstant)) = m * (c.percent * c.multiplyConstant) :=
    Nat.mod_eq_of_lt ((Nat.le_add_right _ _).trans_lt hnum')
  have hsum : u128 (m * (c.percent * c.multiplyConstant) + 2 ^ (c.shiftConstant - 1)) =
      m * (c.percent * c.multiplyConstant) + 2 ^ (c.shiftConstant - 1) :=
    Nat.mod_eq_of_lt hnum'
  have hcast : c.rounded m =
      ((m * (c.percent * c.multiplyConstant) + 2 ^ (c.shiftConstant - 1)) / 2 ^ c.shiftConstant :
        Nat) := by
    simp [rounded]
  have hle := rounded_le h hs
  rw [hcast] at hle ⊢
  generalize hx : (m * (c.percent * c.multiplyConstant) + 2 ^ (c.shiftConstant - 1)) /
    2 ^ c.shiftConstant = x at hle ⊢
  have hsmall : x < 2 ^ 63 := by omega
  unfold reward calcPercentReward
  dsimp only
  rw [hprod, hsupply, hmul, hsum, hx, toUint64, if_pos (by omega)]
  exact congrArg Except.ok (int64OfNat_of_lt hsmall)

end Rate

def contentRate (hf2 : Bool) : Rate :=
  if hf2 then ⟨contentAprPercent02, aprPercentMultiplyPerDay02, aprPercentShiftPerDay02⟩
  else ⟨contentAprPercent, aprPercentMultiplyPerDay, aprPercentShiftPerDay⟩

def vestingRate (hf2 : Bool) : Rate :=
  if hf2 then ⟨vestingArpPercent02, aprPercentMultiplyPerBlock02, aprPercentShiftPerBlock02⟩
  else ⟨vestingArpPercent, aprPercentMultiplyPerBlock, aprPercentShiftPerBlock⟩

def producerRate (hf2 : Bool) : Rate :=
  if hf2 then ⟨producerAprPercent02, aprPercentMultiplyPerBlock02, aprPercentShiftPerBlock02⟩
  else ⟨producerAprPercent, aprPercentMultiplyPerBlock, aprPercentShiftPerBlock⟩

/-- The instantiations of `calc_percent_reward` before and after hardfork 2. -/
def inflationRates (hf2 : Bool) : List Rate := [contentRate hf2, vestingRate hf2, producerRate hf2]

theorem inflationRates_sound {hf2 : Bool} {c : Rate} (hc : c ∈ inflationRates hf2) : c.Sound := by
  have hall : ∀ b, ∀ c ∈ inflationRates b, 0 < c.shiftConstant ∧ c.shiftConstant < 128 ∧
      c.percent * c.multiplyConstant < 2 ^ 64 ∧
      c.percent * c.multiplyConstant ≤ 2 ^ c.shiftConstant := by decide +kernel
  obtain ⟨hpos, hlt, hprod, hwhole⟩ := hall hf2 c hc
  exact ⟨hpos, hlt, hprod, hwhole⟩

variable {n : Nat}

theorem getContentReward_rate : getContentReward = (do
    let props ← getDynamicGlobalProperties
    let hf2 ← hasHardfork hardfork02
    let amount ← Action.lift ((contentRate hf2).reward props.virtualSupply.amount)
    Action.lift ((Asset.muse amount).max (Asset.muse miningReward)) : Act n Asset) := by
  unfold getContentReward
  congr 1; funext props; congr 1; funext hf2
  cases hf2 <;> rfl

theorem getVestingReward_rate : getVestingReward = (do
    let props ← getDynamicGlobalProperties
    let hf2 ← hasHardfork hardfork02
    let amount ← Action.lift ((vestingRate hf2).reward props.virtualSupply.amount)
    pure (Asset.muse amount) : Act n Asset) := by
  unfold getVestingReward
  congr 1; funext props; congr 1; funext hf2
  cases hf2 <;> rfl

theorem getProducerReward_rate : getProducerReward = (do
    let props ← getDynamicGlobalProperties
    let hf2 ← hasHardfork hardfork02
    let amount ← Action.lift ((producerRate hf2).reward props.virtualSupply.amount)
    let pay ← Action.lift ((Asset.muse amount).max (Asset.muse miningReward))
    let witness ← getAccountId props.currentWitness
    let a ← getAccount witness
    if startMinerVotingBlock ≤ props.headBlockNumber ∨ a.vestingShares.amount = 0 then do
      let _ ← createVesting witness pay
      pure pay
    else do
      Action.modifyWith (S := chainSchema) Kind.account witness
        (fun a : Account => a.balance.add pay)
        fun (a : Account) x => { a with balance := x }
      pure pay : Act n Asset) := by
  unfold getProducerReward
  congr 1; funext props; congr 1; funext hf2
  cases hf2 <;> rfl

/-- **Inflation arithmetic.** At each rate of the rewards the result is the exact part of the
    supply, rounded to the nearest, with every intermediate number in its width; it is not
    negative, not above the supply, and grows with it. -/
theorem calc_percent_reward_spec (hf2 : Bool) (c : Rate) (hc : c ∈ inflationRates hf2) (s : Int)
    (hs : 0 ≤ s) (hmax : s < 2 ^ 63) :
    c.percent * c.multiplyConstant < 2 ^ 64 ∧
      s * (c.percent * c.multiplyConstant) + 2 ^ (c.shiftConstant - 1) < 2 ^ 128 ∧
      ∃ x : Int, calcPercentReward c.percent c.multiplyConstant c.shiftConstant s = .ok x ∧
        x = (s * c.percent * c.multiplyConstant + 2 ^ (c.shiftConstant - 1)) /
          2 ^ c.shiftConstant ∧
        0 ≤ x ∧ x < 2 ^ 63 ∧ x ≤ s ∧
        ∀ t y : Int, s ≤ t → t < 2 ^ 63 →
          calcPercentReward c.percent c.multiplyConstant c.shiftConstant t = .ok y → x ≤ y := by
  have hsound := inflationRates_sound hc
  have hle := Rate.rounded_le hsound hs
  refine ⟨hsound.product_lt, Rate.numerator_lt hsound hmax, c.rounded s,
    Rate.reward_ok hsound hs hmax, ?_, Rate.rounded_nonneg hs, hle.trans_lt hmax, hle, ?_⟩
  · rw [mul_assoc]
    rfl
  · intro t y hst ht hy
    have hok := Rate.reward_ok hsound (hs.trans hst) ht
    obtain rfl := Except.ok.inj (hok.symm.trans hy)
    exact Rate.rounded_mono hst

theorem calc_percent_reward_at_million :
    (contentRate true ∈ inflationRates true ∧ (0 : Int) ≤ 1000000000000) ∧
      ∃ x : Int, calcPercentReward (contentRate true).percent (contentRate true).multiplyConstant
        (contentRate true).shiftConstant 1000000000000 = .ok x ∧ 0 ≤ x ∧ x ≤ 1000000000000 := by
  have hmem : contentRate true ∈ inflationRates true := List.mem_cons_self
  obtain ⟨_, _, x, hok, _, hpos, _, hle, _⟩ :=
    calc_percent_reward_spec true (contentRate true) hmem 1000000000000 (by decide) (by decide)
  exact ⟨⟨hmem, by decide⟩, x, hok, hpos, hle⟩

end MuseChain
