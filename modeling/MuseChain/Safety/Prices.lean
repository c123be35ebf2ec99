/-
  File:      MuseChain/Safety/Prices.lean
  Subject:   What an asset is worth at a price, and the middle one of many price feeds.

  * `Asset.mul` is the exact quotient, rounded down, but where it is between 2^63 and 2^64: the
    check of the result sees the high half of 128 bits only, and the amount comes out negative
    (`product_exact_iff`).
  * `Price.mbdValue`: the MUSE that one MBD is worth under a feed, whichever way it is stated.
  * `Price.place`: where a feed stands among others. The feeds that begin with MUSE come first, from
    the lowest value up; the feeds that begin with MBD follow, from the highest value down.
  * `Chosen x l`: the feed in the middle has the value `x`, by the numbers of feeds that begin with
    MUSE or MBD and are lower or higher.
  * **`median_feed_fair_iff`**: the choice is a median and survives the restatement of any one feed
    just when some value stands in the middle with room to spare (`Central`).
-/
import MuseChain.Lib.Ranks
import MuseChain.Safety.VestingPrice
import Mathlib.Algebra.Order.Field.Rat
import Mathlib.Data.Prod.Lex

namespace MuseChain

/-! ## 1. Products -/

section

variable {a r own other : Asset} {p : Price}

/-- The side of the price that is in the asset `id`, and the one across; the base is asked first. -/
def Price.Sides (p : Price) (id : Nat) (own other : Asset) : Prop :=
  (id = p.base.assetId ∧ own = p.base ∧ other = p.quote) ∨
    (id ≠ p.base.assetId ∧ id = p.quote.assetId ∧ own = p.quote ∧ other = p.base)

theorem Price.Sides.mul (h : p.Sides a.assetId own other) :
    a.mul p = (do
      let x ← Price.scale a.amount other.amount own.amount
      pure ⟨x, other.assetId⟩) := by
  rcases h with ⟨hbase, rfl, rfl⟩ | ⟨hbase, hquote, rfl, rfl⟩
  · exact Asset.mul_base hbase
  · exact Asset.mul_quote hbase hquote

/-- The amount that a product comes to, with its sign lost from 2^63 on. -/
theorem scale_ok_iff {x num den y : Int} (hx : 0 ≤ x) (hx' : x ≤ int64Max) (hn : Ample num)
    (hd : Ample den) :
    Price.scale x num den = .ok y ↔
      x * num / den < 2 ^ 64 ∧ y = int64OfNat (x * num / den).toNat := by
  have e := Price.mul128_ediv hx hx' hn hd
  unfold Price.scale
  rw [if_neg (not_le.mpr hd.1)]
  dsimp only
  rw [← e, Int.toNat_natCast]
  split
  · rename_i hlt
    exact ⟨fun h => ⟨by omega, (Except.ok.inj h).symm⟩, fun h => by rw [h.2]⟩
  · rename_i hlt
    exact ⟨fun h => (nomatch h), fun h => absurd (show _ < 2 ^ 64 by omega) hlt⟩

theorem int64OfNat_of_ge {n : Nat} (h : 2 ^ 63 ≤ n) (h' : n < 2 ^ 64) :
    int64OfNat n = (n : Int) - 2 ^ 64 := by
  unfold int64OfNat
  rw [Nat.mod_eq_of_lt h', if_neg (by omega)]

/-- **A product is the exact quotient but where it takes 64 bits.** -/
theorem product_exact_iff (ha : a.Fits) (hb : Ample p.base.amount) (hq : Ample p.quote.amount)
    (h : p.Sides a.assetId own other) :
    ((0 ≤ a.amount → ∀ r, a.mul p = .ok r →
        r = ⟨a.amount * other.amount / own.amount, other.assetId⟩ ∧ 0 ≤ r.amount) ∧
      (a.amount < 0 → ∀ r, a.mul p ≠ .ok r)) ↔
    ¬(0 ≤ a.amount ∧ 2 ^ 63 ≤ a.amount * other.amount / own.amount ∧
      a.amount * other.amount / own.amount < 2 ^ 64) := by
  have hown : Ample own.amount := by
    rcases h with ⟨_, rfl, _⟩ | ⟨_, _, rfl, _⟩
    · exact hb
    · exact hq
  have hother : Ample other.amount := by
    rcases h with ⟨_, _, rfl⟩ | ⟨_, _, _, rfl⟩
    · exact hq
    · exact hb
  have hmul : ∀ r : Asset, a.mul p = .ok r ↔
      ∃ x, Price.scale a.amount other.amount own.amount = .ok x ∧ r = ⟨x, other.assetId⟩ := by
    intro r
    rw [h.mul, except_bind_ok]
    constructor
    · rintro ⟨x, hx, hr⟩
      exact ⟨x, hx, (Except.ok.inj hr).symm⟩
    · rintro ⟨x, hx, rfl⟩
      exact ⟨x, hx, rfl⟩
  refine ⟨?_, fun hfits => ⟨fun h0 r hr => ?_, fun hneg r hr => ?_⟩⟩
  · rintro ⟨hexact, _⟩ ⟨h0, hlow, hhigh⟩
    have hscale := (scale_ok_iff h0 ha.2 hother hown).mpr ⟨hhigh, rfl⟩
    obtain ⟨_, hpos⟩ := hexact h0 _ ((hmul _).mpr ⟨_, hscale, rfl⟩)
    have hneg := int64OfNat_of_ge (n := (a.amount * other.amount / own.amount).toNat) (by omega)
      (by omega)
    dsimp only at hpos
    omega
  · obtain ⟨x, hx, rfl⟩ := (hmul r).mp hr
    obtain ⟨hlt, rfl⟩ := (scale_ok_iff h0 ha.2 hother hown).mp hx
    have hq0 : 0 ≤ a.amount * other.amount / own.amount :=
      Int.ediv_nonneg (mul_nonneg h0 hother.1.le) hown.1.le
    have hsmall : a.amount * other.amount / own.amount < 2 ^ 63 :=
      not_le.mp fun hlow => hfits ⟨h0, hlow, hlt⟩
    rw [int64OfNat_of_lt (by omega), Int.toNat_of_nonneg hq0]
    exact ⟨rfl, hq0⟩
  · obtain ⟨x, hx, _⟩ := (hmul r).mp hr
    exact Price.scale_neg hneg ha.1 hother hown hx

end

/-- 10 MUSE at 2 VESTS for a MUSE are 20 VESTS. -/
theorem product_exact_iff_ten :
    (Asset.muse 10).mul ⟨Asset.muse 1, Asset.vests 2⟩ = .ok (Asset.vests 20) ∧
      ∀ r, (Asset.muse 10).mul ⟨Asset.muse 1, Asset.vests 2⟩ = .ok r → 0 ≤ r.amount := by
  have hexact := (product_exact_iff (a := Asset.muse 10) (p := ⟨Asset.muse 1, Asset.vests 2⟩)
    ⟨by decide, by decide⟩ ⟨by decide, by decide⟩ ⟨by decide, by decide⟩
    (.inl ⟨rfl, rfl, rfl⟩)).mpr (by decide)
  exact ⟨by decide, fun r hr => (hexact.1 (by decide) r hr).2⟩

/-- The product of the greatest amount of MUSE and 2 VESTS for a MUSE is -2 VESTS. -/
theorem product_negative :
    (Asset.muse int64Max).mul ⟨Asset.muse 1, Asset.vests 2⟩ = .ok (Asset.vests (-2)) ∧
      ¬∀ r, (Asset.muse int64Max).mul ⟨Asset.muse 1, Asset.vests 2⟩ = .ok r →
        r = ⟨int64Max * 2 / 1, vestsSymbol⟩ ∧ 0 ≤ r.amount := by
  have hmul : (Asset.muse int64Max).mul ⟨Asset.muse 1, Asset.vests 2⟩ = .ok (Asset.vests (-2)) := by
    decide
  exact ⟨hmul, fun h => absurd (h _ hmul).2 (by decide)⟩

/-! ## 2. The value of a feed -/

namespace Price

variable {p q : Price} {x : ℚ}

/-- A feed as `feed_publish` takes it: MUSE and MBD, either first, and positive amounts. -/
structure IsFeed (p : Price) : Prop where
  sides : (p.base.assetId = museSymbol ∧ p.quote.assetId = mbdSymbol) ∨
    (p.base.assetId = mbdSymbol ∧ p.quote.assetId = museSymbol)
  base : Ample p.base.amount
  quote : Ample p.quote.amount

theorem isFeed_of_validate [Fc] {publisher : String}
    (h : (Operation.feedPublish publisher p).validate = .ok ()) (hb : p.base.Fits)
    (hq : p.quote.Fits) : p.IsFeed := by
  obtain ⟨_, h1⟩ := check_bind_ok.mp h
  obtain ⟨hsides, h2⟩ := check_bind_ok.mp h1
  obtain ⟨hbase, hquote, _⟩ := validate_ok h2
  exact ⟨hsides, ⟨hbase, hb.2⟩, ⟨hquote, hq.2⟩⟩

/-- The MUSE that one MBD is worth. -/
def mbdValue (p : Price) : ℚ :=
  if p.base.assetId = museSymbol then p.base.amount / p.quote.amount
  else p.quote.amount / p.base.amount

/-- Where a feed stands among others. -/
def place (p : Price) : ℕ ×ₗ ℚ :=
  if p.base.assetId = museSymbol then toLex (0, p.mbdValue) else toLex (1, -p.mbdValue)

theorem place_muse (h : p.base.assetId = museSymbol) : p.place = toLex (0, p.mbdValue) := if_pos h

theorem place_mbd (h : p.base.assetId ≠ museSymbol) : p.place = toLex (1, -p.mbdValue) := if_neg h

theorem IsFeed.invert (h : p.IsFeed) : p.invert.IsFeed :=
  ⟨h.sides.symm.imp And.symm And.symm, h.quote, h.base⟩

theorem IsFeed.mbdValue_invert (h : p.IsFeed) : p.invert.mbdValue = p.mbdValue := by
  have hne : mbdSymbol ≠ museSymbol := by decide
  unfold mbdValue Price.invert
  rcases h.sides with ⟨hb, hq⟩ | ⟨hb, hq⟩
  · rw [if_neg (by rw [hq]; exact hne), if_pos hb]
  · rw [if_pos hq, if_neg (by rw [hb]; exact hne)]

theorem mul128_lt_iff {a b c d : Int} (ha : Ample a) (hb : Ample b) (hc : Ample c) (hd : Ample d) :
    mul128 a b < mul128 c d ↔ (a : ℚ) * b < c * d := by
  rw [mul128_of_nonneg ha.1.le ha.2 hb.1.le hb.2, mul128_of_nonneg hc.1.le hc.2 hd.1.le hd.2]
  have hpos : 0 < c * d := mul_pos hc.1 hd.1
  rw [Int.toNat_lt_toNat hpos]
  exact_mod_cast Iff.rfl

/-- The order of `std::sort` is the order of the places. -/
theorem IsFeed.blt_iff (hp : p.IsFeed) (hq : q.IsFeed) : p.blt q = true ↔ p.place < q.place := by
  have hpos : ∀ {x : Int}, Ample x → (0 : ℚ) < x := fun h => by exact_mod_cast h.1
  have hne : mbdSymbol ≠ museSymbol := by decide
  rcases hp.sides with ⟨hpb, hpq⟩ | ⟨hpb, hpq⟩
  · rw [place_muse hpb]
    rcases hq.sides with ⟨hqb, hqq⟩ | ⟨hqb, hqq⟩
    · rw [place_muse hqb, Prod.Lex.toLex_lt_toLex]
      unfold blt mbdValue
      rw [hpb, hqb, hpq, hqq]
      simp only [lt_self_iff_false, if_false, if_true, true_and, false_or, decide_eq_true_eq]
      rw [mul128_lt_iff hq.quote hp.base hp.quote hq.base,
        div_lt_div_iff₀ (hpos hp.quote) (hpos hq.quote), mul_comm (q.quote.amount : ℚ),
        mul_comm (p.quote.amount : ℚ)]
    · rw [place_mbd (hqb ▸ hne), Prod.Lex.toLex_lt_toLex]
      unfold blt
      rw [hpb, hqb]
      simp [show museSymbol < mbdSymbol by decide]
  · rw [place_mbd (hpb ▸ hne)]
    rcases hq.sides with ⟨hqb, hqq⟩ | ⟨hqb, hqq⟩
    · rw [place_muse hqb, Prod.Lex.toLex_lt_toLex]
      unfold blt
      rw [hpb, hqb]
      simp [show ¬mbdSymbol < museSymbol by decide, show museSymbol < mbdSymbol by decide]
    · rw [place_mbd (hqb ▸ hne), Prod.Lex.toLex_lt_toLex]
      unfold blt mbdValue
      rw [hpb, hqb, hpq, hqq, if_neg hne, if_neg hne]
      simp only [lt_self_iff_false, if_false, true_and, false_or, decide_eq_true_eq, neg_lt_neg_iff]
      rw [mul128_lt_iff hq.quote hp.base hp.quote hq.base,
        div_lt_div_iff₀ (hpos hq.base) (hpos hp.base)]

/-- Feeds are equal in the source's sense when neither is less. -/
theorem IsFeed.beq_iff (hp : p.IsFeed) (hq : q.IsFeed) : p.beq q = true ↔ p.place = q.place := by
  have hneither : p.beq q = true ↔ ¬p.blt q = true ∧ ¬q.blt p = true := by
    have hne : mbdSymbol ≠ museSymbol := by decide
    have hlt : museSymbol < mbdSymbol := by decide
    unfold beq blt
    rcases hp.sides with ⟨hpb, hpq⟩ | ⟨hpb, hpq⟩ <;> rcases hq.sides with ⟨hqb, hqq⟩ | ⟨hqb, hqq⟩ <;>
      rw [hpb, hpq, hqb, hqq]
    · simp only [decide_true, Bool.and_self, Bool.true_and, lt_self_iff_false, if_false,
        decide_eq_true_eq]
      omega
    · simp [hlt, hlt.asymm, hne.symm]
    · simp [hlt, hlt.asymm, hne]
    · simp only [decide_true, Bool.and_self, Bool.true_and, lt_self_iff_false, if_false,
        decide_eq_true_eq]
      omega
  rw [hneither, hp.blt_iff hq, hq.blt_iff hp, not_lt, not_lt]
  exact ⟨fun h => le_antisymm h.2 h.1, fun h => ⟨h.ge, h.le⟩⟩

theorem IsFeed.isNull (h : p.IsFeed) : p.isNull = false := by
  have hne : mbdSymbol ≠ museSymbol := by decide
  unfold Price.isNull beq null
  rcases h.sides with ⟨hb, hq⟩ | ⟨hb, hq⟩
  · rw [hq]
    simp [hne]
  · rw [hb]
    simp [hne]

/-- The chosen feed is the one at the middle of the places. -/
theorem medianPrice_place {l : List Price} (hl : ∀ p ∈ l, p.IsFeed) :
    (medianPrice l).map place = Ranks.rank (l.map place) (l.length / 2) := by
  have hle : ∀ p ∈ l, ∀ q ∈ l, q.blt p = false ↔ p.place ≤ q.place := by
    intro p hp q hq
    rw [← not_lt, ← (hl q hq).blt_iff (hl p hp), Bool.not_eq_true]
  unfold medianPrice Ranks.rank
  rw [← List.getElem?_map, List.map_insertionSort _ (· ≤ ·) _ _ hle]

end Price

/-! ## 3. The chosen feed -/

section

variable {l : List Price} {m p : Price} {x : ℚ}

theorem medianPrice_mem (h : medianPrice l = some m) : m ∈ l :=
  (List.perm_insertionSort _ _).mem_iff.mp (List.mem_of_getElem? h)

theorem exists_medianPrice (h : l ≠ []) : ∃ m, medianPrice l = some m := by
  have hpos := List.length_pos_iff.mpr h
  have hlt : l.length / 2 < (l.insertionSort fun a b => b.blt a = false).length := by
    rw [List.length_insertionSort]
    omega
  exact ⟨_, List.getElem?_eq_getElem hlt⟩

/-- **Which feeds are equal to the chosen one**: at most half are less, and more than half are not
greater. -/
theorem medianPrice_beq_iff (hl : ∀ p ∈ l, p.IsFeed) (hm : medianPrice l = some m) (hp : p.IsFeed) :
    m.beq p = true ↔ (l.countP fun q => q.blt p) ≤ l.length / 2 ∧
      l.length / 2 < l.countP fun q => !p.blt q := by
  have hrank := Price.medianPrice_place hl
  rw [hm] at hrank
  have hless : (l.countP fun q => q.blt p) = (l.map Price.place).countP fun y => y < p.place := by
    rw [List.countP_map]
    refine List.countP_congr fun q hq => ?_
    rw [(hl q hq).blt_iff hp, Function.comp_apply, decide_eq_true_eq]
  have hmore : (l.countP fun q => !p.blt q) = (l.map Price.place).countP fun y => y ≤ p.place := by
    rw [List.countP_map]
    refine List.countP_congr fun q hq => ?_
    rw [Bool.not_eq_true', Function.comp_apply, decide_eq_true_eq, ← not_lt, ← hp.blt_iff (hl q hq),
      Bool.not_eq_true]
  rw [(hl m (medianPrice_mem hm)).beq_iff hp, hless, hmore]
  exact Ranks.rank_eq_iff hrank.symm

/-! ### How the feeds stand around a value -/

/-- The feeds that begin with MUSE and are lower. -/
def museLow (x : ℚ) (l : List Price) : Nat :=
  l.countP fun p => p.base.assetId = museSymbol ∧ p.mbdValue < x

/-- The feeds that begin with MUSE and are not higher. -/
def museUpto (x : ℚ) (l : List Price) : Nat :=
  l.countP fun p => p.base.assetId = museSymbol ∧ p.mbdValue ≤ x

/-- The feeds that begin with MBD and are lower. -/
def mbdLow (x : ℚ) (l : List Price) : Nat :=
  l.countP fun p => ¬p.base.assetId = museSymbol ∧ p.mbdValue < x

/-- The feeds that begin with MBD and have the value. -/
def mbdAt (x : ℚ) (l : List Price) : Nat :=
  l.countP fun p => ¬p.base.assetId = museSymbol ∧ p.mbdValue = x

/-- The feeds that are higher. -/
def high (x : ℚ) (l : List Price) : Nat := l.countP fun p => x < p.mbdValue

/-- Each feed is one of four kinds. -/
theorem length_eq_kinds (x : ℚ) (l : List Price) :
    l.length = museUpto x l + high x l + mbdLow x l + mbdAt x l := by
  unfold museUpto high mbdLow mbdAt
  induction l with
  | nil => rfl
  | cons p l ih =>
    rw [List.length_cons, ih]
    simp only [List.countP_cons, decide_eq_true_eq]
    by_cases hmuse : p.base.assetId = museSymbol <;>
      rcases lt_trichotomy p.mbdValue x with hlt | heq | hgt
    · simp [hmuse, hlt.le, hlt.not_gt]; omega
    · simp [hmuse, heq]; omega
    · simp [hmuse, hgt, hgt.not_ge]; omega
    · simp [hmuse, hlt, hlt.not_gt, hlt.ne]; omega
    · simp [hmuse, heq]; omega
    · simp [hmuse, hgt, hgt.not_gt, hgt.ne']; omega

theorem lower_eq (x : ℚ) (l : List Price) :
    (l.countP fun p => p.mbdValue < x) = museLow x l + mbdLow x l := by
  unfold museLow mbdLow
  induction l with
  | nil => rfl
  | cons p l ih =>
    simp only [List.countP_cons, decide_eq_true_eq, ih]
    by_cases hmuse : p.base.assetId = museSymbol <;> by_cases hlt : p.mbdValue < x <;>
      simp [hmuse, hlt] <;> omega

theorem museLow_le_museUpto (x : ℚ) (l : List Price) : museLow x l ≤ museUpto x l := by
  refine List.countP_mono_left fun p _ hp => ?_
  obtain ⟨hmuse, hlt⟩ := of_decide_eq_true hp
  exact decide_eq_true ⟨hmuse, hlt.le⟩

/-- The middle one is among those with the value that begin with MUSE, or among the others. -/
def Chosen (x : ℚ) (l : List Price) : Prop :=
  (museLow x l ≤ l.length / 2 ∧ l.length / 2 < museUpto x l) ∨
    (museUpto x l + high x l ≤ l.length / 2 ∧ l.length / 2 + mbdLow x l < l.length)

/-- The places before and up to that of a feed that begins with MUSE. -/
theorem countP_place_muse (x : ℚ) (l : List Price) :
    ((l.map Price.place).countP fun y => y < toLex (0, x)) = museLow x l ∧
      ((l.map Price.place).countP fun y => y ≤ toLex (0, x)) = museUpto x l := by
  unfold museLow museUpto
  rw [List.countP_map, List.countP_map]
  constructor
  all_goals
    refine List.countP_congr fun p _ => ?_
    rw [Function.comp_apply, decide_eq_true_eq, decide_eq_true_eq]
    by_cases hmuse : p.base.assetId = museSymbol
    · rw [Price.place_muse hmuse]
      simp [Prod.Lex.toLex_lt_toLex, Prod.Lex.toLex_le_toLex, hmuse]
    · rw [Price.place_mbd hmuse]
      simp [Prod.Lex.toLex_lt_toLex, Prod.Lex.toLex_le_toLex, hmuse]

/-- The places before and up to that of a feed that begins with MBD. -/
theorem countP_place_mbd (x : ℚ) (l : List Price) :
    ((l.map Price.place).countP fun y => y < toLex (1, -x)) = museUpto x l + high x l ∧
      ((l.map Price.place).countP fun y => y ≤ toLex (1, -x)) =
        museUpto x l + high x l + mbdAt x l := by
  unfold museUpto high mbdAt
  induction l with
  | nil => exact ⟨rfl, rfl⟩
  | cons p l ih =>
    rw [List.map_cons]
    simp only [List.countP_cons, decide_eq_true_eq, ih.1, ih.2]
    by_cases hmuse : p.base.assetId = museSymbol
    · rw [Price.place_muse hmuse]
      simp only [Prod.Lex.toLex_lt_toLex, Prod.Lex.toLex_le_toLex, hmuse]
      by_cases hle : p.mbdValue ≤ x
      · simp [hle, hle.not_gt]; omega
      · simp [hle, not_le.mp hle]; omega
    · rw [Price.place_mbd hmuse]
      simp only [Prod.Lex.toLex_lt_toLex, Prod.Lex.toLex_le_toLex, hmuse]
      rcases lt_trichotomy p.mbdValue x with hlt | heq | hgt
      · simp [hlt.not_gt, hlt.not_ge, hlt.ne]
      · simp [heq]; omega
      · simp [hgt, hgt.le, hgt.ne']; omega

/-- **Which value the chosen feed has.** -/
theorem mbdValue_eq_iff (hl : ∀ p ∈ l, p.IsFeed) (hm : medianPrice l = some m) :
    m.mbdValue = x ↔ Chosen x l := by
  have hrank := Price.medianPrice_place hl
  rw [hm] at hrank
  have hmuse := Ranks.rank_eq_iff (y := toLex (0, x)) hrank.symm
  have hmbd := Ranks.rank_eq_iff (y := toLex (1, -x)) hrank.symm
  rw [(countP_place_muse x l).1, (countP_place_muse x l).2] at hmuse
  rw [(countP_place_mbd x l).1, (countP_place_mbd x l).2] at hmbd
  have hkinds := length_eq_kinds x l
  have hplace : m.mbdValue = x ↔ m.place = toLex (0, x) ∨ m.place = toLex (1, -x) := by
    by_cases hbase : m.base.assetId = museSymbol
    · rw [Price.place_muse hbase]
      simp
    · rw [Price.place_mbd hbase]
      simp
  rw [hplace, hmuse, hmbd]
  unfold Chosen
  omega

/-! ### Turning one feed around -/

/-- What becomes of the numbers when one feed is stated the other way around. -/
theorem turned (x : ℚ) (hp : p.IsFeed) (u r : List Price) :
    high x (u ++ p.invert :: r) = high x (u ++ p :: r) ∧
    museLow x (u ++ p.invert :: r) +
        (if p.base.assetId = museSymbol ∧ p.mbdValue < x then 1 else 0) =
      museLow x (u ++ p :: r) +
        (if ¬p.base.assetId = museSymbol ∧ p.mbdValue < x then 1 else 0) ∧
    museUpto x (u ++ p.invert :: r) +
        (if p.base.assetId = museSymbol ∧ p.mbdValue ≤ x then 1 else 0) =
      museUpto x (u ++ p :: r) +
        (if ¬p.base.assetId = museSymbol ∧ p.mbdValue ≤ x then 1 else 0) ∧
    mbdLow x (u ++ p.invert :: r) +
        (if ¬p.base.assetId = museSymbol ∧ p.mbdValue < x then 1 else 0) =
      mbdLow x (u ++ p :: r) +
        (if p.base.assetId = museSymbol ∧ p.mbdValue < x then 1 else 0) := by
  have hbase : p.invert.base.assetId = museSymbol ↔ ¬p.base.assetId = museSymbol := by
    have hne : mbdSymbol ≠ museSymbol := by decide
    show p.quote.assetId = museSymbol ↔ _
    rcases hp.sides with ⟨hb, hq⟩ | ⟨hb, hq⟩
    · rw [hb, hq]
      simp [hne]
    · rw [hb, hq]
      simp [hne]
  unfold high museLow museUpto mbdLow
  simp only [List.countP_append, List.countP_cons, hp.mbdValue_invert, hbase, not_not,
    decide_eq_true_eq]
  refine ⟨trivial, ?_, ?_, ?_⟩ <;> omega

/-- The choice is fair: no restatement of a feed changes its value, and at most half of the feeds
value MBD higher, and at most half lower. -/
def Fair (l : List Price) : Prop :=
  ∀ m, medianPrice l = some m →
    (∀ i (hi : i < l.length) m', medianPrice (l.set i l[i].invert) = some m' →
      m'.mbdValue = m.mbdValue) ∧
    2 * (l.countP fun p => m.mbdValue < p.mbdValue) ≤ l.length ∧
    2 * (l.countP fun p => p.mbdValue < m.mbdValue) ≤ l.length

/-- At most half of the feeds are lower than `x`, and `x` is in the middle with room to spare: among
the feeds that begin with MUSE, or behind them. -/
def Central (x : ℚ) (l : List Price) : Prop :=
  2 * (museLow x l + mbdLow x l) ≤ l.length ∧
    (l.length / 2 + 1 < museUpto x l ∨
      (high x l = 0 ∨ museUpto x l + high x l < l.length / 2) ∧
        mbdLow x l + l.length / 2 < l.length ∧
        (0 < museLow x l → mbdLow x l + l.length / 2 + 1 < l.length))

theorem Central.chosen (h : Central x l) : Chosen x l := by
  have hkinds := length_eq_kinds x l
  obtain ⟨hhalf, hfront | ⟨hhigh, hback, _⟩⟩ := h
  · exact .inl ⟨by omega, by omega⟩
  · rcases hhigh with hnone | hfew
    · by_cases hlt : l.length / 2 < museUpto x l
      · exact .inl ⟨by omega, hlt⟩
      · exact .inr ⟨by omega, by omega⟩
    · exact .inr ⟨hfew.le, by omega⟩

/-- **It stays in the middle when a feed is turned around.** -/
theorem Central.chosen_turned {u r : List Price} (h : Central x (u ++ p :: r)) (hp : p.IsFeed) :
    Chosen x (u ++ p.invert :: r) := by
  have hkinds := length_eq_kinds x (u ++ p :: r)
  obtain ⟨hhigh, hlow, hupto, hback⟩ := turned x hp u r
  have hlen : (u ++ p.invert :: r).length = (u ++ p :: r).length := by simp
  have hle := museLow_le_museUpto x (u ++ p :: r)
  unfold Central at h
  unfold Chosen
  rw [hlen, hhigh]
  generalize (u ++ p :: r).length = n at *
  by_cases hmuse : p.base.assetId = museSymbol <;>
    rcases lt_trichotomy p.mbdValue x with hlt | heq | hgt
  · simp only [hmuse, hlt, hlt.le, and_self, not_true_eq_false, false_and, if_true, if_false] at *
    omega
  · simp only [hmuse, heq, lt_irrefl, le_refl, and_self, and_false, not_true_eq_false, false_and,
      if_true, if_false] at *
    omega
  · simp only [hmuse, hgt.not_gt, hgt.not_ge, and_false, if_false] at *
    omega
  · simp only [hmuse, hlt, hlt.le, not_false_eq_true, and_self, false_and, if_true, if_false] at *
    omega
  · simp only [hmuse, heq, lt_irrefl, le_refl, and_self, and_false, not_false_eq_true, false_and,
      if_true, if_false] at *
    omega
  · simp only [hmuse, hgt.not_gt, hgt.not_ge, and_false, if_false] at *
    omega

/-- **What is in the middle and stays there is central.** -/
theorem central_of_chosen (hl : ∀ p ∈ l, p.IsFeed) (hc : Chosen x l)
    (hlow : 2 * (museLow x l + mbdLow x l) ≤ l.length)
    (hturned : ∀ u p r, l = u ++ p :: r → Chosen x (u ++ p.invert :: r)) : Central x l := by
  have hkinds := length_eq_kinds x l
  have hle := museLow_le_museUpto x l
  -- a lower one that begins with MUSE is turned around
  have hmuseLow : 0 < museLow x l → (l.length / 2 + 1 < museUpto x l) ∨
      (museUpto x l + high x l ≤ l.length / 2 + 1 ∧ mbdLow x l + l.length / 2 + 1 < l.length) := by
    intro hpos
    obtain ⟨p, hp, hkind⟩ := List.countP_pos_iff.mp hpos
    obtain ⟨hmuse, hlt⟩ := of_decide_eq_true hkind
    obtain ⟨u, r, rfl⟩ := List.append_of_mem hp
    obtain ⟨hhigh, hlow', hupto, hback⟩ := turned x (hl p hp) u r
    have hlen : (u ++ p.invert :: r).length = (u ++ p :: r).length := by simp
    have hnow := hturned u p r rfl
    unfold Chosen at hnow
    rw [hlen, hhigh] at hnow
    simp only [hmuse, hlt, hlt.le, and_self, not_true_eq_false, false_and, if_true, if_false] at *
    omega
  refine ⟨hlow, ?_⟩
  by_cases hnone : high x l = 0
  · unfold Chosen at hc
    by_cases hpos : 0 < museLow x l
    · have := hmuseLow hpos
      omega
    · omega
  obtain ⟨hfrom, hupto⟩ | ⟨hfrom, hupto⟩ := hc
  · -- one that begins with MUSE and is not higher is turned around
    refine .inl ?_
    obtain ⟨p, hp, hkind⟩ := List.countP_pos_iff.mp (show 0 < museUpto x l by omega)
    obtain ⟨hmuse, hpx⟩ := of_decide_eq_true hkind
    obtain ⟨u, r, rfl⟩ := List.append_of_mem hp
    obtain ⟨hhigh, hlow', hupto', hback⟩ := turned x (hl p hp) u r
    have hlen : (u ++ p.invert :: r).length = (u ++ p :: r).length := by simp
    have hnow := hturned u p r rfl
    unfold Chosen at hnow
    rw [hlen, hhigh] at hnow
    rw [if_pos ⟨hmuse, hpx⟩, if_neg (fun h => h.1 hmuse)] at hupto'
    omega
  · -- one that begins with MBD and has the value is turned around
    have hpos : 0 < mbdAt x l := by omega
    obtain ⟨p, hp, hkind⟩ := List.countP_pos_iff.mp hpos
    obtain ⟨hmbd, hpx⟩ := of_decide_eq_true hkind
    obtain ⟨u, r, rfl⟩ := List.append_of_mem hp
    obtain ⟨hhigh, hlow', hupto', hback⟩ := turned x (hl p hp) u r
    have hlen : (u ++ p.invert :: r).length = (u ++ p :: r).length := by simp
    have hnow := hturned u p r rfl
    unfold Chosen at hnow
    rw [hlen, hhigh] at hnow
    rw [if_neg (fun h => hmbd h.1), if_pos ⟨hmbd, hpx.le⟩] at hupto'
    refine .inr ⟨.inr (by omega), by omega, fun hlt => ?_⟩
    have := hmuseLow hlt
    omega

/-- **The choice is fair just when the feeds have a central value.** -/
theorem median_feed_fair_iff [Fc]
    (hl : ∀ p ∈ l, ∃ publisher, (Operation.feedPublish publisher p).validate = .ok ())
    (hfits : ∀ p ∈ l, p.base.Fits ∧ p.quote.Fits) (hne : l ≠ []) :
    Fair l ↔ ∃ x, Central x l := by
  have hfeeds : ∀ p ∈ l, p.IsFeed := fun p hp => by
    obtain ⟨publisher, hvalid⟩ := hl p hp
    exact Price.isFeed_of_validate hvalid (hfits p hp).1 (hfits p hp).2
  have hturnedFeeds : ∀ u p r, l = u ++ p :: r → ∀ q ∈ u ++ p.invert :: r, q.IsFeed := by
    rintro u p r rfl q hq
    rw [List.mem_append, List.mem_cons] at hq
    rcases hq with hq | rfl | hq
    · exact hfeeds q (by simp [hq])
    · exact (hfeeds p (by simp)).invert
    · exact hfeeds q (by simp [hq])
  constructor
  · intro hfair
    obtain ⟨m, hm⟩ := exists_medianPrice hne
    obtain ⟨hsame, _, hlow⟩ := hfair m hm
    refine ⟨m.mbdValue, central_of_chosen hfeeds ((mbdValue_eq_iff hfeeds hm).mp rfl)
      (lower_eq m.mbdValue l ▸ hlow) fun u p r he => ?_⟩
    have hset : l.set u.length p.invert = u ++ p.invert :: r := by
      rw [he, List.set_append_right _ _ le_rfl, Nat.sub_self, List.set_cons_zero]
    obtain ⟨m', hm'⟩ := exists_medianPrice (l := u ++ p.invert :: r) (by simp)
    have hi : u.length < l.length := by
      rw [he]
      simp
    refine (mbdValue_eq_iff (hturnedFeeds u p r he) hm').mp (hsame u.length hi m' ?_)
    rw [show l[u.length] = p by simp [he], hset, hm']
  · rintro ⟨x, hx⟩ m hm
    obtain rfl := (mbdValue_eq_iff hfeeds hm).mpr hx.chosen
    have hkinds := length_eq_kinds m.mbdValue l
    have hle := museLow_le_museUpto m.mbdValue l
    refine ⟨fun i hi m' hm' => ?_, ?_, lower_eq m.mbdValue l ▸ hx.1⟩
    · have he : l = l.take i ++ l[i] :: l.drop (i + 1) := by simp
      rw [List.set_eq_take_append_cons_drop, if_pos hi] at hm'
      refine (mbdValue_eq_iff (hturnedFeeds _ _ _ he) hm').mpr ?_
      exact Central.chosen_turned (he ▸ hx) (hfeeds _ (List.getElem_mem hi))
    · show 2 * high m.mbdValue l ≤ l.length
      obtain ⟨_, hmid⟩ := hx
      omega

section

attribute [local instance] sampleFc

/-- Feeds of 1, 1, 2, 2 and 3 MUSE, the last two with MBD first. -/
def fiveFeeds : List Price :=
  [⟨Asset.muse 1, Asset.mbd 1⟩, ⟨Asset.muse 2, Asset.mbd 2⟩, ⟨Asset.muse 2, Asset.mbd 1⟩,
    ⟨Asset.muse 4, Asset.mbd 2⟩, ⟨Asset.mbd 1, Asset.muse 3⟩]

theorem median_feed_fair_iff_five : Central 2 fiveFeeds ∧ Fair fiveFeeds := by
  have hvalid : ∀ p ∈ fiveFeeds,
      (Operation.feedPublish "alice" p).validate = .ok () ∧ p.base.Fits ∧ p.quote.Fits := by
    decide
  have hcentral : Central 2 fiveFeeds := by
    unfold Central
    decide +kernel
  exact ⟨hcentral, (median_feed_fair_iff (fun p hp => ⟨_, (hvalid p hp).1⟩)
    (fun p hp => (hvalid p hp).2) (by decide)).mpr ⟨2, hcentral⟩⟩

/-- Two feeds of 1 and 2 MUSE: the second is chosen, until the first is stated in MBD. -/
theorem two_feeds_unfair :
    (∀ p ∈ ([⟨Asset.muse 1, Asset.mbd 1⟩, ⟨Asset.muse 2, Asset.mbd 1⟩] : List Price),
      (Operation.feedPublish "alice" p).validate = .ok () ∧ p.base.Fits ∧ p.quote.Fits) ∧
    ¬Fair [⟨Asset.muse 1, Asset.mbd 1⟩, ⟨Asset.muse 2, Asset.mbd 1⟩] := by
  refine ⟨by decide, fun h => ?_⟩
  have hchosen := h ⟨Asset.muse 2, Asset.mbd 1⟩ (by decide)
  have hsame := hchosen.1 0 (by decide) ⟨Asset.mbd 1, Asset.muse 1⟩ (by decide)
  norm_num [Price.mbdValue, Asset.muse, Asset.mbd, museSymbol, mbdSymbol] at hsame

end

end

end MuseChain
