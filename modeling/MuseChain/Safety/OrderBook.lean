/-
  File:      MuseChain/Safety/OrderBook.lean
  Subject:   The order book is never crossed.

  An order sells `forSale` of its base at the ratio base : quote. While orders are matched the
  book is in order but for the new one: every order that crosses it is still to be visited.
-/
import MuseChain.Safety.Frames
import MuseChain.Chain.Genesis
import Mathlib.Tactic.Linarith

namespace MuseChain

variable {n : Nat}

/-! ## 1. Prices of int64 amounts -/

/-- A number that is positive and fits in an `int64_t`. -/
def Ample (x : Int) : Prop := 0 < x ∧ x ≤ int64Max

namespace Price

theorem uint128OfInt_of_nonneg {x : Int} (h0 : 0 ≤ x) (h : x ≤ int64Max) :
    uint128OfInt x = x.toNat := by
  unfold uint128OfInt
  rw [Int.emod_eq_of_lt h0 (by unfold int64Max at h; omega)]

/-- Two int64 numbers do not overflow 128 bits. -/
theorem mul128_of_nonneg {x y : Int} (hx : 0 ≤ x) (hx' : x ≤ int64Max) (hy : 0 ≤ y)
    (hy' : y ≤ int64Max) : mul128 x y = (x * y).toNat := by
  unfold mul128 u128
  rw [uint128OfInt_of_nonneg hx hx', uint128OfInt_of_nonneg hy hy', ← Int.toNat_mul hx hy]
  refine Nat.mod_eq_of_lt ?_
  have h : x * y ≤ int64Max * int64Max := mul_le_mul hx' hy' hy (by decide)
  have h' : int64Max * int64Max < 2 ^ 128 := by decide
  omega

theorem mul128_ediv {x num den : Int} (hx : 0 ≤ x) (hx' : x ≤ int64Max) (hn : Ample num)
    (hd : Ample den) : ((mul128 x num / uint128OfInt den : Nat) : Int) = x * num / den := by
  have hxn : 0 ≤ x * num := mul_nonneg hx hn.1.le
  rw [mul128_of_nonneg hx hx' hn.1.le hn.2, uint128OfInt_of_nonneg hd.1.le hd.2,
    Int.natCast_ediv, Int.toNat_of_nonneg hxn, Int.toNat_of_nonneg hd.1.le]

/-- `amount * num / den`, when it fits. -/
theorem scale_of_fits {x num den : Int} (hx : 0 ≤ x) (hx' : x ≤ int64Max) (hn : Ample num)
    (hd : Ample den) (h : x * num / den ≤ int64Max) : scale x num den = .ok (x * num / den) := by
  have h0 : 0 ≤ x * num / den := Int.ediv_nonneg (mul_nonneg hx hn.1.le) hd.1.le
  have e := mul128_ediv hx hx' hn hd
  have hlt : mul128 x num / uint128OfInt den < 2 ^ 63 := by
    unfold int64Max at h
    omega
  unfold scale
  rw [if_neg (not_le.mpr hd.1)]
  dsimp only
  rw [if_pos (by omega), int64OfNat_of_lt hlt, e]

/-- A negative amount is a number of 128 bits that no int64 price brings back to 64. -/
theorem scale_neg {x num den y : Int} (hx : x < 0) (hx' : int64Min ≤ x) (hn : Ample num)
    (hd : Ample den) : scale x num den ≠ .ok y := by
  have hbig : -2 ^ 127 ≤ x * num := by
    have h1 : int64Min * int64Max ≤ x * num := by
      nlinarith [hn.1, hn.2, show (0 : Int) ≤ int64Max by decide]
    exact le_trans (by decide) h1
  have hneg : x * num < 0 := mul_neg_of_neg_of_pos hx hn.1
  have hm : (mul128 x num : Int) = 2 ^ 128 + x * num := by
    have hxn : (uint128OfInt x : Int) = 2 ^ 128 + x := by
      unfold uint128OfInt
      unfold int64Min at hx'
      rw [← Int.add_emod_left, Int.emod_eq_of_lt (by omega) (by omega),
        Int.toNat_of_nonneg (by omega)]
    have hnn : (uint128OfInt num : Int) = num := by
      rw [uint128OfInt_of_nonneg hn.1.le hn.2, Int.toNat_of_nonneg hn.1.le]
    have e : ((2 : Int) ^ 128 + x) * num = 2 ^ 128 + x * num + 2 ^ 128 * (num - 1) := by ring
    unfold mul128 u128
    rw [Int.natCast_emod, Int.natCast_mul, hxn, hnn, e]
    show (2 ^ 128 + x * num + 2 ^ 128 * (num - 1)) % 2 ^ 128 = _
    rw [Int.add_mul_emod_self_left, Int.emod_eq_of_lt (by omega) (by omega)]
  have hden : uint128OfInt den ≤ 2 ^ 63 := by
    rw [uint128OfInt_of_nonneg hd.1.le hd.2]
    have := hd.2
    unfold int64Max at this
    omega
  have hdpos : 0 < uint128OfInt den := by
    rw [uint128OfInt_of_nonneg hd.1.le hd.2]
    have := hd.1
    omega
  have hq : 2 ^ 64 ≤ mul128 x num / uint128OfInt den := by
    rw [Nat.le_div_iff_mul_le hdpos]
    calc 2 ^ 64 * uint128OfInt den ≤ 2 ^ 64 * 2 ^ 63 := Nat.mul_le_mul_left _ hden
      _ ≤ mul128 x num := by omega
  unfold scale
  rw [if_neg (not_le.mpr hd.1)]
  dsimp only
  rw [if_neg (by omega)]
  intro h
  cases h

/-- What a product of an int64 amount and a price is, when it comes out positive. -/
theorem scale_pos {x num den y : Int} (hx : int64Min ≤ x) (hx' : x ≤ int64Max) (hn : Ample num)
    (hd : Ample den) (h : scale x num den = .ok y) (hy : 0 < y) :
    0 < x ∧ den ≤ x * num ∧ x * num / den ≤ int64Max := by
  have hx0 : 0 ≤ x := by
    by_contra hneg
    exact scale_neg (not_le.mp hneg) hx hn hd h
  have e := mul128_ediv hx0 hx' hn hd
  unfold scale at h
  rw [if_neg (not_le.mpr hd.1)] at h
  dsimp only at h
  split at h
  · rename_i hr
    have hy' : int64OfNat (mul128 x num / uint128OfInt den) = y := Except.ok.inj h
    have hlt : mul128 x num / uint128OfInt den < 2 ^ 63 := by
      by_contra hbig
      unfold int64OfNat at hy'
      rw [Nat.mod_eq_of_lt hr, if_neg hbig] at hy'
      omega
    rw [int64OfNat_of_lt hlt, e] at hy'
    have h1 : 1 ≤ x * num / den := by omega
    have hle : den ≤ x * num := by
      have := (Int.le_ediv_iff_mul_le hd.1).mp h1
      omega
    refine ⟨?_, hle, ?_⟩
    · by_contra hz
      have : x = 0 := by omega
      rw [this, zero_mul] at hle
      exact absurd hd.1 (not_lt.mpr hle)
    · unfold int64Max
      omega
  · cases h

end Price

/-! ## 2. Orders -/

/-- An order as the evaluators leave it: its price is two positive amounts of two assets, and what
it asks for is at least 1 and fits in an `int64_t`. -/
structure LimitOrder.Sound (o : LimitOrder) : Prop where
  base : Ample o.sellPrice.base.amount
  quote : Ample o.sellPrice.quote.amount
  assets : o.sellPrice.base.assetId ≠ o.sellPrice.quote.assetId
  forSale : Ample o.forSale
  worth_pos : o.sellPrice.base.amount ≤ o.forSale * o.sellPrice.quote.amount
  worth_fits : o.forSale * o.sellPrice.quote.amount / o.sellPrice.base.amount ≤ int64Max

/-- Two orders of one market in opposite directions. -/
def Opposite (a b : LimitOrder) : Prop :=
  a.sellPrice.base.assetId = b.sellPrice.quote.assetId ∧
    a.sellPrice.quote.assetId = b.sellPrice.base.assetId

/-- `a.sell_price >= ~b.sell_price` of two orders in opposite directions. -/
def Crossed (a b : LimitOrder) : Prop :=
  Opposite a b ∧ a.sellPrice.blt b.sellPrice.invert = false

/-- What an order asks for what it sells. -/
def LimitOrder.worth (o : LimitOrder) : Int :=
  o.forSale * o.sellPrice.quote.amount / o.sellPrice.base.amount

/-- What is left of an order after `pays`. -/
def LimitOrder.less (o : LimitOrder) (pays : Int) : LimitOrder :=
  { o with forSale := o.forSale - pays }

/-- The product of what is sold and the price, in the same asset ids. -/
theorem LimitOrder.amountToReceive_eq {o : LimitOrder} (hb : Ample o.sellPrice.base.amount)
    (hq : Ample o.sellPrice.quote.amount) (h0 : 0 ≤ o.forSale) (h : o.forSale ≤ int64Max)
    (hw : o.worth ≤ int64Max) :
    o.amountToReceive = .ok ⟨o.worth, o.sellPrice.quote.assetId⟩ := by
  unfold LimitOrder.amountToReceive Asset.mul LimitOrder.amountForSale
  rw [if_pos rfl, Price.scale_of_fits h0 h hq hb hw]
  rfl

namespace LimitOrder.Sound

variable {o a b : LimitOrder}

theorem worth_ge (h : o.Sound) : 1 ≤ o.worth :=
  (Int.le_ediv_iff_mul_le h.base.1).mpr (by rw [one_mul]; exact h.worth_pos)

theorem amountToReceive (h : o.Sound) :
    o.amountToReceive = .ok ⟨o.worth, o.sellPrice.quote.assetId⟩ :=
  amountToReceive_eq h.base h.quote h.forSale.1.le h.forSale.2 h.worth_fits

/-- What is left asks for less. -/
theorem worth_less (h : o.Sound) {pays : Int} (h0 : 0 ≤ pays) : (o.less pays).worth ≤ o.worth := by
  refine Int.ediv_le_ediv h.base.1 ?_
  show (o.forSale - pays) * o.sellPrice.quote.amount ≤ o.forSale * o.sellPrice.quote.amount
  exact mul_le_mul_of_nonneg_right (by omega) h.quote.1.le

theorem less_amountToReceive (h : o.Sound) {pays : Int} (h0 : 0 ≤ pays) (hp : pays ≤ o.forSale) :
    (o.less pays).amountToReceive =
      .ok ⟨(o.less pays).worth, o.sellPrice.quote.assetId⟩ := by
  have hf := h.forSale.2
  refine amountToReceive_eq h.base h.quote ?_ ?_ (le_trans (h.worth_less h0) h.worth_fits)
  · show 0 ≤ o.forSale - pays
    omega
  · show o.forSale - pays ≤ int64Max
    omega

/-- What is left of an order is an order again, unless it asks for nothing. -/
theorem less (h : o.Sound) {pays : Int} (h0 : 0 ≤ pays) (hp : pays ≤ o.forSale)
    (hw : (o.less pays).worth ≠ 0) : (o.less pays).Sound := by
  have hf := h.forSale.2
  have hnn : 0 ≤ (o.forSale - pays) * o.sellPrice.quote.amount :=
    mul_nonneg (by omega) h.quote.1.le
  have hw0 : 0 ≤ (o.less pays).worth := Int.ediv_nonneg hnn h.base.1.le
  have hw1 : 1 ≤ (o.less pays).worth := by omega
  have hpos : o.sellPrice.base.amount ≤ (o.forSale - pays) * o.sellPrice.quote.amount := by
    have := (Int.le_ediv_iff_mul_le h.base.1).mp hw1
    rwa [one_mul] at this
  refine ⟨h.base, h.quote, h.assets, ⟨?_, ?_⟩, hpos, le_trans (h.worth_less h0) h.worth_fits⟩
  · show 0 < o.forSale - pays
    by_contra hz
    have e : o.forSale - pays = 0 := by omega
    rw [e, zero_mul] at hpos
    exact absurd h.base.1 (not_lt.mpr hpos)
  · show o.forSale - pays ≤ int64Max
    omega

/-- No order that sells at most the supply is above the greatest price there is. -/
theorem price_le (h : o.Sound) (hs : o.forSale ≤ maxShareSupply) :
    o.sellPrice.base.amount ≤ maxShareSupply * o.sellPrice.quote.amount :=
  le_trans h.worth_pos (mul_le_mul_of_nonneg_right hs h.quote.1.le)

theorem crossed_iff (ha : a.Sound) (hb : b.Sound) : Crossed a b ↔ Opposite a b ∧
    a.sellPrice.quote.amount * b.sellPrice.quote.amount ≤
      a.sellPrice.base.amount * b.sellPrice.base.amount := by
  refine and_congr_right fun ho => ?_
  unfold Price.blt Price.invert
  rw [if_neg (by rw [ho.1]; exact lt_irrefl _), if_neg (by rw [ho.1]; exact lt_irrefl _),
    if_neg (by rw [ho.2]; exact lt_irrefl _), if_neg (by rw [ho.2]; exact lt_irrefl _),
    decide_eq_false_iff_not, not_lt,
    Price.mul128_of_nonneg ha.quote.1.le ha.quote.2 hb.quote.1.le hb.quote.2,
    Price.mul128_of_nonneg hb.base.1.le hb.base.2 ha.base.1.le ha.base.2]
  have hbase := mul_pos ha.base.1 hb.base.1
  have hquote := mul_pos ha.quote.1 hb.quote.1
  rw [mul_comm b.sellPrice.base.amount]
  omega

end LimitOrder.Sound

/-! ## 3. Filling -/

/-- The open orders. -/
def Store.orders (s : Store chainSchema) : Nat → Option LimitOrder := s.get Kind.limitOrder

theorem Store.orders_erase (s : Store chainSchema) (i : Nat) :
    (s.erase Kind.limitOrder i).orders = Function.update s.orders i none := by
  funext j
  rw [Function.update_apply]
  exact Store.get_erase_self s Kind.limitOrder i j

theorem Store.orders_write (s : Store chainSchema) (i : Nat) (o : LimitOrder)
    (hf : s.free Kind.limitOrder i o = true) :
    (s.write Kind.limitOrder i o hf).orders = Function.update s.orders i (some o) := by
  funext j
  rw [Function.update_apply]
  exact Store.get_write_self s Kind.limitOrder i j o hf

section

variable {d d' : Database chainSchema}

@[simp] theorem ordersStay_mintInterest (interest : Asset) :
    Steps (Untouched Kind.limitOrder) (mintInterest interest : Act n Unit) := by
  unfold mintInterest
  exact steps_bind (by simp) fun _ => untouched_modifyWith (by decide)

@[simp] theorem ordersStay_adjustMbdBalance (acc : Nat) (delta : Asset) :
    Steps (Untouched Kind.limitOrder) (adjustMbdBalance acc delta : Act n Unit) := by
  unfold adjustMbdBalance
  refine untouched_modifyNested (by decide) fun a => ?_
  repeat' first
    | with_reducible apply steps_bind
    | with_reducible apply steps_ite
    | intro _
    | (solve | simp)

@[simp] theorem ordersStay_adjustAssetBalance (acc : Nat) (delta : Asset) :
    Steps (Untouched Kind.limitOrder) (adjustAssetBalance acc delta : Act n Unit) := by
  unfold adjustAssetBalance
  repeat' first
    | with_reducible apply steps_bind
    | with_reducible apply steps_ite
    | intro _
    | (solve | simp)
    | exact untouched_create (by decide)
    | exact untouched_modifyWith (by decide)
    | split

@[simp] theorem ordersStay_adjustBalance (acc : Nat) (delta : Asset) :
    Steps (Untouched Kind.limitOrder) (adjustBalance acc delta : Act n Unit) := by
  unfold adjustBalance adjustMuseBalance
  refine steps_ite (fun _ => untouched_modifyWith (by decide)) fun _ => ?_
  refine steps_ite (fun _ => by simp) fun _ => ?_
  repeat' first
    | with_reducible apply steps_bind
    | with_reducible apply steps_ite
    | intro _
    | (solve | simp)

theorem cancelOrder_orders {i : Nat} {u : Unit}
    (h : (cancelOrder i : Act n Unit).run d = .ok u d') :
    d'.store.orders = Function.update d.store.orders i none := by
  obtain ⟨o, ho, h⟩ := bind_getObject_ok.mp h
  obtain ⟨seller, _, _, _, h⟩ := bind_getAccountId_ok h
  obtain ⟨_, d₁, h1, h⟩ := Action.bind_ok.mp h
  obtain ⟨_, _, e⟩ := remove_store h
  have hs : d₁.store.orders = d.store.orders := (ordersStay_adjustBalance seller _).step h1
  rw [e, Store.orders_erase, hs]

/-- Taking `pays` from an order leaves what is left of it, or nothing. -/
theorem fillOrder_orders {i : Nat} {o : LimitOrder} (ho : d.store.orders i = some o)
    (hs : o.Sound) {p : Int} (h0 : 0 ≤ p) (hp : p ≤ o.forSale) {receives : Asset} {gone : Bool}
    (h : (fillOrder i ⟨p, o.sellPrice.base.assetId⟩ receives : Act n Bool).run d =
      .ok gone d') :
    (gone = true ∧ d'.store.orders = Function.update d.store.orders i none) ∨
      (gone = false ∧ p < o.forSale ∧ (o.less p).Sound ∧
        d'.store.orders = Function.update d.store.orders i (some (o.less p))) := by
  obtain ⟨o', ho', h⟩ := bind_getObject_ok.mp h
  obtain rfl : o = o' := Option.some.inj (ho.symm.trans ho')
  obtain ⟨_, h⟩ := Action.bind_require_ok.mp h
  obtain ⟨_, h⟩ := Action.bind_require_ok.mp h
  obtain ⟨seller, _, _, _, h⟩ := bind_getAccountId_ok h
  obtain ⟨_, d₁, h1, h⟩ := Action.bind_ok.mp h
  have e1 : d₁.store.orders = d.store.orders := (ordersStay_adjustBalance seller _).step h1
  split at h
  · obtain ⟨_, d₂, h2, h⟩ := Action.bind_ok.mp h
    cases h
    obtain ⟨_, _, e⟩ := remove_store h2
    refine .inl ⟨rfl, ?_⟩
    rw [e, Store.orders_erase, e1]
  · rename_i hne
    have hlt : p < o.forSale := by
      refine lt_of_le_of_ne hp fun e => hne ?_
      rw [e]
      rfl
    obtain ⟨_, d₂, h2, h⟩ := Action.bind_ok.mp h
    obtain ⟨o₁, x, ho1, hx, hf, e⟩ := modifyWith_store h2
    obtain rfl : o = o₁ := Option.some.inj ((e1.symm ▸ ho).symm.trans ho1)
    have e2 : d₂.store.orders = Function.update d.store.orders i (some (o.less p)) := by
      rw [e, Store.orders_write, e1, (safe_ok.mp hx).1]
      rfl
    obtain ⟨o₂, ho2, h⟩ := bind_getObject_ok.mp h
    obtain rfl : o.less p = o₂ := by
      have h3 : d₂.store.orders i = some o₂ := ho2
      rw [e2, Function.update_self] at h3
      exact Option.some.inj h3
    obtain ⟨worth, hw, h⟩ := Action.bind_lift_ok.mp h
    rw [hs.less_amountToReceive h0 hp] at hw
    cases hw
    split at h
    · obtain ⟨_, d₃, h3, h⟩ := Action.bind_ok.mp h
      cases h
      refine .inl ⟨rfl, ?_⟩
      rw [cancelOrder_orders h3, e2, Function.update_idem]
    · rename_i hw
      cases h
      exact .inr ⟨rfl, hlt, hs.less h0 hp hw, e2⟩

/-! ## 4. Matching -/

/-- An order is gone, or what is left of it is an order at the same price. -/
def Shrunk (a : LimitOrder) (o : Option LimitOrder) : Prop :=
  ∀ b, o = some b → b.Sound ∧ b.sellPrice = a.sellPrice

theorem shrunk_none (a : LimitOrder) : Shrunk a none := fun _ h => by cases h

theorem shrunk_less {a : LimitOrder} {pays : Int} (h : (a.less pays).Sound) :
    Shrunk a (some (a.less pays)) := by
  intro b hb
  cases hb
  exact ⟨h, rfl⟩

theorem Asset.le_of_same {a b : Asset} (h : a.assetId = b.assetId) :
    a.le b = .ok (decide (a.amount ≤ b.amount)) := by
  unfold Asset.le
  split
  · rename_i e
    rw [e, decide_eq_true le_rfl]
  · rename_i hne
    have hamount : a.amount ≠ b.amount := by
      intro e
      cases a
      cases b
      simp only at h e
      exact hne (by rw [h, e])
    unfold Asset.lt Asset.sameAsset
    rw [if_pos h]
    show Except.ok (decide (a.amount < b.amount)) = _
    rw [decide_eq_decide.mpr (lt_iff_le_and_ne.trans (and_iff_left hamount))]

/-- A comparison that returns is one of amounts of the same asset. -/
theorem Asset.le_ok {a b : Asset} {r : Bool} (h : a.le b = .ok r) : a.assetId = b.assetId := by
  unfold Asset.le at h
  split at h
  · rename_i e
    rw [e]
  · obtain ⟨_, hsame, _⟩ := except_bind_ok.mp h
    exact Asset.sameAsset_ok hsame

/-- What each of two orders pays the other, at the price of the old one: amounts are only compared
when the new order sells what the old one asks for. -/
theorem matchAmounts_sound {a b : LimitOrder} (ha : a.Sound) (hb : b.Sound) {x y : Asset}
    (h : matchAmounts a.amountForSale b.amountForSale b.sellPrice = .ok (x, y)) :
    a.sellPrice.base.assetId = b.sellPrice.quote.assetId ∧
      x.assetId = b.sellPrice.base.assetId ∧ y.assetId = a.sellPrice.base.assetId ∧
      0 ≤ x.amount ∧ x.amount ≤ b.forSale ∧ 0 ≤ y.amount ∧ y.amount ≤ a.forSale ∧
      (y.amount = a.forSale ∨ x.amount = b.forSale) := by
  obtain ⟨worth, hw, h⟩ := except_bind_ok.mp h
  have e : b.amountForSale.mul b.sellPrice = b.amountToReceive := rfl
  rw [e, hb.amountToReceive] at hw
  cases hw
  have hw1 := hb.worth_ge
  obtain ⟨le, hle, h⟩ := except_bind_ok.mp h
  have hsame : a.amountForSale.assetId = b.sellPrice.quote.assetId := by
    have hcompared := Asset.le_ok hle
    exact hcompared
  have hdec := @Asset.le_of_same a.amountForSale ⟨b.worth, b.sellPrice.quote.assetId⟩ hsame
  rw [hdec] at hle
  have hle' : decide (a.forSale ≤ b.worth) = le := Except.ok.inj hle
  have hf := ha.forSale.1
  cases le with
  | true =>
    have hfit : a.forSale ≤ b.worth := of_decide_eq_true hle'
    -- the new order is the smaller one: it pays all it has
    obtain ⟨r, hr, h⟩ := except_bind_ok.mp h
    cases h
    have hprod : a.forSale * b.sellPrice.base.amount ≤ b.forSale * b.sellPrice.quote.amount :=
      (Int.le_ediv_iff_mul_le hb.base.1).mp hfit
    have hdiv : a.forSale * b.sellPrice.base.amount / b.sellPrice.quote.amount ≤ b.forSale :=
      Int.ediv_le_of_le_mul hb.quote.1 hprod
    have hr' : x = ⟨a.forSale * b.sellPrice.base.amount / b.sellPrice.quote.amount,
        b.sellPrice.base.assetId⟩ := by
      unfold Asset.mul at hr
      rw [if_neg (by rw [hsame]; exact hb.assets.symm), if_pos hsame] at hr
      rw [show a.amountForSale.amount = a.forSale from rfl,
        Price.scale_of_fits hf.le ha.forSale.2 hb.base hb.quote
          (le_trans hdiv hb.forSale.2)] at hr
      exact (Except.ok.inj hr).symm
    subst hr'
    refine ⟨hsame, rfl, rfl, ?_, hdiv, hf.le, le_rfl, .inl rfl⟩
    exact Int.ediv_nonneg (mul_nonneg hf.le hb.base.1.le) hb.quote.1.le
  | false =>
    have hfit : ¬a.forSale ≤ b.worth := of_decide_eq_false hle'
    cases h
    refine ⟨hsame, rfl, hsame.symm, hb.forSale.1.le, le_rfl, ?_, ?_, .inr rfl⟩
    · show 0 ≤ b.worth
      omega
    · show b.worth ≤ a.forSale
      omega

/-- **A match takes one of the two orders from the book**, and what is left of the other is an
order at its price. -/
theorem matchOrders_orders {i j : Nat} (hij : i ≠ j) {a b : LimitOrder}
    (ha : d.store.orders i = some a) (hb : d.store.orders j = some b) (hsa : a.Sound)
    (hsb : b.Sound) {gone : Bool × Bool}
    (h : (matchOrders i j b.sellPrice : Act n (Bool × Bool)).run d = .ok gone d') :
    ∃ o p, d'.store.orders = Function.update (Function.update d.store.orders i o) j p ∧
      Shrunk a o ∧ Shrunk b p ∧ (gone.1 = true → o = none) ∧
      (gone.1 = false → p = none ∧ o.isSome = true) := by
  obtain ⟨a', ha', h⟩ := bind_getObject_ok.mp h
  obtain rfl : a = a' := Option.some.inj (ha.symm.trans ha')
  obtain ⟨b', hb', h⟩ := bind_getObject_ok.mp h
  obtain rfl : b = b' := Option.some.inj (hb.symm.trans hb')
  obtain ⟨⟨x, y⟩, hm, h⟩ := Action.bind_lift_ok.mp h
  obtain ⟨-, hx, hy, hx0, hxb, hy0, hya, hall⟩ := matchAmounts_sound hsa hsb hm
  obtain ⟨newGone, d₁, h1, h⟩ := Action.bind_ok.mp h
  obtain ⟨oldGone, d₂, h2, h⟩ := Action.bind_ok.mp h
  cases h
  obtain ⟨x, xa⟩ := x
  obtain ⟨y, ya⟩ := y
  dsimp only at hx hy hx0 hxb hy0 hya hall
  subst hx hy
  have hbefore : ∀ o, d₁.store.orders = Function.update d.store.orders i o →
      d₁.store.orders j = some b := by
    intro o e
    rw [e, Function.update_of_ne hij.symm]
    exact hb
  have hnew : ∃ o, d₁.store.orders = Function.update d.store.orders i o ∧ Shrunk a o ∧
      (newGone = true → o = none) ∧ (newGone = false → o.isSome = true ∧ y < a.forSale) := by
    obtain ⟨rfl, e⟩ | ⟨rfl, hlt, hs, e⟩ := fillOrder_orders ha hsa hy0 hya h1
    · exact ⟨none, e, shrunk_none a, fun _ => rfl, fun h => (by cases h)⟩
    · exact ⟨some (a.less y), e, shrunk_less hs, fun h => (by cases h), fun _ => ⟨rfl, hlt⟩⟩
  obtain ⟨o, e1, hsh, hgone, hkept⟩ := hnew
  obtain ⟨rfl, e2⟩ | ⟨rfl, hlt, hs, e2⟩ := fillOrder_orders (hbefore o e1) hsb hx0 hxb h2
  · refine ⟨o, none, ?_, hsh, shrunk_none b, hgone, fun h => ⟨rfl, (hkept h).1⟩⟩
    rw [e2, e1]
  · refine ⟨o, some (b.less x), ?_, hsh, shrunk_less hs, hgone, fun h => ?_⟩
    · rw [e2, e1]
    · have := (hkept h).2
      omega

end

/-! ## 5. The book -/

theorem Crossed.congr {a b a' b' : LimitOrder} (ha : a.sellPrice = a'.sellPrice)
    (hb : b.sellPrice = b'.sellPrice) (h : Crossed a b) : Crossed a' b' := by
  unfold Crossed Opposite at h ⊢
  rwa [← ha, ← hb]

theorem Crossed.symm {a b : LimitOrder} (ha : a.Sound) (hb : b.Sound) (h : Crossed a b) :
    Crossed b a := by
  obtain ⟨ho, hle⟩ := (ha.crossed_iff hb).mp h
  refine (hb.crossed_iff ha).mpr ⟨⟨ho.2.symm, ho.1.symm⟩, ?_⟩
  rwa [mul_comm b.sellPrice.quote.amount, mul_comm b.sellPrice.base.amount]

/-- The book is in order: every order is sound and no two are crossed. -/
structure Book (f : Nat → Option LimitOrder) : Prop where
  sound : ∀ i o, f i = some o → o.Sound
  apart : ∀ i j a b, f i = some a → f j = some b → ¬Crossed a b

/-- Orders that vanish or shrink leave the book in order. -/
theorem Book.shrink {f g : Nat → Option LimitOrder} (h : Book f)
    (hg : ∀ i o, g i = some o → o.Sound ∧ ∃ o₀, f i = some o₀ ∧ o.sellPrice = o₀.sellPrice) :
    Book g := by
  refine ⟨fun i o ho => (hg i o ho).1, fun i j a b ha hb hc => ?_⟩
  obtain ⟨_, a₀, ha0, ea⟩ := hg i a ha
  obtain ⟨_, b₀, hb0, eb⟩ := hg j b hb
  exact h.apart i j a₀ b₀ ha0 hb0 (hc.congr ea eb)

theorem Book.drop {f : Nat → Option LimitOrder} (h : Book f) (i : Nat) :
    Book (Function.update f i none) := by
  refine h.shrink fun j o ho => ?_
  rw [Function.update_apply] at ho
  split at ho
  · cases ho
  · exact ⟨h.sound j o ho, o, ho, rfl⟩

/-- **While a new order is matched**: the book without it is in order, and the orders that cross it
are among those to visit. -/
structure Scan (i : Nat) (a : LimitOrder) (l : List (Nat × LimitOrder))
    (f : Nat → Option LimitOrder) : Prop where
  new : f i = some a
  sound : a.Sound
  rest : Book (Function.update f i none)
  nodup : (l.map Prod.fst).Nodup
  listed : ∀ r ∈ l, r.1 ≠ i ∧ f r.1 = some r.2 ∧ Opposite a r.2
  cover : ∀ j b, j ≠ i → f j = some b → Crossed a b → (j, b) ∈ l

namespace Scan

variable {i : Nat} {a : LimitOrder} {r : Nat × LimitOrder} {l : List (Nat × LimitOrder)}
  {f : Nat → Option LimitOrder}

theorem sound_of_ne (h : Scan i a l f) {j : Nat} {b : LimitOrder} (hj : j ≠ i)
    (hb : f j = some b) : b.Sound :=
  h.rest.sound j b (by rw [Function.update_of_ne hj]; exact hb)

/-- Nothing is left to visit, so nothing crosses the new order. -/
theorem done (h : Scan i a [] f) : Book f := by
  have hfree : ∀ j b, f j = some b → ¬Crossed a b := by
    intro j b hb hc
    by_cases hj : j = i
    · subst hj
      obtain rfl : a = b := Option.some.inj (h.new.symm.trans hb)
      exact h.sound.assets hc.1.1
    · exact absurd (h.cover j b hj hb hc) List.not_mem_nil
  have hsound : ∀ j b, f j = some b → b.Sound := by
    intro j b hb
    by_cases hj : j = i
    · subst hj
      obtain rfl : a = b := Option.some.inj (h.new.symm.trans hb)
      exact h.sound
    · exact h.sound_of_ne hj hb
  refine ⟨hsound, fun j k b c hb hc hx => ?_⟩
  by_cases hj : j = i
  · subst hj
    obtain rfl : a = b := Option.some.inj (h.new.symm.trans hb)
    exact hfree k c hc hx
  · by_cases hk : k = i
    · subst hk
      obtain rfl : a = c := Option.some.inj (h.new.symm.trans hc)
      exact hfree j b hb (hx.symm (hsound j b hb) h.sound)
    · refine h.rest.apart j k b c ?_ ?_ hx
      · rw [Function.update_of_ne hj]
        exact hb
      · rw [Function.update_of_ne hk]
        exact hc

/-- The new order is gone. -/
theorem gone (h : Scan i a (r :: l) f) {p : Option LimitOrder} (hp : Shrunk r.2 p) :
    Book (Function.update (Function.update f i none) r.1 p) := by
  obtain ⟨hri, hr, _⟩ := h.listed r List.mem_cons_self
  refine h.rest.shrink fun j o ho => ?_
  by_cases hj : j = r.1
  · subst hj
    rw [Function.update_self] at ho
    refine ⟨(hp o ho).1, r.2, ?_, (hp o ho).2⟩
    rw [Function.update_of_ne hri]
    exact hr
  · rw [Function.update_of_ne hj] at ho
    exact ⟨h.rest.sound j o ho, o, ho, rfl⟩

/-- The old order is gone, and the new one goes on. -/
theorem next (h : Scan i a (r :: l) f) {a' : LimitOrder} (ha : a'.Sound)
    (hp : a'.sellPrice = a.sellPrice) :
    Scan i a' l (Function.update (Function.update f i (some a')) r.1 none) := by
  obtain ⟨hri, hr, _⟩ := h.listed r List.mem_cons_self
  have hnd : r.1 ∉ l.map Prod.fst ∧ (l.map Prod.fst).Nodup := List.nodup_cons.mp h.nodup
  refine ⟨?_, ha, ?_, hnd.2, fun q hq => ?_, fun j b hj hb hc => ?_⟩
  · rw [Function.update_of_ne hri.symm, Function.update_self]
  · refine h.rest.shrink fun j o ho => ?_
    simp only [Function.update_apply] at ho ⊢
    split at ho
    · cases ho
    · rename_i hj
      split at ho
      · cases ho
      · rw [if_neg hj]
        exact ⟨h.sound_of_ne hj ho, o, ho, rfl⟩
  · obtain ⟨hqi, hq', ho⟩ := h.listed q (List.mem_cons_of_mem _ hq)
    have hqr : q.1 ≠ r.1 := fun e => hnd.1 (e ▸ List.mem_map_of_mem hq)
    refine ⟨hqi, ?_, ?_⟩
    · rw [Function.update_of_ne hqr, Function.update_of_ne hqi]
      exact hq'
    · unfold Opposite
      rw [hp]
      exact ho
  · simp only [Function.update_apply] at hb
    split at hb
    · cases hb
    · rename_i hjr
      rcases List.mem_cons.mp (h.cover j b hj hb (hc.congr hp rfl)) with e | hm
      · exact absurd (congrArg Prod.fst e) hjr
      · exact hm

end Scan

theorem matchEach_book {d d' : Database chainSchema} {i : Nat} {a : LimitOrder}
    {l : List (Nat × LimitOrder)} (h : Scan i a l d.store.orders) {u : Unit}
    (hr : (matchEach i l : Act n Unit).run d = .ok u d') : Book d'.store.orders := by
  induction l generalizing d a with
  | nil =>
    cases hr
    exact h.done
  | cons r l ih =>
    obtain ⟨hri, hb, -⟩ := h.listed r List.mem_cons_self
    obtain ⟨gone, d₁, h1, hr⟩ := Action.bind_ok.mp hr
    obtain ⟨o, p, e, hso, hsp, hgone, hkept⟩ :=
      matchOrders_orders hri.symm h.new hb h.sound (h.sound_of_ne hri hb) h1
    obtain ⟨newGone, oldGone⟩ := gone
    cases newGone with
    | true =>
      cases hr
      obtain rfl := hgone rfl
      rw [e]
      exact h.gone hsp
    | false =>
      obtain ⟨rfl, hsome⟩ := hkept rfl
      obtain ⟨a', rfl⟩ := Option.isSome_iff_exists.mp hsome
      obtain ⟨hs, hp⟩ := hso a' rfl
      refine ih (a := a') ?_ hr
      rw [e]
      exact h.next hs hp

/-! ## 6. The orders a new one is matched with -/

namespace Price

theorem ble_base {a b : Price} (h : a.ble b = true) : a.base.assetId ≤ b.base.assetId := by
  unfold ble beq blt at h
  by_contra hlt
  simp only [not_le] at hlt
  rw [if_neg (not_lt.mpr hlt.le), if_pos hlt] at h
  simp [hlt.ne'] at h

theorem ble_quote {a b : Price} (h : a.ble b = true) (e : a.base.assetId = b.base.assetId) :
    a.quote.assetId ≤ b.quote.assetId := by
  unfold ble beq blt at h
  by_contra hlt
  simp only [not_le] at hlt
  rw [if_neg (by omega), if_neg (by omega), if_neg (not_lt.mpr hlt.le), if_pos hlt] at h
  simp [hlt.ne'] at h

/-- Prices of one pair of assets are compared by their ratios. -/
theorem ble_of_same {a b : Price} (hb : a.base.assetId = b.base.assetId)
    (hq : a.quote.assetId = b.quote.assetId) :
    a.ble b = decide (mul128 b.quote.amount a.base.amount ≤
      mul128 a.quote.amount b.base.amount) := by
  unfold ble beq blt
  rw [if_neg (by omega), if_neg (by omega), if_neg (by omega), if_neg (by omega)]
  simp only [hb, hq, decide_true, Bool.true_and, ← Bool.decide_or]
  exact decide_eq_decide.mpr le_iff_eq_or_lt.symm

end Price

theorem ordersBetween_nodup (s : Store chainSchema) (p : Nat × LimitOrder → Bool)
    (r : Nat × LimitOrder → Nat × LimitOrder → Bool) :
    ((((s.rows Kind.limitOrder).filter p).insertionSort fun a b => r a b).map Prod.fst).Nodup := by
  refine ((List.perm_insertionSort _ _).map Prod.fst).nodup_iff.mpr ?_
  refine List.pairwise_map.mpr (List.Pairwise.imp ?_
    ((s.table Kind.limitOrder).map.sorted.sublist List.filter_sublist))
  intro a b h
  exact Nat.ne_of_lt h

/-- `p.max()`, where it does not throw. -/
theorem Price.maxOf_ok {x y : Nat} {best : Price} (h : Price.maxOf x y = .ok best) :
    best = ⟨⟨maxShareSupply, x⟩, ⟨1, y⟩⟩ := by
  unfold Price.maxOf Price.ofAssets at h
  split at h
  · cases h
  · exact (Except.ok.inj h).symm

/-- A new order is matched with other orders only, which are in the opposite direction. -/
theorem listed_ordersBetween {s : Store chainSchema} {i : Nat} {a : LimitOrder}
    (hi : s.orders i = some a) (ha : a.sellPrice.base.assetId ≠ a.sellPrice.quote.assetId)
    {best : Price} (hbest : Price.maxOf a.sellPrice.invert.base.assetId
      a.sellPrice.invert.quote.assetId = .ok best) {r : Nat × LimitOrder}
    (hr : r ∈ ((s.rows Kind.limitOrder).filter fun r : Nat × LimitOrder =>
      !r.2.sellPrice.bgt best && !a.sellPrice.invert.bgt r.2.sellPrice).insertionSort
        fun a b => byPrice a b) : r.1 ≠ i ∧ s.orders r.1 = some r.2 ∧ Opposite a r.2 := by
  obtain rfl := Price.maxOf_ok hbest
  obtain ⟨hm, hf⟩ := List.mem_filter.mp ((List.mem_insertionSort _).mp hr)
  simp only [Price.bgt, Bool.not_not, Bool.and_eq_true] at hf
  have hbase : r.2.sellPrice.base.assetId = a.sellPrice.quote.assetId :=
    Nat.le_antisymm (Price.ble_base hf.1) (Price.ble_base hf.2)
  have hquote : r.2.sellPrice.quote.assetId = a.sellPrice.base.assetId :=
    Nat.le_antisymm (Price.ble_quote hf.1 hbase) (Price.ble_quote hf.2 hbase.symm)
  have hget : s.orders r.1 = some r.2 := FMap.mem_rows.mp hm
  refine ⟨?_, hget, hquote.symm, hbase.symm⟩
  rintro rfl
  obtain rfl : a = r.2 := Option.some.inj (hi.symm.trans hget)
  exact ha hbase

/-- **A new order is matched with every order that crosses it**: none is above the greatest price
that the search begins with. -/
theorem scan_ordersBetween {s : Store chainSchema} {i : Nat} {a : LimitOrder}
    (hi : s.orders i = some a) (ha : a.Sound) (hrest : Book (Function.update s.orders i none))
    (hs : ∀ j b, j ≠ i → s.orders j = some b → b.forSale ≤ maxShareSupply) {best : Price}
    (hbest : Price.maxOf a.sellPrice.invert.base.assetId a.sellPrice.invert.quote.assetId =
      .ok best) :
    Scan i a (((s.rows Kind.limitOrder).filter fun r : Nat × LimitOrder =>
      !r.2.sellPrice.bgt best && !a.sellPrice.invert.bgt r.2.sellPrice).insertionSort
        fun a b => byPrice a b) s.orders := by
  refine ⟨hi, ha, hrest, ordersBetween_nodup s _ _, fun r hr =>
    listed_ordersBetween hi ha.assets hbest hr, fun j b hj hb hc => ?_⟩
  · obtain rfl := Price.maxOf_ok hbest
    have hsb : b.Sound := hrest.sound j b (by rw [Function.update_of_ne hj]; exact hb)
    obtain ⟨ho, hle⟩ := (ha.crossed_iff hsb).mp hc
    refine (List.mem_insertionSort _).mpr (List.mem_filter.mpr ⟨FMap.mem_rows.mpr hb, ?_⟩)
    simp only [Price.bgt, Bool.not_not, Bool.and_eq_true]
    rw [Price.ble_of_same ho.2.symm ho.1.symm, Price.ble_of_same ho.2 ho.1]
    have hcap : (0 : Int) ≤ maxShareSupply := by decide
    have hcap' : (maxShareSupply : Int) ≤ int64Max := by decide
    refine ⟨decide_eq_true ?_, decide_eq_true ?_⟩
    · show Price.mul128 1 b.sellPrice.base.amount ≤
        Price.mul128 b.sellPrice.quote.amount maxShareSupply
      rw [Price.mul128_of_nonneg (by decide) (by decide) hsb.base.1.le hsb.base.2,
        Price.mul128_of_nonneg hsb.quote.1.le hsb.quote.2 hcap hcap', one_mul, mul_comm]
      exact Int.toNat_le_toNat (hsb.price_le (hs j b hj hb))
    · show Price.mul128 b.sellPrice.quote.amount a.sellPrice.quote.amount ≤
        Price.mul128 a.sellPrice.base.amount b.sellPrice.base.amount
      rw [Price.mul128_of_nonneg hsb.quote.1.le hsb.quote.2 ha.quote.1.le ha.quote.2,
        Price.mul128_of_nonneg ha.base.1.le ha.base.2 hsb.base.1.le hsb.base.2, mul_comm]
      exact Int.toNat_le_toNat hle

/-! ## 7. The operations -/

section

variable {d d' : Database chainSchema} {u : Unit}

/-- No open order sells more than the greatest supply. -/
def Affordable (s : Store chainSchema) : Prop :=
  ∀ i o, s.orders i = some o → o.forSale ≤ maxShareSupply

theorem applyOrder_book {i : Nat} {a : LimitOrder} (hi : d.store.orders i = some a)
    (ha : a.Sound) (hrest : Book (Function.update d.store.orders i none))
    (hs : ∀ j b, j ≠ i → d.store.orders j = some b → b.forSale ≤ maxShareSupply) {gone : Bool}
    (h : (applyOrder i : Act n Bool).run d = .ok gone d') : Book d'.store.orders := by
  obtain ⟨a', ha', h⟩ := bind_getObject_ok.mp h
  obtain rfl : a = a' := Option.some.inj (hi.symm.trans ha')
  obtain ⟨best, hbest, h⟩ := Action.bind_lift_ok.mp h
  have h := Action.bind_read_ok.mp h
  obtain ⟨_, d₁, h1, h⟩ := Action.bind_ok.mp h
  cases h
  exact matchEach_book (scan_ordersBetween hi ha hrest hs hbest) h1

/-- A new order is put into the book under an id of its own and matched. -/
theorem placeOrder_orders {owner : String} {orderid : Nat} {amountToSell : Asset}
    {fillOrKill : Bool} {expiration : Nat} {sellPrice : Except Exn Price} {price : Price}
    (hp : sellPrice = .ok price)
    (h : (placeOrder owner orderid amountToSell fillOrKill expiration sellPrice :
      Act n Unit).run d = .ok u d') :
    ∃ now i gone d₂ d₃, d₂.store.orders = Function.update d.store.orders i (some
        { created := now, seller := owner, orderid := orderid, forSale := amountToSell.amount,
          sellPrice := price, expiration := expiration }) ∧
      (applyOrder i : Act n Bool).run d₂ = .ok gone d₃ ∧ d'.store.orders = d₃.store.orders := by
  unfold placeOrder at h
  obtain ⟨p, _, h⟩ := bind_headBlockTime_ok h
  obtain ⟨_, h⟩ := Action.bind_require_ok.mp h
  obtain ⟨acc, _, _, _, h⟩ := bind_getAccountId_ok h
  obtain ⟨balance, d₀, e0, h⟩ := bind_same_ok (by simp) h
  obtain ⟨_, _, h⟩ := Action.bind_lift_ok.mp h
  obtain ⟨_, h⟩ := Action.bind_require_ok.mp h
  obtain ⟨neg, _, h⟩ := Action.bind_lift_ok.mp h
  obtain ⟨_, d₁, h1, h⟩ := Action.bind_ok.mp h
  rw [hp] at h
  obtain ⟨_, hpr, h⟩ := Action.bind_lift_ok.mp h
  cases hpr
  obtain ⟨i, d₂, h2, h⟩ := Action.bind_ok.mp h
  obtain ⟨hi, hnone, hf, e⟩ := create_store h2
  have e1 : d₁.store.orders = d.store.orders := by
    have := (ordersStay_adjustBalance acc neg).step h1
    rwa [e0] at this
  have e2 : d₂.store.orders = Function.update d.store.orders i (some
      { created := p.time, seller := owner, orderid := orderid, forSale := amountToSell.amount,
        sellPrice := price, expiration := expiration }) := by
    rw [e, ← e1, hi]
    exact Store.orders_write _ _ _ hf
  obtain ⟨gone, d₃, h3, h⟩ := Action.bind_ok.mp h
  have hlooks : Looks (if fillOrKill then Action.require (gone = true) "filled" else pure () :
      Act n Unit) := by
    split <;> simp
  refine ⟨p.time, i, gone, d₂, d₃, e2, h3, ?_⟩
  rw [hlooks.of_ok h]

/-- **A new order leaves the book in order.** -/
theorem placeOrder_book {owner : String} {orderid : Nat} {amountToSell : Asset}
    {fillOrKill : Bool} {expiration : Nat} {sellPrice : Except Exn Price} {price : Price}
    (hp : sellPrice = .ok price)
    (hnew : ∀ now, LimitOrder.Sound
      { created := now, seller := owner, orderid := orderid, forSale := amountToSell.amount,
        sellPrice := price, expiration := expiration })
    (hb : Book d.store.orders) (hs : Affordable d.store)
    (h : (placeOrder owner orderid amountToSell fillOrKill expiration sellPrice :
      Act n Unit).run d = .ok u d') : Book d'.store.orders := by
  obtain ⟨now, i, gone, d₂, d₃, e, hr, e'⟩ := placeOrder_orders hp h
  rw [e']
  refine applyOrder_book ?_ (hnew now) ?_ (fun j b hj hjb => ?_) hr
  · rw [e, Function.update_self]
  · rw [e, Function.update_idem]
    exact hb.drop i
  · rw [e, Function.update_of_ne hj] at hjb
    exact hs j b hjb

theorem cancelOrder_book {i : Nat} (hb : Book d.store.orders)
    (h : (cancelOrder i : Act n Unit).run d = .ok u d') : Book d'.store.orders := by
  rw [cancelOrder_orders h]
  exact hb.drop i

theorem limitOrderCancel_book {owner : String} {orderid : Nat} (hb : Book d.store.orders)
    (h : (limitOrderCancel owner orderid : Act n Unit).run d = .ok u d') :
    Book d'.store.orders := by
  obtain ⟨i, _, _, _, h⟩ := bind_getRow_ok h
  exact cancelOrder_book hb h

theorem cancelEach_book {l : List (Nat × LimitOrder)} (hb : Book d.store.orders)
    (h : (Action.forEach l fun o => cancelOrder o.1 : Act n Unit).run d = .ok u d') :
    Book d'.store.orders := by
  induction l generalizing d with
  | nil =>
    cases h
    exact hb
  | cons r l ih =>
    obtain ⟨_, d₁, h1, h⟩ := Action.bind_ok.mp h
    exact ih (cancelOrder_book hb h1) h

theorem clearExpiredOrders_book (hb : Book d.store.orders)
    (h : (clearExpiredOrders : Act n Unit).run d = .ok u d') : Book d'.store.orders := by
  obtain ⟨p, _, h⟩ := bind_headBlockTime_ok h
  exact cancelEach_book hb (Action.bind_read_ok.mp h)

end

/-- An amount that an `int64_t` can hold. -/
def Asset.Fits (a : Asset) : Prop := int64Min ≤ a.amount ∧ a.amount ≤ int64Max

instance (a : Asset) : Decidable a.Fits := inferInstanceAs (Decidable (_ ∧ _))

theorem Price.validate_ok {p : Price} {u : Unit} (h : p.validate = .ok u) :
    0 < p.base.amount ∧ 0 < p.quote.amount ∧ p.base.assetId ≠ p.quote.assetId := by
  unfold Price.validate at h
  split at h
  · cases h
  · split at h
    · cases h
    · split at h
      · cases h
      · rename_i hb hq ha
        exact ⟨not_le.mp hb, not_le.mp hq, ha⟩

/-- What a validated operation of the first kind puts into the book. -/
theorem LimitOrderCreateOp.sound {o : LimitOrderCreateOp} (hs : o.amountToSell.Fits)
    (hm : o.minToReceive.Fits) {u : Unit} (h : o.validate = .ok u) :
    Price.ofAssets o.amountToSell o.minToReceive = .ok ⟨o.amountToSell, o.minToReceive⟩ ∧
    ∀ now, LimitOrder.Sound
      { created := now, seller := o.owner, orderid := o.orderid,
        forSale := o.amountToSell.amount, sellPrice := ⟨o.amountToSell, o.minToReceive⟩,
        expiration := o.expiration } := by
  obtain ⟨_, h⟩ := check_bind_ok.mp h
  obtain ⟨_, h⟩ := check_bind_ok.mp h
  obtain ⟨_, h⟩ := check_bind_ok.mp h
  obtain ⟨p, hp, h⟩ := except_bind_ok.mp h
  have e : p = ⟨o.amountToSell, o.minToReceive⟩ := by
    unfold Price.ofAssets at hp
    split at hp
    · cases hp
    · exact (Except.ok.inj hp).symm
  subst e
  obtain ⟨hb, hq, ha⟩ := Price.validate_ok h
  have hdiv : o.amountToSell.amount * o.minToReceive.amount / o.amountToSell.amount =
      o.minToReceive.amount := Int.mul_ediv_cancel_left _ (ne_of_gt hb)
  refine ⟨hp, fun now => ⟨⟨hb, hs.2⟩, ⟨hq, hm.2⟩, ha, ⟨hb, hs.2⟩, ?_, ?_⟩⟩
  · show o.amountToSell.amount ≤ o.amountToSell.amount * o.minToReceive.amount
    exact le_mul_of_one_le_right hb.le hq
  · show o.amountToSell.amount * o.minToReceive.amount / o.amountToSell.amount ≤ int64Max
    rw [hdiv]
    exact hm.2

/-- What a validated operation of the second kind puts into the book. -/
theorem LimitOrderCreate2Op.sound {o : LimitOrderCreate2Op} (hs : o.amountToSell.Fits)
    (hb : o.exchangeRate.base.Fits) (hq : o.exchangeRate.quote.Fits) {u : Unit}
    (h : o.validate = .ok u) (now : Nat) :
    LimitOrder.Sound
      { created := now, seller := o.owner, orderid := o.orderid,
        forSale := o.amountToSell.amount, sellPrice := o.exchangeRate,
        expiration := o.expiration } := by
  obtain ⟨_, h⟩ := check_bind_ok.mp h
  obtain ⟨hsame, h⟩ := check_bind_ok.mp h
  obtain ⟨_, hv, h⟩ := except_bind_ok.mp h
  obtain ⟨_, h⟩ := check_bind_ok.mp h
  obtain ⟨_, h⟩ := check_bind_ok.mp h
  obtain ⟨a, hm, h⟩ := except_bind_ok.mp h
  have hpos := check_ok.mp h
  obtain ⟨hb0, hq0, ha⟩ := Price.validate_ok hv
  unfold Asset.mul at hm
  rw [if_pos hsame] at hm
  obtain ⟨x, hx, hm⟩ := except_bind_ok.mp hm
  cases hm
  obtain ⟨hsale, hworth, hfits⟩ :=
    Price.scale_pos hs.1 hs.2 ⟨hq0, hq.2⟩ ⟨hb0, hb.2⟩ hx hpos
  exact ⟨⟨hb0, hb.2⟩, ⟨hq0, hq.2⟩, ha, ⟨hsale, hs.2⟩, hworth, hfits⟩

/-! ## 8. Runs -/

section

variable [Fc]

/-- What happens to the book: a validated operation on orders is applied, the expired orders are
cleared, or something happens that leaves the orders alone. -/
inductive MarketStep (clock : Nat) : Database chainSchema → Database chainSchema → Prop
  | create {d d' : Database chainSchema} {u : Unit} (n : Nat) (o : LimitOrderCreateOp) :
      o.amountToSell.Fits → o.minToReceive.Fits →
      (Operation.limitOrderCreate o).validate = .ok () →
      (applyOperation clock n (.limitOrderCreate o)).run d = .ok u d' → MarketStep clock d d'
  | create2 {d d' : Database chainSchema} {u : Unit} (n : Nat) (o : LimitOrderCreate2Op) :
      o.amountToSell.Fits → o.exchangeRate.base.Fits → o.exchangeRate.quote.Fits →
      (Operation.limitOrderCreate2 o).validate = .ok () →
      (applyOperation clock n (.limitOrderCreate2 o)).run d = .ok u d' → MarketStep clock d d'
  | cancel {d d' : Database chainSchema} {u : Unit} (n : Nat) (owner : String) (orderid : Nat) :
      (applyOperation clock n (.limitOrderCancel owner orderid)).run d = .ok u d' →
      MarketStep clock d d'
  | expire {d d' : Database chainSchema} {u : Unit} (n : Nat) :
      (clearExpiredOrders : Act n Unit).run d = .ok u d' → MarketStep clock d d'
  | other {d d' : Database chainSchema} : d'.store.orders = d.store.orders → MarketStep clock d d'

/-- A run of such steps, in which no order ever sells more than the greatest supply. -/
inductive MarketRun (clock : Nat) (d₀ : Database chainSchema) : Database chainSchema → Prop
  | start : MarketRun clock d₀ d₀
  | step {d d' : Database chainSchema} : MarketRun clock d₀ d → Affordable d.store →
      MarketStep clock d d' → MarketRun clock d₀ d'

theorem MarketStep.book {clock : Nat} {d d' : Database chainSchema} (h : MarketStep clock d d')
    (hs : Affordable d.store) (hb : Book d.store.orders) : Book d'.store.orders := by
  cases h with
  | create n o hsell hmin hv hr =>
    obtain ⟨hp, hnew⟩ := LimitOrderCreateOp.sound hsell hmin hv
    exact placeOrder_book hp hnew hb hs hr
  | create2 n o hsell hbase hquote hv hr =>
    exact placeOrder_book rfl (LimitOrderCreate2Op.sound hsell hbase hquote hv) hb hs hr
  | cancel n owner orderid hr => exact limitOrderCancel_book hb hr
  | expire n hr => exact clearExpiredOrders_book hb hr
  | other e =>
    rw [e]
    exact hb

theorem MarketRun.book {clock : Nat} {d₀ d : Database chainSchema} (h : MarketRun clock d₀ d)
    (hb : Book d₀.store.orders) : Book d.store.orders := by
  induction h with
  | start => exact hb
  | step _ hs hstep ih => exact hstep.book hs ih

/-- **The order book is never crossed.** Whatever is ordered, cancelled and expires, from an empty
book on no two open orders in opposite directions of a market meet, and every open order still
asks for something. -/
theorem orderBook_never_crossed {clock : Nat} {d₀ d : Database chainSchema}
    (h0 : ∀ i, d₀.store.get Kind.limitOrder i = none) (h : MarketRun clock d₀ d) :
    (∀ i j : Nat, ∀ a b : LimitOrder, d.store.get Kind.limitOrder i = some a →
      d.store.get Kind.limitOrder j = some b → ¬Crossed a b) ∧
    ∀ (i : Nat) (o : LimitOrder), d.store.get Kind.limitOrder i = some o →
      ∃ r, o.amountToReceive = .ok r ∧ 1 ≤ r.amount := by
  have hempty : Book d₀.store.orders := by
    refine ⟨fun i o ho => ?_, fun i j a b ha _ => ?_⟩
    · cases (h0 i).symm.trans ho
    · cases (h0 i).symm.trans ha
  have hb := h.book hempty
  refine ⟨hb.apart, fun i o ho => ?_⟩
  have hs := hb.sound i o ho
  exact ⟨_, hs.amountToReceive, hs.worth_ge⟩

end

section

attribute [local instance] sampleFc

/-- The genesis, in which the init miner holds some MBD. -/
def sampleMarket : Database chainSchema :=
  ((do
    let i ← getAccountId initMinerName
    Action.modify (S := chainSchema) Kind.account i fun a : Account =>
      { a with
        balance := Asset.muse 100
        mbdBalance := Asset.mbd 100
        mbdSecondsLastUpdate := genesisTime
        mbdLastInterestPayment := genesisTime } : Act 0 Unit).run
    (Node.genesis sampleGenesis).db).db

def sampleOffer : LimitOrderCreateOp where
  owner := initMinerName
  orderid := 1
  amountToSell := Asset.muse 10
  minToReceive := Asset.mbd 7
  fillOrKill := false
  expiration := genesisTime + 3600

def sampleBid : LimitOrderCreate2Op where
  owner := initMinerName
  orderid := 2
  amountToSell := Asset.mbd 5
  fillOrKill := false
  exchangeRate := ⟨Asset.mbd 5, Asset.muse 7⟩
  expiration := genesisTime + 3600

def offered : Database chainSchema :=
  ((applyOperation 0 0 (.limitOrderCreate sampleOffer)).run sampleMarket).db

def traded : Database chainSchema :=
  ((applyOperation 0 0 (.limitOrderCreate2 sampleBid)).run offered).db

/-- 10 MUSE are offered for 7 MBD and 5 MBD bid for 7 MUSE: 3 MUSE of the offer are left. -/
theorem orderBook_never_crossed_trade :
    MarketRun 0 sampleMarket traded ∧
      (traded.store.get Kind.limitOrder 0).map (fun o : LimitOrder => o.forSale) = some 3 ∧
      (∀ i j : Nat, ∀ a b : LimitOrder, traded.store.get Kind.limitOrder i = some a →
        traded.store.get Kind.limitOrder j = some b → ¬Crossed a b) ∧
      ∀ (i : Nat) (o : LimitOrder), traded.store.get Kind.limitOrder i = some o →
        ∃ r, o.amountToReceive = .ok r ∧ 1 ≤ r.amount := by
  have h0 : ∀ i, sampleMarket.store.get Kind.limitOrder i = none := by
    have hrows : sampleMarket.store.rows Kind.limitOrder = [] := by decide +kernel
    intro i
    refine Option.eq_none_iff_forall_ne_some.mpr fun o ho => ?_
    have hm : (i, o) ∈ sampleMarket.store.rows Kind.limitOrder := FMap.mem_rows.mpr ho
    rw [hrows] at hm
    exact absurd hm List.not_mem_nil
  have hcap : ((offered.store.rows Kind.limitOrder).all fun r : Nat × LimitOrder =>
      decide (r.2.forSale ≤ maxShareSupply)) = true := by decide +kernel
  obtain ⟨_, hoffer⟩ := Outcome.exists_of_isOk (show ((applyOperation 0 0
    (.limitOrderCreate sampleOffer)).run sampleMarket).isOk = true by decide +kernel)
  obtain ⟨_, hbid⟩ := Outcome.exists_of_isOk (show ((applyOperation 0 0
    (.limitOrderCreate2 sampleBid)).run offered).isOk = true by decide +kernel)
  have hrun : MarketRun 0 sampleMarket traded := by
    refine .step (.step .start (fun i o ho => ?_) (.create 0 sampleOffer (by decide) (by decide)
      (by decide +kernel) hoffer)) (fun i o ho => ?_)
      (.create2 0 sampleBid (by decide) (by decide) (by decide) (by decide +kernel) hbid)
    · cases (h0 i).symm.trans ho
    · exact of_decide_eq_true (List.all_eq_true.mp hcap (i, o) (FMap.mem_rows.mpr ho))
  exact ⟨hrun, by decide +kernel, orderBook_never_crossed h0 hrun⟩

end

end MuseChain
