/-
  File:      MuseChain/Safety/Matching.lean
  Subject:   What a match of two orders moves: who pays what, and that nothing comes or goes.

  * `Store.purse s acc z`: what an account can spend of an asset, with the interest on MBD that is due.
  * `surplus z s`: what is held of an asset in balances and open orders, less what the supply of MBD
    counts. Interest is added to both.
  * `Transfers f g s t`: a step that moves the purses by `f` and the surpluses by `g`. Transfers add up.
  * `LimitOrder.Served`: an order gets its price, or its price rounded down to whole units when it
    pays all that it has for sale.
  * **`orders_matched`**: two crossing orders are served, and a match moves nothing else.
-/
import MuseChain.Safety.OrderBook
import MuseChain.Safety.Supply
import MuseChain.Safety.Endings

namespace MuseChain

variable {n : Nat}

/-! ## 1. Purses -/

/-- The interest that the next change of the balance pays. -/
def Account.dueInterest (a : Account) (p : DynamicGlobalProperty) : Int :=
  if interestDue a p.time then
    match interestOf (addMbdSeconds a p.time) p.mbdInterestRate with
    | .ok x => x
    | .error _ => 0
  else 0

/-- What one account's balance objects hold of an asset. -/
def balanceWeight (acc z : Nat) : Weight chainSchema
  | .accountBalance => fun b : AccountBalance =>
      if b.owner = acc ∧ b.assetType = z then b.balance else 0
  | _ => fun _ => 0

/-- What an account can spend. -/
def Store.purse (s : Store chainSchema) (acc z : Nat) : Int :=
  if z = museSymbol then
    FMap.part (fun a : Account => a.balance.amount) (s.get Kind.account acc)
  else if z = mbdSymbol then
    FMap.part (fun a : Account => a.mbdBalance.amount + a.dueInterest s.props)
      (s.get Kind.account acc)
  else s.weight (balanceWeight acc z)

/-- What an object holds of an asset that can be sold. -/
def heldWeight (z : Nat) : Weight chainSchema
  | .account => fun a : Account =>
      (if z = museSymbol then a.balance.amount else 0) +
        if z = mbdSymbol then a.mbdBalance.amount else 0
  | .accountBalance => fun b : AccountBalance => if b.assetType = z then b.balance else 0
  | .limitOrder => fun o : LimitOrder => if o.sellPrice.base.assetId = z then o.forSale else 0
  | _ => fun _ => 0

def surplus (z : Nat) (s : Store chainSchema) : Int :=
  s.weight (heldWeight z) - if z = mbdSymbol then s.props.currentMbdSupply.amount else 0

/-- No interest is due to the account. -/
def NothingDue (s : Store chainSchema) (acc : Nat) : Prop :=
  ∃ p : DynamicGlobalProperty, s.get Kind.dynamicGlobalProperty 0 = some p ∧
    ∀ a : Account, s.get Kind.account acc = some a →
      a.mbdBalance.assetId = mbdSymbol ∧ interestDue a p.time = false

/-- The purses have moved by `f` and the surpluses by `g`; no account has another name, and no
interest is due that was not. -/
structure Transfers (f : Nat → Nat → Int) (g : Nat → Int) (s t : Store chainSchema) : Prop where
  purse : ∀ acc z, t.purse acc z = s.purse acc z + f acc z
  surplus : ∀ z, surplus z t = MuseChain.surplus z s + g z
  names : ∀ acc, (t.get Kind.account acc).map Account.name = (s.get Kind.account acc).map Account.name
  calm : ∀ acc, NothingDue s acc → NothingDue t acc
  fresh : s.Fresh → t.Fresh

theorem Transfers.trans {f f₂ : Nat → Nat → Int} {g g₂ : Nat → Int} {s t u : Store chainSchema}
    (h : Transfers f g s t) (h₂ : Transfers f₂ g₂ t u) :
    Transfers (fun acc z => f acc z + f₂ acc z) (fun z => g z + g₂ z) s u := by
  refine ⟨fun acc z => ?_, fun z => ?_, fun acc => (h₂.names acc).trans (h.names acc),
    fun acc hc => h₂.calm acc (h.calm acc hc), fun hf => h₂.fresh (h.fresh hf)⟩
  · rw [h₂.purse, h.purse]
    omega
  · rw [h₂.surplus, h.surplus]
    omega

theorem Transfers.refl (s : Store chainSchema) : Transfers (fun _ _ => 0) (fun _ => 0) s s :=
  ⟨fun _ _ => (add_zero _).symm, fun _ => (add_zero _).symm, fun _ => rfl, fun _ h => h, fun h => h⟩

theorem Transfers.of_eq {f f₂ : Nat → Nat → Int} {g g₂ : Nat → Int} {s t : Store chainSchema}
    (h : Transfers f g s t) (hf : ∀ acc z, f acc z = f₂ acc z) (hg : ∀ z, g z = g₂ z) :
    Transfers f₂ g₂ s t :=
  ⟨fun acc z => by rw [h.purse, hf], fun z => by rw [h.surplus, hg], h.names, h.calm, h.fresh⟩

/-- The amount of an asset, for that asset. -/
def Asset.of (a : Asset) (z : Nat) : Int := if z = a.assetId then a.amount else 0

theorem Asset.of_zero {a : Asset} (h : a.amount = 0) (z : Nat) : a.of z = 0 := by
  unfold Asset.of
  rw [h, ite_self]

/-- A payment to an account. -/
def paidTo (acc : Nat) (a : Asset) (acc' z : Nat) : Int := if acc' = acc then a.of z else 0

theorem paidTo_nonneg {acc : Nat} {a : Asset} (h : 0 ≤ a.amount) (acc' z : Nat) :
    0 ≤ paidTo acc a acc' z := by
  unfold paidTo Asset.of
  split
  · split
    · exact h
    · exact le_rfl
  · exact le_rfl

theorem paidTo_le {acc : Nat} {a : Asset} (h : 0 ≤ a.amount) (acc' z : Nat) :
    paidTo acc a acc' z ≤ a.amount := by
  unfold paidTo Asset.of
  split
  · split
    · exact le_rfl
    · exact h
  · exact h

/-- A payment is in one asset. -/
theorem paidTo_other {acc : Nat} {a : Asset} {z : Nat} (h : z ≠ a.assetId) (acc' : Nat) :
    paidTo acc a acc' z = 0 := by
  unfold paidTo Asset.of
  rw [if_neg h, ite_self]

/-! ## 2. Single writes -/

/-- An account is written: what is left of the rest of the state is its own balance. -/
theorem moves_writeAccount {s : Store chainSchema} {acc : Nat} {a b : Account}
    (hg : s.get Kind.account acc = some a) (hf : s.free Kind.account acc b = true)
    (hname : b.name = a.name) {m r : Int} (hm : b.balance.amount = a.balance.amount + m)
    (hr : b.mbdBalance.amount + b.dueInterest s.props =
      a.mbdBalance.amount + a.dueInterest s.props + r) {h : Int}
    (hh : b.mbdBalance.amount = a.mbdBalance.amount + h)
    (hcalm : a.mbdBalance.assetId = mbdSymbol ∧ interestDue a s.props.time = false →
      b.mbdBalance.assetId = mbdSymbol ∧ interestDue b s.props.time = false) :
    Transfers (fun acc' z => if acc' = acc then
        (if z = museSymbol then m else 0) + if z = mbdSymbol then r else 0 else 0)
      (fun z => (if z = museSymbol then m else 0) + if z = mbdSymbol then h else 0)
      s (s.write Kind.account acc b hf) := by
  have hprops : (s.write Kind.account acc b hf).props = s.props := by
    unfold Store.props
    rw [Store.get_write_ne _ (by decide)]
  have hne : museSymbol ≠ mbdSymbol := by decide
  refine ⟨fun acc' z => ?_, fun z => ?_, fun acc' => ?_, fun acc' ⟨p, hp, hc⟩ =>
    ⟨p, by rwa [Store.get_write_ne _ (by decide)], fun c hg' => ?_⟩,
    fun hs => hs.write _ (hs _ _ _ hg)⟩
  · unfold Store.purse
    rw [hprops, Store.get_write_self]
    by_cases h1 : z = museSymbol
    · have h2 : z ≠ mbdSymbol := fun e => hne (h1.symm.trans e)
      simp only [if_pos h1, if_neg h2]
      by_cases he : acc' = acc
      · subst he
        rw [if_pos rfl, if_pos rfl, hg]
        show b.balance.amount = a.balance.amount + (m + 0)
        omega
      · rw [if_neg he, if_neg he]
        omega
    · by_cases h2 : z = mbdSymbol
      · simp only [if_neg h1, if_pos h2]
        by_cases he : acc' = acc
        · subst he
          rw [if_pos rfl, if_pos rfl, hg]
          show b.mbdBalance.amount + b.dueInterest s.props =
            a.mbdBalance.amount + a.dueInterest s.props + (0 + r)
          omega
        · rw [if_neg he, if_neg he]
          omega
      · simp only [if_neg h1, if_neg h2]
        rw [Store.weight_write _ _ _ _ hg]
        show s.weight (balanceWeight acc' z) - 0 + 0 = _
        split <;> omega
  · unfold surplus
    rw [hprops, Store.weight_write _ _ _ _ hg]
    simp only [heldWeight]
    split <;> split <;> omega
  · rw [Store.get_write_self]
    split
    · rename_i he
      subst he
      rw [hg, Option.map_some, Option.map_some, hname]
    · rfl
  · rw [Store.get_write_self] at hg'
    split at hg'
    · rename_i he
      subst he
      cases hg'
      rw [Store.props_of_get hp] at hcalm
      exact hcalm (hc a hg)
    · exact hc c hg'

/-- Nothing of an account, of its balances or of the global object is touched. -/
theorem purse_congr {s t : Store chainSchema} (hprops : t.props = s.props)
    (hacc : ∀ acc, t.get Kind.account acc = s.get Kind.account acc)
    (hbal : ∀ i, t.get Kind.accountBalance i = s.get Kind.accountBalance i) (acc z : Nat) :
    t.purse acc z = s.purse acc z := by
  unfold Store.purse
  rw [hprops, hacc]
  split
  · rfl
  · split
    · rfl
    · refine Store.weight_congr fun k i => ?_
      by_cases hk : k = Kind.accountBalance
      · subst hk
        rw [hbal]
      · have hz : ∀ o : Option k.Object, FMap.part (balanceWeight acc z k) o = 0 := by
          intro o
          cases k with
          | accountBalance => exact absurd rfl hk
          | _ => exact part_zero o
        exact (hz _).trans (hz _).symm

theorem nothingDue_congr {s t : Store chainSchema} {acc : Nat}
    (hdgp : t.get Kind.dynamicGlobalProperty 0 = s.get Kind.dynamicGlobalProperty 0)
    (hacc : t.get Kind.account acc = s.get Kind.account acc) (h : NothingDue s acc) :
    NothingDue t acc := by
  obtain ⟨p, hp, hdue⟩ := h
  exact ⟨p, hdgp.trans hp, fun a ha => hdue a (hacc.symm.trans ha)⟩

/-- The global object is written. -/
theorem moves_writeProps {s : Store chainSchema} {p q : DynamicGlobalProperty}
    (hg : s.get Kind.dynamicGlobalProperty 0 = some p)
    (hf : s.free Kind.dynamicGlobalProperty 0 q = true) (htime : q.time = p.time)
    (hrate : q.mbdInterestRate = p.mbdInterestRate) :
    Transfers (fun _ _ => 0)
      (fun z => -(Asset.mbd (q.currentMbdSupply.amount - p.currentMbdSupply.amount)).of z) s
      (s.write Kind.dynamicGlobalProperty 0 q hf) := by
  have hinterest : ∀ a : Account, a.dueInterest q = a.dueInterest p := by
    intro a
    unfold Account.dueInterest
    rw [htime, hrate]
  refine ⟨fun acc z => ?_, fun z => ?_, fun acc => by rw [Store.get_write_ne _ (by decide)],
    fun acc ⟨p', hp', hdue⟩ => ⟨q, by rw [Store.get_write_self, if_pos rfl], fun a ha => ?_⟩,
    fun hs => hs.write _ (hs _ _ _ hg)⟩
  · unfold Store.purse
    rw [add_zero, Store.props_write, Store.props_of_get hg, Store.get_write_ne _ (by decide),
      Store.weight_write _ _ _ _ hg]
    simp only [hinterest]
    split
    · rfl
    · split
      · rfl
      · show s.weight (balanceWeight acc z) - 0 + 0 = _
        omega
  · unfold surplus Asset.of
    rw [Store.props_write, Store.props_of_get hg, Store.weight_write _ _ _ _ hg]
    simp only [heldWeight, Asset.mbd]
    split <;> omega
  · obtain rfl : p = p' := Option.some.inj (hg.symm.trans hp')
    rw [Store.get_write_ne _ (by decide)] at ha
    rw [htime]
    exact hdue a ha

/-- An order leaves the book. -/
theorem moves_eraseOrder {s : Store chainSchema} {i : Nat} {o : LimitOrder}
    (hg : s.get Kind.limitOrder i = some o) :
    Transfers (fun _ _ => 0) (fun z => -o.amountForSale.of z) s (s.erase Kind.limitOrder i) := by
  have hprops : (s.erase Kind.limitOrder i).props = s.props := by
    unfold Store.props
    rw [Store.get_erase_ne _ (by decide)]
  refine ⟨fun acc z => ?_, fun z => ?_, fun acc => ?_, fun acc => nothingDue_congr
    (Store.get_erase_ne _ (by decide) ..) (Store.get_erase_ne _ (by decide) ..), fun hs => hs.erase _ _⟩
  · rw [add_zero]
    refine purse_congr hprops (fun acc => ?_) (fun j => ?_) acc z
    · rw [Store.get_erase_ne _ (by decide)]
    · rw [Store.get_erase_ne _ (by decide)]
  · unfold surplus Asset.of LimitOrder.amountForSale
    rw [hprops, Store.weight_erase _ _ _ _ hg]
    simp only [heldWeight, eq_comm (a := z)]
    omega
  · rw [Store.get_erase_ne _ (by decide)]

/-- An order is left with less to sell. -/
theorem moves_writeOrder {s : Store chainSchema} {i : Nat} {o : LimitOrder} {pays : Int}
    (hg : s.get Kind.limitOrder i = some o)
    (hf : s.free Kind.limitOrder i (o.less pays) = true) :
    Transfers (fun _ _ => 0) (fun z => -(⟨pays, o.sellPrice.base.assetId⟩ : Asset).of z) s
      (s.write Kind.limitOrder i (o.less pays) hf) := by
  have hprops : (s.write Kind.limitOrder i (o.less pays) hf).props = s.props := by
    unfold Store.props
    rw [Store.get_write_ne _ (by decide)]
  refine ⟨fun acc z => ?_, fun z => ?_, fun acc => ?_, fun acc => nothingDue_congr
    (Store.get_write_ne _ (by decide) ..) (Store.get_write_ne _ (by decide) ..), fun hs => hs.write _ (hs _ _ _ hg)⟩
  · rw [add_zero]
    refine purse_congr hprops (fun acc => ?_) (fun j => ?_) acc z
    · rw [Store.get_write_ne _ (by decide)]
    · rw [Store.get_write_ne _ (by decide)]
  · unfold surplus Asset.of
    rw [hprops, Store.weight_write _ _ _ _ hg]
    simp only [heldWeight, LimitOrder.less, eq_comm (a := z)]
    split <;> omega
  · rw [Store.get_write_ne _ (by decide)]

/-- A balance object is written or made. -/
theorem moves_balanceRow {s t : Store chainSchema} {acc : Nat} {delta : Asset}
    (hm : delta.assetId ≠ museSymbol) (hb : delta.assetId ≠ mbdSymbol) (hdgp : t.get Kind.dynamicGlobalProperty 0 = s.get Kind.dynamicGlobalProperty 0)
    (hacc : ∀ i, t.get Kind.account i = s.get Kind.account i)
    (hbalance : ∀ acc' z, t.weight (balanceWeight acc' z) =
      s.weight (balanceWeight acc' z) + paidTo acc delta acc' z)
    (hheld : ∀ z, t.weight (heldWeight z) = s.weight (heldWeight z) + delta.of z)
    (hfresh : s.Fresh → t.Fresh) : Transfers (paidTo acc delta) delta.of s t := by
  have hprops : t.props = s.props := by
    unfold Store.props
    rw [hdgp]
  refine ⟨fun acc' z => ?_, fun z => ?_, fun i => by rw [hacc],
    fun i => nothingDue_congr hdgp (hacc i), hfresh⟩
  · unfold Store.purse
    rw [hprops, hacc]
    split
    · rename_i h1
      rw [paidTo_other fun e => hm (e.symm.trans h1), add_zero]
    · split
      · rename_i h2
        rw [paidTo_other fun e => hb (e.symm.trans h2), add_zero]
      · exact hbalance acc' z
  · unfold surplus
    rw [hprops, hheld]
    omega

/-! ## 3. Balances -/

theorem moves_adjustMuseBalance (acc : Nat) {delta : Asset} (h : delta.assetId = museSymbol) :
    Steps (Transfers (paidTo acc delta) delta.of) (adjustMuseBalance acc delta : Act n Unit) := by
  refine ⟨fun {d u d'} hr => ?_⟩
  obtain ⟨a, x, hg, hx, hf, e⟩ := modifyWith_store hr
  obtain ⟨rfl, _⟩ := safe_ok.mp hx
  have hne : museSymbol ≠ mbdSymbol := by decide
  rw [e]
  refine (moves_writeAccount (m := delta.amount) (r := 0) (h := 0) hg hf rfl rfl
    (add_zero _).symm (add_zero _).symm fun hc => hc).of_eq (fun acc' z => ?_) (fun z => ?_)
  · unfold paidTo Asset.of
    rw [h]
    split
    · split <;> split <;> omega
    · rfl
  · unfold Asset.of
    rw [h]
    split <;> split <;> omega

theorem moves_mintInterest (interest : Int) :
    Steps (fun s t => Transfers (fun _ _ => 0) (fun z => -(Asset.mbd interest).of z) s t ∧
        t.props.time = s.props.time ∧ t.props.mbdInterestRate = s.props.mbdInterestRate)
      (mintInterest (Asset.mbd interest) : Act n Unit) := by
  refine ⟨fun {d u d'} h => ?_⟩
  obtain ⟨feed, _, h⟩ := bind_getFeedHistory_ok.mp h
  obtain ⟨p, x, hp, hx, hf, e⟩ := modifyWith_store h
  obtain ⟨supply, hs, hx⟩ := except_bind_ok.mp hx
  obtain ⟨worth, _, hx⟩ := except_bind_ok.mp hx
  obtain ⟨virt, _, hx⟩ := except_bind_ok.mp hx
  cases hx
  obtain ⟨_, rfl⟩ := Asset.add_ok hs
  rw [e, Store.props_write, Store.props_of_get hp]
  refine ⟨(moves_writeProps hp hf rfl rfl).of_eq (fun _ _ => rfl) fun z => ?_, rfl, rfl⟩
  show -(Asset.mbd (p.currentMbdSupply.amount + interest - p.currentMbdSupply.amount)).of z = _
  rw [add_sub_cancel_left]

/-- MBD comes with the interest that is due, so that the purse moves by the payment alone. -/
theorem moves_adjustMbdBalance (acc : Nat) {delta : Asset} (h : delta.assetId = mbdSymbol) :
    Steps (Transfers (paidTo acc delta) delta.of) (adjustMbdBalance acc delta : Act n Unit) := by
  refine ⟨fun {d u d'} hr => ?_⟩
  obtain ⟨a, x, d₀, d₁, a', hg, e0, hbody, hg', hf, e⟩ := modifyNested_store hr
  obtain ⟨p, hp, hbody⟩ := bind_headBlockTime_ok hbody
  have hprops : d₀.store.props = p := Store.props_of_get hp
  have hne : museSymbol ≠ mbdSymbol := by decide
  -- what the account is written with, whatever the interest was
  obtain ⟨hmint, hacc, htime, hrate, hx, hupdate⟩ :
      Transfers (fun _ _ => 0) (fun z => -(Asset.mbd (a.dueInterest p)).of z) d₀.store d₁.store ∧
      d₀.store.get Kind.account acc = d₁.store.get Kind.account acc ∧
      d₁.store.props.time = p.time ∧ d₁.store.props.mbdInterestRate = p.mbdInterestRate ∧
      x.1 = ⟨a.mbdBalance.amount + a.dueInterest p + delta.amount, a.mbdBalance.assetId⟩ ∧
      x.2.2.1 = p.time := by
    split at hbody
    · rename_i hdue
      obtain ⟨props, hp', hbody⟩ := bind_getDgp_ok.mp hbody
      obtain rfl : p = props := Option.some.inj (hp.symm.trans hp')
      obtain ⟨interest, hi, hbody⟩ := Action.bind_lift_ok.mp hbody
      obtain ⟨withInterest, hw, hbody⟩ := Action.bind_lift_ok.mp hbody
      obtain ⟨_, d₂, hmint, hbody⟩ := Action.bind_ok.mp hbody
      obtain ⟨balance, hbal, hbody⟩ := Action.bind_lift_ok.mp hbody
      cases hbody
      obtain ⟨_, rfl⟩ := Asset.add_ok hw
      obtain ⟨_, rfl⟩ := Asset.add_ok hbal
      have hinterest : a.dueInterest p = interest := by
        unfold Account.dueInterest
        rw [if_pos hdue, hi]
      obtain ⟨hmoves, htime, hrate⟩ := (moves_mintInterest interest).step hmint
      rw [hinterest, ← hprops]
      exact ⟨hmoves, (mintInterest_accounts _ acc).step hmint, htime, hrate, rfl,
        by rw [hprops]⟩
    · rename_i hdue
      obtain ⟨balance, hbal, hbody⟩ := Action.bind_lift_ok.mp hbody
      obtain ⟨_, rfl⟩ := Asset.add_ok hbal
      have hinterest : a.dueInterest p = 0 := if_neg hdue
      have hnone : Transfers (fun _ _ => 0) (fun z => -(Asset.mbd 0).of z) d₀.store d₀.store :=
        (Transfers.refl _).of_eq (fun _ _ => rfl) fun z => by rw [Asset.of_zero rfl, neg_zero]
      rw [hinterest, add_zero]
      split at hbody
      · cases hbody
        exact ⟨hnone, rfl, by rw [hprops], by rw [hprops], rfl, rfl⟩
      · rename_i hsame
        cases hbody
        exact ⟨hnone, rfl, by rw [hprops], by rw [hprops], rfl, not_not.mp hsame⟩
  rw [e0] at hmint hacc
  rw [← hacc, hg] at hg'
  cases hg'
  have hdue : a.dueInterest d₁.store.props = a.dueInterest p := by
    unfold Account.dueInterest
    rw [htime, hrate]
  -- nothing is due right after a change
  have hnext : interestDue { a with
      mbdBalance := x.1
      mbdSeconds := x.2.1
      mbdSecondsLastUpdate := x.2.2.1
      mbdLastInterestPayment := x.2.2.2 } d₁.store.props.time = false := by
    unfold interestDue
    rw [htime, hupdate]
    simp
  have hpaid : Account.dueInterest { a with
      mbdBalance := x.1
      mbdSeconds := x.2.1
      mbdSecondsLastUpdate := x.2.2.1
      mbdLastInterestPayment := x.2.2.2 } d₁.store.props = 0 := by
    unfold Account.dueInterest
    rw [hnext]
    rfl
  have hx1 := congrArg Asset.amount hx
  have hwrite := moves_writeAccount (a := a) (m := 0) (r := delta.amount)
    (h := a.dueInterest p + delta.amount) (hacc ▸ hg) hf rfl (add_zero _).symm
    (by rw [hpaid, hdue]; exact (add_zero _).trans hx1) (hx1.trans (add_assoc _ _ _))
    fun hc => ⟨(congrArg Asset.assetId hx).trans hc.1, hnext⟩
  rw [e]
  refine (hmint.trans hwrite).of_eq (fun acc' z => ?_) fun z => ?_
  · unfold paidTo Asset.of
    rw [h]
    split
    · split <;> split <;> omega
    · rfl
  · unfold Asset.of Asset.mbd
    rw [h]
    dsimp only
    split <;> split <;> omega

/-- Every other asset is in balance objects, one for each owner. -/
theorem moves_adjustAssetBalance (acc : Nat) {delta : Asset} (hm : delta.assetId ≠ museSymbol)
    (hb : delta.assetId ≠ mbdSymbol) :
    Steps (Transfers (paidTo acc delta) delta.of) (adjustAssetBalance acc delta : Act n Unit) := by
  refine ⟨fun {d u d'} hr => ?_⟩
  unfold adjustAssetBalance at hr
  split at hr
  · rename_i hzero
    cases hr
    have hof := Asset.of_zero hzero
    refine (Transfers.refl _).of_eq (fun acc' z => ?_) fun z => (hof z).symm
    unfold paidTo
    rw [hof, ite_self]
  · have hr := bind_findRow_ok.mp hr
    split at hr
    · obtain ⟨_, hr⟩ := Action.bind_require_ok.mp hr
      obtain ⟨i, d₁, h1, hr⟩ := Action.bind_ok.mp hr
      cases hr
      obtain ⟨hi, hnone, hf, e⟩ := create_store h1
      have hdgp : d'.store.get Kind.dynamicGlobalProperty 0 =
          d.store.get Kind.dynamicGlobalProperty 0 := by
        rw [e, Store.get_setNextId, Store.get_write_ne _ (by decide)]
      have hweight : ∀ w : Weight chainSchema, d'.store.weight w = d.store.weight w +
          w Kind.accountBalance (⟨acc, delta.assetId, delta.amount⟩ : AccountBalance) := by
        intro w
        rw [e, Store.weight_create _ _ _ _ _ (hi ▸ hnone)]
      refine moves_balanceRow hm hb hdgp (fun i => ?_) (fun acc' z => ?_) (fun z => ?_) fun hs =>
        e ▸ hs.create hf
      · rw [e, Store.get_setNextId, Store.get_write_ne _ (by decide)]
      · rw [hweight]
        simp only [balanceWeight, paidTo, Asset.of, eq_comm (a := acc), eq_comm (a := z)]
        split <;> split <;> simp_all
      · rw [hweight]
        simp only [heldWeight, Asset.of, eq_comm (a := z)]
    · rename_i i b hfind
      have hkey := List.find?_some (p := fun r : Nat × AccountBalance =>
        decide (r.2.owner = acc ∧ r.2.assetType = delta.assetId)) hfind
      obtain ⟨howner, htype⟩ : b.owner = acc ∧ b.assetType = delta.assetId := of_decide_eq_true hkey
      have hg : d.store.get Kind.accountBalance i = some b :=
        FMap.mem_rows.mp (List.mem_of_find?_eq_some hfind)
      have hmodify : ∀ {u'}, (Action.modifyWith (S := chainSchema) Kind.accountBalance i
          (fun b : AccountBalance => safe (b.balance + delta.amount))
          (fun (b : AccountBalance) x => { b with balance := x }) : Act n Unit).run d = .ok u' d' →
          Transfers (paidTo acc delta) delta.of d.store d'.store := by
        intro u' hr
        obtain ⟨b', x, hg', hx, hf, e⟩ := modifyWith_store hr
        obtain rfl : b = b' := Option.some.inj (hg.symm.trans hg')
        obtain ⟨rfl, _⟩ := safe_ok.mp hx
        have hdgp : d'.store.get Kind.dynamicGlobalProperty 0 =
            d.store.get Kind.dynamicGlobalProperty 0 := by
          rw [e, Store.get_write_ne _ (by decide)]
        refine moves_balanceRow hm hb hdgp (fun i => ?_) (fun acc' z => ?_) (fun z => ?_)
          fun hs => e ▸ hs.write _ (hs _ _ _ hg)
        · rw [e, Store.get_write_ne _ (by decide)]
        · rw [e, Store.weight_write _ _ _ _ hg]
          simp only [balanceWeight, paidTo, Asset.of, howner, htype, eq_comm (a := acc),
            eq_comm (a := z)]
          by_cases h1 : acc' = acc
          · by_cases h2 : delta.assetId = z
            · rw [if_pos ⟨h1, h2⟩, if_pos ⟨h1, h2⟩, if_pos h1, if_pos h2]
              omega
            · rw [if_neg fun h => h2 h.2, if_neg fun h => h2 h.2, if_pos h1, if_neg h2]
              omega
          · rw [if_neg fun h => h1 h.1, if_neg fun h => h1 h.1, if_neg h1]
            omega
        · rw [e, Store.weight_write _ _ _ _ hg]
          simp only [heldWeight, Asset.of, htype, eq_comm (a := z)]
          split <;> omega
      split at hr
      · obtain ⟨_, _, hr⟩ := Action.bind_lift_ok.mp hr
        obtain ⟨_, hr⟩ := Action.bind_require_ok.mp hr
        exact hmodify hr
      · exact hmodify hr

/-- **A change of a balance moves the purse of the account by it.** -/
theorem moves_adjustBalance (acc : Nat) (delta : Asset) :
    Steps (Transfers (paidTo acc delta) delta.of) (adjustBalance acc delta : Act n Unit) := by
  unfold adjustBalance
  refine steps_ite (fun hm => moves_adjustMuseBalance acc hm) fun hm => ?_
  exact steps_ite (fun hb => moves_adjustMbdBalance acc hb) fun hb =>
    moves_adjustAssetBalance acc hm hb

/-! ## 4. Filling -/

/-- The account with a name. -/
def AccountNamed (s : Store chainSchema) (name : String) (acc : Nat) : Prop :=
  (s.get Kind.account acc).map Account.name = some name

theorem AccountNamed.unique {s : Store chainSchema} {name : String} {acc acc' : Nat}
    (h : AccountNamed s name acc) (h' : AccountNamed s name acc') : acc = acc' := by
  obtain ⟨a, ha, hn⟩ := Option.map_eq_some_iff.mp h
  obtain ⟨b, hb, hn'⟩ := Option.map_eq_some_iff.mp h'
  exact account_unique ha hb (hn.trans hn'.symm)

theorem Transfers.named {f : Nat → Nat → Int} {g : Nat → Int} {s t : Store chainSchema}
    (h : Transfers f g s t) {name : String} {acc : Nat} :
    AccountNamed t name acc ↔ AccountNamed s name acc := by
  unfold AccountNamed
  rw [h.names]

section

variable {d d' : Database chainSchema}

/-- **A cancelled order is paid back.** -/
theorem cancelOrder_moves {i : Nat} {o : LimitOrder} (ho : d.store.orders i = some o) {u : Unit}
    (h : (cancelOrder i : Act n Unit).run d = .ok u d') :
    ∃ acc, AccountNamed d.store o.seller acc ∧
      Transfers (paidTo acc o.amountForSale) (fun _ => 0) d.store d'.store := by
  obtain ⟨o', ho', h⟩ := bind_getObject_ok.mp h
  obtain rfl : o = o' := Option.some.inj (ho.symm.trans ho')
  obtain ⟨acc, a, ha, hname, h⟩ := bind_getAccountId_ok h
  obtain ⟨_, d₁, h1, h⟩ := Action.bind_ok.mp h
  obtain ⟨o₁, ho1, e⟩ := remove_store h
  have hsame : d₁.store.orders = d.store.orders := (ordersStay_adjustBalance acc _).step h1
  obtain rfl : o = o₁ := Option.some.inj (ho.symm.trans (hsame ▸ ho1))
  have hpaid := (moves_adjustBalance acc o.amountForSale).step h1
  refine ⟨acc, by rw [AccountNamed, ha, Option.map_some, hname], ?_⟩
  rw [e]
  refine (hpaid.trans (moves_eraseOrder ho1)).of_eq (fun acc' z => add_zero _) fun z => ?_
  exact add_neg_cancel _

/-- **Filling an order moves what it receives to the seller and takes what it pays from the book**;
the rest of an order that is gone is paid back. -/
theorem fillOrder_moves {i : Nat} {o : LimitOrder} (ho : d.store.orders i = some o) {p : Int}
    {receives : Asset} {gone : Bool}
    (h : (fillOrder i ⟨p, o.sellPrice.base.assetId⟩ receives : Act n Bool).run d = .ok gone d') :
    ∃ acc, AccountNamed d.store o.seller acc ∧
      Transfers (fun acc' z => paidTo acc receives acc' z +
          if gone then paidTo acc (o.less p).amountForSale acc' z else 0)
        (fun z => receives.of z - (⟨p, o.sellPrice.base.assetId⟩ : Asset).of z)
        d.store d'.store := by
  obtain ⟨o', ho', h⟩ := bind_getObject_ok.mp h
  obtain rfl : o = o' := Option.some.inj (ho.symm.trans ho')
  obtain ⟨_, h⟩ := Action.bind_require_ok.mp h
  obtain ⟨_, h⟩ := Action.bind_require_ok.mp h
  obtain ⟨acc, a, ha, hname, h⟩ := bind_getAccountId_ok h
  have hacc : AccountNamed d.store o.seller acc := by rw [AccountNamed, ha, Option.map_some, hname]
  obtain ⟨_, d₁, h1, h⟩ := Action.bind_ok.mp h
  have hpaid := (moves_adjustBalance acc receives).step h1
  have hsame : d₁.store.orders = d.store.orders := (ordersStay_adjustBalance acc _).step h1
  refine ⟨acc, hacc, ?_⟩
  split at h
  · rename_i hall
    obtain ⟨_, d₂, h2, h⟩ := Action.bind_ok.mp h
    cases h
    obtain ⟨o₁, ho1, e⟩ := remove_store h2
    obtain rfl : o = o₁ := Option.some.inj (ho.symm.trans (hsame ▸ ho1))
    have hp : p = o.forSale := congrArg Asset.amount hall
    rw [e]
    refine (hpaid.trans (moves_eraseOrder ho1)).of_eq (fun acc' z => ?_) fun z => ?_
    · -- nothing is left to be paid back
      have hzero : (o.less p).amountForSale.of z = 0 := by
        refine Asset.of_zero ?_ z
        show o.forSale - p = 0
        omega
      unfold paidTo
      rw [if_pos rfl, hzero, ite_self]
    · rw [hp]
      exact (sub_eq_add_neg _ _).symm
  · obtain ⟨_, d₂, h2, h⟩ := Action.bind_ok.mp h
    obtain ⟨o₁, x, ho1, hx, hf, e⟩ := modifyWith_store h2
    obtain rfl : o = o₁ := Option.some.inj (ho.symm.trans (hsame ▸ ho1))
    obtain ⟨rfl, _⟩ := safe_ok.mp hx
    have hrest : Transfers (fun acc' z => paidTo acc receives acc' z + 0)
        (fun z => receives.of z + -(⟨p, o.sellPrice.base.assetId⟩ : Asset).of z)
        d.store d₂.store := by
      rw [e]
      exact hpaid.trans (moves_writeOrder ho1 hf)
    have ho2 : d₂.store.orders i = some (o.less p) := by
      rw [e, Store.orders_write, Function.update_self]
      rfl
    obtain ⟨o₂, ho2', h⟩ := bind_getObject_ok.mp h
    obtain rfl : o.less p = o₂ := Option.some.inj (ho2.symm.trans ho2')
    obtain ⟨worth, _, h⟩ := Action.bind_lift_ok.mp h
    split at h
    · obtain ⟨_, d₃, h3, h⟩ := Action.bind_ok.mp h
      cases h
      obtain ⟨acc', hacc', hback⟩ := cancelOrder_moves ho2 h3
      obtain rfl : acc = acc' := hacc.unique (hrest.named.mp hacc')
      refine (hrest.trans hback).of_eq (fun acc' z => ?_) fun z => ?_
      · rw [add_zero, if_pos rfl]
      · rw [add_zero, sub_eq_add_neg]
    · cases h
      exact hrest.of_eq (fun _ _ => by rw [if_neg Bool.false_ne_true]) fun z =>
        (sub_eq_add_neg _ _).symm

end

/-! ## 5. The amounts of a match -/

/-- An order that can be traded, in numbers of 64 bits: it sells something and asks for at least one
unit of another asset. -/
structure LimitOrder.Tradable (o : LimitOrder) : Prop where
  base : o.sellPrice.base.Fits
  quote : o.sellPrice.quote.Fits
  assets : o.sellPrice.base.assetId ≠ o.sellPrice.quote.assetId
  forSale : 0 < o.forSale ∧ o.forSale ≤ int64Max
  asks : ∃ r, o.amountToReceive = .ok r ∧ 1 ≤ r.amount

/-- Its price is two positive amounts. -/
theorem LimitOrder.Tradable.sound {o : LimitOrder} (h : o.Tradable) : o.Sound := by
  obtain ⟨r, hr, hpos⟩ := h.asks
  unfold LimitOrder.amountToReceive Asset.mul LimitOrder.amountForSale at hr
  rw [if_pos rfl] at hr
  obtain ⟨x, hx, hr⟩ := except_bind_ok.mp hr
  cases hr
  have hbase : Ample o.sellPrice.base.amount := by
    refine ⟨?_, h.base.2⟩
    by_contra hneg
    unfold Price.scale at hx
    rw [if_pos (not_lt.mp hneg)] at hx
    cases hx
  have hcomm : Price.scale o.forSale o.sellPrice.quote.amount o.sellPrice.base.amount =
      Price.scale o.sellPrice.quote.amount o.forSale o.sellPrice.base.amount := by
    unfold Price.scale Price.mul128
    rw [Nat.mul_comm]
  have hlow : int64Min ≤ o.forSale := le_trans (by decide) h.forSale.1.le
  have hquote : Ample o.sellPrice.quote.amount := by
    refine ⟨?_, h.quote.2⟩
    have hx' := hx
    rw [hcomm] at hx'
    exact (Price.scale_pos h.quote.1 h.quote.2 h.forSale hbase hx' hpos).1
  obtain ⟨_, hworth, hfits⟩ := Price.scale_pos hlow h.forSale.2 hquote hbase hx hpos
  exact ⟨hbase, hquote, h.assets, h.forSale, hworth, hfits⟩

/-- What an order gets is no worse than its price: exactly, or rounded down to whole units when it
pays all that it has for sale. -/
def LimitOrder.Served (o : LimitOrder) (pays receives : Int) : Prop :=
  pays * o.sellPrice.quote.amount / o.sellPrice.base.amount ≤ receives ∧
    (pays < o.forSale → pays * o.sellPrice.quote.amount ≤ receives * o.sellPrice.base.amount)

theorem LimitOrder.served_of_exact {o : LimitOrder} (hb : 0 < o.sellPrice.base.amount)
    {pays receives : Int}
    (h : pays * o.sellPrice.quote.amount ≤ receives * o.sellPrice.base.amount) :
    o.Served pays receives :=
  ⟨Int.ediv_le_of_le_mul hb h, fun _ => h⟩

/-- What crossing says of amounts: what the new order asks for is not above what the old one
gives. -/
theorem crossing_le {a b : LimitOrder} (ha : a.Sound) (hb : b.Sound) (hc : Crossed a b)
    {pays asked : Int} (hpays : 0 ≤ pays)
    (h : asked * a.sellPrice.base.amount ≤ pays * a.sellPrice.quote.amount) :
    asked * b.sellPrice.quote.amount ≤ pays * b.sellPrice.base.amount := by
  obtain ⟨_, hcross⟩ := (ha.crossed_iff hb).mp hc
  refine le_of_mul_le_mul_right ?_ ha.base.1
  calc asked * b.sellPrice.quote.amount * a.sellPrice.base.amount
      = asked * a.sellPrice.base.amount * b.sellPrice.quote.amount := by ring
    _ ≤ pays * a.sellPrice.quote.amount * b.sellPrice.quote.amount :=
        mul_le_mul_of_nonneg_right h hb.quote.1.le
    _ = pays * (a.sellPrice.quote.amount * b.sellPrice.quote.amount) := by ring
    _ ≤ pays * (a.sellPrice.base.amount * b.sellPrice.base.amount) :=
        mul_le_mul_of_nonneg_left hcross hpays
    _ = pays * b.sellPrice.base.amount * a.sellPrice.base.amount := by ring

/-- **What two crossing orders pay each other.** -/
theorem matchAmounts_served {a b : LimitOrder} (ha : a.Sound) (hb : b.Sound) (hc : Crossed a b) :
    ∃ x y : Int, matchAmounts a.amountForSale b.amountForSale b.sellPrice =
        .ok (⟨x, b.sellPrice.base.assetId⟩, ⟨y, a.sellPrice.base.assetId⟩) ∧
      1 ≤ x ∧ x ≤ b.forSale ∧ 1 ≤ y ∧ y ≤ a.forSale ∧ (y = a.forSale ∨ x = b.forSale) ∧
      a.Served y x ∧ b.Served x y := by
  have ho := hc.1
  have hworth : b.amountForSale.mul b.sellPrice = .ok ⟨b.worth, b.sellPrice.quote.assetId⟩ :=
    hb.amountToReceive
  have hle : a.amountForSale.le ⟨b.worth, b.sellPrice.quote.assetId⟩ =
      .ok (decide (a.forSale ≤ b.worth)) := Asset.le_of_same ho.1
  have hstart : matchAmounts a.amountForSale b.amountForSale b.sellPrice =
      if a.forSale ≤ b.worth then do
        let receives ← a.amountForSale.mul b.sellPrice
        pure (receives, a.amountForSale)
      else pure (b.amountForSale, ⟨b.worth, b.sellPrice.quote.assetId⟩) := by
    unfold matchAmounts
    rw [hworth]
    show (a.amountForSale.le ⟨b.worth, b.sellPrice.quote.assetId⟩ >>= _) = _
    rw [hle]
    by_cases h : a.forSale ≤ b.worth
    · rw [if_pos h, decide_eq_true h]
      rfl
    · rw [if_neg h, decide_eq_false h]
      rfl
  have hf := ha.forSale
  by_cases hfit : a.forSale ≤ b.worth
  · -- the new order is the smaller one and pays all it has
    rw [if_pos hfit] at hstart
    have hprod : a.forSale * b.sellPrice.base.amount ≤ b.forSale * b.sellPrice.quote.amount :=
      (Int.le_ediv_iff_mul_le hb.base.1).mp hfit
    have hdiv : a.forSale * b.sellPrice.base.amount / b.sellPrice.quote.amount ≤ b.forSale :=
      Int.ediv_le_of_le_mul hb.quote.1 hprod
    have hmul : a.amountForSale.mul b.sellPrice =
        .ok ⟨a.forSale * b.sellPrice.base.amount / b.sellPrice.quote.amount,
          b.sellPrice.base.assetId⟩ := by
      have hsame : a.amountForSale.assetId = b.sellPrice.quote.assetId := ho.1
      unfold Asset.mul
      rw [if_neg (by rw [hsame]; exact hb.assets.symm), if_pos hsame]
      rw [show a.amountForSale.amount = a.forSale from rfl, Price.scale_of_fits hf.1.le hf.2 hb.base
        hb.quote (le_trans hdiv hb.forSale.2)]
      rfl
    rw [hmul] at hstart
    have hserved : ∀ asked, asked * a.sellPrice.base.amount ≤
        a.forSale * a.sellPrice.quote.amount →
        asked ≤ a.forSale * b.sellPrice.base.amount / b.sellPrice.quote.amount := fun asked h =>
      (Int.le_ediv_iff_mul_le hb.quote.1).mpr (crossing_le ha hb hc hf.1.le h)
    refine ⟨_, a.forSale, hstart, hserved 1 ?_, hdiv, hf.1, le_rfl, .inl rfl, ⟨hserved _ ?_, ?_⟩, ?_⟩
    · rw [one_mul]
      exact ha.worth_pos
    · exact Int.ediv_mul_le _ (ne_of_gt ha.base.1)
    · intro hlt
      exact absurd hlt (lt_irrefl _)
    · exact b.served_of_exact hb.base.1 (Int.ediv_mul_le _ (ne_of_gt hb.quote.1))
  · rw [if_neg hfit, ← ho.1] at hstart
    refine ⟨b.forSale, b.worth, hstart, hb.forSale.1, le_rfl, hb.worth_ge, by omega, .inr rfl, ?_,
      ⟨le_rfl, fun hlt => absurd hlt (lt_irrefl _)⟩⟩
    refine a.served_of_exact ha.base.1 ?_
    have hpaid : b.worth * b.sellPrice.base.amount ≤ b.forSale * b.sellPrice.quote.amount :=
      Int.ediv_mul_le _ (ne_of_gt hb.base.1)
    exact crossing_le hb ha (hc.symm ha hb) hb.forSale.1.le hpaid

/-! ## 6. The match -/

/-- What is left of an order that is gone. -/
def leftOf (gone : Bool) (o : LimitOrder) (pays : Int) : Asset :=
  if gone then (o.less pays).amountForSale else ⟨0, o.sellPrice.base.assetId⟩

/-- What a match does to the objects: the seller of each order is paid what the other pays and gets
back what is left of an order that is gone; the other order stays with less to sell. -/
structure Matched (i j : Nat) (a b : LimitOrder) (x y : Int) (gone : Bool × Bool)
    (s t : Store chainSchema) : Prop where
  leaves : gone.1 = true ∨ gone.2 = true
  orders : t.orders = Function.update (Function.update s.orders i
    (if gone.1 then none else some (a.less y))) j (if gone.2 then none else some (b.less x))
  purses : ∃ p q, AccountNamed s a.seller p ∧ AccountNamed s b.seller q ∧ ∀ acc z,
    t.purse acc z = s.purse acc z +
      (paidTo p ⟨x, b.sellPrice.base.assetId⟩ acc z + paidTo p (leftOf gone.1 a y) acc z) +
      (paidTo q ⟨y, a.sellPrice.base.assetId⟩ acc z + paidTo q (leftOf gone.2 b x) acc z)
  total : ∀ z, surplus z t = surplus z s

theorem paidTo_leftOf (acc : Nat) (gone : Bool) (o : LimitOrder) (pays : Int) (acc' z : Nat) :
    (if gone then paidTo acc (o.less pays).amountForSale acc' z else 0) =
      paidTo acc (leftOf gone o pays) acc' z := by
  cases gone with
  | true => rfl
  | false =>
    unfold paidTo leftOf
    rw [if_neg Bool.false_ne_true, if_neg Bool.false_ne_true, Asset.of_zero rfl, ite_self]

section

variable {d d' : Database chainSchema}

/-- **A match that returns moves what the two orders pay each other**, and nothing else. -/
theorem matchOrders_matched {i j : Nat} (hij : i ≠ j) {a b : LimitOrder}
    (ha : d.store.orders i = some a) (hb : d.store.orders j = some b) (hsa : a.Sound)
    (hsb : b.Sound) {x y : Int}
    (hm : matchAmounts a.amountForSale b.amountForSale b.sellPrice =
      .ok (⟨x, b.sellPrice.base.assetId⟩, ⟨y, a.sellPrice.base.assetId⟩))
    (hx : 0 ≤ x ∧ x ≤ b.forSale) (hy : 0 ≤ y ∧ y ≤ a.forSale)
    (hall : y = a.forSale ∨ x = b.forSale) {gone : Bool × Bool}
    (h : (matchOrders i j b.sellPrice : Act n (Bool × Bool)).run d = .ok gone d') :
    Matched i j a b x y gone d.store d'.store := by
  obtain ⟨a', ha', h⟩ := bind_getObject_ok.mp h
  obtain rfl : a = a' := Option.some.inj (ha.symm.trans ha')
  obtain ⟨b', hb', h⟩ := bind_getObject_ok.mp h
  obtain rfl : b = b' := Option.some.inj (hb.symm.trans hb')
  obtain ⟨amounts, hm', h⟩ := Action.bind_lift_ok.mp h
  cases hm.symm.trans hm'
  obtain ⟨newGone, d₁, h1, h⟩ := Action.bind_ok.mp h
  obtain ⟨oldGone, d₂, h2, h⟩ := Action.bind_ok.mp h
  cases h
  have hnew : d₁.store.orders = Function.update d.store.orders i
      (if newGone then none else some (a.less y)) ∧ (newGone = false → y < a.forSale) := by
    obtain ⟨rfl, e⟩ | ⟨rfl, hlt, _, e⟩ := fillOrder_orders ha hsa hy.1 hy.2 h1
    · exact ⟨e, fun h => by cases h⟩
    · exact ⟨e, fun _ => hlt⟩
  have hb1 : d₁.store.orders j = some b := by
    rw [hnew.1, Function.update_of_ne hij.symm]
    exact hb
  have hold : d'.store.orders = Function.update d₁.store.orders j
      (if oldGone then none else some (b.less x)) ∧ (oldGone = false → x < b.forSale) := by
    obtain ⟨rfl, e⟩ | ⟨rfl, hlt, _, e⟩ := fillOrder_orders hb1 hsb hx.1 hx.2 h2
    · exact ⟨e, fun h => by cases h⟩
    · exact ⟨e, fun _ => hlt⟩
  obtain ⟨p, hp, hmoves⟩ := fillOrder_moves ha h1
  obtain ⟨q, hq, hmoves'⟩ := fillOrder_moves hb1 h2
  have hboth := hmoves.trans hmoves'
  refine ⟨?_, ?_, ⟨p, q, hp, hmoves.named.mp hq, fun acc z => ?_⟩, fun z => ?_⟩
  · -- the one that pays all it has for sale is gone
    cases newGone with
    | true => exact .inl rfl
    | false =>
      cases oldGone with
      | true => exact .inr rfl
      | false =>
        have h1 := hnew.2 rfl
        have h2 := hold.2 rfl
        omega
  · rw [hold.1, hnew.1]
  · rw [hboth.purse, paidTo_leftOf, paidTo_leftOf]
    exact (add_assoc _ _ _).symm
  · rw [hboth.surplus]
    omega

end

/-! ## 7. A match returns -/

/-- The account can be paid up to `m` of an asset: its balance does not overflow, and no interest
has to be computed. -/
structure HasRoom (s : Store chainSchema) (acc z : Nat) (m : Int) : Prop where
  low : 0 ≤ s.purse acc z
  high : s.purse acc z + m ≤ int64Max
  due : z = mbdSymbol → NothingDue s acc

theorem HasRoom.mono {s : Store chainSchema} {acc z : Nat} {m m' : Int} (h : HasRoom s acc z m)
    (hm : m' ≤ m) : HasRoom s acc z m' :=
  ⟨h.low, le_trans (by omega) h.high, h.due⟩

theorem HasRoom.moves {f : Nat → Nat → Int} {g : Nat → Int} {s t : Store chainSchema} {acc z : Nat}
    {m : Int} (h : HasRoom s acc z m) (hmoves : Transfers f g s t) (h0 : 0 ≤ f acc z) :
    HasRoom t acc z (m - f acc z) := by
  have hlow := h.low
  have hhigh := h.high
  have hpurse := hmoves.purse acc z
  exact ⟨by omega, by omega, fun hz => hmoves.calm acc (h.due hz)⟩

/-- A balance object is all that its owner holds of the asset in such objects. -/
theorem purse_of_row {s : Store chainSchema} {i : Nat} {b : AccountBalance}
    (hg : s.get Kind.accountBalance i = some b) (hm : b.assetType ≠ museSymbol)
    (hb : b.assetType ≠ mbdSymbol) : s.purse b.owner b.assetType = b.balance := by
  have hrest : (s.erase Kind.accountBalance i).weight (balanceWeight b.owner b.assetType) =
      emptyStore.weight (balanceWeight b.owner b.assetType) := by
    refine Store.weight_congr fun k j => ?_
    by_cases hk : k = Kind.accountBalance
    · subst hk
      rw [Store.get_erase_self]
      split
      · rfl
      · rename_i hj
        cases hget : s.get Kind.accountBalance j with
        | none => rfl
        | some c =>
          refine if_neg fun hc => ?_
          have hclash := s.unique Kind.accountBalance j i c b hj hget hg
          simp [Schema.clashes, Kind.unique, hc.1, hc.2] at hclash
    · have hz : ∀ o : Option k.Object,
          FMap.part (balanceWeight b.owner b.assetType k) o = 0 := by
        intro o
        cases k with
        | accountBalance => exact absurd rfl hk
        | _ => exact part_zero o
      exact (hz _).trans (hz _).symm
  have hzero : emptyStore.weight (balanceWeight b.owner b.assetType) = 0 := by
    refine List.sum_eq_zero fun x hx => ?_
    obtain ⟨k, _, rfl⟩ := List.mem_map.mp hx
    cases k with
    | accountBalance => rfl
    | _ => exact FMap.sum_zero _
  rw [Store.weight_erase _ _ _ _ hg, hzero] at hrest
  have hrow : balanceWeight b.owner b.assetType Kind.accountBalance b = b.balance :=
    if_pos ⟨rfl, rfl⟩
  unfold Store.purse
  rw [if_neg hm, if_neg hb]
  omega

section

variable {d : Database chainSchema}

theorem adjustAssetBalance_returns {acc : Nat} {delta : Asset} (hm : delta.assetId ≠ museSymbol)
    (hb : delta.assetId ≠ mbdSymbol) (h0 : 0 ≤ delta.amount)
    (hroom : HasRoom d.store acc delta.assetId delta.amount) (hfresh : d.store.Fresh) :
    Finishes (adjustAssetBalance acc delta : Act n Unit) d fun _ => True := by
  unfold adjustAssetBalance
  refine finishes_ite (fun _ => finishes_pure trivial) fun hne => ?_
  have hrows : ∀ i b, d.store.get Kind.accountBalance i = some b →
      b.owner = acc ∧ b.assetType = delta.assetId →
      d.store.purse acc delta.assetId = b.balance := by
    rintro i b hg ⟨rfl, htype⟩
    have hrow := purse_of_row hg (by rw [htype]; exact hm) (by rw [htype]; exact hb)
    rwa [htype] at hrow
  cases hfind : (d.store.rows Kind.accountBalance).find? fun r : Nat × AccountBalance =>
      decide (r.2.owner = acc ∧ r.2.assetType = delta.assetId) with
  | none =>
    refine finishes_bind (a := none) (e := d) (congrArg (Outcome.ok · d) hfind) ?_
    refine finishes_require (lt_of_le_of_ne h0 (Ne.symm hne)) ?_
    refine finishes_create hfresh ?_ fun e _ => finishes_pure trivial
    refine Store.free_iff.mpr fun j b _ hg => ?_
    have hother := List.find?_eq_none.mp hfind (j, b) (FMap.mem_rows.mpr hg)
    simp only [decide_eq_true_eq] at hother
    simp only [Schema.clashes, Kind.unique]
    rw [Bool.and_eq_false_iff, decide_eq_false_iff_not, decide_eq_false_iff_not]
    by_contra hboth
    rw [not_or, not_not, not_not] at hboth
    exact hother ⟨hboth.1.symm, hboth.2.symm⟩
  | some r =>
    have hg : d.store.get Kind.accountBalance r.1 = some r.2 :=
      FMap.mem_rows.mp (List.mem_of_find?_eq_some hfind)
    have hkey := List.find?_some (p := fun r : Nat × AccountBalance =>
      decide (r.2.owner = acc ∧ r.2.assetType = delta.assetId)) hfind
    have hpurse := hrows r.1 r.2 hg (of_decide_eq_true hkey)
    refine finishes_bind (a := some r) (e := d) (congrArg (Outcome.ok · d) hfind) ?_
    refine finishes_ite (fun hneg => absurd h0 (not_le.mpr hneg)) fun _ => ?_
    have hlow := hroom.low
    have hhigh := hroom.high
    rw [hpurse] at hlow hhigh
    refine finishes_modifyWith hg (safe_ok.mpr ⟨rfl, ?_, hhigh⟩) fun _ => trivial
    exact le_trans (by decide) (add_nonneg hlow h0)

/-- **A payment returns when there is room for it.** -/
theorem adjustBalance_returns {acc : Nat} {a : Account} {delta : Asset}
    (ha : d.store.get Kind.account acc = some a) (h0 : 0 ≤ delta.amount)
    (hroom : HasRoom d.store acc delta.assetId delta.amount) (hfresh : d.store.Fresh) :
    Finishes (adjustBalance acc delta : Act n Unit) d fun _ => True := by
  have hlow := hroom.low
  have hhigh := hroom.high
  have hmin : int64Min ≤ 0 := by decide
  unfold adjustBalance
  unfold Store.purse at hlow hhigh
  refine finishes_ite (fun hm => ?_) fun hm => finishes_ite (fun hb => ?_) fun hb => ?_
  · rw [if_pos hm, ha] at hlow hhigh
    refine finishes_modifyWith ha (safe_ok.mpr ⟨rfl, ?_, hhigh⟩) fun _ => trivial
    exact le_trans hmin (add_nonneg hlow h0)
  · obtain ⟨p, hp, hcalm⟩ := hroom.due hb
    obtain ⟨hid, hdue⟩ := hcalm a ha
    have hzero : a.dueInterest d.store.props = 0 := by
      rw [Store.props_of_get hp]
      unfold Account.dueInterest
      rw [hdue]
      rfl
    have hpurse : FMap.part (fun a : Account => a.mbdBalance.amount +
        a.dueInterest d.store.props) (some a) = a.mbdBalance.amount := by
      show a.mbdBalance.amount + a.dueInterest d.store.props = _
      rw [hzero, add_zero]
    rw [if_neg hm, if_pos hb, ha, hpurse] at hlow hhigh
    have hadd : a.mbdBalance.add delta =
        .ok ⟨a.mbdBalance.amount + delta.amount, a.mbdBalance.assetId⟩ := by
      unfold Asset.add Asset.sameAsset
      rw [if_pos (hid.trans hb.symm)]
      show (safe (a.mbdBalance.amount + delta.amount) >>= _) = _
      rw [safe_ok.mpr ⟨rfl, le_trans hmin (add_nonneg hlow h0), hhigh⟩]
      rfl
    unfold adjustMbdBalance
    refine finishes_modifyNested ha (fun e he => ?_) fun _ _ => trivial
    have hp' : e.store.get Kind.dynamicGlobalProperty 0 = some p := he ▸ hp
    have hnow : (headBlockTime : Act n Nat).run e = .ok p.time e :=
      Action.bind_get_ok.mpr ⟨p, hp', rfl⟩
    by_cases hlast : a.mbdSecondsLastUpdate = p.time
    · refine ⟨(⟨a.mbdBalance.amount + delta.amount, a.mbdBalance.assetId⟩, a.mbdSeconds,
        a.mbdSecondsLastUpdate, a.mbdLastInterestPayment), ?_⟩
      refine Action.bind_ok.mpr ⟨p.time, e, hnow, ?_⟩
      rw [if_neg (by rw [hdue]; exact Bool.false_ne_true)]
      refine Action.bind_lift_ok.mpr ⟨_, hadd, ?_⟩
      rw [if_neg (not_not.mpr hlast)]
      rfl
    · refine ⟨(⟨a.mbdBalance.amount + delta.amount, a.mbdBalance.assetId⟩, addMbdSeconds a p.time,
        p.time, a.mbdLastInterestPayment), ?_⟩
      refine Action.bind_ok.mpr ⟨p.time, e, hnow, ?_⟩
      rw [if_neg (by rw [hdue]; exact Bool.false_ne_true)]
      refine Action.bind_lift_ok.mpr ⟨_, hadd, ?_⟩
      rw [if_pos hlast]
      rfl
  · exact adjustAssetBalance_returns hm hb h0 hroom hfresh

theorem AccountNamed.exists {s : Store chainSchema} {name : String} {acc : Nat}
    (h : AccountNamed s name acc) :
    ∃ a : Account, s.get Kind.account acc = some a ∧ a.name = name :=
  Option.map_eq_some_iff.mp h

/-- The seller's account is found. -/
theorem finishes_getAccountId {β : Type} {name : String} {acc : Nat}
    (h : AccountNamed d.store name acc) {f : Nat → Act n β} {Q : Store chainSchema → Prop}
    (hf : Finishes (f acc) d Q) : Finishes ((getAccountId name : Act n Nat) >>= f) d Q := by
  obtain ⟨a, ha, hname⟩ := h.exists
  refine finishes_getRow ⟨acc, a, ha, decide_eq_true hname⟩ fun i b hb hp => ?_
  obtain rfl : acc = i := account_unique ha hb (hname.trans (of_decide_eq_true hp).symm)
  exact hf

theorem cancelOrder_returns {i acc : Nat} {o : LimitOrder} (ho : d.store.orders i = some o)
    (hacc : AccountNamed d.store o.seller acc) (h0 : 0 ≤ o.forSale)
    (hroom : HasRoom d.store acc o.sellPrice.base.assetId o.forSale) (hfresh : d.store.Fresh) :
    Finishes (cancelOrder i : Act n Unit) d fun _ => True := by
  obtain ⟨a, ha, _⟩ := hacc.exists
  unfold cancelOrder
  refine finishes_getObject ho (finishes_getAccountId hacc ?_)
  have hpay : Finishes (adjustBalance acc o.amountForSale : Act n Unit) d fun _ => True :=
    adjustBalance_returns ha h0 hroom hfresh
  refine (hpay.steps (ordersStay_adjustBalance acc o.amountForSale)).bind fun _ e he => ?_
  have hsame : e.store.orders = d.store.orders := he.2
  have ho' : e.store.orders i = some o := (congrFun hsame i).trans ho
  exact finishes_remove ho' trivial

/-- **A fill returns when the seller can be paid.** -/
theorem fillOrder_returns {i acc : Nat} {o : LimitOrder} (ho : d.store.orders i = some o)
    (hs : o.Sound) (hacc : AccountNamed d.store o.seller acc) {p : Int} (h0 : 0 ≤ p)
    (hp : p ≤ o.forSale) {receives : Asset} (hr : 0 ≤ receives.amount)
    (hne : o.sellPrice.base.assetId ≠ receives.assetId)
    (hroom : HasRoom d.store acc receives.assetId receives.amount)
    (hback : HasRoom d.store acc o.sellPrice.base.assetId (o.forSale - p))
    (hfresh : d.store.Fresh) :
    ∃ gone e, (fillOrder i ⟨p, o.sellPrice.base.assetId⟩ receives : Act n Bool).run d =
      .ok gone e := by
  obtain ⟨a, ha, _⟩ := hacc.exists
  have hf := hs.forSale
  suffices h : Finishes (fillOrder i ⟨p, o.sellPrice.base.assetId⟩ receives : Act n Bool) d
      fun _ => True by
    obtain ⟨gone, e, hrun, _⟩ := h
    exact ⟨gone, e, hrun⟩
  unfold fillOrder
  refine finishes_getObject ho (finishes_require rfl (finishes_require hne ?_))
  refine finishes_getAccountId hacc ?_
  have hpay := ((adjustBalance_returns (n := n) ha hr hroom hfresh).steps
    (ordersStay_adjustBalance acc receives)).steps (moves_adjustBalance acc receives)
  refine hpay.bind fun _ e he => ?_
  obtain ⟨⟨_, hsame⟩, hmoves⟩ := he
  have ho₁ : e.store.orders i = some o :=
    (congrFun (show e.store.orders = d.store.orders from hsame) i).trans ho
  refine finishes_ite (fun _ => ?_) fun _ => ?_
  · exact (finishes_remove ho₁ trivial : Finishes _ e fun _ => True).bind fun _ _ _ =>
      finishes_pure trivial
  · have hless : (o.less p).forSale = o.forSale - p := rfl
    have hsafe : safe (o.forSale - p) = .ok (o.forSale - p) :=
      safe_ok.mpr ⟨rfl, le_trans (by decide) (show 0 ≤ o.forSale - p by omega),
        le_trans (by omega) hf.2⟩
    have hwrite : Finishes (Action.modifyWith (S := chainSchema) Kind.limitOrder i
        (fun b : LimitOrder => safe (b.forSale - p))
        (fun (b : LimitOrder) x => { b with forSale := x }) : Act n Unit) e fun t =>
          ∃ hf, t = e.store.write Kind.limitOrder i (o.less p) hf :=
      finishes_modifyWith ho₁ hsafe fun hf => ⟨hf, rfl⟩
    refine hwrite.bind fun _ e₂ he₂ => ?_
    obtain ⟨hfree, hstore⟩ := he₂
    have hboth : Transfers (fun acc' z => paidTo acc receives acc' z + 0)
        (fun z => receives.of z + -(⟨p, o.sellPrice.base.assetId⟩ : Asset).of z)
        d.store e₂.store := by
      rw [hstore]
      exact hmoves.trans (moves_writeOrder ho₁ hfree)
    have ho₂ : e₂.store.orders i = some (o.less p) := by
      rw [hstore, Store.orders_write, Function.update_self]
    refine finishes_getObject ho₂ (finishes_lift (hs.less_amountToReceive h0 hp) ?_)
    refine finishes_ite (fun _ => ?_) fun _ => finishes_pure trivial
    -- what is left is paid back in an asset that the first payment did not touch
    have hother : paidTo acc receives acc o.sellPrice.base.assetId + 0 = 0 := by
      rw [paidTo_other hne, add_zero]
    have hroom₂ := hback.moves hboth (le_of_eq hother.symm)
    rw [hother, sub_zero] at hroom₂
    have hcancel : Finishes (cancelOrder i : Act n Unit) e₂ fun _ => True :=
      cancelOrder_returns ho₂ (hboth.named.mpr hacc) (by omega) hroom₂ (hboth.fresh hfresh)
    exact hcancel.bind fun _ _ _ => finishes_pure trivial

/-- Both sellers can be paid all that is for sale. -/
structure Payable (s : Store chainSchema) (a b : LimitOrder) : Prop where
  fresh : s.Fresh
  seller : ∀ o ∈ [a, b], ∃ acc, AccountNamed s o.seller acc ∧
    HasRoom s acc a.sellPrice.base.assetId a.forSale ∧
    HasRoom s acc b.sellPrice.base.assetId b.forSale

theorem matchOrders_returns {i j : Nat} (hij : i ≠ j) {a b : LimitOrder}
    (ha : d.store.orders i = some a) (hb : d.store.orders j = some b) (hsa : a.Sound)
    (hsb : b.Sound) (ho : Opposite a b) {x y : Int}
    (hm : matchAmounts a.amountForSale b.amountForSale b.sellPrice =
      .ok (⟨x, b.sellPrice.base.assetId⟩, ⟨y, a.sellPrice.base.assetId⟩))
    (hx : 0 ≤ x ∧ x ≤ b.forSale) (hy : 0 ≤ y ∧ y ≤ a.forSale) (hp : Payable d.store a b) :
    ∃ gone e, (matchOrders i j b.sellPrice : Act n (Bool × Bool)).run d = .ok gone e := by
  obtain ⟨p, hpa, hpA, hpB⟩ := hp.seller a (by simp)
  obtain ⟨q, hqb, hqA, hqB⟩ := hp.seller b (by simp)
  have hne : a.sellPrice.base.assetId ≠ b.sellPrice.base.assetId := by
    rw [ho.1]
    exact hsb.assets.symm
  obtain ⟨newGone, d₁, h1⟩ : ∃ newGone d₁, (fillOrder i ⟨y, a.sellPrice.base.assetId⟩
      ⟨x, b.sellPrice.base.assetId⟩ : Act n Bool).run d = .ok newGone d₁ :=
    fillOrder_returns ha hsa hpa hy.1 hy.2 hx.1 hne (hpB.mono hx.2) (hpA.mono (by omega)) hp.fresh
  obtain ⟨p', hp', hmoves⟩ := fillOrder_moves ha h1
  obtain rfl : p = p' := hpa.unique hp'
  have hb₁ : d₁.store.orders j = some b := by
    obtain ⟨_, e⟩ | ⟨_, _, _, e⟩ := fillOrder_orders ha hsa hy.1 hy.2 h1
    · rw [e, Function.update_of_ne hij.symm]
      exact hb
    · rw [e, Function.update_of_ne hij.symm]
      exact hb
  -- the first fill took no more of either asset from the room than the first order had
  have hroom : ∀ z m, HasRoom d.store q z m →
      HasRoom d₁.store q z (m - (paidTo p ⟨x, b.sellPrice.base.assetId⟩ q z +
        if newGone then paidTo p (a.less y).amountForSale q z else 0)) := by
    intro z m hz
    refine hz.moves hmoves (add_nonneg (paidTo_nonneg hx.1 q z) ?_)
    split
    · exact paidTo_nonneg (show 0 ≤ a.forSale - y by omega) q z
    · exact le_rfl
  have hroomA : HasRoom d₁.store q a.sellPrice.base.assetId y := by
    refine (hroom _ _ hqA).mono ?_
    have hback : paidTo p (a.less y).amountForSale q a.sellPrice.base.assetId ≤ a.forSale - y :=
      paidTo_le (show 0 ≤ a.forSale - y by omega) q _
    rw [paidTo_other (a := ⟨x, b.sellPrice.base.assetId⟩) hne]
    split <;> omega
  have hroomB : HasRoom d₁.store q b.sellPrice.base.assetId (b.forSale - x) := by
    refine (hroom _ _ hqB).mono ?_
    have hpaid : paidTo p ⟨x, b.sellPrice.base.assetId⟩ q b.sellPrice.base.assetId ≤ x :=
      paidTo_le hx.1 q _
    have hback : paidTo p (a.less y).amountForSale q b.sellPrice.base.assetId = 0 :=
      paidTo_other (a := (a.less y).amountForSale) hne.symm q
    rw [hback, ite_self]
    omega
  obtain ⟨oldGone, d₂, h2⟩ : ∃ oldGone d₂, (fillOrder j ⟨x, b.sellPrice.base.assetId⟩
      ⟨y, a.sellPrice.base.assetId⟩ : Act n Bool).run d₁ = .ok oldGone d₂ :=
    fillOrder_returns hb₁ hsb (hmoves.named.mpr hqb) hx.1 hx.2 hy.1 hne.symm hroomA hroomB
      (hmoves.fresh hp.fresh)
  refine ⟨(newGone, oldGone), d₂, ?_⟩
  refine bind_getObject_ok.mpr ⟨a, ha, bind_getObject_ok.mpr ⟨b, hb, ?_⟩⟩
  refine Action.bind_lift_ok.mpr ⟨_, hm, ?_⟩
  exact Action.bind_ok.mpr ⟨newGone, d₁, h1, Action.bind_ok.mpr ⟨oldGone, d₂, h2, rfl⟩⟩

/-- **Order matching.** Two crossing orders exchange at least one unit of each asset, neither pays
more than it sells, and each is served no worse than its price, rounded down to whole units for the
one that pays all. A match that returns does exactly that, takes an order from the book and pays
back what is left of it; it returns when the sellers can be paid. -/
theorem orders_matched (d : Database chainSchema) (i j : Nat) (a b : LimitOrder) (hij : i ≠ j)
    (ha : d.store.get Kind.limitOrder i = some a) (hb : d.store.get Kind.limitOrder j = some b)
    (hta : a.Tradable) (htb : b.Tradable) (hc : Crossed a b) :
    ∃ x y : Int, matchAmounts a.amountForSale b.amountForSale b.sellPrice =
        .ok (⟨x, b.sellPrice.base.assetId⟩, ⟨y, a.sellPrice.base.assetId⟩) ∧
      1 ≤ x ∧ x ≤ b.forSale ∧ 1 ≤ y ∧ y ≤ a.forSale ∧ a.Served y x ∧ b.Served x y ∧
      (∀ gone d', (matchOrders i j b.sellPrice : Act n (Bool × Bool)).run d = .ok gone d' →
        Matched i j a b x y gone d.store d'.store) ∧
      (Payable d.store a b →
        ∃ gone d', (matchOrders i j b.sellPrice : Act n (Bool × Bool)).run d = .ok gone d') := by
  have hsa := hta.sound
  have hsb := htb.sound
  obtain ⟨x, y, hm, hx, hx', hy, hy', hall, hserved, hserved'⟩ := matchAmounts_served hsa hsb hc
  refine ⟨x, y, hm, hx, hx', hy, hy', hserved, hserved', fun gone d' h => ?_, fun hp => ?_⟩
  · exact matchOrders_matched hij ha hb hsa hsb hm ⟨by omega, hx'⟩ ⟨by omega, hy'⟩ hall h
  · exact matchOrders_returns hij ha hb hsa hsb hc.1 hm ⟨by omega, hx'⟩ ⟨by omega, hy'⟩ hp

end

section

attribute [local instance] sampleFc

/-- 2 MBD are offered at 2 MUSE each. -/
def facingOld : LimitOrder where
  created := genesisTime
  expiration := genesisTime + 3600
  seller := initMinerName
  orderid := 1
  forSale := 2
  sellPrice := ⟨Asset.mbd 1, Asset.muse 2⟩

/-- 3 MUSE are offered at the same price. -/
def facingNew : LimitOrder where
  created := genesisTime
  expiration := genesisTime + 3600
  seller := initMinerName
  orderid := 2
  forSale := 3
  sellPrice := ⟨Asset.muse 2, Asset.mbd 1⟩

def faceOrders : Act 0 Unit := do
  let _ ← Action.create (S := chainSchema) Kind.limitOrder facingOld
  let _ ← Action.create (S := chainSchema) Kind.limitOrder facingNew
  pure ()

/-- A book with the two orders. -/
def facing : Database chainSchema := (faceOrders.run sampleMarket).db

theorem facing_orders : facing.store.get Kind.limitOrder 1 = some facingNew ∧
    facing.store.get Kind.limitOrder 0 = some facingOld := by
  obtain ⟨_, hr⟩ := Outcome.exists_of_isOk (show (faceOrders.run sampleMarket).isOk = true by
    decide +kernel)
  obtain ⟨i, d₁, h1, hr⟩ := Action.bind_ok.mp hr
  obtain ⟨j, d₂, h2, hr⟩ := Action.bind_ok.mp hr
  have hd : d₂ = facing := by
    cases hr
    rfl
  obtain ⟨_, _, _, e1⟩ := create_store h1
  obtain ⟨_, _, _, e2⟩ := create_store h2
  have hfirst : sampleMarket.store.nextId Kind.limitOrder = 0 := by decide +kernel
  have hsecond : d₁.store.nextId Kind.limitOrder = 1 := by
    rw [e1, Store.nextId_setNextId, if_pos rfl, hfirst]
  rw [← hd, e2, Store.get_setNextId, Store.get_setNextId, Store.get_write_self,
    Store.get_write_self, hsecond, if_pos rfl, if_neg (show ¬(0 = 1) by decide), e1,
    Store.get_setNextId, Store.get_write_self, hfirst, if_pos rfl]
  exact ⟨rfl, rfl⟩

theorem facing_fresh : facing.store.Fresh := by
  have hmarket : sampleMarket.store.Fresh := by
    refine ((Action.holds _ (Node.genesis sampleGenesis).db ?_).2.2 (Nat.zero_le _)
      (Node.genesis_fresh (by decide +kernel))).fresh
    decide +kernel
  exact ((faceOrders.holds sampleMarket (by decide +kernel)).2.2 (Nat.zero_le _) hmarket).fresh

theorem facing_payable : Payable facing.store facingNew facingOld := by
  have hdue : NothingDue facing.store 3 := by
    obtain ⟨p, hp⟩ := Option.isSome_iff_exists.mp (show (facing.store.get
      Kind.dynamicGlobalProperty 0).isSome = true by decide +kernel)
    have hall : (facing.store.get Kind.account 3).all (fun a : Account =>
        decide (a.mbdBalance.assetId = mbdSymbol) &&
          !interestDue a facing.store.props.time) = true := by
      decide +kernel
    refine ⟨p, hp, fun a ha => ?_⟩
    rw [ha, Option.all_some, Bool.and_eq_true, Bool.not_eq_true', Store.props_of_get hp] at hall
    exact ⟨of_decide_eq_true hall.1, hall.2⟩
  have hroom : AccountNamed facing.store initMinerName 3 ∧
      HasRoom facing.store 3 facingNew.sellPrice.base.assetId facingNew.forSale ∧
      HasRoom facing.store 3 facingOld.sellPrice.base.assetId facingOld.forSale := by
    refine ⟨?_, ⟨?_, ?_, fun _ => hdue⟩, ⟨?_, ?_, fun _ => hdue⟩⟩
    · unfold AccountNamed
      decide +kernel
    all_goals decide +kernel
  refine ⟨facing_fresh, fun o ho => ⟨3, ?_⟩⟩
  simp only [List.mem_cons, List.not_mem_nil, or_false] at ho
  obtain rfl | rfl := ho
  · exact hroom
  · exact hroom

theorem facingOld_tradable : facingOld.Tradable :=
  ⟨by decide, by decide, by decide, by decide, ⟨Asset.muse 4, by decide, by decide⟩⟩

theorem facingNew_tradable : facingNew.Tradable :=
  ⟨by decide, by decide, by decide, by decide, ⟨Asset.mbd 1, by decide, by decide⟩⟩

theorem facing_crossed : Crossed facingNew facingOld := ⟨⟨by decide, by decide⟩, by decide⟩

theorem orders_matched_facing : ∃ (x y : Int) (gone : Bool × Bool) (d' : Database chainSchema),
    (matchOrders 1 0 facingOld.sellPrice : Act 0 (Bool × Bool)).run facing = .ok gone d' ∧
      1 ≤ x ∧ x ≤ 2 ∧ 1 ≤ y ∧ y ≤ 3 ∧ facingNew.Served y x ∧ facingOld.Served x y ∧
      Matched 1 0 facingNew facingOld x y gone facing.store d'.store := by
  obtain ⟨x, y, _, hx, hx', hy, hy', hserved, hserved', hmatched, hreturns⟩ :=
    orders_matched (n := 0) facing 1 0 facingNew facingOld (by decide) facing_orders.1
      facing_orders.2 facingNew_tradable facingOld_tradable facing_crossed
  obtain ⟨gone, d', hr⟩ := hreturns facing_payable
  exact ⟨x, y, gone, d', hr, hx, hx', hy, hy', hserved, hserved', hmatched gone d' hr⟩

/-- The new order pays its 3 MUSE for 1 MBD, though it asked for 1 MBD for 2 MUSE: what it gets is
rounded down to whole units. -/
theorem facing_rounded : ∃ (i j : Nat) (a b : LimitOrder) (x y : Int) (gone : Bool × Bool)
    (d d' : Database chainSchema), d.store.get Kind.limitOrder i = some a ∧
      d.store.get Kind.limitOrder j = some b ∧ a.Tradable ∧ b.Tradable ∧ Crossed a b ∧
      (matchOrders i j b.sellPrice : Act 0 (Bool × Bool)).run d = .ok gone d' ∧
      Matched i j a b x y gone d.store d'.store ∧
      ¬y * a.sellPrice.quote.amount ≤ x * a.sellPrice.base.amount := by
  have hm : matchAmounts facingNew.amountForSale facingOld.amountForSale facingOld.sellPrice =
      .ok (⟨1, facingOld.sellPrice.base.assetId⟩, ⟨3, facingNew.sellPrice.base.assetId⟩) := by
    decide
  obtain ⟨gone, d', hr⟩ : ∃ gone d', (matchOrders 1 0 facingOld.sellPrice :
      Act 0 (Bool × Bool)).run facing = .ok gone d' :=
    matchOrders_returns (by decide) facing_orders.1 facing_orders.2 facingNew_tradable.sound
      facingOld_tradable.sound facing_crossed.1 hm (by decide) (by decide) facing_payable
  refine ⟨1, 0, facingNew, facingOld, 1, 3, gone, facing, d', facing_orders.1, facing_orders.2,
    facingNew_tradable, facingOld_tradable, facing_crossed, hr, ?_, by decide⟩
  exact matchOrders_matched (by decide) facing_orders.1 facing_orders.2 facingNew_tradable.sound
    facingOld_tradable.sound hm (by decide) (by decide) (by decide) hr

end

end MuseChain
