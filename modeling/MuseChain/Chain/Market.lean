/-
  File:      MuseChain/Chain/Market.lean
  Subject:   The order book: matching, filling, cancelling and expiring limit orders.

  A loop over a live index is a loop over the ids it would visit, and each object is read again
  when its turn comes: a match removes at most the two orders it is about.
-/
import MuseChain.Chain.Balances

namespace MuseChain

variable {n : Nat}

/-! ## 1. The order by_price -/

/-- `a > b` of two prices. -/
def Price.bgt (a b : Price) : Bool := !a.ble b

/-- The order of the index: the higher price first, then the lower id. -/
def byPrice (a b : Nat × LimitOrder) : Bool :=
  a.2.sellPrice.bgt b.2.sellPrice || (!b.2.sellPrice.bgt a.2.sellPrice && decide (a.1 ≤ b.1))

/-- The orders from `lower_bound( best )` up to `upper_bound( worst )`. -/
def ordersBetween (best worst : Price) : Act n (List (Nat × LimitOrder)) :=
  Action.read fun s =>
    ((s.rows Kind.limitOrder).filter fun r : Nat × LimitOrder =>
      !r.2.sellPrice.bgt best && !worst.bgt r.2.sellPrice).insertionSort fun a b => byPrice a b

/-! ## 2. Filling -/

def cancelOrder (order : Nat) : Act n Unit := do
  let o ← getObject .limitOrder order
  let seller ← getAccountId o.seller
  adjustBalance seller o.amountForSale
  Action.remove (S := chainSchema) Kind.limitOrder order

/-- `fill_order`: whether the order is gone. -/
def fillOrder (order : Nat) (pays receives : Asset) : Act n Bool := do
  let o ← getObject .limitOrder order
  Action.require (o.amountForSale.assetId = pays.assetId)
    "order.amount_for_sale().asset_id == pays.asset_id"
  Action.require (pays.assetId ≠ receives.assetId) "pays.asset_id != receives.asset_id"
  let seller ← getAccountId o.seller
  adjustBalance seller receives
  if pays = o.amountForSale then do
    Action.remove (S := chainSchema) Kind.limitOrder order
    pure true
  else do
    Action.modifyWith (S := chainSchema) Kind.limitOrder order
      (fun b : LimitOrder => safe (b.forSale - pays.amount))
      fun (b : LimitOrder) x => { b with forSale := x }
    let o ← getObject .limitOrder order
    let worth ← Action.lift o.amountToReceive
    -- too small to be sold at the sale price
    if worth.amount = 0 then do
      cancelOrder order
      pure true
    else pure false

/-- What the new order receives and what the old order receives, at the old order's price. -/
def matchAmounts (newForSale oldForSale : Asset) (matchPrice : Price) :
    Except Exn (Asset × Asset) := do
  let worth ← oldForSale.mul matchPrice
  let le ← newForSale.le worth
  if le then do
    let receives ← newForSale.mul matchPrice
    pure (receives, newForSale)
  else pure (oldForSale, worth)

/-- `match`: which of the two orders are gone. -/
def matchOrders (newOrder oldOrder : Nat) (matchPrice : Price) : Act n (Bool × Bool) := do
  let a ← getObject .limitOrder newOrder
  let b ← getObject .limitOrder oldOrder
  let (newReceives, oldReceives) ← Action.lift
    (matchAmounts a.amountForSale b.amountForSale matchPrice)
  let newFilled ← fillOrder newOrder oldReceives newReceives
  let oldFilled ← fillOrder oldOrder newReceives oldReceives
  pure (newFilled, oldFilled)

/-- The loop of `apply_order`. -/
def matchEach (newOrder : Nat) : List (Nat × LimitOrder) → Act n Unit
  | [] => pure ()
  | old :: rest => do
      let (newFilled, _) ← matchOrders newOrder old.1 old.2.sellPrice
      if newFilled then pure () else matchEach newOrder rest

/-- `apply_order`: whether the order is gone. -/
def applyOrder (order : Nat) : Act n Bool := do
  let o ← getObject .limitOrder order
  let maxPrice := o.sellPrice.invert
  let best ← Action.lift (Price.maxOf maxPrice.base.assetId maxPrice.quote.assetId)
  let orders ← ordersBetween best maxPrice
  matchEach order orders
  Action.read fun s => (s.get Kind.limitOrder order).isNone

/-! ## 3. Expiration -/

/-- The rows of an index that are due, the earliest first and equal ones in the order of the
ids. -/
def dueRows (k : Kind) (time : k.Object → Nat) (due : Nat → Bool) :
    Act n (List (Nat × k.Object)) :=
  Action.read fun s =>
    ((s.rows k).filter fun r => due (time r.2)).insertionSort
      fun a b => time a.2 ≤ time b.2

def clearExpiredOrders : Act n Unit := do
  let now ← headBlockTime
  let orders ← dueRows Kind.limitOrder (fun o : LimitOrder => o.expiration) fun t => t < now
  Action.forEach orders fun o => cancelOrder o.1

end MuseChain
