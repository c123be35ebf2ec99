/-
  File:      MuseChain/Safety/Conservation.lean
  Subject:   MUSE, MBD and vesting shares: the counters stay what is held.

  * Orders, operations and hardforks move no value (`Still`), but for those that issue or burn MUSE
    or MBD (`Operation.MintsNothing`).
  * `balanced_genesis`: the counters of the genesis are what it gives.
  * **`Reached.accounted`**: every state reached is balanced.
-/
import MuseChain.Safety.Founding
import MuseChain.Safety.Payments
import MuseChain.Safety.Tokens

namespace MuseChain

variable {n : Nat}

section

variable {d d' : Database chainSchema}

/-! ## 1. The market -/

/-- An order that goes pays back what it has for sale. -/
theorem flow_eraseOrder {i : Nat} {o : LimitOrder} (ho : d.store.orders i = some o) :
    Flow o.amountForSale.inMuse o.amountForSale.inMbd 0 d.store
      (d.store.erase Kind.limitOrder i) := by
  have hg : d.store.get Kind.limitOrder i = some o := ho
  refine (flow_put (k := Kind.limitOrder) (by decide) i none (fun _ hn => by cases hn)).of_eq ?_ ?_ ?_
  · rw [hg]
    exact sub_zero _
  · rw [hg]
    exact sub_zero _
  · rw [hg]
    rfl

theorem still_cancelOrder (i : Nat) : Steps Still (cancelOrder i : Act n Unit) := by
  refine ⟨fun {d u d'} h => ?_⟩
  obtain ⟨o, ho, h⟩ := bind_getObject_ok.mp h
  obtain ⟨acc, _, _, _, h⟩ := bind_getAccountId_ok h
  obtain ⟨_, d₁, h1, h⟩ := Action.bind_ok.mp h
  obtain ⟨o₁, ho1, e⟩ := remove_store h
  have hsame : d₁.store.orders = d.store.orders := (ordersStay_adjustBalance acc _).step h1
  obtain rfl : o = o₁ := Option.some.inj ((show d.store.orders i = some o from ho).symm.trans
    (hsame ▸ ho1))
  have hpaid := (flow_adjustBalance acc o.amountForSale).step h1
  rw [e]
  exact (hpaid.trans (flow_eraseOrder ho1)).of_eq (neg_add_cancel _) (neg_add_cancel _) rfl

/-- **Filling an order** takes what it pays from the book and gives what it receives. -/
theorem flow_fillOrder (i : Nat) (pays receives : Asset) :
    Steps (Flow (pays.inMuse - receives.inMuse) (pays.inMbd - receives.inMbd) 0)
      (fillOrder i pays receives : Act n Bool) := by
  refine ⟨fun {d gone d'} h => ?_⟩
  obtain ⟨o, ho, h⟩ := bind_getObject_ok.mp h
  obtain ⟨hasset, h⟩ := Action.bind_require_ok.mp h
  obtain ⟨_, h⟩ := Action.bind_require_ok.mp h
  obtain ⟨acc, _, _, _, h⟩ := bind_getAccountId_ok h
  obtain ⟨_, d₁, h1, h⟩ := Action.bind_ok.mp h
  have hsame : d₁.store.orders = d.store.orders := (ordersStay_adjustBalance acc _).step h1
  have ho : d₁.store.orders i = some o := by
    rw [hsame]
    exact ho
  have hpaid := (flow_adjustBalance acc receives).step h1
  have htaken : Flow pays.inMuse pays.inMbd 0 d₁.store d'.store := by
    split at h
    · rename_i hall
      obtain ⟨_, d₂, h2, h⟩ := Action.bind_ok.mp h
      cases h
      obtain ⟨o₁, ho1, e⟩ := remove_store h2
      obtain rfl : o = o₁ := Option.some.inj (ho.symm.trans ho1)
      rw [e, hall]
      exact flow_eraseOrder ho
    · obtain ⟨_, d₂, h2, h⟩ := Action.bind_ok.mp h
      obtain ⟨o₁, x, ho1, hx, hf, e⟩ := modifyWith_store h2
      obtain rfl : o = o₁ := Option.some.inj (ho.symm.trans ho1)
      obtain ⟨rfl, _⟩ := safe_ok.mp hx
      have hreduced : Flow pays.inMuse pays.inMbd 0 d₁.store d₂.store := by
        rw [e]
        refine (flow_write (by decide) ho1 hf).of_eq ?_ ?_ rfl
        · show o.amountForSale.inMuse - (o.less pays.amount).amountForSale.inMuse = pays.inMuse
          unfold Asset.inMuse
          rw [← hasset]
          show (if o.amountForSale.assetId = museSymbol then o.forSale else 0) -
            (if o.amountForSale.assetId = museSymbol then o.forSale - pays.amount else 0) = _
          split
          · omega
          · rfl
        · show o.amountForSale.inMbd - (o.less pays.amount).amountForSale.inMbd = pays.inMbd
          unfold Asset.inMbd
          rw [← hasset]
          show (if o.amountForSale.assetId = mbdSymbol then o.forSale else 0) -
            (if o.amountForSale.assetId = mbdSymbol then o.forSale - pays.amount else 0) = _
          split
          · omega
          · rfl
      obtain ⟨_, _, h⟩ := bind_getObject_ok.mp h
      obtain ⟨worth, _, h⟩ := Action.bind_lift_ok.mp h
      split at h
      · obtain ⟨_, d₃, h3, h⟩ := Action.bind_ok.mp h
        cases h
        exact (hreduced.trans ((still_cancelOrder i).step h3)).of_eq (add_zero _) (add_zero _) rfl
      · cases h
        exact hreduced
  exact (hpaid.trans htaken).of_eq (neg_add_eq_sub _ _) (neg_add_eq_sub _ _) rfl

/-- **What one order pays the other receives.** -/
theorem still_matchOrders (newOrder oldOrder : Nat) (matchPrice : Price) :
    Steps Still (matchOrders newOrder oldOrder matchPrice : Act n (Bool × Bool)) := by
  unfold matchOrders
  refine steps_bind (looks_getObject _ _).steps fun a => steps_bind (looks_getObject _ _).steps
    fun b => steps_bind (by simp) fun amounts => ?_
  obtain ⟨newReceives, oldReceives⟩ := amounts
  refine ((flow_fillOrder newOrder oldReceives newReceives).flow fun newFilled =>
    (flow_fillOrder oldOrder newReceives oldReceives).bind_still fun oldFilled =>
      (looks_pure _).steps).mono fun s t h => h.of_eq ?_ ?_ rfl
  · omega
  · omega

theorem still_matchEach (newOrder : Nat) (l : List (Nat × LimitOrder)) :
    Steps Still (matchEach newOrder l : Act n Unit) := by
  induction l with
  | nil => exact (looks_pure ()).steps
  | cons old rest ih =>
    unfold matchEach
    refine steps_bind (still_matchOrders _ _ _) fun filled => ?_
    exact steps_ite (fun _ => by simp) fun _ => ih

theorem still_applyOrder (order : Nat) : Steps Still (applyOrder order : Act n Bool) := by
  unfold applyOrder
  refine steps_bind (looks_getObject _ _).steps fun o => steps_bind (by simp) fun best => ?_
  refine steps_bind (by simp) fun orders => ?_
  exact steps_bind (still_matchEach _ _) fun _ => by simp

theorem still_clearExpiredOrders : Steps Still (clearExpiredOrders : Act n Unit) := by
  unfold clearExpiredOrders
  refine steps_bind (by simp) fun now => steps_bind (looks_dueRows _ _ _).steps fun orders => ?_
  exact steps_forEach fun o => still_cancelOrder o.1

theorem flow_create {k : Kind} (hk : k ≠ .dynamicGlobalProperty) (a : k.Object) :
    Steps (Flow (-museWeight k a) (-mbdWeight k a) (-vestsWeight k a))
      (Action.create (S := chainSchema) k a : Act n Nat) := by
  refine ⟨fun {d i d'} h => ?_⟩
  obtain ⟨rfl, hnone, hf, e⟩ := create_store h
  have hprops : d'.store.props = d.store.props := by
    rw [e]
    unfold Store.props
    rw [Store.get_setNextId, Store.get_write_ne _ hk.symm]
  refine ⟨?_, ?_, ?_⟩
  · rw [museGap, hprops, e, Store.weight_create _ _ _ _ _ hnone, museGap]
    omega
  · rw [mbdGap, hprops, e, Store.weight_create _ _ _ _ _ hnone, mbdGap]
    omega
  · rw [vestsGap, hprops, e, Store.weight_create _ _ _ _ _ hnone, vestsGap]
    omega

/-- A new order holds what was taken from the balance for it. -/
theorem still_placeOrder {owner : String} {orderid : Nat} {amountToSell : Asset}
    {fillOrKill : Bool} {expiration : Nat} {sellPrice : Except Exn Price}
    (hp : ∀ price, sellPrice = .ok price → price.base.assetId = amountToSell.assetId) :
    Steps Still (placeOrder owner orderid amountToSell fillOrKill expiration sellPrice :
      Act n Unit) := by
  unfold placeOrder
  refine steps_bind (by simp) fun now => steps_bind (by simp) fun _ => ?_
  refine steps_bind (by simp) fun acc => steps_bind (by simp) fun balance => ?_
  refine steps_bind (by simp) fun ge => steps_bind (by simp) fun _ => ?_
  refine steps_bind_lift fun neg hneg => ?_
  obtain rfl := Asset.neg_ok hneg
  have hrest : ∀ i, Steps Still (do
      let filled ← applyOrder i
      if fillOrKill then Action.require (filled = true) "filled" : Act n Unit) := fun i =>
    steps_bind (still_applyOrder i) fun _ => steps_ite (fun _ => by simp) fun _ => by simp
  have hcreate : ∀ price, sellPrice = .ok price →
      Steps (Flow (-amountToSell.inMuse) (-amountToSell.inMbd) 0) (do
        let i ← Action.create (S := chainSchema) Kind.limitOrder
          { created := now, seller := owner, orderid := orderid, forSale := amountToSell.amount,
            sellPrice := price, expiration := expiration : LimitOrder }
        let filled ← applyOrder i
        if fillOrKill then Action.require (filled = true) "filled" : Act n Unit) := by
    intro price hprice
    refine ((flow_create (k := Kind.limitOrder) (by decide) _).bind_still hrest).mono fun s t h =>
      h.of_eq ?_ ?_ rfl
    · show -(⟨amountToSell.amount, price.base.assetId⟩ : Asset).inMuse = -amountToSell.inMuse
      rw [hp price hprice]
    · show -(⟨amountToSell.amount, price.base.assetId⟩ : Asset).inMbd = -amountToSell.inMbd
      rw [hp price hprice]
  refine ((flow_adjustBalance acc _).flow fun _ => steps_bind_lift hcreate).mono fun s t h =>
    h.of_eq ?_ ?_ rfl
  · rw [Asset.inMuse_neg]
    omega
  · rw [Asset.inMbd_neg]
    omega

/-! ## 2. Operations -/

theorem still_transfer (sender receiver : String) (amount : Asset) :
    Steps Still (transfer sender receiver amount : Act n Unit) := by
  have hproved : ∀ acc now, Steps Still (setProved acc now : Act n Unit) := fun acc now =>
    (composed_setProved (l := [.account .challenges]) acc now (by decide)).still (by decide)
  unfold transfer
  refine steps_bind (by simp) fun fromAccount => steps_bind (by simp) fun toAccount => ?_
  refine steps_bind (by simp) fun a => steps_ite (fun _ => steps_bind (by simp) fun now =>
    steps_bind (hproved _ _) fun _ => ?_) fun _ => ?_
  all_goals
    refine steps_ite (fun _ => ?_) fun _ => steps_throw _
    refine steps_bind (by simp) fun balance => steps_bind (by simp) fun ge => ?_
    refine steps_bind (by simp) fun _ => steps_bind_lift fun neg hneg => ?_
    obtain rfl := Asset.neg_ok hneg
    refine ((flow_adjustBalance fromAccount _).flow fun _ =>
      flow_adjustBalance toAccount amount).mono fun s t h => h.of_eq ?_ ?_ rfl
    · rw [Asset.inMuse_neg]
      omega
    · rw [Asset.inMbd_neg]
      omega

/-- MUSE that are taken from an account and deposited. -/
theorem still_deposit {acc receiver : Nat} {amount : Asset} (hm : amount.assetId = museSymbol)
    {x : Asset → Act n Unit} (hx : ∀ a, Steps Still (x a)) :
    Steps Still (do
      let neg ← Action.lift amount.neg
      adjustBalance acc neg
      let shares ← createVesting receiver amount
      x shares : Act n Unit) := by
  refine steps_bind_lift fun neg hneg => ?_
  obtain rfl := Asset.neg_ok hneg
  refine ((flow_adjustBalance acc _).flow fun _ =>
    (flow_createVesting receiver amount).bind_still hx).mono fun s t h => h.of_eq ?_ ?_ rfl
  · rw [Asset.inMuse_neg, Asset.inMuse, if_pos hm]
    omega
  · rw [Asset.inMbd_neg, Asset.inMbd, if_neg (by rw [hm]; decide)]
    rfl

theorem still_transferToVesting (sender receiver : String) {amount : Asset}
    (hm : amount.assetId = museSymbol) :
    Steps Still (transferToVesting sender receiver amount : Act n Unit) := by
  unfold transferToVesting
  refine steps_bind (by simp) fun fromAccount => steps_ite (fun _ => steps_bind (by simp)
    fun toAccount => ?_) fun _ => steps_bind (by simp) fun toAccount => ?_
  all_goals
    refine steps_bind (by simp) fun balance => steps_bind (by simp) fun ge => ?_
    refine steps_bind (by simp) fun _ => ?_
    exact still_deposit hm fun _ => (looks_pure ()).steps

theorem still_challengeAuthority (challenger challenged : String) (requireOwner : Bool) :
    Steps Still (challengeAuthority challenger challenged requireOwner : Act n Unit) := by
  unfold challengeAuthority
  refine steps_bind (by simp) fun challengedId => steps_bind (by simp) fun challengerId => ?_
  refine steps_ite (fun _ => steps_throw _) fun _ => steps_bind (by simp) fun a => ?_
  refine steps_bind (by simp) fun ge => steps_bind (by simp) fun _ => ?_
  refine steps_bind (by simp) fun c => steps_bind (by simp) fun _ => ?_
  refine steps_bind (by simp) fun now => steps_bind (by simp) fun _ => ?_
  refine still_deposit rfl fun _ => ?_
  exact Composed.still (l := [.account .challenges])
    (composed_modify fun _ f => by cases f <;> simp +decide) (by decide)

/-- **The fee of a new account becomes its vesting shares.** -/
theorem still_accountCreate [Fc] {o : AccountCreateOp} (hpos : 0 ≤ o.fee.amount) :
    Steps Still (accountCreate o : Act n Unit) := by
  have hpaid : ∀ creator, Steps (Flow o.fee.amount 0 0) (Action.modifyWith (S := chainSchema)
      Kind.account creator (fun c : Account => c.balance.sub o.fee)
      fun (c : Account) x => { c with balance := x } : Act n Unit) := by
    intro creator
    refine flow_modifyAccount fun a x hx => ?_
    obtain ⟨_, rfl⟩ := Asset.sub_ok hx
    exact ⟨rfl, (sub_zero _).symm, (sub_zero _).symm⟩
  have hvested : ∀ i : Nat, Steps (Flow (-o.fee.amount) 0 0) (do
      if 0 < o.fee.amount then do
        let _ ← createVesting i o.fee
        pure () : Act n Unit) := by
    intro i
    split
    · exact (flow_createVesting i o.fee).bind_still fun _ => (looks_pure ()).steps
    · have hzero : -o.fee.amount = 0 := by omega
      have hnone : Steps Still (pure () : Act n Unit) := (looks_pure ()).steps
      exact hnone.mono fun s t h => h.of_eq hzero.symm rfl rfl
  have hrest : ∀ (creator : Nat) (a : Account), Blank .account a → Steps Still (do
      Action.modifyWith (S := chainSchema) Kind.account creator
        (fun c : Account => c.balance.sub o.fee)
        fun (c : Account) x => { c with balance := x }
      let i ← Action.create (S := chainSchema) Kind.account a
      if 0 < o.fee.amount then do
        let _ ← createVesting i o.fee
        pure () : Act n Unit) := by
    intro creator a ha
    have hmade : Steps Still (Action.create (S := chainSchema) Kind.account a : Act n Nat) :=
      (Composed.create (l := [.made .account]) (by decide) ha).still (by decide)
    exact ((hpaid creator).flow fun _ => Steps.still_bind hmade hvested).mono fun s t h =>
      h.of_eq (add_neg_cancel _) rfl rfl
  unfold accountCreate
  repeat' first
    | exact hrest _ _ (by simp [Blank]) | with_reducible apply steps_bind
    | with_reducible apply steps_ite | intro _ | simp

theorem still_convert (owner : String) (requestid : Nat) (amount : Asset) :
    Steps Still (convert owner requestid amount : Act n Unit) := by
  unfold convert
  refine steps_bind (by simp) fun acc => steps_bind (by simp) fun balance => ?_
  refine steps_bind (by simp) fun ge => steps_bind (by simp) fun _ => ?_
  refine steps_bind_lift fun neg hneg => ?_
  obtain rfl := Asset.neg_ok hneg
  have hrequest : Steps (Flow (-amount.inMuse) (-amount.inMbd) 0) (do
      let feed ← getFeedHistory
      Action.require (feed.currentMedianHistory.isNull = false)
        "!fhistory.current_median_history.is_null()"
      let now ← headBlockTime
      let _ ← Action.create (S := chainSchema) Kind.convertRequest
        { owner := owner, requestid := requestid, amount := amount,
          conversionDate := u32 (now + conversionDelay) : ConvertRequest }
      pure () : Act n Unit) := by
    refine Steps.still_bind (by simp) fun feed => Steps.still_bind (by simp) fun _ => ?_
    refine Steps.still_bind (by simp) fun now => ?_
    exact ((flow_create (k := Kind.convertRequest) (by decide) _).bind_still fun _ =>
      (looks_pure ()).steps).mono fun s t h => h.of_eq rfl rfl neg_zero
  refine ((flow_adjustBalance acc _).flow fun _ => hrequest).mono fun s t h => h.of_eq ?_ ?_ rfl
  · rw [Asset.inMuse_neg]
    omega
  · rw [Asset.inMbd_neg]
    omega

theorem still_limitOrderCreate {o : LimitOrderCreateOp} :
    Steps Still (limitOrderCreate o : Act n Unit) := by
  refine still_placeOrder fun price h => ?_
  unfold Price.ofAssets at h
  split at h
  · cases h
  · cases h
    rfl

theorem still_limitOrderCreate2 {o : LimitOrderCreate2Op} {u : Unit}
    (h : o.validate = .ok u) : Steps Still (limitOrderCreate2 o : Act n Unit) := by
  obtain ⟨_, h⟩ := check_bind_ok.mp h
  obtain ⟨hsame, _⟩ := check_bind_ok.mp h
  refine still_placeOrder fun price hp => ?_
  cases hp
  exact hsame.symm

theorem still_streamingPlatformUpdate (owner url : String) (fee : Asset) :
    Steps Still (streamingPlatformUpdate owner url fee : Act n Unit) := by
  have hwrite : ∀ {α : Type} {x : Act n α}, Composed [.platform .url, .made .streamingPlatform] x →
      Steps Still x := fun h => h.still (by decide)
  unfold streamingPlatformUpdate
  refine steps_bind (by simp) fun acc => steps_bind (by simp) fun _ => ?_
  refine steps_bind (by simp) fun a => steps_bind (by simp) fun ge => ?_
  refine steps_bind (by simp) fun _ => steps_bind (looks_findRow _ _).steps fun platform => ?_
  rcases platform with _ | ⟨i, p⟩
  · refine steps_bind (by simp) fun wso => steps_bind (by simp) fun ge => ?_
    refine steps_bind (by simp) fun _ => steps_bind (by simp) fun now => ?_
    refine steps_bind (hwrite (.create (by decide) rfl)) fun _ => still_payFee _ _
  · exact hwrite (composed_modify fun _ f => by cases f <;> simp +decide)

/-- The sides of a content are paid out before they change. -/
theorem still_contentUpdate [Fc] (o : ContentUpdateOp) :
    Steps Still (contentUpdate o : Act n Unit) := by
  have hpaid : ∀ side i, Steps Still (payToContentSide side i (Asset.muse 0) : Act n Unit) :=
    fun side i => ⟨fun h => flow_payToContentSide rfl h⟩
  unfold contentUpdate payToContentMaster payToContentComp
  repeat' first
    | with_reducible apply steps_bind | intro _ | (simp; done) | exact (looks_get _ _).steps
    | exact hpaid _ _
    | exact Composed.still (l := [.content .terms])
        (composed_modify fun c => updateContent_same o _ _ c) (by decide)
    | split

theorem Asset.lt_eq {a b : Asset} {r : Bool} (h : a.lt b = .ok r) :
    r = decide (a.amount < b.amount) := by
  obtain ⟨_, _, h⟩ := except_bind_ok.mp h
  cases h
  rfl

theorem Asset.le_true {a b : Asset} (h : a.le b = .ok true) : a = b ∨ a.amount < b.amount := by
  unfold Asset.le at h
  split at h
  · rename_i e
    exact .inl e
  · exact .inr (of_decide_eq_true (Asset.lt_eq h).symm)

/-- **A claim is paid in what it is compared with.** -/
theorem still_balanceClaim [Fc] {o : BalanceClaimOp} {u : Unit}
    (hm : ∀ i b, d.store.get Kind.balance i = some b → Balance.InMuse b)
    (h : (balanceClaim o : Act n Unit).run d = .ok u d') : Still d.store d'.store := by
  obtain ⟨b, hb, h⟩ := bind_getObject_ok.mp h
  obtain ⟨acc, _, _, _, h⟩ := bind_getAccountId_ok h
  obtain ⟨_, h⟩ := Action.bind_require_ok.mp h
  obtain ⟨le, hle, h⟩ := Action.bind_lift_ok.mp h
  obtain ⟨htrue, h⟩ := Action.bind_require_ok.mp h
  obtain ⟨lt, hlt, h⟩ := Action.bind_lift_ok.mp h
  have hmuse : o.totalClaimed.assetId = museSymbol := (Asset.le_ok hle).trans (hm _ b hb)
  have hpaid : Steps (Flow (-o.totalClaimed.amount) 0 0)
      (adjustBalance acc o.totalClaimed : Act n Unit) := by
    refine (flow_adjustBalance acc o.totalClaimed).mono fun s t h => h.of_eq ?_ ?_ rfl
    · rw [Asset.inMuse, if_pos hmuse]
    · rw [Asset.inMbd, if_neg (by rw [hmuse]; decide)]
      rfl
  have htaken : ∀ {e : Database chainSchema}, Flow o.totalClaimed.amount 0 0 d.store e.store →
      (adjustBalance acc o.totalClaimed : Act n Unit).run e = .ok u d' →
      Still d.store d'.store := fun htaken h =>
    (htaken.trans (hpaid.step h)).of_eq (add_neg_cancel _) rfl rfl
  split at h
  · obtain ⟨p, _, h⟩ := bind_headBlockTime_ok h
    obtain ⟨_, d₁, h1, h⟩ := Action.bind_ok.mp h
    refine htaken ?_ h
    obtain ⟨b', x, hb', hx, hf, e⟩ := modifyWith_store h1
    obtain ⟨_, rfl⟩ := Asset.sub_ok hx
    rw [e]
    refine (flow_write (by decide) hb' hf).of_eq ?_ rfl rfl
    show b'.balance.amount - (b'.balance.amount - o.totalClaimed.amount) = _
    omega
  · rename_i hnot
    obtain ⟨_, d₁, h1, h⟩ := Action.bind_ok.mp h
    refine htaken ?_ h
    obtain ⟨b', hb', e⟩ := remove_store h1
    obtain rfl : b = b' := Option.some.inj (hb.symm.trans hb')
    -- no more is claimed than there is, and no less
    have hall : b.balance.amount = o.totalClaimed.amount := by
      subst htrue
      rcases Asset.le_true hle with hle | hle
      · rw [hle]
      · have hless := Asset.lt_eq hlt
        rw [decide_eq_true hle] at hless
        exact absurd hless hnot
    rw [e]
    refine (flow_put (k := Kind.balance) (by decide) _ none (fun _ hn => by cases hn)).of_eq ?_ ?_ ?_
    · rw [hb]
      show b.balance.amount - 0 = _
      omega
    · rw [hb]
      rfl
    · rw [hb]
      rfl

end

/-! ## 3. The genesis -/

/-- The first global object, which was counted as nothing before. -/
theorem flow_createProps {p : DynamicGlobalProperty} {d d' : Database chainSchema} {i : Nat}
    (hid : d.store.nextId Kind.dynamicGlobalProperty = 0)
    (h : (Action.create (S := chainSchema) Kind.dynamicGlobalProperty p : Act n Nat).run d =
      .ok i d') :
    Flow p.museCount p.currentMbdSupply.amount p.totalVestingShares.amount d.store d'.store := by
  obtain ⟨rfl, hnone, hf, e⟩ := create_store h
  have hbefore : d.store.props = {} := by
    rw [hid] at hnone
    unfold Store.props
    rw [hnone]
    rfl
  have hafter : d'.store.props = p := by
    refine Store.props_of_get ?_
    rw [e, Store.get_setNextId, Store.get_write_self, if_pos hid.symm]
  have hweight : ∀ w : Weight chainSchema, (∀ x, w Kind.dynamicGlobalProperty x = 0) →
      d'.store.weight w = d.store.weight w := by
    intro w hz
    rw [e, Store.weight_create _ _ _ _ _ hnone, hz, add_zero]
  refine ⟨?_, ?_, ?_⟩
  · rw [museGap, museGap, hbefore, hafter, hweight museWeight fun _ => rfl]
    show _ = (0 : Int) - _ + _
    omega
  · rw [mbdGap, mbdGap, hbefore, hafter, hweight mbdWeight fun _ => rfl]
    show _ = (0 : Int) - _ + _
    omega
  · rw [vestsGap, vestsGap, hbefore, hafter, hweight vestsWeight fun _ => rfl]
    show _ = (0 : Int) - _ + _
    omega

theorem still_made {k : Kind} {a : k.Object} (hk : (Part.made k).worth = false) (hb : Blank k a) :
    Steps Still (Action.create (S := chainSchema) k a : Act 0 Nat) :=
  (Composed.create List.mem_cons_self hb).still (l := [.made k]) fun p hp => by
    rw [List.mem_singleton.mp hp, hk]

/-- The init miner is given the first MUSE. -/
theorem flow_initAccounts (g : GenesisState) :
    Steps (Flow (-g.initSupply) 0 0) (initAccounts g) := by
  unfold initAccounts
  refine Steps.still_bind (still_made (k := .account) rfl (by simp [Blank])) fun _ => ?_
  refine Steps.still_bind (still_made (k := .account) rfl (by simp [Blank])) fun _ => ?_
  refine Steps.still_bind (still_made (k := .account) rfl (by simp [Blank])) fun _ => ?_
  refine Steps.bind_still ?_ fun _ => ?_
  · exact (flow_create (k := .account) (by decide) _).mono fun s t h => h.of_eq rfl neg_zero neg_zero
  · exact steps_bind (still_made (k := .witness) rfl (by simp [Blank])) fun _ => by simp

theorem still_importGenesis [Fc] (g : GenesisState) : Steps Still (importGenesis g) := by
  unfold importGenesis
  refine steps_bind (steps_forEach fun a => ?_) fun _ => ?_
  · unfold importAccount
    exact still_accountCreate (le_refl (0 : Int))
  refine steps_bind (steps_forEach fun a => steps_bind (by simp) fun issuer =>
    steps_bind (still_made (k := .asset) rfl rfl) fun _ => by simp) fun _ => ?_
  refine steps_bind (steps_forEach fun b => ?_) fun _ => steps_forEach fun v => ?_
  · -- what is left to be claimed is counted
    have hcounted : Steps (Flow b.amount 0 0) (modifyDgp
        (fun p => p.currentSupply.add (Asset.muse b.amount))
        (fun p x => { p with currentSupply := x, virtualSupply := x }) : Act 0 Unit) := by
      refine flow_modifyDgp fun p x hx => ?_
      obtain ⟨_, rfl⟩ := Asset.add_ok hx
      refine ⟨?_, (add_zero _).symm, (add_zero _).symm⟩
      show p.currentSupply.amount + b.amount + p.supplyDelta.amount - p.totalVestingFundMuse.amount = _
      unfold DynamicGlobalProperty.museCount
      omega
    exact ((flow_create (k := .balance) (by decide) _).flow fun _ =>
      hcounted.bind_still fun _ => flow_changeAssetSupply _ _).mono fun s t h =>
        h.of_eq (neg_add_cancel _) (add_zero 0) (add_zero 0)
  · have hgiven : Steps (Flow 0 0 (-v.amount)) (Action.modifyWith (S := chainSchema) Kind.account
        v.owner (fun a : Account => a.vestingShares.add (Asset.vests v.amount))
        (fun (a : Account) x => { a with vestingShares := x }) : Act 0 Unit) := by
      refine flow_modifyAccount fun a x hx => ?_
      obtain ⟨_, rfl⟩ := Asset.add_ok hx
      exact ⟨(sub_zero _).symm, (sub_zero _).symm, (sub_neg_eq_add _ _).symm⟩
    have hcounted : Steps (Flow 0 0 v.amount) (modifyDgp
        (fun p => p.totalVestingShares.add (Asset.vests v.amount))
        (fun p x => { p with totalVestingShares := x }) : Act 0 Unit) := by
      refine flow_modifyDgp fun p x hx => ?_
      obtain ⟨_, rfl⟩ := Asset.add_ok hx
      exact ⟨(add_zero _).symm, (add_zero _).symm, rfl⟩
    exact Steps.still_bind (by simp) fun _ => (hgiven.flow fun _ => hcounted).mono fun s t h =>
      h.of_eq (add_zero 0) (add_zero 0) (neg_add_cancel _)

theorem vestsGap_eq (s : Store chainSchema) : vestsGap s = s.props.totalVestingShares.amount -
    (s.table Kind.account).map.sum (vestsWeight .account) := by
  unfold vestsGap Store.weight
  simp only [chainSchema, Kind.all, List.map_cons, List.map_nil, List.sum_cons, List.sum_nil]
  simp only [vestsWeight, FMap.sum_zero]
  ring

/-- The counters are what is held. -/
structure Balanced (s : Store chainSchema) : Prop where
  muse : museGap s = 0
  mbd : mbdGap s = 0
  vests : vestsGap s = 0

theorem Balanced.of_still {s t : Store chainSchema} (hs : Balanced s) (h : Still s t) :
    Balanced t :=
  ⟨by rw [h.muse, hs.muse, add_zero], by rw [h.mbd, hs.mbd, add_zero],
    by rw [h.vests, hs.vests, add_zero]⟩

/-- **The genesis is balanced.** -/
theorem balanced_genesis [Fc] {g : GenesisState} {u : Unit} {d : Database chainSchema}
    (h : (initGenesis g).run emptyDatabase = .ok u d) :
    Balanced d.store := by
  have hempty : Balanced emptyStore := by
    refine ⟨?_, ?_, ?_⟩
    · rw [museGap_eq]
      rfl
    · rw [mbdGap_eq]
      rfl
    · rw [vestsGap_eq]
      rfl
  have hspared : Steps (Spared Kind.dynamicGlobalProperty) (initAccounts g) := by
    unfold initAccounts
    repeat' first
      | with_reducible apply steps_bind | intro _ | exact spared_create (by decide)
    exact (looks_pure ()).steps
  rw [initGenesis_eq] at h
  obtain ⟨_, d₁, h1, h⟩ := Action.bind_ok.mp h
  obtain ⟨_, d₂, h2, h3⟩ := Action.bind_ok.mp h
  have haccounts := (flow_initAccounts g).step h1
  have hid : d₁.store.nextId Kind.dynamicGlobalProperty = 0 := (hspared.step h1).2
  obtain ⟨i, d₃, hprops, hrest⟩ := Action.bind_ok.mp h2
  have hcounted := flow_createProps hid hprops
  have hothers : Still d₃.store d₂.store := by
    refine Steps.step ?_ hrest
    refine steps_bind (still_made (k := .asset) rfl rfl) fun _ => ?_
    refine steps_bind (still_made (k := .asset) rfl rfl) fun _ => ?_
    refine steps_bind (still_made (k := .asset) rfl rfl) fun _ => ?_
    refine steps_bind (still_made (k := .feedHistory) rfl trivial) fun _ => ?_
    refine steps_bind (still_made (k := .hardforkProperty) rfl trivial) fun _ => ?_
    exact steps_bind (still_made (k := .witnessSchedule) rfl trivial) fun _ => by simp
  have himport := (still_importGenesis g).step h3
  refine hempty.of_still ((haccounts.trans (hcounted.trans (hothers.trans himport))).of_eq ?_ rfl rfl)
  show -g.initSupply + (g.initSupply + 0 - 0 + (0 + 0)) = 0
  omega

/-! ## 4. Runs -/

/-- The operation issues and burns nothing of MUSE and MBD. -/
def Operation.MintsNothing (op : Operation) : Prop :=
  ∀ a, op.issued = some a → ¬coreSymbol a.assetId ∨ a.amount = 0

theorem Operation.MintsNothing.no_value {op : Operation} (h : op.MintsNothing) {a : Asset}
    (ha : op.issued = some a) : a.inMuse = 0 ∧ a.inMbd = 0 := by
  unfold Asset.inMuse Asset.inMbd
  rcases h a ha with hother | hzero
  · exact ⟨if_neg fun e => hother (.inl e), if_neg fun e => hother (.inr e)⟩
  · rw [hzero, ite_self, ite_self]
    exact ⟨rfl, rfl⟩

theorem fee_nonneg [Fc] {o : AccountCreateOp} {u : Unit} (h : o.validate = .ok u) :
    0 ≤ o.fee.amount := by
  unfold AccountCreateOp.validate at h
  obtain ⟨_, h⟩ := check_bind_ok.mp h
  obtain ⟨_, h⟩ := check_bind_ok.mp h
  obtain ⟨_, _, h⟩ := except_bind_ok.mp h
  obtain ⟨_, _, h⟩ := except_bind_ok.mp h
  have hlast : ∀ {v : Unit}, (do
      let ge ← o.fee.ge (Asset.muse 0)
      check (ge = true) "fee >= asset( 0, MUSE_SYMBOL )" : Except Exn Unit) = .ok v →
      0 ≤ o.fee.amount := by
    intro v h
    obtain ⟨ge, hge, h⟩ := except_bind_ok.mp h
    obtain ⟨lt, hlt, hge⟩ := except_bind_ok.mp hge
    cases hge
    have hless := Asset.lt_eq hlt
    have hnot := check_ok.mp h
    rw [hless, Bool.not_eq_true', decide_eq_false_iff_not] at hnot
    exact not_lt.mp hnot
  dsimp only at h
  split at h
  · obtain ⟨_, _, h⟩ := except_bind_ok.mp h
    exact hlast h
  · exact hlast h

/-- The second hardfork adds the delta to the supply. -/
theorem still_hardforkEach (turns : Nat) : Steps Still (hardforkEach turns : Act n Unit) := by
  have hcleared : Steps Still (clearSupplyDelta : Act n Unit) := by
    refine flow_modifyDgp fun p x hx => ?_
    obtain ⟨supply, hsupply, hx⟩ := except_bind_ok.mp hx
    obtain ⟨virt, _, hx⟩ := except_bind_ok.mp hx
    cases hx
    obtain ⟨_, rfl⟩ := Asset.add_ok hsupply
    refine ⟨?_, (add_zero _).symm, (add_zero _).symm⟩
    show p.currentSupply.amount + p.supplyDelta.amount + 0 - p.totalVestingFundMuse.amount = _
    unfold DynamicGlobalProperty.museCount
    omega
  have hremoved : Steps Still (removeExpiredProposals : Act n Unit) :=
    (composed_removeExpiredProposals (l := [.gone .proposal]) (by decide)).still (by decide)
  have happlied : ∀ hardfork, Steps Still (applyHardfork hardfork : Act n Unit) := by
    intro hardfork
    unfold applyHardfork
    repeat' first
      | exact hcleared | exact hremoved | with_reducible apply steps_bind | intro _ | (simp; done)
      | exact Composed.still (l := [.whole .hardforkProperty])
          (composed_modifyWith fun _ _ => .inl (by decide)) (by decide)
      | split
  induction turns with
  | zero => exact steps_throw _
  | succ turns ih =>
    unfold hardforkEach
    repeat' first
      | exact happlied _ | exact ih | exact steps_throw _ | with_reducible apply steps_bind | intro _
      | (simp; done) | split

section

variable [Fc] {ok : Store chainSchema → Operation → Prop} {g : GenesisState}
  {s t : Store chainSchema}

/-- **Every step moves what is held and what is counted alike.** -/
theorem ChainStep.still (hok : ∀ s op, ok s op → op.MintsNothing) (h : ChainStep ok s t)
    (hs : Kept (fun _ => False) s) (hm : ∀ i b, s.get Kind.balance i = some b → Balance.InMuse b) :
    Still s t := by
  cases h with
  | @operation d d' u clock n push op hv ha hop hr =>
    have hnothing := hok _ _ hop
    cases op with
    | proposalUpdate o => cases ha
    | transfer sender receiver amount memo => exact (still_transfer sender receiver amount).step hr
    | transferToVesting sender receiver amount =>
      obtain ⟨_, hv⟩ := check_bind_ok.mp hv
      obtain ⟨hmuse, _⟩ := check_bind_ok.mp hv
      exact (still_transferToVesting sender receiver hmuse).step hr
    | convert owner requestid amount => exact (still_convert owner requestid amount).step hr
    | limitOrderCreate o => exact still_limitOrderCreate.step hr
    | limitOrderCreate2 o => exact (still_limitOrderCreate2 hv).step hr
    | limitOrderCancel owner orderid =>
      exact Steps.step (steps_bind (by simp) fun i => still_cancelOrder i) hr
    | accountCreate o => exact (still_accountCreate (fee_nonneg hv)).step hr
    | challengeAuthority challenger challenged requireOwner =>
      exact (still_challengeAuthority challenger challenged requireOwner).step hr
    | streamingPlatformUpdate owner url fee =>
      exact (still_streamingPlatformUpdate owner url fee).step hr
    | contentUpdate o => exact (still_contentUpdate o).step hr
    | balanceClaim o => exact still_balanceClaim hm hr
    | assetIssue issuer assetToIssue receiver =>
      obtain ⟨hmuse, hmbd⟩ := hnothing.no_value rfl
      exact ((flow_assetIssue issuer assetToIssue receiver).step hr).of_eq (neg_eq_zero.mpr hmuse)
        (neg_eq_zero.mpr hmbd) rfl
    | assetReserve issuer payer amountToReserve =>
      obtain ⟨hmuse, hmbd⟩ := hnothing.no_value rfl
      exact ((flow_assetReserve payer amountToReserve).step hr).of_eq (neg_eq_zero.mpr hmuse)
        (neg_eq_zero.mpr hmbd) rfl
    | _ =>
      exact ((composed_evaluate clock push ha).still (by simp +decide [Operation.parts])).step hr
  | @routine d d' u n r hr =>
    cases r with
    | expiredOrders => exact still_clearExpiredOrders.step hr
    | virtualSupply => exact still_updateVirtualSupply.step hr
    | pay => exact still_payBlock hs hr
    | hardforks => exact (still_hardforkEach _).step hr
    | _ => exact ((Routine.composed_act _).still (by simp +decide [Routine.parts])).step hr

/-- A balanced state with what its balance relies on: sound polls, and claims in MUSE. -/
structure Accounted (s : Store chainSchema) : Prop where
  balanced : Balanced s
  kept : Kept (fun _ => False) s
  claims : ∀ i b, s.get Kind.balance i = some b → Balance.InMuse b

/-- **Every state reached is balanced**, when none of MUSE and MBD is issued or burnt. -/
theorem Reached.accounted (hok : ∀ s op, ok s op → op.MintsNothing) (h : Reached ok g s) :
    Accounted s := by
  refine h.invariant (fun hg => ?_) fun hstep hs => ?_
  · exact ⟨balanced_genesis hg, kept_genesis hg,
      (tokensBacked_emptyStore.of_tokenStill ((tokenStill_initGenesis g).step hg)).claims⟩
  · exact ⟨hs.balanced.of_still (hstep.still hok hs.kept hs.claims), hstep.kept False.elim hs.kept,
      (hstep.tokenStill hs.claims).claims hs.claims⟩

end

end MuseChain
