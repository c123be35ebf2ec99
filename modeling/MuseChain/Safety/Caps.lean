/-
  File:      MuseChain/Safety/Caps.lean
  Subject:   The supply caps of the assets of the users.

  * `OrdersSound`: every open order is one that the evaluators leave. Matching keeps it
    (`matchEach_sound`), so nothing below zero is for sale.
  * `AssetsCapped`: no asset but MUSE is issued beyond its cap, and no cap is beyond the greatest
    supply.
  * **`supply_capped`**: both hold in every state of a run in which no update of an asset sets a
    cap below the supply. An update that does is accepted (`supply_above_cap`).
-/
import MuseChain.Safety.Tokens
import MuseChain.Safety.Founding

namespace MuseChain

variable {n : Nat}

/-! ## 1. Open orders -/

/-- Every open order is one that the evaluators leave. -/
def OrdersSound (f : Nat → Option LimitOrder) : Prop := ∀ i o, f i = some o → o.Sound

theorem OrdersSound.put {f : Nat → Option LimitOrder} (h : OrdersSound f) (i : Nat)
    {p : Option LimitOrder} (hp : ∀ o, p = some o → o.Sound) :
    OrdersSound (Function.update f i p) := by
  intro j o ho
  rw [Function.update_apply] at ho
  split at ho
  · exact hp o ho
  · exact h j o ho

theorem OrdersSound.drop {f : Nat → Option LimitOrder} (h : OrdersSound f) (i : Nat) :
    OrdersSound (Function.update f i none) :=
  h.put i fun _ ho => by cases ho

section

variable {d d' : Database chainSchema} {u : Unit}

/-- The orders still to visit are in the book and none of them is the new one, whatever became of
the others. -/
theorem matchEach_sound {i : Nat} {a : LimitOrder} {l : List (Nat × LimitOrder)}
    (hs : OrdersSound d.store.orders) (hi : d.store.orders i = some a)
    (hnd : (l.map Prod.fst).Nodup) (hl : ∀ r ∈ l, r.1 ≠ i ∧ d.store.orders r.1 = some r.2)
    (h : (matchEach i l : Act n Unit).run d = .ok u d') : OrdersSound d'.store.orders := by
  induction l generalizing d a with
  | nil =>
    cases h
    exact hs
  | cons r l ih =>
    obtain ⟨hri, hr⟩ := hl r List.mem_cons_self
    obtain ⟨gone, d₁, h1, h⟩ := Action.bind_ok.mp h
    obtain ⟨o, p, e, ho, hp, hgone, hkept⟩ :=
      matchOrders_orders hri.symm hi hr (hs i a hi) (hs r.1 r.2 hr) h1
    have hs1 : OrdersSound d₁.store.orders := by
      rw [e]
      exact (hs.put i fun b hb => (ho b hb).1).put r.1 fun b hb => (hp b hb).1
    obtain ⟨newGone, oldGone⟩ := gone
    cases newGone with
    | true =>
      cases h
      exact hs1
    | false =>
      obtain ⟨rfl, hsome⟩ := hkept rfl
      obtain ⟨a', rfl⟩ := Option.isSome_iff_exists.mp hsome
      obtain ⟨hrl, hnd⟩ := List.nodup_cons.mp hnd
      refine ih (a := a') hs1 ?_ hnd (fun q hq => ?_) h
      · rw [e, Function.update_of_ne hri.symm, Function.update_self]
      · obtain ⟨hqi, hq'⟩ := hl q (List.mem_cons_of_mem _ hq)
        have hqr : q.1 ≠ r.1 := fun e => hrl (e ▸ List.mem_map_of_mem hq)
        refine ⟨hqi, ?_⟩
        rw [e, Function.update_of_ne hqr, Function.update_of_ne hqi]
        exact hq'

theorem applyOrder_sound {i : Nat} {a : LimitOrder} (hs : OrdersSound d.store.orders)
    (hi : d.store.orders i = some a) {gone : Bool}
    (h : (applyOrder i : Act n Bool).run d = .ok gone d') : OrdersSound d'.store.orders := by
  obtain ⟨a', ha', h⟩ := bind_getObject_ok.mp h
  obtain rfl : a = a' := Option.some.inj (hi.symm.trans ha')
  obtain ⟨best, hbest, h⟩ := Action.bind_lift_ok.mp h
  have h := Action.bind_read_ok.mp h
  obtain ⟨_, d₁, h1, h⟩ := Action.bind_ok.mp h
  cases h
  refine matchEach_sound hs hi (ordersBetween_nodup d.store _ _) (fun r hr => ?_) h1
  obtain ⟨hri, hget, -⟩ := listed_ordersBetween hi (hs i a hi).assets hbest hr
  exact ⟨hri, hget⟩

theorem placeOrder_sound {owner : String} {orderid : Nat} {amountToSell : Asset}
    {fillOrKill : Bool} {expiration : Nat} {sellPrice : Except Exn Price} {price : Price}
    (hp : sellPrice = .ok price)
    (hnew : ∀ now, LimitOrder.Sound
      { created := now, seller := owner, orderid := orderid, forSale := amountToSell.amount,
        sellPrice := price, expiration := expiration })
    (hs : OrdersSound d.store.orders)
    (h : (placeOrder owner orderid amountToSell fillOrKill expiration sellPrice :
      Act n Unit).run d = .ok u d') : OrdersSound d'.store.orders := by
  obtain ⟨now, i, gone, d₂, d₃, e, hr, e'⟩ := placeOrder_orders hp h
  rw [e']
  refine applyOrder_sound ?_ (by rw [e, Function.update_self]) hr
  rw [e]
  refine hs.put i fun o ho => ?_
  obtain rfl := Option.some.inj ho
  exact hnew now

theorem cancelOrder_sound {i : Nat} (hs : OrdersSound d.store.orders)
    (h : (cancelOrder i : Act n Unit).run d = .ok u d') : OrdersSound d'.store.orders := by
  rw [cancelOrder_orders h]
  exact hs.drop i

theorem cancelEach_sound {l : List (Nat × LimitOrder)} (hs : OrdersSound d.store.orders)
    (h : (Action.forEach l fun o => cancelOrder o.1 : Act n Unit).run d = .ok u d') :
    OrdersSound d'.store.orders := by
  induction l generalizing d with
  | nil =>
    cases h
    exact hs
  | cons r l ih =>
    obtain ⟨_, d₁, h1, h⟩ := Action.bind_ok.mp h
    exact ih (cancelOrder_sound hs h1) h

end

/-- The amounts of an order fit in an `int64_t`. -/
def Operation.Fits : Operation → Prop
  | .limitOrderCreate o => o.amountToSell.Fits ∧ o.minToReceive.Fits
  | .limitOrderCreate2 o =>
      o.amountToSell.Fits ∧ o.exchangeRate.base.Fits ∧ o.exchangeRate.quote.Fits
  | _ => True

theorem Composed.ordersStay {l : List Part} {x : Act n Unit} (h : Composed l x)
    (hm : Part.made .limitOrder ∉ l) (hg : Part.gone .limitOrder ∉ l)
    (hw : Part.whole .limitOrder ∉ l) : Steps (Untouched Kind.limitOrder) x :=
  untouched_of_composed h hm hg fun _ _ hab => Or.resolve_left hab hw

section

variable [Fc] {ok : Store chainSchema → Operation → Prop} {s t : Store chainSchema}

/-- **No step leaves an order that the evaluators would not.** -/
theorem ChainStep.ordersSound (h : ChainStep ok s t) (hok : ∀ s op, ok s op → op.Fits)
    (hs : OrdersSound s.orders) : OrdersSound t.orders := by
  cases h with
  | @operation d d' u clock n push op hv ha hop hr =>
    have hfits := hok _ _ hop
    cases op with
    | proposalUpdate o => cases ha
    | limitOrderCreate o =>
      obtain ⟨hp, hnew⟩ := LimitOrderCreateOp.sound hfits.1 hfits.2 hv
      exact placeOrder_sound hp hnew hs hr
    | limitOrderCreate2 o =>
      exact placeOrder_sound rfl (LimitOrderCreate2Op.sound hfits.1 hfits.2.1 hfits.2.2 hv) hs hr
    | limitOrderCancel owner orderid =>
      obtain ⟨i, _, _, _, h⟩ := bind_getRow_ok hr
      exact cancelOrder_sound hs h
    | _ =>
      have hstay := ((composed_evaluate clock push ha).ordersStay
        (by simp +decide [Operation.parts]) (by simp +decide [Operation.parts])
        (by simp +decide [Operation.parts])).step hr
      rw [show d'.store.orders = d.store.orders from hstay]
      exact hs
  | @routine d d' u n r hr =>
    cases r with
    | expiredOrders =>
      obtain ⟨p, _, h⟩ := bind_headBlockTime_ok hr
      exact cancelEach_sound hs (Action.bind_read_ok.mp h)
    | _ =>
      have hstay := ((Routine.composed_act _).ordersStay (by simp +decide [Routine.parts])
        (by simp +decide [Routine.parts]) (by simp +decide [Routine.parts])).step hr
      rw [show d'.store.orders = d.store.orders from hstay]
      exact hs

end

/-! ## 2. Caps -/

/-- Not more is issued than the cap, and the cap is not beyond the greatest supply. -/
structure AssetObject.Capped (a : AssetObject) : Prop where
  supply : a.currentSupply ≤ a.options.maxSupply
  cap : a.options.maxSupply ≤ maxShareSupply

/-- The genesis issues MUSE without a look at its cap. -/
def AssetsCapped (s : Store chainSchema) : Prop :=
  ∀ z a, z ≠ museSymbol → s.get Kind.asset z = some a → AssetObject.Capped a

/-- Assets within their caps stay so. -/
def CapsStay (s t : Store chainSchema) : Prop := AssetsCapped s → AssetsCapped t

instance : IsPreorder (Store chainSchema) CapsStay where
  refl _ h := h
  trans _ _ _ h h' hs := h' (h hs)

theorem AssetsCapped.write {s : Store chainSchema} (hs : AssetsCapped s) {z : Nat}
    {a : AssetObject} (hf : s.free Kind.asset z a = true) (ha : z ≠ museSymbol → a.Capped) :
    AssetsCapped (s.write Kind.asset z a hf) := by
  intro y b hy hb
  rw [Store.get_write_self] at hb
  split at hb
  · rename_i e
    obtain rfl := Option.some.inj hb
    exact ha (e ▸ hy)
  · exact hs y b hy hb

theorem capsStay_create {a : AssetObject} (ha : a.Capped) :
    Steps CapsStay (Action.create (S := chainSchema) Kind.asset a : Act n Nat) := by
  refine ⟨fun {d i d'} h hs => ?_⟩
  obtain ⟨_, _, hf, e⟩ := create_store h
  rw [e]
  intro z b hz hb
  rw [Store.get_setNextId] at hb
  exact hs.write hf (fun _ => ha) z b hz hb

theorem Untouched.capsStay {s t : Store chainSchema} (h : Untouched Kind.asset s t) :
    CapsStay s t := by
  intro hs z a hz ha
  rw [show t.get Kind.asset = s.get Kind.asset from h] at ha
  exact hs z a hz ha

/-- The parts that the assets are in. -/
def Part.ofAsset : Part → Bool
  | .made .asset | .gone .asset | .asset _ => true
  | _ => false

/-- What is written elsewhere leaves the assets alone. -/
theorem Composed.assetsStay {α : Type} {l : List Part} {x : Act n α} (h : Composed l x)
    (hl : ∀ p ∈ l, p.ofAsset = false) : Steps (Untouched Kind.asset) x := by
  have hn : ∀ {p : Part}, p.ofAsset = true → p ∉ l := fun hp hm => by
    rw [hl _ hm] at hp
    cases hp
  refine untouched_of_composed h (hn rfl) (hn rfl) fun a b hab => ?_
  have hview : ∀ f, AssetObject.view f a = AssetObject.view f b := fun f =>
    Or.resolve_left (hab f) (hn rfl)
  have hidentity := hview .identity
  have hsupply := hview .supply
  have hoptions := hview .options
  cases a
  cases b
  simp only [AssetObject.view, Prod.mk.injEq] at hidentity hsupply hoptions
  obtain ⟨rfl, rfl⟩ := hidentity
  obtain ⟨rfl, rfl⟩ := hoptions
  rw [hsupply]

theorem Composed.capsStay {α : Type} {l : List Part} {x : Act n α} (h : Composed l x)
    (hl : ∀ p ∈ l, p.ofAsset = false) : Steps CapsStay x :=
  (h.assetsStay hl).mono fun _ _ hst => hst.capsStay

theorem AssetOptions.validate_ok {o : AssetOptions} {u : Unit} (h : o.validate = .ok u) :
    0 < o.maxSupply ∧ o.maxSupply ≤ maxShareSupply := by
  obtain ⟨hpos, h⟩ := check_bind_ok.mp h
  exact ⟨hpos, (check_bind_ok.mp h).1⟩

/-- The objects as they are looked up by id. -/
theorem bind_getAssetById_ok {β : Type} {i : Nat} {f : AssetObject → Act n β}
    {d d' : Database chainSchema} {b : β}
    (h : ((getAssetById i : Act n AssetObject) >>= f).run d = .ok b d') :
    ∃ a, d.store.get Kind.asset i = some a ∧ (f a).run d = .ok b d' := by
  obtain ⟨a, d₁, h1, h⟩ := Action.bind_ok.mp h
  have h1 := Action.bind_read_ok.mp h1
  cases ha : d.store.get Kind.asset i with
  | none =>
    rw [ha] at h1
    cases h1
  | some a' =>
    rw [ha] at h1
    cases h1
    exact ⟨_, rfl, h⟩

/-! ## 3. Evaluators -/

section

variable {d d' : Database chainSchema} {u : Unit}

theorem capsStay_assetCreate {o : AssetCreateOp} (hv : o.commonOptions.validate = .ok u) :
    Steps CapsStay (assetCreate o : Act n Unit) := by
  obtain ⟨hpos, hmax⟩ := AssetOptions.validate_ok hv
  have hmade : ∀ issuer, Steps CapsStay (Action.create (S := chainSchema) Kind.asset
      { issuer := issuer, symbolString := o.symbol, precision := o.precision,
        options := o.commonOptions, currentSupply := 0 : AssetObject } : Act n Nat) :=
    fun issuer => capsStay_create ⟨hpos.le, hmax⟩
  unfold assetCreate
  repeat' first
    | with_reducible apply steps_bind | intro _ | exact hmade _ | (simp; done) | split

/-- What is issued is compared with the cap. -/
theorem assetIssue_capped {issuer : String} {assetToIssue : Asset} {receiver : String}
    (hs : AssetsCapped d.store)
    (h : (assetIssue issuer assetToIssue receiver : Act n Unit).run d = .ok u d') :
    AssetsCapped d'.store := by
  obtain ⟨a, ha, h⟩ := bind_getAssetById_ok h
  obtain ⟨issuerId, _, _, _, h⟩ := bind_getAccountId_ok h
  obtain ⟨_, h⟩ := Action.bind_require_ok.mp h
  obtain ⟨acc, _, _, _, h⟩ := bind_getAccountId_ok h
  obtain ⟨supply, hsupply, h⟩ := Action.bind_lift_ok.mp h
  obtain ⟨rfl, _⟩ := safe_ok.mp hsupply
  obtain ⟨hle, h⟩ := Action.bind_require_ok.mp h
  obtain ⟨_, d₁, h1, h⟩ := Action.bind_ok.mp h
  have hstay : Untouched Kind.asset d.store d₁.store :=
    ((composed_adjustBalance (l := balanceParts) acc assetToIssue (by decide)).assetsStay
      (by decide)).step h1
  have hs1 := hstay.capsStay hs
  obtain ⟨a', x, ha', hx, hf, e⟩ := modifyWith_store h
  obtain ⟨rfl, _⟩ := safe_ok.mp hx
  rw [show d₁.store.get Kind.asset = d.store.get Kind.asset from hstay, ha] at ha'
  obtain rfl := Option.some.inj ha'
  rw [e]
  exact hs1.write hf fun hz => ⟨hle, (hs _ a hz ha).cap⟩

/-- Burning leaves less. -/
theorem assetReserve_capped {payer : String} {amountToReserve : Asset}
    (hpos : 0 < amountToReserve.amount) (hs : AssetsCapped d.store)
    (h : (assetReserve payer amountToReserve : Act n Unit).run d = .ok u d') :
    AssetsCapped d'.store := by
  obtain ⟨_, _, h⟩ := bind_getAssetById_ok h
  obtain ⟨acc, _, _, _, h⟩ := bind_getAccountId_ok h
  obtain ⟨neg, _, h⟩ := Action.bind_lift_ok.mp h
  obtain ⟨_, d₁, h1, h⟩ := Action.bind_ok.mp h
  have hs1 : AssetsCapped d₁.store :=
    ((composed_adjustBalance (l := balanceParts) acc neg (by decide)).capsStay
      (by decide)).step h1 hs
  obtain ⟨a, x, ha, hx, hf, e⟩ := modifyWith_store h
  obtain ⟨rfl, _⟩ := safe_ok.mp hx
  rw [e]
  refine hs1.write hf fun hz => ⟨?_, (hs1 _ a hz ha).cap⟩
  have hsupply := (hs1 _ a hz ha).supply
  show a.currentSupply + -amountToReserve.amount ≤ a.options.maxSupply
  omega

/-- A new cap is one, when it is not below the supply. -/
theorem assetUpdate_capped {o : AssetUpdateOp} (hv : o.newOptions.validate = .ok u) :
    Steps (fun s t => (∀ a : AssetObject, s.get Kind.asset o.assetToUpdate = some a →
      a.currentSupply ≤ o.newOptions.maxSupply) → AssetsCapped s → AssetsCapped t)
      (assetUpdate o : Act n Unit) := by
  have hwrite : ∀ newIssuer : Option Nat, Steps (fun s t =>
      (∀ a : AssetObject, s.get Kind.asset o.assetToUpdate = some a →
        a.currentSupply ≤ o.newOptions.maxSupply) → AssetsCapped s → AssetsCapped t)
      (Action.modify (S := chainSchema) Kind.asset o.assetToUpdate fun a : AssetObject =>
        { a with issuer := newIssuer.getD a.issuer, options := o.newOptions } : Act n Unit) := by
    refine fun newIssuer => ⟨fun {d u d'} h hcap hs => ?_⟩
    obtain ⟨a, ha, hf, e⟩ := modify_store h
    rw [e]
    exact hs.write hf fun _ => ⟨hcap a ha, (AssetOptions.validate_ok hv).2⟩
  unfold assetUpdate
  repeat' first
    | with_reducible apply Looks.steps_bind | intro _ | exact hwrite _ | (simp; done) | split

end

/-! ## 4. Runs -/

/-- No new cap of an asset is below what has been issued of it. -/
def KeepsCap (s : Store chainSchema) : Operation → Prop
  | .assetUpdate o => ∀ a : AssetObject, s.get Kind.asset o.assetToUpdate = some a →
      a.currentSupply ≤ o.newOptions.maxSupply
  | _ => True

/-- The caps that the genesis gives. -/
def GenesisState.Capped (g : GenesisState) : Prop :=
  ∀ a ∈ g.initialAssets, 0 ≤ a.maxSupply ∧ a.maxSupply ≤ maxShareSupply

section

variable [Fc] {ok : Store chainSchema → Operation → Prop} {s t : Store chainSchema}

/-- **A step that lowers no cap below the supply keeps every asset within its cap.** -/
theorem ChainStep.assetsCapped (h : ChainStep ok s t) (hok : ∀ s op, ok s op → KeepsCap s op)
    (hs : AssetsCapped s) : AssetsCapped t := by
  cases h with
  | @operation d d' u clock n push op hv ha hop hr =>
    have hcap := hok _ _ hop
    cases op with
    | proposalUpdate o => cases ha
    | assetCreate o =>
      obtain ⟨_, hv⟩ := check_bind_ok.mp hv
      obtain ⟨_, hoptions, _⟩ := except_bind_ok.mp hv
      exact (capsStay_assetCreate hoptions).step hr hs
    | assetIssue issuer assetToIssue receiver => exact assetIssue_capped hs hr
    | assetReserve issuer payer amountToReserve =>
      obtain ⟨_, hv⟩ := check_bind_ok.mp hv
      exact assetReserve_capped (check_ok.mp hv) hs hr
    | assetUpdate o =>
      have hoptions : o.newOptions.validate = .ok () := by
        unfold Operation.validate at hv
        dsimp only at hv
        split at hv
        · exact (check_bind_ok.mp hv).2
        · exact hv
      exact (assetUpdate_capped hoptions).step hr hcap hs
    | _ =>
      exact ((composed_evaluate clock push ha).capsStay
        (by simp +decide [Operation.parts])).step hr hs
  | @routine d d' u n r hr =>
    exact ((Routine.composed_act r).capsStay (by
      cases r <;> simp +decide [Routine.parts])).step hr hs

end

/-! ## 5. The genesis -/

theorem capsStay_initGlobals (g : GenesisState) : Steps CapsStay (initGlobals g) := by
  have hcore : ∀ symbol description, Steps CapsStay (Action.create (S := chainSchema) Kind.asset
      (coreAsset symbol description) : Act 0 Nat) := fun _ _ =>
    capsStay_create ⟨by show (0 : Int) ≤ maxShareSupply; decide, le_rfl⟩
  have hother : ∀ {k : Kind} {a : k.Object}, Kind.asset ≠ k →
      Steps CapsStay (Action.create (S := chainSchema) k a : Act 0 Nat) := fun hk =>
    (untouched_create hk).mono fun _ _ h => h.capsStay
  unfold initGlobals
  refine steps_bind (hother (by decide)) fun _ => steps_bind (hcore _ _) fun _ => ?_
  refine steps_bind (hcore _ _) fun _ => steps_bind (hcore _ _) fun _ => ?_
  refine steps_bind (hother (by decide)) fun _ => steps_bind (hother (by decide)) fun _ => ?_
  exact steps_bind (hother (by decide)) fun _ => (looks_pure ()).steps

section

variable [Fc] {g : GenesisState}

theorem capsStay_importGenesis (hg : g.Capped) : Steps CapsStay (importGenesis g) := by
  unfold importGenesis
  refine steps_bind (steps_forEach fun a => ?_) fun _ => ?_
  · unfold importAccount
    exact (composed_accountCreate (l := accountCreateParts) _ (by decide)).capsStay (by decide)
  refine steps_bind (steps_forEach_mem fun a ha => ?_) fun _ => ?_
  · obtain ⟨hpos, hmax⟩ := hg a ha
    refine steps_bind (by simp) fun issuer => ?_
    exact steps_bind (capsStay_create ⟨hpos, hmax⟩) fun _ => by simp
  refine steps_bind (steps_forEach fun b => ?_) fun _ => steps_forEach fun v => ?_
  · unfold importBalance
    refine steps_bind ?_ fun _ => steps_bind ?_ fun _ => ⟨fun {d u d'} h hs => ?_⟩
    · exact Composed.capsStay (l := [.made .balance])
        (.create (k := Kind.balance) (by decide) trivial) (by decide)
    · exact Composed.capsStay (l := [.props .supply])
        (composed_modifyWith fun _ _ f => by cases f <;> simp +decide) (by decide)
    · obtain ⟨a, x, _, _, hf, e⟩ := modifyWith_store h
      rw [e]
      exact hs.write hf fun hz => absurd rfl hz
  · unfold importVesting modifyDgp
    refine Composed.capsStay (l := [.account .vests, .props .shares]) ?_ (by decide)
    refine .bind (by simp) fun _ => .bind ?_ fun _ => ?_
    · exact composed_modifyWith fun _ _ f => by cases f <;> simp +decide
    · exact composed_modifyWith fun _ _ f => by cases f <;> simp +decide

theorem capsStay_initGenesis (hg : g.Capped) : Steps CapsStay (initGenesis g) := by
  rw [initGenesis_eq]
  refine steps_bind ?_ fun _ =>
    steps_bind (capsStay_initGlobals g) fun _ => capsStay_importGenesis hg
  have hother : Steps (Untouched Kind.asset) (initAccounts g) := by
    unfold initAccounts
    repeat' first
      | with_reducible apply steps_bind | intro _ | exact untouched_create (by decide)
    exact (looks_pure ()).steps
  exact hother.mono fun _ _ h => h.capsStay

variable {ok : Store chainSchema → Operation → Prop} {s : Store chainSchema}

theorem Reached.assetsCapped (h : Reached ok g s) (hg : g.Capped)
    (hok : ∀ s op, ok s op → KeepsCap s op) : AssetsCapped s := by
  refine h.invariant (fun h0 => ?_) fun hstep hs => hstep.assetsCapped hok hs
  exact (capsStay_initGenesis hg).step h0 fun z a _ ha => by cases ha

theorem Reached.ordersSound (h : Reached ok g s) (hok : ∀ s op, ok s op → op.Fits) :
    OrdersSound s.orders := by
  refine h.invariant (fun {u d} h0 i o ho => ?_) fun hstep hs => hstep.ordersSound hok hs
  have hsame : d.store.get Kind.limitOrder i = emptyStore.get Kind.limitOrder i :=
    get_of_unchanged ((made_initGenesis g).step h0) (by decide) (by decide) fun _ _ hab =>
      Or.resolve_left hab (by decide)
  cases hsame.symm.trans ho

/-- **The supply of an asset of a user stays within its cap**, when no update of an asset sets a cap
below what has been issued. -/
theorem supply_capped (hg : g.Capped)
    (h : Reached (fun s op => op.Fits ∧ KeepsCap s op) g s) {z : Nat} {a : AssetObject}
    (hm : z ≠ museSymbol) (hd : z ≠ mbdSymbol) (ha : s.get Kind.asset z = some a) :
    0 ≤ a.currentSupply ∧ a.currentSupply ≤ a.options.maxSupply ∧
      a.options.maxSupply ≤ maxShareSupply := by
  have hcapped := h.assetsCapped hg (fun _ _ hop => hop.2) z a hm ha
  have hsound := h.ordersSound fun _ _ hop => hop.1
  have hb := h.tokensBacked
  have hz : ¬coreSymbol z := fun hc => hc.elim hm hd
  have hheld : a.currentSupply = s.inBalances z + s.forSale z := by
    rw [← weight_held s hz, hb.gap z hz]
    unfold Store.counted
    rw [ha]
    rfl
  have hbalances : 0 ≤ s.inBalances z := FMap.sum_nonneg_of fun i b hi => by
    split
    · exact hb.solvent i b hi
    · exact le_rfl
  have hsale : 0 ≤ s.forSale z := FMap.sum_nonneg_of fun i o hi => by
    split
    · exact (hsound i o hi).forSale.1.le
    · exact le_rfl
  exact ⟨by omega, hcapped.supply, hcapped.cap⟩

end

section

attribute [local instance] sampleFc

/-- The cap of the asset that alice holds 5 of is set to 3. -/
def lowerCap : Operation :=
  .assetUpdate
    { issuer := initMinerName, assetToUpdate := 3, newIssuer := none
      newOptions := { maxSupply := 3 } }

theorem runs_lowerCap :
    ((evaluate 0 (fun _ => pure ()) lowerCap : Act 0 Unit).run tokenIssued).isOk = true ∧
      ((evaluated lowerCap tokenIssued).store.get Kind.asset 3).map (fun a : AssetObject =>
        (a.options.maxSupply, a.currentSupply)) = some (3, 5) := by
  decide +kernel

/-- An update sets the cap below the supply. -/
theorem supply_above_cap : ∃ (g : GenesisState) (s : Store chainSchema) (a : AssetObject),
    g.Capped ∧ Reached (fun _ op => op.Fits) g s ∧ s.get Kind.asset 3 = some a ∧
      a.options.maxSupply < a.currentSupply := by
  obtain ⟨hlower, habove⟩ := runs_lowerCap
  obtain ⟨a, ha, hpair⟩ := Option.map_eq_some_iff.mp habove
  obtain ⟨hmax, hsupply⟩ := Prod.mk.inj hpair
  have hissued : Reached (fun _ op => op.Fits) aliceGenesis tokenIssued.store :=
    reached_tokenIssued fun _ => ⟨trivial, trivial⟩
  have hlowered := hissued.evaluated (by decide +kernel) rfl (by exact trivial) hlower
  exact ⟨_, _, a, fun _ hi => absurd hi List.not_mem_nil, hlowered, ha, by omega⟩

/-- All of the 5 that are issued may be, and 2 of them are for sale. -/
theorem supply_capped_offered : ∃ a : AssetObject, tokenOffered.store.get Kind.asset 3 = some a ∧
    a.currentSupply = 5 ∧ 0 ≤ a.currentSupply ∧ a.currentSupply ≤ a.options.maxSupply ∧
      a.options.maxSupply ≤ maxShareSupply := by
  obtain ⟨a, ha, hfive⟩ := Option.map_eq_some_iff.mp runs_tokenOffered.2.1
  have hoffered : Reached (fun s op => op.Fits ∧ KeepsCap s op) aliceGenesis tokenOffered.store := by
    refine reached_tokenOffered fun s => ⟨⟨trivial, trivial⟩, ⟨trivial, trivial⟩, ?_, trivial⟩
    exact ⟨by decide, by decide⟩
  exact ⟨a, ha, hfive, supply_capped (fun _ hi => absurd hi List.not_mem_nil) hoffered (by decide)
    (by decide) ha⟩

end

end MuseChain
