/-
  File:      MuseChain/Safety/Payments.lean
  Subject:   Fees, payouts, conversions, withdrawals and rewards as flows of value.

  * `still_of_changes`: what is written to no holdings and no counters leaves the three gaps.
  * `flow_createVesting`, `flow_createMbd`, `flow_payToContent`, `flow_processContentCashout`: what
    a payment takes out of what is counted.
  * `still_processConversions`, `still_processVestingWithdrawal`: conversions and withdrawals turn
    one into the other.
  * **`still_payBlock`**: the payments of a block cancel out.
-/
import MuseChain.Safety.Listening
import MuseChain.Safety.Royalties
import MuseChain.Safety.Supply
import MuseChain.Safety.Votes

namespace MuseChain

variable {n : Nat}

/-! ## 1. Programs that write elsewhere -/

/-- The parts that are summed up, and those of the counters. -/
def Part.worth : Part → Bool
  | .gone .account | .account .muse | .account .mbd | .account .vests | .made .limitOrder
  | .gone .limitOrder | .whole .limitOrder | .made .convertRequest | .gone .convertRequest
  | .whole .convertRequest | .made .balance | .gone .balance | .whole .balance | .gone .content
  | .content .accumulated | .made .dynamicGlobalProperty | .gone .dynamicGlobalProperty
  | .props .supply | .props .fund | .props .shares => true
  | _ => false

section

variable {l : List Part} {s t : Store chainSchema}

/-- The counters are the same. -/
structure SameCounters (p q : DynamicGlobalProperty) : Prop where
  muse : q.museCount = p.museCount
  mbd : q.currentMbdSupply = p.currentMbdSupply
  shares : q.totalVestingShares = p.totalVestingShares

theorem still_of_weights (hp : SameCounters s.props t.props)
    (hm : t.weight museWeight = s.weight museWeight) (hb : t.weight mbdWeight = s.weight mbdWeight)
    (hv : t.weight vestsWeight = s.weight vestsWeight) : Still s t := by
  refine ⟨?_, ?_, ?_⟩
  · rw [museGap, museGap, hp.muse, hm, add_zero]
  · rw [mbdGap, mbdGap, hp.mbd, hb, add_zero]
  · rw [vestsGap, vestsGap, hp.shares, hv, add_zero]

theorem sameCounters_of_changes (h : Obeys (changes l) s t)
    (hm : Part.made .dynamicGlobalProperty ∉ l) (hg : Part.gone .dynamicGlobalProperty ∉ l)
    (hsupply : Part.props .supply ∉ l) (hfund : Part.props .fund ∉ l)
    (hshares : Part.props .shares ∉ l) : SameCounters s.props t.props := by
  unfold Store.props
  rcases changes_cases (h Kind.dynamicGlobalProperty 0) hg with
    ⟨p, q, hp, hq, hpq⟩ | ⟨hp, hq⟩ | ⟨_, _, _, _, hmade, _⟩
  · have h1 : DynamicGlobalProperty.view .supply p = DynamicGlobalProperty.view .supply q :=
      (hpq .supply).resolve_left hsupply
    have h2 : p.totalVestingFundMuse = q.totalVestingFundMuse := (hpq .fund).resolve_left hfund
    have h3 : p.totalVestingShares = q.totalVestingShares := (hpq .shares).resolve_left hshares
    simp only [DynamicGlobalProperty.view, Prod.mk.injEq] at h1
    obtain ⟨-, hcurrent, hmbd, -, hdelta⟩ := h1
    rw [hp, hq]
    refine ⟨?_, hmbd.symm, h3.symm⟩
    show q.currentSupply.amount + q.supplyDelta.amount - q.totalVestingFundMuse.amount = _
    rw [← hcurrent, ← hdelta, ← h2]
    rfl
  · rw [hp, hq]
    exact ⟨rfl, rfl, rfl⟩
  · exact absurd hmade hm

/-- What an account holds stays, and new accounts hold nothing. -/
theorem account_parts_of_changes (h : Obeys (changes l) s t) (hg : Part.gone .account ∉ l)
    {w : Account → Int} {f : AccountField} (hf : Part.account f ∉ l)
    (hw : ∀ a b : Account, Account.view f a = Account.view f b → w a = w b)
    (hz : ∀ a : Account, Blank .account a → w a = 0) (i : Nat) :
    FMap.part w (t.get Kind.account i) = FMap.part w (s.get Kind.account i) := by
  rcases changes_cases (h Kind.account i) hg with
    ⟨a, b, ha, hb, hab⟩ | ⟨ha, hb⟩ | ⟨a, b, ha, hb, _, hblank, hab⟩
  · rw [ha, hb]
    exact (hw a b ((hab f).resolve_left hf)).symm
  · rw [ha, hb]
  · rw [ha, hb]
    exact (hw a b ((hab f).resolve_left hf)).symm.trans (hz a hblank)

theorem accumulated_of_changes (h : Obeys (changes l) s t) (hg : Part.gone .content ∉ l)
    (hf : Part.content .accumulated ∉ l) (i : Nat) :
    FMap.part (museWeight Kind.content) (t.get Kind.content i) =
      FMap.part (museWeight Kind.content) (s.get Kind.content i) := by
  have hsame : ∀ {a b : Content}, Same l Kind.content a b →
      museWeight Kind.content a = museWeight Kind.content b := fun {a b} hab => by
    have hview : a.accumulated = b.accumulated := (hab .accumulated).resolve_left hf
    have h1 : a.accumulatedBalanceMaster = b.accumulatedBalanceMaster := congrArg Prod.fst hview
    have h2 : a.accumulatedBalanceComp = b.accumulatedBalanceComp := congrArg Prod.snd hview
    simp only [museWeight, h1, h2]
  rcases changes_cases (h Kind.content i) hg with
    ⟨a, b, ha, hb, hab⟩ | ⟨ha, hb⟩ | ⟨a, b, ha, hb, _, hblank, hab⟩
  · rw [ha, hb]
    exact (hsame hab).symm
  · rw [ha, hb]
  · rw [ha, hb]
    have hzero : museWeight Kind.content a = 0 := by
      simp only [museWeight]
      rw [hblank.1, hblank.2.1]
      rfl
    exact (hsame hab).symm.trans hzero

/-- **What is written elsewhere moves no value.** -/
theorem still_of_changes (h : Obeys (changes l) s t) (hl : ∀ p ∈ l, p.worth = false) :
    Still s t := by
  have hn : ∀ {p : Part}, p.worth = true → p ∉ l := fun hp hm => by
    rw [hl _ hm] at hp
    cases hp
  have horders : ∀ i, t.get Kind.limitOrder i = s.get Kind.limitOrder i := fun i =>
    get_of_unchanged h (hn rfl) (hn rfl) fun _ _ hab => Or.resolve_left hab (hn rfl)
  have hrequests : ∀ i, t.get Kind.convertRequest i = s.get Kind.convertRequest i := fun i =>
    get_of_unchanged h (hn rfl) (hn rfl) fun _ _ hab => Or.resolve_left hab (hn rfl)
  have hclaims : ∀ i, t.get Kind.balance i = s.get Kind.balance i := fun i =>
    get_of_unchanged h (hn rfl) (hn rfl) fun _ _ hab => Or.resolve_left hab (hn rfl)
  refine still_of_weights (sameCounters_of_changes h (hn rfl) (hn rfl) (hn rfl) (hn rfl) (hn rfl))
    (Store.weight_congr fun k i => ?_) (Store.weight_congr fun k i => ?_)
    (Store.weight_congr fun k i => ?_)
  · cases k with
    | account =>
      exact account_parts_of_changes h (hn rfl) (f := .muse) (hn rfl)
        (fun a b hab => congrArg Asset.amount hab) (fun a ha => congrArg Asset.amount ha.1) i
    | content => exact accumulated_of_changes h (hn rfl) (hn rfl) i
    | limitOrder => exact congrArg _ (horders i)
    | convertRequest => exact congrArg _ (hrequests i)
    | balance => exact congrArg _ (hclaims i)
    | _ => exact (part_zero _).trans (part_zero _).symm
  · cases k with
    | account =>
      exact account_parts_of_changes h (hn rfl) (f := .mbd) (hn rfl)
        (fun a b hab => congrArg (fun x : Asset × Nat × Nat × Nat => x.1.amount) hab)
        (fun a ha => congrArg Asset.amount ha.2.1) i
    | limitOrder => exact congrArg _ (horders i)
    | convertRequest => exact congrArg _ (hrequests i)
    | _ => exact (part_zero _).trans (part_zero _).symm
  · cases k with
    | account =>
      exact account_parts_of_changes h (hn rfl) (f := .vests) (hn rfl)
        (fun a b hab => congrArg Asset.amount hab) (fun a ha => congrArg Asset.amount ha.2.2.1) i
    | _ => exact (part_zero _).trans (part_zero _).symm

end

theorem Composed.still {l : List Part} {α : Type} {x : Act n α} (h : Composed l x)
    (hl : ∀ p ∈ l, p.worth = false) : Steps Still x :=
  h.steps.mono fun _ _ h => still_of_changes h hl

/-! ## 2. Supplies and fees -/

/-- **What is added to a supply is owed.** -/
theorem flow_adjustSupply (delta : Asset) (b : Bool) :
    Steps (Flow delta.inMuse delta.inMbd 0) (adjustSupply delta b : Act n Unit) := by
  unfold adjustSupply
  refine Steps.still_bind (by simp) fun props => Steps.still_bind (by simp) fun feed => ?_
  refine flow_modifyDgp fun p x hx => ?_
  dsimp only at hx
  unfold Asset.inMuse Asset.inMbd
  split at hx
  · rename_i hm
    rw [if_pos hm, if_neg (by rw [hm]; decide)]
    have hrest : ∀ extra : Int, (do
        let sum ← delta.add (Asset.muse extra)
        let supply ← p.currentSupply.add sum
        let virt ← p.virtualSupply.add sum
        let fund ← p.totalVestingFundMuse.add (Asset.muse extra)
        pure (supply, p.currentMbdSupply, virt, fund) : Except Exn (Asset × Asset × Asset × Asset)) =
          .ok x → x.1.amount - x.2.2.2.amount =
            p.currentSupply.amount - p.totalVestingFundMuse.amount + delta.amount ∧
            x.2.1 = p.currentMbdSupply := by
      intro extra hx
      obtain ⟨sum, hsum, hx⟩ := except_bind_ok.mp hx
      obtain ⟨supply, hsupply, hx⟩ := except_bind_ok.mp hx
      obtain ⟨virt, _, hx⟩ := except_bind_ok.mp hx
      obtain ⟨fund, hfund, hx⟩ := except_bind_ok.mp hx
      cases hx
      obtain ⟨_, rfl⟩ := Asset.add_ok hsum
      obtain ⟨_, rfl⟩ := Asset.add_ok hsupply
      obtain ⟨_, rfl⟩ := Asset.add_ok hfund
      refine ⟨?_, rfl⟩
      show p.currentSupply.amount + (delta.amount + extra) - (p.totalVestingFundMuse.amount + extra) =
        _
      omega
    -- the MUSE that vesting gets in addition are in the fund too
    obtain ⟨hmuse, hmbd⟩ : x.1.amount - x.2.2.2.amount =
        p.currentSupply.amount - p.totalVestingFundMuse.amount + delta.amount ∧
        x.2.1 = p.currentMbdSupply := by
      split at hx
      · obtain ⟨extra, _, hx⟩ := except_bind_ok.mp hx
        exact hrest extra hx
      · exact hrest 0 hx
    refine ⟨?_, ?_, (add_zero _).symm⟩
    · show x.1.amount + p.supplyDelta.amount - x.2.2.2.amount = p.museCount + delta.amount
      unfold DynamicGlobalProperty.museCount
      omega
    · show x.2.1.amount = _
      rw [hmbd, add_zero]
  · rename_i hm
    rw [if_neg hm]
    split at hx
    · rename_i hb
      rw [if_pos hb]
      obtain ⟨mbd, hmbd, hx⟩ := except_bind_ok.mp hx
      obtain ⟨worth, _, hx⟩ := except_bind_ok.mp hx
      obtain ⟨virt, _, hx⟩ := except_bind_ok.mp hx
      cases hx
      obtain ⟨_, rfl⟩ := Asset.add_ok hmbd
      exact ⟨(add_zero _).symm, rfl, (add_zero _).symm⟩
    · cases hx

theorem Asset.inMuse_neg (a : Asset) : (⟨-a.amount, a.assetId⟩ : Asset).inMuse = -a.inMuse := by
  unfold Asset.inMuse
  split
  · rfl
  · exact neg_zero.symm

theorem Asset.inMbd_neg (a : Asset) : (⟨-a.amount, a.assetId⟩ : Asset).inMbd = -a.inMbd := by
  unfold Asset.inMbd
  split
  · rfl
  · exact neg_zero.symm

@[simp] theorem Asset.inMuse_muse (x : Int) : (Asset.muse x).inMuse = x := if_pos rfl

@[simp] theorem Asset.inMbd_muse (x : Int) : (Asset.muse x).inMbd = 0 :=
  if_neg (show museSymbol ≠ mbdSymbol by decide)

/-- A fee that is burnt was taken from an account. -/
theorem still_payFee (acc : Nat) (fee : Asset) : Steps Still (payFee acc fee : Act n Unit) := by
  unfold payFee
  refine steps_bind (by simp) fun _ => steps_ite (fun _ => by simp) fun _ => ?_
  refine steps_bind_lift fun neg hneg => ?_
  obtain rfl := Asset.neg_ok hneg
  refine ((flow_adjustBalance acc _).flow fun _ => flow_adjustSupply _ false).mono fun s t h =>
    h.of_eq ?_ ?_ (add_zero 0)
  · exact neg_add_cancel _
  · exact neg_add_cancel _

theorem flow_creditMuse (acc : Nat) (muse : Asset) :
    Steps (Flow (-muse.amount) 0 0) (Action.modifyWith (S := chainSchema) Kind.account acc
      (fun a : Account => a.balance.add muse)
      fun (a : Account) x => { a with balance := x } : Act n Unit) := by
  refine flow_modifyAccount fun a x hx => ?_
  obtain ⟨_, rfl⟩ := Asset.add_ok hx
  exact ⟨(sub_neg_eq_add _ _).symm, (sub_zero _).symm, (sub_zero _).symm⟩

/-- **A deposit turns MUSE into vesting shares**: they leave what is held for the vesting fund. -/
theorem flow_createVesting (acc : Nat) (muse : Asset) :
    Steps (Flow (-muse.amount) 0 0) (createVesting acc muse : Act n Asset) := by
  unfold createVesting
  refine Steps.still_bind (by simp) fun props => Steps.still_bind (by simp) fun newVesting => ?_
  have hvotes : ∀ delta, Steps Still (adjustProxiedWitnessVotes acc delta : Act n Unit) :=
    fun delta => steps_adjustProxiedWitnessVotes acc delta
  have hscore : ∀ delta, Steps Still (recursiveRecalculateScore acc delta : Act n Unit) :=
    fun delta => steps_recursiveRecalculateScore acc delta
  have haccount : Steps (Flow 0 0 (-newVesting.amount)) (Action.modifyWith (S := chainSchema)
      Kind.account acc (fun a : Account => a.vestingShares.add newVesting)
      fun (a : Account) x => { a with vestingShares := x } : Act n Unit) := by
    refine flow_modifyAccount fun a x hx => ?_
    obtain ⟨_, rfl⟩ := Asset.add_ok hx
    exact ⟨(sub_zero _).symm, (sub_zero _).symm, (sub_neg_eq_add _ _).symm⟩
  refine (haccount.flow fun _ => (flow_modifyDgp fun p x hx => ?_ :
    Steps (Flow (-muse.amount) 0 newVesting.amount) _).bind_still fun _ =>
      steps_bind (hvotes _) fun _ => steps_bind (hscore _) fun _ => by simp).mono fun s t h =>
    h.of_eq (zero_add _) (add_zero 0) (neg_add_cancel _)
  obtain ⟨fund, hfund, hx⟩ := except_bind_ok.mp hx
  obtain ⟨shares, hshares, hx⟩ := except_bind_ok.mp hx
  cases hx
  obtain ⟨_, rfl⟩ := Asset.add_ok hfund
  obtain ⟨_, rfl⟩ := Asset.add_ok hshares
  refine ⟨?_, (add_zero _).symm, rfl⟩
  show p.currentSupply.amount + p.supplyDelta.amount - (p.totalVestingFundMuse.amount + muse.amount) =
    p.museCount + -muse.amount
  unfold DynamicGlobalProperty.museCount
  omega

/-- **Payments in MBD burn the MUSE that they are worth.** -/
theorem flow_createMbd (acc : Nat) {b : Asset} (hm : b.assetId = museSymbol) :
    Steps (Flow (-b.amount) 0 0) (createMbd acc b : Act n Asset) := by
  obtain ⟨m, z⟩ := b
  obtain rfl : z = museSymbol := hm
  have hcredit : ∀ a : Asset, Steps (Flow (-a.inMuse) (-a.inMbd) 0)
    (adjustBalance acc a : Act n Unit) := flow_adjustBalance acc
  unfold createMbd
  refine steps_ite (fun hzero => ?_) fun _ => Steps.still_bind (by simp) fun feed => ?_
  · have hnone : Steps Still (pure (Asset.mbd 0) : Act n Asset) := (looks_pure _).steps
    exact hnone.mono fun s t h => h.of_eq (neg_eq_zero.mpr hzero).symm rfl rfl
  · refine steps_ite (fun _ => ?_) fun _ => Steps.still_bind (by simp) fun mbd => ?_
    · refine ((hcredit (Asset.muse m)).bind_still fun _ => by simp).mono fun s t h => h.of_eq ?_ ?_ rfl
      · rw [Asset.inMuse_muse]
      · rw [Asset.inMbd_muse, neg_zero]
    · have hsupply : Steps (Flow (mbd.inMuse - m) mbd.inMbd 0) (do
          let neg ← Action.lift (Asset.muse m).neg
          adjustSupply neg
          adjustSupply mbd
          pure mbd : Act n Asset) := by
        refine steps_bind_lift fun neg hneg => ?_
        obtain rfl := Asset.neg_ok hneg
        refine ((flow_adjustSupply _ false).flow fun _ =>
          (flow_adjustSupply mbd false).bind_still fun _ => by simp).mono fun s t h => h.of_eq ?_ ?_ rfl
        · rw [Asset.inMuse_neg, Asset.inMuse_muse]
          exact neg_add_eq_sub m mbd.inMuse
        · rw [Asset.inMbd_neg, Asset.inMbd_muse, neg_zero, zero_add]
      exact ((hcredit mbd).flow fun _ => hsupply).mono fun s t h =>
        h.of_eq (by show -mbd.inMuse + (mbd.inMuse - m) = -m; omega) (neg_add_cancel _) rfl

/-! ## 3. Payouts of content -/

section

variable {d d' : Database chainSchema}

/-- **The loop over the payees** pays what it counts. -/
theorem flow_payDistributions {toPay paid total : Asset} {l : List Distribution}
    (hp : toPay.assetId = museSymbol)
    (h : (payDistributions toPay l paid : Act n Asset).run d = .ok total d') :
    Flow (paid.amount - total.amount) 0 0 d.store d'.store := by
  induction l generalizing paid d with
  | nil =>
    cases h
    exact (refl_of Still _).of_eq (sub_self _).symm rfl rfl
  | cons di l ih =>
    obtain ⟨x, _, h⟩ := Action.bind_lift_ok.mp h
    obtain ⟨y, _, h⟩ := Action.bind_lift_ok.mp h
    obtain ⟨sum, hsum, h⟩ := Action.bind_lift_ok.mp h
    obtain ⟨zero, hzero, h⟩ := Action.bind_lift_ok.mp h
    obtain ⟨author, d₁, h1, h⟩ := Action.bind_ok.mp h
    obtain ⟨_, d₂, h2, h⟩ := Action.bind_ok.mp h
    obtain ⟨_, d₃, h3, hrest⟩ := Action.bind_ok.mp h
    obtain ⟨_, rfl⟩ := Asset.add_ok hsum
    obtain ⟨_, rfl⟩ := Asset.sub_ok hzero
    have hlook : Still d.store d₁.store := (looks_getAccountId _).steps.step h1
    have hvests := (flow_createVesting author _).step h2
    have hmbd := (flow_createMbd (b := ⟨y, toPay.assetId⟩) author hp).step h3
    refine (hlook.trans (hvests.trans (hmbd.trans (ih hrest)))).of_eq ?_ rfl rfl
    show 0 + (-(y - y) + (-y + (paid.amount + y - total.amount))) = _
    omega

/-- What a payout leaves in the account of the content is counted there. -/
theorem flow_setAccumulated {side : ContentSide} {i : Nat} {c : Content} {x : Asset}
    (hc : d.store.get Kind.content i = some c)
    (hf : d.store.free Kind.content i (side.setAccumulated c x) = true) :
    Flow ((side.accumulated c).amount - x.amount) 0 0 d.store
      (d.store.write Kind.content i (side.setAccumulated c x) hf) := by
  refine (flow_write (by decide) hc hf).of_eq ?_ rfl rfl
  cases side with
  | master =>
    show c.accumulatedBalanceMaster.amount + c.accumulatedBalanceComp.amount -
      (x.amount + c.accumulatedBalanceComp.amount) = c.accumulatedBalanceMaster.amount - x.amount
    omega
  | comp =>
    show c.accumulatedBalanceMaster.amount + c.accumulatedBalanceComp.amount -
      (c.accumulatedBalanceMaster.amount + x.amount) = c.accumulatedBalanceComp.amount - x.amount
    omega

/-- **A payout of one side of a content** goes to the payees and into its account. -/
theorem flow_payToContentSide {side : ContentSide} {i : Nat} {p : Asset} {u : Unit}
    (hp : p.assetId = museSymbol)
    (h : (payToContentSide side i p : Act n Unit).run d = .ok u d') :
    Flow (-p.amount) 0 0 d.store d'.store := by
  obtain ⟨c, hc, h⟩ := bind_getObject_ok.mp h
  split at h
  · obtain ⟨a, x, ha, hx, hf, e⟩ := modifyWith_store h
    obtain rfl := Option.some.inj (hc.symm.trans ha)
    obtain ⟨-, rfl⟩ := Asset.add_ok hx
    rw [e]
    refine (flow_setAccumulated hc hf).of_eq ?_ rfl rfl
    show (side.accumulated c).amount - ((side.accumulated c).amount + p.amount) = _
    omega
  · have h := bind_hasHardfork_ok h
    -- after the hardfork the account is paid out too
    have hloop : ∀ {toPay total rest : Asset} {d₁ : Database chainSchema},
        (payDistributions toPay (side.distributions c) ⟨0, toPay.assetId⟩ : Act n Asset).run d =
          .ok total d₁ → toPay.assetId = museSymbol → toPay.sub total = .ok rest →
        Flow (rest.amount - toPay.amount) 0 0 d.store d₁.store ∧
          d₁.store.get Kind.content i = some c := by
      intro toPay total rest d₁ hloop hto hrest
      obtain ⟨-, rfl⟩ := Asset.sub_ok hrest
      refine ⟨(flow_payDistributions hto hloop).of_eq ?_ rfl rfl,
        (content_of_payDistributions hloop i).trans hc⟩
      show 0 - total.amount = toPay.amount - total.amount - toPay.amount
      omega
    by_cases hf2 : d.store.passed hardfork02 = true
    · rw [if_pos hf2] at h
      obtain ⟨toPay, hadd, h⟩ := Action.bind_lift_ok.mp h
      obtain ⟨_, rfl⟩ := Asset.add_ok hadd
      obtain ⟨total, d₁, h1, h⟩ := Action.bind_ok.mp h
      obtain ⟨_, -, h⟩ := Action.bind_lift_ok.mp h
      obtain ⟨rest, hrest, h⟩ := Action.bind_lift_ok.mp h
      obtain ⟨hpaid, hc₁⟩ := hloop h1 hp hrest
      rw [if_pos hf2] at h
      obtain ⟨co, hco, h⟩ := bind_getObject_ok.mp h
      obtain rfl := Option.some.inj (hc₁.symm.trans hco)
      have hleft : Flow ((side.accumulated c).amount - rest.amount) 0 0 d₁.store d'.store := by
        split at h
        · obtain ⟨a, ha, hf, e⟩ := modify_store h
          obtain rfl := Option.some.inj (hc₁.symm.trans ha)
          rw [e]
          exact flow_setAccumulated hc₁ hf
        · rename_i hsame
          cases h
          refine (refl_of Still _).of_eq ?_ rfl rfl
          rw [not_not.mp hsame, sub_self]
      refine (hpaid.trans hleft).of_eq ?_ rfl rfl
      show rest.amount - (p.amount + (side.accumulated c).amount) +
        ((side.accumulated c).amount - rest.amount) = _
      omega
    · rw [if_neg hf2] at h
      have h : (do
          let total ← payDistributions p (side.distributions c) ⟨0, p.assetId⟩
          let _ ← Action.lift (total.gt p)
          let rest ← Action.lift (p.sub total)
          if d.store.passed hardfork02 then do
            let co ← getObject .content i
            if side.accumulated co ≠ rest then
              Action.modify (S := chainSchema) Kind.content i
                (fun c : Content => side.setAccumulated c rest)
                fun c => side.setAccumulated_sameKey c rest
          else if rest.amount ≠ 0 then
            Action.modifyWith (S := chainSchema) Kind.content i
              (fun c : Content => (side.accumulated c).add rest)
              (fun (c : Content) x => side.setAccumulated c x)
              fun c x => side.setAccumulated_sameKey c x : Act n Unit).run d = .ok u d' := h
      obtain ⟨total, d₁, h1, h⟩ := Action.bind_ok.mp h
      obtain ⟨_, -, h⟩ := Action.bind_lift_ok.mp h
      obtain ⟨rest, hrest, h⟩ := Action.bind_lift_ok.mp h
      obtain ⟨hpaid, hc₁⟩ := hloop h1 hp hrest
      rw [if_neg hf2] at h
      have hleft : Flow (-rest.amount) 0 0 d₁.store d'.store := by
        split at h
        · obtain ⟨a, x, ha, hx, hf, e⟩ := modifyWith_store h
          obtain rfl := Option.some.inj (hc₁.symm.trans ha)
          obtain ⟨-, rfl⟩ := Asset.add_ok hx
          rw [e]
          refine (flow_setAccumulated hc₁ hf).of_eq ?_ rfl rfl
          show (side.accumulated c).amount - ((side.accumulated c).amount + rest.amount) = _
          omega
        · rename_i hzero
          cases h
          exact (refl_of Still _).of_eq (neg_eq_zero.mpr (not_not.mp hzero)).symm rfl rfl
      refine (hpaid.trans hleft).of_eq ?_ rfl rfl
      omega

/-- A platform is paid in vesting shares. -/
theorem flow_payToPlatform (platform : Nat) {payout : Asset} :
    Steps (Flow (-payout.amount) 0 0) (payToPlatform platform payout : Act n Unit) := by
  unfold payToPlatform
  refine Steps.still_bind (looks_get _ _).steps fun pl => Steps.still_bind (by simp) fun owner => ?_
  refine steps_bind_lift fun vesting hvesting => ?_
  obtain ⟨_, rfl⟩ := Asset.sub_ok hvesting
  have hmbd : Steps (Flow 0 0 0) (createMbd owner (Asset.muse 0) : Act n Asset) :=
    flow_createMbd (b := Asset.muse 0) owner rfl
  refine ((flow_createVesting owner _).bind_still fun _ =>
    Steps.bind_still hmbd fun _ => (looks_pure ()).steps).mono fun s t h => h.of_eq ?_ rfl rfl
  show -(payout.amount - 0) = -payout.amount
  omega

/-- **What `pay_to_content` returns is what it pays.** -/
theorem flow_payToContent {content platform : Nat} {payout paid : Asset}
    (h : (payToContent content payout platform : Act n Asset).run d = .ok paid d') :
    Flow (-paid.amount) 0 0 d.store d'.store := by
  have h := bind_hasHardfork_ok h
  obtain ⟨payout', h⟩ : ∃ payout' : Asset, (do
      let co ← getObject .content content
      let platformAmount ← Action.lift (bpOf payout'.amount co.playingReward)
      let platformReward : Asset := ⟨platformAmount, payout'.assetId⟩
      let left ← Action.lift (safe (payout'.amount - platformAmount))
      let payout : Asset := ⟨left, payout'.assetId⟩
      let compAmount ← Action.lift (bpOf payout.amount co.publishersShare)
      let compReward : Asset := ⟨compAmount, payout.assetId⟩
      let masterReward ← Action.lift (payout.sub compReward)
      payToContentMaster content masterReward
      payToContentComp content compReward
      payToPlatform platform platformReward
      let paid ← Action.lift ((Asset.muse 0).add masterReward)
      let paid ← Action.lift (paid.add compReward)
      let paid ← Action.lift (paid.add platformReward)
      Action.modifyWith (S := chainSchema) Kind.content content
        (fun c : Content => .ok (sub32 c.timesPlayed24 1))
        fun (c : Content) x => { c with timesPlayed24 := x }
      pure paid : Act n Asset).run d = .ok paid d' := by
    split at h
    · exact ⟨_, h⟩
    · obtain ⟨_, _, h⟩ := Action.bind_lift_ok.mp h
      obtain ⟨_, _, h⟩ := Action.bind_lift_ok.mp h
      obtain ⟨payout', _, h⟩ := Action.bind_lift_ok.mp h
      exact ⟨payout', h⟩
  obtain ⟨co, hco, h⟩ := bind_getObject_ok.mp h
  obtain ⟨platformAmount, _, h⟩ := Action.bind_lift_ok.mp h
  obtain ⟨left, _, h⟩ := Action.bind_lift_ok.mp h
  obtain ⟨compAmount, _, h⟩ := Action.bind_lift_ok.mp h
  obtain ⟨master, hmaster, h⟩ := Action.bind_lift_ok.mp h
  obtain ⟨_, d₁, h1, h⟩ := Action.bind_ok.mp h
  obtain ⟨_, d₂, h2, h⟩ := Action.bind_ok.mp h
  obtain ⟨_, d₃, h3, h⟩ := Action.bind_ok.mp h
  obtain ⟨sum, hsum, h⟩ := Action.bind_lift_ok.mp h
  obtain ⟨sum', hsum', h⟩ := Action.bind_lift_ok.mp h
  obtain ⟨sum'', hsum'', h⟩ := Action.bind_lift_ok.mp h
  obtain ⟨_, d₄, h4, h⟩ := Action.bind_ok.mp h
  cases h
  obtain ⟨_, rfl⟩ := Asset.sub_ok hmaster
  obtain ⟨hmuse, rfl⟩ := Asset.add_ok hsum
  obtain ⟨_, rfl⟩ := Asset.add_ok hsum'
  obtain ⟨_, rfl⟩ := Asset.add_ok hsum''
  -- what is paid is added to an amount of MUSE, so it is MUSE
  have hm := flow_payToContentSide hmuse.symm h1
  have hc := flow_payToContentSide (p := ⟨compAmount, payout'.assetId⟩) hmuse.symm h2
  have hpl := (flow_payToPlatform platform).step h3
  have hplays := (Composed.still (l := [.content .plays])
    (composed_modifyWith fun _ _ f => by cases f <;> simp +decide) (by decide)).step h4
  refine (hm.trans (hc.trans (hpl.trans hplays))).of_eq ?_ rfl rfl
  show -(left - compAmount) + (-compAmount + (-platformAmount + 0)) =
    -(0 + (left - compAmount) + compAmount + platformAmount)
  omega

/-- The loop over the reports. -/
theorem flow_cashoutEach {hf2 : Bool} {totalPayout : Asset} {customers fullTime : Nat}
    {l : List (Nat × Report)} {acc out : Asset × List (Nat × Nat)}
    (h : (cashoutEach hf2 totalPayout customers fullTime l acc :
      Act n (Asset × List (Nat × Nat))).run d = .ok out d') :
    Flow (acc.1.amount - out.1.amount) 0 0 d.store d'.store := by
  induction l generalizing acc d with
  | nil =>
    cases h
    exact (refl_of Still _).of_eq (sub_self _).symm rfl rfl
  | cons r rest ih =>
    obtain ⟨paid, times⟩ := acc
    obtain ⟨consumer, _, h⟩ := bind_getAccount_ok.mp h
    obtain ⟨_, h⟩ := Action.bind_require_ok.mp h
    obtain ⟨reserve, _, h⟩ := Action.bind_lift_ok.mp h
    obtain ⟨now, d₁, h1, h⟩ := Action.bind_ok.mp h
    obtain ⟨sum, hsum, h⟩ := Action.bind_lift_ok.mp h
    obtain ⟨_, rfl⟩ := Asset.add_ok hsum
    have hpaid := flow_payToContent h1
    have hlast : ∀ {e : Database chainSchema} {x : Asset × List (Nat × Nat)},
        (do
          Action.remove (S := chainSchema) Kind.report r.1
          cashoutEach hf2 totalPayout customers fullTime rest x :
            Act n (Asset × List (Nat × Nat))).run e = .ok out d' →
        Flow (x.1.amount - out.1.amount) 0 0 e.store d'.store := by
      intro e x he
      obtain ⟨_, e₁, h2, he⟩ := Action.bind_ok.mp he
      have hremove := (Composed.still (l := [.account .listening, .gone .report])
        (.remove (by decide)) (by decide)).step h2
      exact (hremove.trans (ih he)).of_eq (zero_add _) rfl rfl
    have hrest : Flow (paid.amount + now.amount - out.1.amount) 0 0 d₁.store d'.store := by
      split at h
      · exact hlast h
      · obtain ⟨_, d₂, h2, h⟩ := Action.bind_ok.mp h
        have hdrop := (Composed.still (l := [.account .listening])
          (composed_dropListening _ _ (by decide)) (by decide)).step h2
        exact (hdrop.trans (hlast h)).of_eq (zero_add _) rfl rfl
    refine (hpaid.trans hrest).of_eq ?_ rfl rfl
    show -now.amount + (paid.amount + now.amount - out.1.amount) = paid.amount - out.1.amount
    omega

/-- **What `process_content_cashout` returns is what it pays.** -/
theorem flow_processContentCashout {contentReward paid : Asset}
    (h : (processContentCashout contentReward : Act n Asset).run d = .ok paid d') :
    Flow (-paid.amount) 0 0 d.store d'.store := by
  have hcash : ∀ {hf2 : Bool} {now : Nat} {totalPayout : Asset},
      (cashoutOf hf2 now totalPayout : Act n Asset).run d = .ok paid d' →
      Flow (-paid.amount) 0 0 d.store d'.store := by
    intro hf2 now totalPayout h
    unfold cashoutOf at h
    have h := bind_dueReports_ok.mp h
    obtain ⟨⟨customers, fullTime⟩, d₁, h1, h⟩ := Action.bind_ok.mp h
    have h := bind_dueReports_ok.mp h
    obtain ⟨⟨paid', times⟩, d₂, h2, h⟩ := Action.bind_ok.mp h
    have hcount : Still d.store d₁.store := (looks_countListeners _ _).steps.step h1
    have hpaid := flow_cashoutEach h2
    dsimp only at h hpaid
    obtain ⟨hdrop, rfl⟩ : Still d₂.store d'.store ∧ paid' = paid := by
      cases hf2 with
      | true =>
        rw [if_pos rfl] at h
        obtain ⟨_, d₃, h3, h⟩ := Action.bind_ok.mp h
        cases h
        refine ⟨Steps.step (steps_forEach fun b => ?_) h3, rfl⟩
        exact Composed.still (l := [.account .listening]) (composed_dropListening b.1 b.2 (by decide))
          (by decide)
      | false =>
        cases h
        exact ⟨refl_of Still _, rfl⟩
    refine (hcount.trans (hpaid.trans hdrop)).of_eq ?_ rfl rfl
    show 0 + (0 - paid'.amount + 0) = -paid'.amount
    omega
  unfold processContentCashout at h
  obtain ⟨p, _, h⟩ := bind_headBlockTime_ok h
  replace h := bind_hasHardfork_ok h
  generalize d.store.passed hardfork02 = hf2 at h
  dsimp only at h
  cases hf2 with
  | true => exact hcash h
  | false =>
    obtain ⟨total, d₁, hreward, hrest⟩ := Action.bind_ok.mp h
    obtain rfl := looks_getContentReward.of_ok hreward
    exact hcash hrest

/-! ## 4. The parts of a block -/

/-- **The producer gets what is returned.** -/
theorem flow_getProducerReward {pay : Asset}
    (h : (getProducerReward : Act n Asset).run d = .ok pay d') :
    Flow (-pay.amount) 0 0 d.store d'.store := by
  obtain ⟨p, _, h⟩ := bind_getDgp_ok.mp h
  have h := bind_hasHardfork_ok h
  obtain ⟨amount, h⟩ : ∃ amount, (do
      let pay ← Action.lift ((Asset.muse amount).max (Asset.muse miningReward))
      let witness ← getAccountId p.currentWitness
      let a ← getAccount witness
      if startMinerVotingBlock ≤ p.headBlockNumber ∨ a.vestingShares.amount = 0 then do
        let _ ← createVesting witness pay
        pure pay
      else do
        Action.modifyWith (S := chainSchema) Kind.account witness
          (fun a : Account => a.balance.add pay)
          fun (a : Account) x => { a with balance := x }
        pure pay : Act n Asset).run d = .ok pay d' := by
    obtain ⟨amount, _, h⟩ := Action.bind_lift_ok.mp h
    exact ⟨amount, h⟩
  obtain ⟨pay', _, h⟩ := Action.bind_lift_ok.mp h
  obtain ⟨witness, d₁, h1, h⟩ := Action.bind_ok.mp h
  have hlook : Still d.store d₁.store := (looks_getAccountId _).steps.step h1
  obtain ⟨a, _, h⟩ := bind_getAccount_ok.mp h
  have hpaid : Flow (-pay.amount) 0 0 d₁.store d'.store := by
    split at h
    · obtain ⟨_, d₂, h2, h⟩ := Action.bind_ok.mp h
      cases h
      exact (flow_createVesting witness _).step h2
    · obtain ⟨_, d₂, h2, h⟩ := Action.bind_ok.mp h
      cases h
      exact (flow_creditMuse _ _).step h2
  exact (hlook.trans hpaid).of_eq (zero_add _) rfl rfl

/-- The rewards are new MUSE; those for vesting go to the fund. -/
theorem flow_processFunds (contentReward witnessPay vestingReward : Asset) :
    Steps (Flow (contentReward.amount + witnessPay.amount) 0 0)
      (processFunds contentReward witnessPay vestingReward : Act n Unit) := by
  refine flow_modifyDgp fun p x hx => ?_
  obtain ⟨fund, hfund, hx⟩ := except_bind_ok.mp hx
  obtain ⟨reward, _, hx⟩ := except_bind_ok.mp hx
  obtain ⟨sum, hsum, hx⟩ := except_bind_ok.mp hx
  obtain ⟨sum', hsum', hx⟩ := except_bind_ok.mp hx
  obtain ⟨supply, hsupply, hx⟩ := except_bind_ok.mp hx
  obtain ⟨virt, _, hx⟩ := except_bind_ok.mp hx
  cases hx
  obtain ⟨_, rfl⟩ := Asset.add_ok hfund
  obtain ⟨_, rfl⟩ := Asset.add_ok hsum
  obtain ⟨_, rfl⟩ := Asset.add_ok hsum'
  obtain ⟨_, rfl⟩ := Asset.add_ok hsupply
  refine ⟨?_, (add_zero _).symm, (add_zero _).symm⟩
  show p.currentSupply.amount + (contentReward.amount + witnessPay.amount + vestingReward.amount) +
    p.supplyDelta.amount - (p.totalVestingFundMuse.amount + vestingReward.amount) = _
  unfold DynamicGlobalProperty.museCount
  omega

/-- **What content was not paid is taken back**, before and after the second hardfork: what the old
formula takes back too much or too little is in `supply_delta`. -/
theorem flow_adjustFunds (contentReward paidToContent : Asset) :
    Steps (Flow (paidToContent.amount - contentReward.amount) 0 0)
      (adjustFunds contentReward paidToContent : Act n Unit) := by
  have hrest : ∀ initial : Asset, Steps (Flow (paidToContent.amount - contentReward.amount) 0 0) (do
      let delta ← Action.lift (initial.sub paidToContent)
      let trueDelta ← Action.lift (contentReward.sub paidToContent)
      modifyDgp
        (fun p => do
          let rewardFund ← p.totalRewardFundMuse.sub delta
          let supply ← p.currentSupply.sub delta
          let virt ← p.virtualSupply.sub delta
          let diff ← delta.sub trueDelta
          let supplyDelta ← p.supplyDelta.add diff
          pure (rewardFund, supply, virt, supplyDelta))
        fun p x =>
          { p with
            totalRewardFundMuse := x.1
            currentSupply := x.2.1
            virtualSupply := x.2.2.1
            supplyDelta := x.2.2.2 } : Act n Unit) := by
    intro initial
    refine steps_bind_lift fun delta _ => steps_bind_lift fun trueDelta htrue => ?_
    obtain ⟨_, rfl⟩ := Asset.sub_ok htrue
    refine flow_modifyDgp fun p x hx => ?_
    obtain ⟨reward, _, hx⟩ := except_bind_ok.mp hx
    obtain ⟨supply, hsupply, hx⟩ := except_bind_ok.mp hx
    obtain ⟨virt, _, hx⟩ := except_bind_ok.mp hx
    obtain ⟨diff, hdiff, hx⟩ := except_bind_ok.mp hx
    obtain ⟨supplyDelta, hdelta, hx⟩ := except_bind_ok.mp hx
    cases hx
    obtain ⟨_, rfl⟩ := Asset.sub_ok hsupply
    obtain ⟨_, rfl⟩ := Asset.sub_ok hdiff
    obtain ⟨_, rfl⟩ := Asset.add_ok hdelta
    refine ⟨?_, (add_zero _).symm, (add_zero _).symm⟩
    show p.currentSupply.amount - delta.amount + (p.supplyDelta.amount +
      (delta.amount - (contentReward.amount - paidToContent.amount))) - p.totalVestingFundMuse.amount = _
    unfold DynamicGlobalProperty.museCount
    omega
  unfold adjustFunds
  refine Steps.still_bind (by simp) fun hf2 => ?_
  dsimp only
  split
  · exact hrest _
  · exact Steps.still_bind looks_getContentReward.steps fun initial => hrest initial

theorem still_updateVirtualSupply : Steps Still (updateVirtualSupply : Act n Unit) := by
  unfold updateVirtualSupply
  refine steps_bind (by simp) fun feed => flow_modifyDgp fun p x _ => ?_
  exact ⟨(add_zero _).symm, (add_zero _).symm, (add_zero _).symm⟩

/-- A request that is paid is removed: the MBD are gone, and the MUSE are there. -/
theorem flow_convertEach {price : Price} {l : List (Nat × ConvertRequest)} {t out : Asset × Asset}
    (hrows : ∀ r ∈ l, d.store.get Kind.convertRequest r.1 = some r.2)
    (hnodup : (l.map (·.1)).Nodup) (hmbd : t.1.assetId = mbdSymbol)
    (hmuse : t.2.assetId = museSymbol)
    (h : (convertEach price l t : Act n (Asset × Asset)).run d = .ok out d') :
    Flow (t.2.amount - out.2.amount) (out.1.amount - t.1.amount) 0 d.store d'.store := by
  induction l generalizing t d with
  | nil =>
    cases h
    exact (refl_of Still _).of_eq (sub_self _).symm (sub_self _).symm rfl
  | cons r rest ih =>
    obtain ⟨i, r⟩ := r
    obtain ⟨netMbd, netMuse⟩ := t
    obtain ⟨hfirst, hnodup⟩ := List.nodup_cons.mp hnodup
    obtain ⟨user, _, _, _, h⟩ := bind_getAccountId_ok h
    obtain ⟨toIssue, _, h⟩ := Action.bind_lift_ok.mp h
    obtain ⟨_, d₁, h1, h⟩ := Action.bind_ok.mp h
    obtain ⟨sumMbd, hsumMbd, h⟩ := Action.bind_lift_ok.mp h
    obtain ⟨sumMuse, hsumMuse, h⟩ := Action.bind_lift_ok.mp h
    obtain ⟨_, d₂, h2, h⟩ := Action.bind_ok.mp h
    obtain ⟨hsame, rfl⟩ := Asset.add_ok hsumMbd
    obtain ⟨hsame', rfl⟩ := Asset.add_ok hsumMuse
    have hinMbd : r.amount.assetId = mbdSymbol := hsame.symm.trans hmbd
    have hinMuse : toIssue.assetId = museSymbol := hsame'.symm.trans hmuse
    -- the payment leaves the requests alone
    have hkeep : ∀ j, d₁.store.get Kind.convertRequest j = d.store.get Kind.convertRequest j :=
      fun j => get_of_unchanged ((composed_adjustBalance user toIssue
        (List.Subset.refl _)).steps.step h1) (by decide) (by decide) fun _ _ hab =>
          Or.resolve_left hab (by decide)
    obtain ⟨r', hr', e⟩ := remove_store h2
    obtain rfl : r = r' :=
      Option.some.inj ((hrows (i, r) List.mem_cons_self).symm.trans ((hkeep i).symm.trans hr'))
    have hpaid := (flow_adjustBalance user toIssue).step h1
    have hremoved : Flow 0 r.amount.amount 0 d₁.store d₂.store := by
      rw [e]
      refine (flow_put (k := Kind.convertRequest) (by decide) i none (fun _ hn => by cases hn)).of_eq
        ?_ ?_ ?_
      · rw [hr']
        show r.amount.inMuse - 0 = 0
        rw [Asset.inMuse, if_neg (by rw [hinMbd]; decide)]
        rfl
      · rw [hr']
        show r.amount.inMbd - 0 = _
        rw [Asset.inMbd, if_pos hinMbd, sub_zero]
      · rw [hr']
        rfl
    have hrest := ih (t := (⟨netMbd.amount + r.amount.amount, netMbd.assetId⟩,
      ⟨netMuse.amount + toIssue.amount, netMuse.assetId⟩)) (fun r hr => by
        have hne : r.1 ≠ i := fun hi => hfirst (List.mem_map.mpr ⟨r, hr, hi⟩)
        rw [e, Store.get_erase_self, if_neg hne, hkeep]
        exact hrows r (List.mem_cons_of_mem _ hr)) hnodup hmbd hmuse h
    refine (hpaid.trans (hremoved.trans hrest)).of_eq ?_ ?_ rfl
    · rw [Asset.inMuse, if_pos hinMuse]
      show -toIssue.amount + (0 + (netMuse.amount + toIssue.amount - out.2.amount)) =
        netMuse.amount - out.2.amount
      omega
    · rw [Asset.inMbd, if_neg (by rw [hinMuse]; decide)]
      show -0 + (r.amount.amount + (out.1.amount - (netMbd.amount + r.amount.amount))) =
        out.1.amount - netMbd.amount
      omega

theorem nodup_dueRows (s : Store chainSchema) (k : Kind) (time : k.Object → Nat) (due : Nat → Bool) :
    ((((s.rows k).filter fun r => due (time r.2)).insertionSort
      fun a b => time a.2 ≤ time b.2).map (·.1)).Nodup := by
  refine ((List.perm_insertionSort _ _).map _).nodup_iff.mpr ?_
  exact (List.filter_sublist.map _).nodup
    (List.pairwise_map.mpr ((s.table k).map.sorted.imp Nat.ne_of_lt))

/-- **Conversions** turn the MBD of the requests into MUSE, in the counters too. -/
theorem still_processConversions {u : Unit} (h : (processConversions : Act n Unit).run d = .ok u d') :
    Still d.store d'.store := by
  obtain ⟨p, _, h⟩ := bind_headBlockTime_ok h
  obtain ⟨feed, _, h⟩ := bind_getFeedHistory_ok.mp h
  split at h
  · cases h
    exact refl_of Still _
  · have h := Action.bind_read_ok.mp h
    obtain ⟨⟨netMbd, netMuse⟩, d₁, h1, h⟩ := Action.bind_ok.mp h
    have hconverted := flow_convertEach (fun r hr => FMap.mem_rows.mp
      (List.mem_filter.mp ((List.mem_insertionSort _).mp hr)).1)
      (nodup_dueRows d.store Kind.convertRequest (fun r : ConvertRequest => r.conversionDate)
        fun t => t ≤ p.time) rfl rfl h1
    have hcounted : Flow netMuse.amount (-netMbd.amount) 0 d₁.store d'.store := by
      refine (flow_modifyDgp fun p x hx => ?_ :
        Steps (Flow netMuse.amount (-netMbd.amount) 0) _).step h
      obtain ⟨supply, hsupply, hx⟩ := except_bind_ok.mp hx
      obtain ⟨mbd, hmbd, hx⟩ := except_bind_ok.mp hx
      obtain ⟨virt, _, hx⟩ := except_bind_ok.mp hx
      obtain ⟨worth, _, hx⟩ := except_bind_ok.mp hx
      obtain ⟨virt', _, hx⟩ := except_bind_ok.mp hx
      cases hx
      obtain ⟨_, rfl⟩ := Asset.add_ok hsupply
      obtain ⟨_, rfl⟩ := Asset.sub_ok hmbd
      refine ⟨?_, rfl, (add_zero _).symm⟩
      show p.currentSupply.amount + netMuse.amount + p.supplyDelta.amount -
        p.totalVestingFundMuse.amount = _
      unfold DynamicGlobalProperty.museCount
      omega
    refine (hconverted.trans hcounted).of_eq ?_ ?_ rfl
    · show 0 - netMuse.amount + netMuse.amount = 0
      omega
    · show netMbd.amount - 0 + -netMbd.amount = 0
      omega

/-! ## 5. Withdrawals -/

/-- The first pass gives vesting shares that are not taken from anyone yet. -/
theorem flow_depositVests {v : Int} (hv : int64Min ≤ v ∧ v ≤ int64Max)
    {l : List (Nat × WithdrawVestingRoute)}
    (hl : ∀ r ∈ l, 1 ≤ r.2.percent ∧ r.2.percent ≤ percent100) {start out : Int}
    (h : (depositVests v l start : Act n Int).run d = .ok out d') :
    Flow 0 0 (start - out) d.store d'.store := by
  induction l generalizing d start with
  | nil =>
    cases h
    exact (refl_of Still _).of_eq rfl rfl (sub_self _).symm
  | cons r l ih =>
    obtain ⟨i, r⟩ := r
    have hl' : ∀ r ∈ l, 1 ≤ r.2.percent ∧ r.2.percent ≤ percent100 :=
      fun r hr => hl r (List.mem_cons_of_mem _ hr)
    unfold depositVests at h
    split at h
    · obtain ⟨y, hy, h⟩ := Action.bind_lift_ok.mp h
      obtain ⟨sum, hsum, h⟩ := Action.bind_lift_ok.mp h
      obtain ⟨rfl, _⟩ := safe_ok.mp hsum
      have hnonneg := routeShare_nonneg hy (hl _ List.mem_cons_self) hv
      dsimp only at h
      split at h
      · obtain ⟨_, d₁, h1, h⟩ := Action.bind_ok.mp h
        obtain ⟨_, d₂, h2, h⟩ := Action.bind_ok.mp h
        obtain ⟨_, d₃, h3, h⟩ := Action.bind_ok.mp h
        have hgiven : Flow 0 0 (-y) d.store d₁.store := by
          refine (flow_modifyAccount fun a x hx => ?_ : Steps (Flow 0 0 (-y)) _).step h1
          obtain ⟨rfl, _⟩ := safe_ok.mp hx
          exact ⟨(sub_zero _).symm, (sub_zero _).symm, (sub_neg_eq_add _ _).symm⟩
        have hvotes : Still d₁.store d₂.store := (steps_adjustProxiedWitnessVotes _ _).step h2
        have hscore : Still d₂.store d₃.store := (steps_recursiveRecalculateScore _ _).step h3
        refine (hgiven.trans (hvotes.trans (hscore.trans (ih hl' h)))).of_eq rfl rfl ?_
        omega
      · obtain rfl : y = 0 := by omega
        exact (ih hl' h).of_eq rfl rfl (by omega)
    · exact ih hl' h

/-- What is taken from the fund has been paid out. -/
theorem flow_takeFromVestingFund (converted : Asset) (vests : Int) :
    Steps (Flow converted.amount 0 (-vests)) (takeFromVestingFund converted vests : Act n Unit) := by
  refine flow_modifyDgp fun p x hx => ?_
  obtain ⟨fund, hfund, hx⟩ := except_bind_ok.mp hx
  obtain ⟨shares, hshares, hx⟩ := except_bind_ok.mp hx
  cases hx
  obtain ⟨_, rfl⟩ := Asset.sub_ok hfund
  obtain ⟨rfl, _⟩ := safe_ok.mp hshares
  refine ⟨?_, (add_zero _).symm, sub_eq_add_neg _ _⟩
  show p.currentSupply.amount + p.supplyDelta.amount -
    (p.totalVestingFundMuse.amount - converted.amount) = _
  unfold DynamicGlobalProperty.museCount
  omega

/-- The second pass turns vesting shares into MUSE that are not taken from anyone yet. -/
theorem flow_depositMuse {v : Int} (hv : int64Min ≤ v ∧ v ≤ int64Max)
    {l : List (Nat × WithdrawVestingRoute)}
    (hl : ∀ r ∈ l, 1 ≤ r.2.percent ∧ r.2.percent ≤ percent100) {start out : Int × Asset}
    (h : (depositMuse v l start : Act n (Int × Asset)).run d = .ok out d') :
    Flow 0 0 (start.1 - out.1) d.store d'.store := by
  induction l generalizing d start with
  | nil =>
    cases h
    exact (refl_of Still _).of_eq rfl rfl (sub_self _).symm
  | cons r l ih =>
    obtain ⟨i, r⟩ := r
    obtain ⟨deposited, total⟩ := start
    have hl' : ∀ r ∈ l, 1 ≤ r.2.percent ∧ r.2.percent ≤ percent100 :=
      fun r hr => hl r (List.mem_cons_of_mem _ hr)
    unfold depositMuse at h
    split at h
    · exact ih hl' h
    · obtain ⟨y, hy, h⟩ := Action.bind_lift_ok.mp h
      obtain ⟨sum, hsum, h⟩ := Action.bind_lift_ok.mp h
      obtain ⟨rfl, _⟩ := safe_ok.mp hsum
      obtain ⟨p, _, h⟩ := bind_getDgp_ok.mp h
      obtain ⟨converted, _, h⟩ := Action.bind_lift_ok.mp h
      obtain ⟨total', _, h⟩ := Action.bind_lift_ok.mp h
      have hnonneg := routeShare_nonneg hy (hl _ List.mem_cons_self) hv
      dsimp only at h
      split at h
      · obtain ⟨_, d₁, h1, h⟩ := Action.bind_ok.mp h
        obtain ⟨_, d₂, h2, h⟩ := Action.bind_ok.mp h
        have hgiven := (flow_creditMuse _ converted).step h1
        have htaken := (flow_takeFromVestingFund converted y).step h2
        refine (hgiven.trans (htaken.trans (ih hl' h))).of_eq ?_ rfl ?_
        · show -converted.amount + (converted.amount + 0) = 0
          omega
        · show 0 + (-y + (deposited + y - out.1)) = deposited - out.1
          omega
      · obtain rfl : y = 0 := by omega
        refine (ih hl' h).of_eq rfl rfl ?_
        show deposited + 0 - out.1 = deposited - out.1
        omega

/-- The routes that are visited take between one and all of the parts. -/
theorem percents_withdrawRoutesOf {acc : Nat} {l : List (Nat × WithdrawVestingRoute)}
    (hs : Kept (fun _ => False) d.store)
    (h : (withdrawRoutesOf acc : Act n (List (Nat × WithdrawVestingRoute))).run d = .ok l d') :
    d' = d ∧ ∀ r ∈ l, 1 ≤ r.2.percent ∧ r.2.percent ≤ percent100 := by
  cases h
  refine ⟨rfl, fun r hr => ?_⟩
  have hrow := (List.mem_filter.mp ((List.mem_insertionSort _).mp hr)).1
  refine hs.sound.steady.routes r.1 r.2.percent ?_
  rw [get_routePercent]
  exact congrArg _ (FMap.mem_rows.mp hrow)

/-- **A withdrawal** pays in all what leaves the account and the fund. -/
theorem still_processVestingWithdrawal {acc : Nat} {u : Unit} (hs : Kept (fun _ => False) d.store)
    (h : (processVestingWithdrawal acc : Act n Unit).run d = .ok u d') : Still d.store d'.store := by
  obtain ⟨a, ha, h⟩ := bind_getAccount_ok.mp h
  obtain ⟨v, hdue, h⟩ := Action.bind_lift_ok.mp h
  obtain ⟨l, d₀, h0, h⟩ := Action.bind_ok.mp h
  obtain ⟨hsame, hl⟩ := percents_withdrawRoutesOf hs h0
  rw [hsame] at h
  obtain ⟨asVests, d₁, h1, h⟩ := Action.bind_ok.mp h
  obtain ⟨⟨asMuse, total⟩, d₂, h2, h⟩ := Action.bind_ok.mp h
  obtain ⟨rest, hrest, h⟩ := Action.bind_lift_ok.mp h
  obtain ⟨rfl, _⟩ := safe_ok.mp hrest
  obtain ⟨toConvert, hto, h⟩ := Action.bind_lift_ok.mp h
  obtain ⟨rfl, _⟩ := safe_ok.mp hto
  obtain ⟨_, h⟩ := Action.bind_require_ok.mp h
  obtain ⟨p, _, h⟩ := bind_getDgp_ok.mp h
  obtain ⟨converted, _, h⟩ := Action.bind_lift_ok.mp h
  obtain ⟨_, d₃, h3, h⟩ := Action.bind_ok.mp h
  obtain ⟨_, d₄, h4, h⟩ := Action.bind_ok.mp h
  -- the routes take at most all, of an amount in 64 bits
  have hown : (polls d.store).level acc 0 = a.vestingShares.amount :=
    congrFun (Polls.level_of_get (get_ballot_some ha)) 0
  have hv := withdrawalDue_range hdue (hown ▸ hs.range acc) (hs.rates acc a ha)
  have hvests := flow_depositVests hv hl h1
  have hmuse := flow_depositMuse hv hl h2
  have hpaid : Flow (-converted.amount) 0 v d₂.store d₃.store := by
    refine (flow_modifyAccount fun a x hx => ?_ : Steps (Flow (-converted.amount) 0 v) _).step h3
    obtain ⟨shares, hshares, hx⟩ := except_bind_ok.mp hx
    obtain ⟨balance, hbalance, hx⟩ := except_bind_ok.mp hx
    obtain ⟨withdrawn, _, hx⟩ := except_bind_ok.mp hx
    cases hx
    obtain ⟨rfl, _⟩ := safe_ok.mp hshares
    obtain ⟨_, rfl⟩ := Asset.add_ok hbalance
    exact ⟨(sub_neg_eq_add _ _).symm, (sub_zero _).symm, rfl⟩
  have htaken := (flow_takeFromVestingFund converted _).step h4
  have hlast : Still d₄.store d'.store := by
    split at h
    · obtain ⟨_, d₅, h5, h⟩ := Action.bind_ok.mp h
      have hvotes : Still d₄.store d₅.store := (steps_adjustProxiedWitnessVotes _ _).step h5
      have hscore : Still d₅.store d'.store := (steps_recursiveRecalculateScore _ _).step h
      exact trans_of Still hvotes hscore
    · cases h
      exact refl_of Still _
  refine (hvests.trans (hmuse.trans (hpaid.trans (htaken.trans hlast)))).of_eq ?_ rfl ?_
  · show 0 + (0 + (-converted.amount + (converted.amount + 0))) = 0
    omega
  · show 0 - asVests + (0 - asMuse + (v + (-(v - asMuse - asVests) + 0))) = 0
    omega

/-! ## 6. The payments of a block -/

/-- The steps that keep the polls sound and move no value. -/
def Sums (s t : Store chainSchema) : Prop :=
  Kept (fun _ => False) s → Still s t ∧ Kept (fun _ => False) t

instance : IsPreorder (Store chainSchema) Sums where
  refl s hs := ⟨refl_of Still s, hs⟩
  trans s t u h h' hs := by
    obtain ⟨hst, ht⟩ := h hs
    obtain ⟨htu, hu⟩ := h' ht
    exact ⟨trans_of Still hst htu, hu⟩

theorem sums_withdrawEach (fuel : Nat) (next : Option Nat) :
    Steps Sums (withdrawEach fuel next : Act n Unit) := by
  induction fuel generalizing next with
  | zero =>
    cases next with
    | none => exact (looks_pure ()).steps
    | some acc => exact steps_throw _
  | succ fuel ih =>
    cases next with
    | none => exact (looks_pure ()).steps
    | some acc =>
      refine ⟨fun {d u d'} hr => ?_⟩
      obtain ⟨p, _, hr⟩ := bind_headBlockTime_ok hr
      obtain ⟨a, _, hr⟩ := bind_getAccount_ok.mp hr
      split at hr
      · have hr := Action.bind_read_ok.mp hr
        obtain ⟨_, d₁, h1, hr⟩ := Action.bind_ok.mp hr
        have hone : Sums d.store d₁.store := fun hs =>
          ⟨still_processVestingWithdrawal hs h1, (kept_processVestingWithdrawal acc).step h1 hs⟩
        exact trans_of Sums hone ((ih _).step hr)
      · cases hr
        exact refl_of Sums _

theorem sums_processVestingWithdrawals :
    Steps Sums (processVestingWithdrawals : Act n Unit) := by
  unfold processVestingWithdrawals
  refine looks_headBlockTime.steps_bind fun now => ?_
  refine (looks_withdrawalAfter _).steps_bind fun first => ?_
  exact (looks_read _).steps_bind fun accounts => sums_withdrawEach _ _

/-- **The payments of a block**: what the rewards add is what is paid and what is taken back. -/
theorem still_payBlock {u : Unit} (hs : Kept (fun _ => False) d.store)
    (h : (payBlock : Act n Unit).run d = .ok u d') : Still d.store d'.store := by
  obtain ⟨contentReward, d₀, h0, hrun⟩ := Action.bind_ok.mp h
  obtain rfl := looks_getContentReward.of_ok h0
  obtain ⟨pay, d₁, h1, hrun⟩ := Action.bind_ok.mp hrun
  have hproduced := flow_getProducerReward h1
  have hs₁ : Kept (fun _ => False) d₁.store := deposits_kept.getProducerReward.step h1 hs
  have hrest : ∀ {vestingReward : Asset} {e : Database chainSchema}, e.store = d₁.store → (do
      processFunds contentReward pay vestingReward
      processConversions
      let paid ← processContentCashout contentReward
      adjustFunds contentReward paid
      processVestingWithdrawals : Act n Unit).run e = .ok u d' →
      Flow pay.amount 0 0 d₁.store d'.store := by
    intro vestingReward e he h
    rw [← he] at hs₁ ⊢
    obtain ⟨_, d₂, h2, h⟩ := Action.bind_ok.mp h
    obtain ⟨_, d₃, h3, h⟩ := Action.bind_ok.mp h
    obtain ⟨paid, d₄, h4, h⟩ := Action.bind_ok.mp h
    obtain ⟨_, d₅, h5, h6⟩ := Action.bind_ok.mp h
    have hs₂ := (kept_beside (x := processFunds contentReward pay vestingReward)
      (by simp +decide)).step h2 hs₁
    have hs₃ := (kept_beside (by simp +decide)).step h3 hs₂
    have hs₄ := (deposits_kept.processContentCashout _).step h4 hs₃
    have hs₅ := (kept_beside (by simp +decide)).step h5 hs₄
    have hfunds := (flow_processFunds contentReward pay vestingReward).step h2
    have hconverted := still_processConversions h3
    have hcashout := flow_processContentCashout h4
    have hadjusted := (flow_adjustFunds contentReward paid).step h5
    obtain ⟨hwithdrawn, _⟩ := sums_processVestingWithdrawals.step h6 hs₅
    refine (hfunds.trans (hconverted.trans (hcashout.trans (hadjusted.trans hwithdrawn)))).of_eq
      ?_ rfl rfl
    show contentReward.amount + pay.amount +
      (0 + (-paid.amount + (paid.amount - contentReward.amount + 0))) = pay.amount
    omega
  obtain ⟨num, d₂, h2, hrun⟩ := Action.bind_ok.mp hrun
  have hlook : d₂.store = d₁.store := congrArg Database.store (looks_headBlockNum.of_ok h2)
  have hpaid : Flow pay.amount 0 0 d₁.store d'.store := by
    dsimp only at hrun
    split at hrun
    · exact hrest hlook hrun
    · obtain ⟨vestingReward, d₃, h3, hrun⟩ := Action.bind_ok.mp hrun
      exact hrest ((congrArg Database.store (looks_getVestingReward.of_ok h3)).trans hlook) hrun
  exact (hproduced.trans hpaid).of_eq (neg_add_cancel _) rfl rfl

end

end MuseChain
