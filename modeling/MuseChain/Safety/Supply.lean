/-
  File:      MuseChain/Safety/Supply.lean
  Subject:   The supply counters against what is held: the sums of validate_invariants.

  * `museGap`, `mbdGap`, `vestsGap`: counter minus what is held. All three are zero when the
    counters are right.
  * `Flow m b v`: a step that moves the three gaps by `m`, `b` and `v`. Flows add up, and whatever
    moves no value is a flow of zero.
  * `supply_tied_iff`: issuing and burning an asset keeps the gaps at zero exactly when it is not
    MUSE or MBD, or nothing is issued.
-/
import MuseChain.Db.Weights
import MuseChain.Safety.Frames
import MuseChain.Chain.Genesis

namespace MuseChain

variable {n : Nat}

/-! ## 1. What is held -/

def Asset.inMuse (a : Asset) : Int := if a.assetId = museSymbol then a.amount else 0

def Asset.inMbd (a : Asset) : Int := if a.assetId = mbdSymbol then a.amount else 0

/-- The MUSE that an object holds. -/
def museWeight : Weight chainSchema
  | .account => fun a : Account => a.balance.amount
  | .limitOrder => fun o : LimitOrder => o.amountForSale.inMuse
  | .convertRequest => fun r : ConvertRequest => r.amount.inMuse
  | .balance => fun b : Balance => b.balance.amount
  | .content => fun c : Content =>
      c.accumulatedBalanceMaster.amount + c.accumulatedBalanceComp.amount
  | _ => fun _ => 0

/-- The MBD that an object holds. -/
def mbdWeight : Weight chainSchema
  | .account => fun a : Account => a.mbdBalance.amount
  | .limitOrder => fun o : LimitOrder => o.amountForSale.inMbd
  | .convertRequest => fun r : ConvertRequest => r.amount.inMbd
  | _ => fun _ => 0

/-- The vesting shares that an object holds. -/
def vestsWeight : Weight chainSchema
  | .account => fun a : Account => a.vestingShares.amount
  | _ => fun _ => 0

/-- What the counters say there is outside of the vesting fund. -/
def DynamicGlobalProperty.museCount (p : DynamicGlobalProperty) : Int :=
  p.currentSupply.amount + p.supplyDelta.amount - p.totalVestingFundMuse.amount

def museGap (s : Store chainSchema) : Int := s.props.museCount - s.weight museWeight

def mbdGap (s : Store chainSchema) : Int := s.props.currentMbdSupply.amount - s.weight mbdWeight

def vestsGap (s : Store chainSchema) : Int :=
  s.props.totalVestingShares.amount - s.weight vestsWeight

/-! ## 2. Flows -/

/-- The three gaps have moved by these amounts. -/
structure Flow (m b v : Int) (s t : Store chainSchema) : Prop where
  muse : museGap t = museGap s + m
  mbd : mbdGap t = mbdGap s + b
  vests : vestsGap t = vestsGap s + v

theorem Flow.trans {m b v m' b' v' : Int} {s t u : Store chainSchema} (h : Flow m b v s t)
    (h' : Flow m' b' v' t u) : Flow (m + m') (b + b') (v + v') s u := by
  refine ⟨?_, ?_, ?_⟩
  · rw [h'.muse, h.muse]
    omega
  · rw [h'.mbd, h.mbd]
    omega
  · rw [h'.vests, h.vests]
    omega

/-- No value comes or goes. -/
def Still : Store chainSchema → Store chainSchema → Prop := Flow 0 0 0

theorem flow_congr {s t : Store chainSchema} (hp : s.props.ledger = t.props.ledger)
    (hm : s.weight museWeight = t.weight museWeight) (hb : s.weight mbdWeight = t.weight mbdWeight)
    (hv : s.weight vestsWeight = t.weight vestsWeight) : Still s t := by
  have e1 : s.props.currentSupply = t.props.currentSupply := congrArg Ledger.currentSupply hp
  have e2 : s.props.supplyDelta = t.props.supplyDelta := congrArg Ledger.supplyDelta hp
  have e3 : s.props.totalVestingFundMuse = t.props.totalVestingFundMuse :=
    congrArg Ledger.totalVestingFundMuse hp
  have e4 : s.props.currentMbdSupply = t.props.currentMbdSupply :=
    congrArg Ledger.currentMbdSupply hp
  have e5 : s.props.totalVestingShares = t.props.totalVestingShares :=
    congrArg Ledger.totalVestingShares hp
  refine ⟨?_, ?_, ?_⟩
  · simp only [museGap, DynamicGlobalProperty.museCount, e1, e2, e3, hm]
    omega
  · simp only [mbdGap, e4, hb]
    omega
  · simp only [vestsGap, e5, hv]
    omega

/-- An account that is kept holds what it held, and a new one nothing. -/
theorem part_of_holdings {f : Holdings → Int} (hf : ∀ h : Holdings, h.Empty → f h = 0)
    {o p : Option Account} (h : Keep Account.holdings Holdings.Empty o p) :
    FMap.part (fun a : Account => f a.holdings) o = FMap.part (fun a : Account => f a.holdings) p := by
  cases o with
  | none =>
    cases p with
    | none => rfl
    | some b => exact (hf b.holdings h).symm
  | some a =>
    cases p with
    | none => exact h.elim
    | some b => exact congrArg f h

theorem part_of_accumulated {o p : Option Content}
    (h : Keep Content.accumulated (· = (Asset.muse 0, Asset.muse 0)) o p) :
    FMap.part (museWeight Kind.content) o = FMap.part (museWeight Kind.content) p := by
  cases o with
  | none =>
    cases p with
    | none => rfl
    | some b =>
      have hb : b.accumulated = (Asset.muse 0, Asset.muse 0) := h
      have e1 : b.accumulatedBalanceMaster = Asset.muse 0 := congrArg Prod.fst hb
      have e2 : b.accumulatedBalanceComp = Asset.muse 0 := congrArg Prod.snd hb
      show (0 : Int) = b.accumulatedBalanceMaster.amount + b.accumulatedBalanceComp.amount
      rw [e1, e2]
      rfl
  | some a =>
    cases p with
    | none => exact h.elim
    | some b =>
      have hb : a.accumulated = b.accumulated := h
      have e1 : a.accumulatedBalanceMaster = b.accumulatedBalanceMaster := congrArg Prod.fst hb
      have e2 : a.accumulatedBalanceComp = b.accumulatedBalanceComp := congrArg Prod.snd hb
      show a.accumulatedBalanceMaster.amount + a.accumulatedBalanceComp.amount =
        b.accumulatedBalanceMaster.amount + b.accumulatedBalanceComp.amount
      rw [e1, e2]

theorem props_of_keep {s t : Store chainSchema}
    (h : Keep DynamicGlobalProperty.ledger (fun _ => False) (s.get Kind.dynamicGlobalProperty 0)
      (t.get Kind.dynamicGlobalProperty 0)) : s.props.ledger = t.props.ledger := by
  unfold Store.props
  generalize s.get Kind.dynamicGlobalProperty 0 = o at h
  generalize t.get Kind.dynamicGlobalProperty 0 = p at h
  cases o with
  | none =>
    cases p with
    | none => rfl
    | some b => exact h.elim
  | some a =>
    cases p with
    | none => exact h.elim
    | some b => exact h

theorem part_zero {α : Type} (o : Option α) : FMap.part (fun _ => 0) o = 0 := by
  cases o with
  | none => rfl
  | some a => rfl

/-- Every object holds what it held. -/
def valued : Law chainSchema where
  rel
    | .dynamicGlobalProperty => Keep DynamicGlobalProperty.ledger fun _ => False
    | k => fun o p => FMap.part (museWeight k) o = FMap.part (museWeight k) p ∧
        FMap.part (mbdWeight k) o = FMap.part (mbdWeight k) p ∧
        FMap.part (vestsWeight k) o = FMap.part (vestsWeight k) p
  refl k o := by
    cases k with
    | dynamicGlobalProperty => exact Keep.refl o
    | _ => exact ⟨rfl, rfl, rfl⟩
  trans k o p q h h' := by
    cases k with
    | dynamicGlobalProperty => exact Keep.trans h h'
    | _ => exact ⟨h.1.trans h'.1, h.2.1.trans h'.2.1, h.2.2.trans h'.2.2⟩

/-- **Objects that hold what they held leave the gaps.** -/
theorem still_of_valued {s t : Store chainSchema} (h : Obeys valued s t) : Still s t := by
  have hparts : ∀ (k : Kind) i, k ≠ .dynamicGlobalProperty →
      FMap.part (museWeight k) (s.get k i) = FMap.part (museWeight k) (t.get k i) ∧
      FMap.part (mbdWeight k) (s.get k i) = FMap.part (mbdWeight k) (t.get k i) ∧
      FMap.part (vestsWeight k) (s.get k i) = FMap.part (vestsWeight k) (t.get k i) := by
    intro k i hk
    have hki := h k i
    cases k with
    | dynamicGlobalProperty => exact absurd rfl hk
    | _ => exact hki
  refine flow_congr (props_of_keep (h Kind.dynamicGlobalProperty 0)) ?_ ?_ ?_
  · refine Store.weight_congr fun k i => ?_
    by_cases hk : k = Kind.dynamicGlobalProperty
    · subst hk
      exact (part_zero _).trans (part_zero _).symm
    · exact (hparts k i hk).1
  · refine Store.weight_congr fun k i => ?_
    by_cases hk : k = Kind.dynamicGlobalProperty
    · subst hk
      exact (part_zero _).trans (part_zero _).symm
    · exact (hparts k i hk).2.1
  · refine Store.weight_congr fun k i => ?_
    by_cases hk : k = Kind.dynamicGlobalProperty
    · subst hk
      exact (part_zero _).trans (part_zero _).symm
    · exact (hparts k i hk).2.2

theorem valued_of_inert {k : Kind} {o p : Option k.Object} (h : inert.rel k o p) :
    valued.rel k o p := by
  cases k with
  | account =>
    refine ⟨part_of_holdings (f := fun x => x.balance.amount) (fun x hx => ?_) h,
      part_of_holdings (f := fun x => x.mbdBalance.amount) (fun x hx => ?_) h,
      part_of_holdings (f := fun x => x.vestingShares.amount) (fun x hx => ?_) h⟩
    · rw [hx.1]
      rfl
    · rw [hx.2.1]
      rfl
    · rw [hx.2.2]
      rfl
  | content =>
    exact ⟨part_of_accumulated h, (part_zero _).trans (part_zero _).symm,
      (part_zero _).trans (part_zero _).symm⟩
  | limitOrder | convertRequest | balance =>
    exact ⟨congrArg _ h, congrArg _ h, congrArg _ h⟩
  | dynamicGlobalProperty => exact h
  | _ =>
    exact ⟨(part_zero _).trans (part_zero _).symm, (part_zero _).trans (part_zero _).symm,
      (part_zero _).trans (part_zero _).symm⟩

theorem still_of_inert {s t : Store chainSchema} (h : Obeys inert s t) : Still s t :=
  still_of_valued (h.mono fun _ _ _ => valued_of_inert)

theorem Steps.valued {α : Type} {x : Act n α} (h : Steps (Obeys MuseChain.valued) x) :
    Steps Still x := h.mono fun _ _ => still_of_valued

instance : Inert Still where
  refl _ := ⟨(add_zero _).symm, (add_zero _).symm, (add_zero _).symm⟩
  trans _ _ _ h h' := h.trans h'
  of_aside h := still_of_inert (h.mono fun _ _ _ => inert_of_aside)
  of_inert := still_of_inert

/-! ## 3. Single writes -/

theorem Store.props_put {s : Store chainSchema} {k : Kind} (hk : k ≠ Kind.dynamicGlobalProperty)
    {i : Nat} {o : Option k.Object} {hf : ∀ a, o = some a → s.free k i a = true} :
    (s.put k i o hf).props = s.props := by
  unfold Store.props
  rw [Store.get_put_ne _ hk.symm]

/-- What an object holds that is not the global one. -/
theorem flow_put {s : Store chainSchema} {k : Kind} (hk : k ≠ Kind.dynamicGlobalProperty) (i : Nat)
    (o : Option k.Object) (hf : ∀ a, o = some a → s.free k i a = true) :
    Flow (FMap.part (museWeight k) (s.get k i) - FMap.part (museWeight k) o)
      (FMap.part (mbdWeight k) (s.get k i) - FMap.part (mbdWeight k) o)
      (FMap.part (vestsWeight k) (s.get k i) - FMap.part (vestsWeight k) o) s
      (s.put k i o hf) := by
  refine ⟨?_, ?_, ?_⟩
  · rw [museGap, Store.props_put hk, Store.weight_put, museGap]
    omega
  · rw [mbdGap, Store.props_put hk, Store.weight_put, mbdGap]
    omega
  · rw [vestsGap, Store.props_put hk, Store.weight_put, vestsGap]
    omega

theorem flow_write {s : Store chainSchema} {k : Kind} (hk : k ≠ Kind.dynamicGlobalProperty)
    {i : Nat} {a b : k.Object} (hg : s.get k i = some a) (hf : s.free k i b = true) :
    Flow (museWeight k a - museWeight k b) (mbdWeight k a - mbdWeight k b)
      (vestsWeight k a - vestsWeight k b) s (s.write k i b hf) := by
  have h := flow_put hk i (some b) fun c hc => by cases hc; exact hf
  rw [hg] at h
  exact h

theorem Store.props_write {s : Store chainSchema} {p : DynamicGlobalProperty}
    (hf : s.free Kind.dynamicGlobalProperty 0 p = true) :
    (s.write Kind.dynamicGlobalProperty 0 p hf).props = p :=
  Store.props_of_get (by rw [Store.get_write_self, if_pos rfl])

/-- The counters of the global object. -/
theorem flow_props {s : Store chainSchema} {p q : DynamicGlobalProperty}
    (hg : s.get Kind.dynamicGlobalProperty 0 = some p)
    (hf : s.free Kind.dynamicGlobalProperty 0 q = true) :
    Flow (q.museCount - p.museCount) (q.currentMbdSupply.amount - p.currentMbdSupply.amount)
      (q.totalVestingShares.amount - p.totalVestingShares.amount) s
      (s.write Kind.dynamicGlobalProperty 0 q hf) := by
  have hp : s.props = p := Store.props_of_get hg
  have hq : (s.write Kind.dynamicGlobalProperty 0 q hf).props = q := Store.props_write hf
  have hw : ∀ w : Weight chainSchema, (∀ x, w Kind.dynamicGlobalProperty x = 0) →
      (s.write Kind.dynamicGlobalProperty 0 q hf).weight w = s.weight w := by
    intro w hz
    rw [Store.weight_write w s _ _ hg, hz, hz]
    omega
  refine ⟨?_, ?_, ?_⟩
  · rw [museGap, museGap, hp, hq, hw museWeight fun _ => rfl]
    omega
  · rw [mbdGap, mbdGap, hp, hq, hw mbdWeight fun _ => rfl]
    omega
  · rw [vestsGap, vestsGap, hp, hq, hw vestsWeight fun _ => rfl]
    omega

theorem Flow.of_eq {m b v m' b' v' : Int} {s t : Store chainSchema} (h : Flow m b v s t)
    (hm : m = m') (hb : b = b') (hv : v = v') : Flow m' b' v' s t := by
  subst hm hb hv
  exact h

/-! ## 4. Balances -/

section

variable {α β : Type} {m b v m' b' v' : Int}

theorem Steps.flow {x : Act n α} {f : α → Act n β} (hx : Steps (Flow m b v) x)
    (hf : ∀ a, Steps (Flow m' b' v') (f a)) :
    Steps (Flow (m + m') (b + b') (v + v')) (x >>= f) :=
  hx.comp hf fun _ _ _ => Flow.trans

/-- A program that first moves no value. -/
theorem Steps.still_bind {x : Act n α} {f : α → Act n β} (hx : Steps Still x)
    (hf : ∀ a, Steps (Flow m b v) (f a)) : Steps (Flow m b v) (x >>= f) :=
  hx.comp hf fun _ _ _ h h' => (h.trans h').of_eq (zero_add _) (zero_add _) (zero_add _)

/-- A program that last moves no value. -/
theorem Steps.bind_still {x : Act n α} {f : α → Act n β} (hx : Steps (Flow m b v) x)
    (hf : ∀ a, Steps Still (f a)) : Steps (Flow m b v) (x >>= f) :=
  hx.comp hf fun _ _ _ h h' => (h.trans h').of_eq (add_zero _) (add_zero _) (add_zero _)

end

theorem flow_modifyDgp {α : Type} {f : DynamicGlobalProperty → Except Exn α}
    {upd : DynamicGlobalProperty → α → DynamicGlobalProperty} {m b v : Int}
    (h : ∀ p x, f p = .ok x → (upd p x).museCount = p.museCount + m ∧
      (upd p x).currentMbdSupply.amount = p.currentMbdSupply.amount + b ∧
      (upd p x).totalVestingShares.amount = p.totalVestingShares.amount + v) :
    Steps (Flow m b v) (modifyDgp f upd : Act n Unit) := by
  refine ⟨fun {d u d'} hr => ?_⟩
  obtain ⟨p, x, hg, hx, hf, e⟩ := modifyWith_store hr
  obtain ⟨hm, hb, hv⟩ := h p x hx
  rw [e]
  refine (flow_props hg hf).of_eq ?_ ?_ ?_
  · rw [hm]
    omega
  · rw [hb]
    omega
  · rw [hv]
    omega

theorem flow_modifyAccount {α : Type} {acc : Nat} {f : Account → Except Exn α}
    {upd : Account → α → Account} {hkey : ∀ a x, chainSchema.SameKey Kind.account a (upd a x)}
    {m b v : Int}
    (h : ∀ a x, f a = .ok x → (upd a x).balance.amount = a.balance.amount - m ∧
      (upd a x).mbdBalance.amount = a.mbdBalance.amount - b ∧
      (upd a x).vestingShares.amount = a.vestingShares.amount - v) :
    Steps (Flow m b v)
      (Action.modifyWith (S := chainSchema) Kind.account acc f upd hkey : Act n Unit) := by
  refine ⟨fun {d u d'} hr => ?_⟩
  obtain ⟨a, x, hg, hx, hf, e⟩ := modifyWith_store hr
  obtain ⟨hm, hb, hv⟩ := h a x hx
  rw [e]
  refine (flow_write (by decide) hg hf).of_eq ?_ ?_ ?_
  · show a.balance.amount - (upd a x).balance.amount = m
    omega
  · show a.mbdBalance.amount - (upd a x).mbdBalance.amount = b
    omega
  · show a.vestingShares.amount - (upd a x).vestingShares.amount = v
    omega

theorem flow_adjustMuseBalance (acc : Nat) (delta : Asset) :
    Steps (Flow (-delta.amount) 0 0) (adjustMuseBalance acc delta : Act n Unit) := by
  refine flow_modifyAccount fun a x hx => ?_
  obtain ⟨rfl, _⟩ := safe_ok.mp hx
  refine ⟨?_, ?_, ?_⟩
  · show a.balance.amount + delta.amount = a.balance.amount - -delta.amount
    omega
  · exact (sub_zero _).symm
  · exact (sub_zero _).symm

/-- Interest is new MBD, in the counter as in the account. -/
theorem flow_mintInterest (interest : Int) :
    Steps (Flow 0 interest 0) (mintInterest (Asset.mbd interest) : Act n Unit) := by
  unfold mintInterest
  refine Steps.still_bind (by simp) fun feed => flow_modifyDgp fun p x hx => ?_
  obtain ⟨supply, hs, hx⟩ := except_bind_ok.mp hx
  obtain ⟨worth, _, hx⟩ := except_bind_ok.mp hx
  obtain ⟨virt, _, hx⟩ := except_bind_ok.mp hx
  cases hx
  obtain ⟨_, rfl⟩ := Asset.add_ok hs
  exact ⟨(add_zero _).symm, rfl, (add_zero _).symm⟩

theorem mintInterest_accounts (interest : Asset) (acc : Nat) :
    Steps (fun s t => s.get Kind.account acc = t.get Kind.account acc)
      (mintInterest interest : Act n Unit) := by
  refine ⟨fun {d u d'} h => ?_⟩
  obtain ⟨feed, _, h⟩ := bind_getFeedHistory_ok.mp h
  obtain ⟨p, x, _, _, hf, e⟩ := modifyWith_store h
  rw [e, Store.get_write_ne _ (by decide)]

/-- MBD comes with the interest that is due, which the counter gets too. -/
theorem flow_adjustMbdBalance (acc : Nat) (delta : Asset) :
    Steps (Flow 0 (-delta.amount) 0) (adjustMbdBalance acc delta : Act n Unit) := by
  refine ⟨fun {d u d'} h => ?_⟩
  obtain ⟨a, x, d₀, d₁, a', hg, e0, hbody, hg', hf, e⟩ := modifyNested_store h
  -- the callback pays the interest and computes the balance
  obtain ⟨interest, hflow, hacc, hx⟩ : ∃ interest, Flow 0 interest 0 d₀.store d₁.store ∧
      d₀.store.get Kind.account acc = d₁.store.get Kind.account acc ∧
      x.1.amount = a.mbdBalance.amount + interest + delta.amount := by
    obtain ⟨p, _, hbody⟩ := bind_headBlockTime_ok hbody
    split at hbody
    · obtain ⟨props, _, hbody⟩ := bind_getDgp_ok.mp hbody
      obtain ⟨interest, _, hbody⟩ := Action.bind_lift_ok.mp hbody
      obtain ⟨withInterest, hw, hbody⟩ := Action.bind_lift_ok.mp hbody
      obtain ⟨_, d₂, hmint, hbody⟩ := Action.bind_ok.mp hbody
      obtain ⟨balance, hbal, hbody⟩ := Action.bind_lift_ok.mp hbody
      cases hbody
      obtain ⟨_, rfl⟩ := Asset.add_ok hw
      obtain ⟨_, rfl⟩ := Asset.add_ok hbal
      exact ⟨interest, (flow_mintInterest interest).step hmint,
        (mintInterest_accounts _ acc).step hmint, rfl⟩
    · obtain ⟨balance, hbal, hbody⟩ := Action.bind_lift_ok.mp hbody
      obtain ⟨_, rfl⟩ := Asset.add_ok hbal
      have hnone : Still d₀.store d₀.store := refl_of Still _
      split at hbody
      · cases hbody
        exact ⟨0, hnone, rfl, by simp⟩
      · cases hbody
        exact ⟨0, hnone, rfl, by simp⟩
  rw [e0] at hflow hacc
  rw [← hacc, hg] at hg'
  cases hg'
  rw [e]
  refine (hflow.trans (flow_write (by decide) (hacc ▸ hg) hf)).of_eq ?_ ?_ ?_
  · show 0 + (a.balance.amount - a.balance.amount) = 0
    omega
  · show interest + (a.mbdBalance.amount - x.1.amount) = -delta.amount
    omega
  · show 0 + (a.vestingShares.amount - a.vestingShares.amount) = 0
    omega

/-- Other assets are in no sum. -/
theorem flow_adjustAssetBalance (acc : Nat) (delta : Asset) :
    Steps Still (adjustAssetBalance acc delta : Act n Unit) := by
  refine steps_ite (by simp) fun _ => steps_bind (by simp) fun r => ?_
  rcases r with _ | ⟨i, b⟩
  · exact steps_bind (by simp) fun _ =>
      steps_bind (Steps.valued (steps_create ⟨rfl, rfl, rfl⟩)) fun _ => by simp
  · have hw : Steps Still (Action.modifyWith (S := chainSchema) Kind.accountBalance i
        (fun b : AccountBalance => safe (b.balance + delta.amount))
        fun (b : AccountBalance) x => { b with balance := x } : Act n Unit) :=
      Steps.valued (steps_modifyWith fun _ _ => ⟨rfl, rfl, rfl⟩)
    refine steps_ite (fun _ => ?_) fun _ => hw
    exact steps_bind (by simp) fun _ => steps_bind (by simp) fun _ => hw

/-- **A change of a balance moves the gap of its asset.** -/
theorem flow_adjustBalance (acc : Nat) (delta : Asset) :
    Steps (Flow (-delta.inMuse) (-delta.inMbd) 0) (adjustBalance acc delta : Act n Unit) := by
  unfold adjustBalance Asset.inMuse Asset.inMbd
  refine steps_ite (fun hm => ?_) fun hm => steps_ite (fun hb => ?_) fun hb => ?_
  · rw [if_pos hm, if_neg (by rw [hm]; decide)]
    exact flow_adjustMuseBalance acc delta
  · rw [if_neg hm, if_pos hb]
    exact flow_adjustMbdBalance acc delta
  · rw [if_neg hm, if_neg hb]
    exact flow_adjustAssetBalance acc delta

/-! ## 5. Issuing and burning -/

/-- What an operation issues; burning issues a negative amount. -/
def Operation.issued : Operation → Option Asset
  | .assetIssue _ assetToIssue _ => some assetToIssue
  | .assetReserve _ _ amountToReserve => some ⟨-amountToReserve.amount, amountToReserve.assetId⟩
  | _ => none

theorem flow_changeAssetSupply (i : Nat) (delta : Int) :
    Steps Still (changeAssetSupply i delta : Act n Unit) :=
  Steps.valued (steps_modifyWith fun _ _ => ⟨rfl, rfl, rfl⟩)

theorem flow_assetIssue (issuer : String) (a : Asset) (receiver : String) :
    Steps (Flow (-a.inMuse) (-a.inMbd) 0) (assetIssue issuer a receiver : Act n Unit) := by
  unfold assetIssue
  refine Steps.still_bind (looks_getAssetById _).steps fun _ => Steps.still_bind (by simp) fun _ =>
    Steps.still_bind (by simp) fun _ => Steps.still_bind (by simp) fun acc =>
    Steps.still_bind (by simp) fun _ => Steps.still_bind (by simp) fun _ => ?_
  exact (flow_adjustBalance acc a).bind_still fun _ => flow_changeAssetSupply _ _

theorem flow_assetReserve (payer : String) (a : Asset) :
    Steps (Flow (-(⟨-a.amount, a.assetId⟩ : Asset).inMuse) (-(⟨-a.amount, a.assetId⟩ : Asset).inMbd)
      0) (assetReserve payer a : Act n Unit) := by
  refine ⟨fun {d u d'} h => ?_⟩
  have hrest : ∀ acc neg, a.neg = .ok neg → Steps (Flow (-(⟨-a.amount, a.assetId⟩ : Asset).inMuse)
      (-(⟨-a.amount, a.assetId⟩ : Asset).inMbd) 0) (do
        adjustBalance acc neg
        changeAssetSupply a.assetId (-a.amount) : Act n Unit) := by
    intro acc neg hneg
    obtain rfl := Asset.neg_ok hneg
    exact (flow_adjustBalance acc _).bind_still fun _ => flow_changeAssetSupply _ _
  obtain ⟨_, d₁, h1, h⟩ := Action.bind_ok.mp h
  obtain ⟨acc, d₂, h2, h⟩ := Action.bind_ok.mp h
  obtain ⟨neg, hneg, h⟩ := Action.bind_lift_ok.mp h
  have hs1 : Still d.store d₁.store := (looks_getAssetById _).steps.step h1
  have hs2 : Still d₁.store d₂.store := (looks_getAccountId _).steps.step h2
  have hs : Still d.store d₂.store := trans_of Still hs1 hs2
  exact (hs.trans ((hrest acc neg hneg).step h)).of_eq (zero_add _) (zero_add _) (zero_add _)

theorem flow_issued [Fc] (clock n : Nat) {op : Operation} {a : Asset} (h : op.issued = some a) :
    Steps (Flow (-a.inMuse) (-a.inMbd) 0) (applyOperation clock n op) := by
  cases op with
  | assetIssue issuer assetToIssue receiver =>
    cases h
    exact flow_assetIssue issuer _ receiver
  | assetReserve issuer payer amountToReserve =>
    cases h
    exact flow_assetReserve payer amountToReserve
  | _ => cases h

/-- **Issue and burn keep the supply tied to what is held exactly when the asset is not one of the
chain's own, or nothing is issued.** -/
theorem supply_tied_iff [Fc] (clock n : Nat) (op : Operation) (a : Asset)
    (d d' : Database chainSchema) (hop : op.issued = some a)
    (h : (applyOperation clock n op).run d = .ok () d') (hm : museGap d.store = 0)
    (hb : mbdGap d.store = 0) :
    (museGap d'.store = 0 ∧ mbdGap d'.store = 0) ↔
      (a.assetId ≠ museSymbol ∧ a.assetId ≠ mbdSymbol) ∨ a.amount = 0 := by
  have hf := (flow_issued clock n hop).step h
  rw [hf.muse, hf.mbd, hm, hb]
  unfold Asset.inMuse Asset.inMbd
  have hne : museSymbol ≠ mbdSymbol := by decide
  by_cases h1 : a.assetId = museSymbol
  · rw [if_pos h1, if_neg (by rw [h1]; exact hne)]
    constructor
    · intro hz
      exact .inr (by omega)
    · rintro (hz | hz)
      · exact absurd h1 hz.1
      · omega
  · by_cases h2 : a.assetId = mbdSymbol
    · rw [if_neg h1, if_pos h2]
      constructor
      · intro hz
        exact .inr (by omega)
      · rintro (hz | hz)
        · exact absurd h2 hz.2
        · omega
    · rw [if_neg h1, if_neg h2]
      exact iff_of_true ⟨rfl, rfl⟩ (.inl ⟨h1, h2⟩)

/-- The sums over the indexes that hold something; the others have many rows. -/
theorem museGap_eq (s : Store chainSchema) : museGap s = s.props.museCount -
    ((s.table Kind.account).map.sum (museWeight .account) +
      (s.table Kind.convertRequest).map.sum (museWeight .convertRequest) +
      (s.table Kind.limitOrder).map.sum (museWeight .limitOrder) +
      (s.table Kind.content).map.sum (museWeight .content) +
      (s.table Kind.balance).map.sum (museWeight .balance)) := by
  unfold museGap Store.weight
  simp only [chainSchema, Kind.all, List.map_cons, List.map_nil, List.sum_cons, List.sum_nil]
  simp only [museWeight, FMap.sum_zero]
  ring

theorem mbdGap_eq (s : Store chainSchema) : mbdGap s = s.props.currentMbdSupply.amount -
    ((s.table Kind.account).map.sum (mbdWeight .account) +
      (s.table Kind.convertRequest).map.sum (mbdWeight .convertRequest) +
      (s.table Kind.limitOrder).map.sum (mbdWeight .limitOrder)) := by
  unfold mbdGap Store.weight
  simp only [chainSchema, Kind.all, List.map_cons, List.map_nil, List.sum_cons, List.sum_nil]
  simp only [mbdWeight, FMap.sum_zero]
  ring

section

attribute [local instance] sampleFc

def sampleAssetCreate : Operation :=
  .assetCreate { issuer := initMinerName, symbol := "TOKEN", precision := 6, commonOptions := {} }

/-- A user's asset, issued right after it was created. -/
theorem supply_tied_iff_token : ∃ d' : Database chainSchema,
    (applyOperation 0 0 (.assetIssue initMinerName ⟨5, 3⟩ initMinerName)).run
      ((applyOperation 0 0 sampleAssetCreate).run (Node.genesis sampleGenesis).db).db = .ok () d' ∧
    ((museGap d'.store = 0 ∧ mbdGap d'.store = 0) ↔
      ((3 : Nat) ≠ museSymbol ∧ (3 : Nat) ≠ mbdSymbol) ∨ (5 : Int) = 0) := by
  have hok : ((applyOperation 0 0 (.assetIssue initMinerName ⟨5, 3⟩ initMinerName)).run
      ((applyOperation 0 0 sampleAssetCreate).run
        (Node.genesis sampleGenesis).db).db).isOk = true := by decide +kernel
  obtain ⟨_, hrun⟩ := Outcome.exists_of_isOk hok
  refine ⟨_, hrun, supply_tied_iff 0 0 _ ⟨5, 3⟩ _ _ rfl hrun ?_ ?_⟩
  · rw [museGap_eq]
    decide +kernel
  · rw [mbdGap_eq]
    decide +kernel

/-- The init miner burns MUSE; the counter stays. -/
theorem burnt_muse_stays_counted : ∃ (op : Operation) (d d' : Database chainSchema),
    op.issued.isSome = true ∧ op.validate = .ok () ∧ (applyOperation 0 0 op).run d = .ok () d' ∧
      museGap d.store = 0 ∧ museGap d'.store ≠ 0 := by
  have hok : ((applyOperation 0 0 (.assetReserve initMinerName initMinerName (Asset.muse 5))).run
      (Node.genesis sampleGenesis).db).isOk = true := by decide +kernel
  obtain ⟨_, hrun⟩ := Outcome.exists_of_isOk hok
  have hzero : museGap (Node.genesis sampleGenesis).db.store = 0 := by
    rw [museGap_eq]
    decide +kernel
  have hflow := (flow_issued 0 0 rfl).step hrun
  refine ⟨_, _, _, rfl, by decide +kernel, hrun, hzero, ?_⟩
  rw [hflow.muse, hzero]
  decide

end

end MuseChain
