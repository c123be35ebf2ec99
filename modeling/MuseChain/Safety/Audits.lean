/-
  File:      MuseChain/Safety/Audits.lean
  Subject:   validate_invariants: what it adds up is what the counters say.

  * `Store.auditTotals`: the loops of the audit, with the `fc::safe` additions of the source. The
    comparisons after them and the check of the votes of each witness are `validateInvariants`.
  * `auditAccounts_eq` .. `auditContents_eq`: each loop adds up what its index holds.
  * **`audit_totals`**: in every state attained the totals are those of the global object, as long as
    none of MUSE and MBD is issued or burnt and no failed attempt was spoilt.
  * `validateInvariants_iff`: there the audit fails only over the votes of a witness, the virtual
    supply or an overflow.
-/
import MuseChain.Safety.Conservation
import MuseChain.Safety.Deeds

namespace MuseChain

variable {n : Nat}

/-! ## 1. The audit -/

/-- What the loops of `validate_invariants` add up. -/
structure AuditTotals where
  totalSupply : Asset
  totalMbd : Asset
  totalVesting : Asset
  totalVsfVotes : Int
  deriving DecidableEq, Repr

/-- The loop over the accounts. -/
def auditAccounts : List (Nat × Account) → AuditTotals → Except Exn AuditTotals
  | [], t => .ok t
  | (_, a) :: rest, t => do
      let supply ← t.totalSupply.add a.balance
      let mbd ← t.totalMbd.add a.mbdBalance
      let vesting ← t.totalVesting.add a.vestingShares
      let v ← a.vsfVotes
      let votes ← safe (t.totalVsfVotes + v)
      auditAccounts rest ⟨supply, mbd, vesting, votes⟩

/-- The loop over the convert requests. -/
def auditConversions : List (Nat × ConvertRequest) → AuditTotals → Except Exn AuditTotals
  | [], t => .ok t
  | (_, r) :: rest, t =>
      if r.amount.assetId = museSymbol then do
        let supply ← t.totalSupply.add r.amount
        auditConversions rest { t with totalSupply := supply }
      else if r.amount.assetId = mbdSymbol then do
        let mbd ← t.totalMbd.add r.amount
        auditConversions rest { t with totalMbd := mbd }
      else .error (.assert "!\"Encountered illegal symbol in convert_request_object\"")

/-- The loop over the limit orders. -/
def auditOrders : List (Nat × LimitOrder) → AuditTotals → Except Exn AuditTotals
  | [], t => .ok t
  | (_, o) :: rest, t =>
      if o.sellPrice.base.assetId = museSymbol then do
        let supply ← t.totalSupply.add (Asset.muse o.forSale)
        auditOrders rest { t with totalSupply := supply }
      else if o.sellPrice.base.assetId = mbdSymbol then do
        let mbd ← t.totalMbd.add (Asset.mbd o.forSale)
        auditOrders rest { t with totalMbd := mbd }
      else auditOrders rest t

/-- The loop over the balances that are left to be claimed. -/
def auditBalances : List (Nat × Balance) → AuditTotals → Except Exn AuditTotals
  | [], t => .ok t
  | (_, b) :: rest, t => do
      let supply ← t.totalSupply.add b.balance
      auditBalances rest { t with totalSupply := supply }

/-- The loop over the contents. -/
def auditContents : List (Nat × Content) → AuditTotals → Except Exn AuditTotals
  | [], t => .ok t
  | (_, c) :: rest, t => do
      let supply ← t.totalSupply.add c.accumulatedBalanceMaster
      let supply ← supply.add c.accumulatedBalanceComp
      auditContents rest { t with totalSupply := supply }

/-- All that is added up, the accounts in the order of their names. -/
def Store.auditTotals (s : Store chainSchema) : Except Exn AuditTotals := do
  let accounts := (s.rows Kind.account).insertionSort fun a b : Nat × Account => a.2.name ≤ b.2.name
  let t ← auditAccounts accounts ⟨Asset.muse 0, Asset.mbd 0, Asset.vests 0, 0⟩
  let t ← auditConversions (s.rows Kind.convertRequest) t
  let t ← auditOrders (s.rows Kind.limitOrder) t
  let t ← auditBalances (s.rows Kind.balance) t
  let t ← auditContents (s.rows Kind.content) t
  let supply ← t.totalSupply.add s.props.totalVestingFundMuse
  pure { t with totalSupply := supply }

def validateInvariants : Act n Unit := do
  let hf2 ← hasHardfork hardfork02
  if hf2 then do
    let gpo ← getDynamicGlobalProperties
    let witnesses ← Action.read fun s => s.rows Kind.witness
    Action.forEach witnesses fun w =>
      Action.require (w.2.votes < gpo.totalVestingShares.amount)
        "itr->votes < gpo.total_vesting_shares.amount"
    let totals ← Action.read fun s => s.auditTotals
    let t ← Action.lift totals
    Action.require (gpo.currentSupply = t.totalSupply) "gpo.current_supply == total_supply"
    Action.require (gpo.currentMbdSupply = t.totalMbd) "gpo.current_mbd_supply == total_mbd"
    Action.require (gpo.totalVestingShares = t.totalVesting)
      "gpo.total_vesting_shares == total_vesting"
    Action.require (gpo.totalVestingShares.amount = t.totalVsfVotes)
      "gpo.total_vesting_shares.amount == total_vsf_votes"
    let ge ← Action.lift (gpo.virtualSupply.ge gpo.currentSupply)
    Action.require (ge = true) "gpo.virtual_supply >= gpo.current_supply"
    let feed ← getFeedHistory
    if feed.currentMedianHistory.isNull = false then do
      let worth ← Action.lift (gpo.currentMbdSupply.mul feed.currentMedianHistory)
      let sum ← Action.lift (worth.add gpo.currentSupply)
      Action.require (sum = gpo.virtualSupply)
        "gpo.current_mbd_supply * current_median_history + gpo.current_supply == gpo.virtual_supply"

/-! ## 2. What the loops add up -/

/-- The totals with more of each. -/
def AuditTotals.plus (t : AuditTotals) (muse mbd vests votes : Int) : AuditTotals where
  totalSupply := ⟨t.totalSupply.amount + muse, t.totalSupply.assetId⟩
  totalMbd := ⟨t.totalMbd.amount + mbd, t.totalMbd.assetId⟩
  totalVesting := ⟨t.totalVesting.amount + vests, t.totalVesting.assetId⟩
  totalVsfVotes := t.totalVsfVotes + votes

theorem AuditTotals.plus_zero (t : AuditTotals) : t.plus 0 0 0 0 = t := by
  simp only [AuditTotals.plus, add_zero]

section

variable {t u : AuditTotals}

theorem auditAccounts_eq {l : List (Nat × Account)} (h : auditAccounts l t = .ok u) :
    u = t.plus (l.map fun r => r.2.balance.amount).sum (l.map fun r => r.2.mbdBalance.amount).sum
      (l.map fun r => r.2.vestingShares.amount).sum (l.map fun r => r.2.vsfShare).sum := by
  induction l generalizing t with
  | nil =>
    cases h
    exact (AuditTotals.plus_zero _).symm
  | cons row l ih =>
    obtain ⟨i, a⟩ := row
    obtain ⟨supply, hsupply, h⟩ := except_bind_ok.mp h
    obtain ⟨mbd, hmbd, h⟩ := except_bind_ok.mp h
    obtain ⟨vesting, hvesting, h⟩ := except_bind_ok.mp h
    obtain ⟨v, hv, h⟩ := except_bind_ok.mp h
    obtain ⟨votes, hvotes, h⟩ := except_bind_ok.mp h
    obtain ⟨_, rfl⟩ := Asset.add_ok hsupply
    obtain ⟨_, rfl⟩ := Asset.add_ok hmbd
    obtain ⟨_, rfl⟩ := Asset.add_ok hvesting
    obtain ⟨rfl, _⟩ := safe_ok.mp hvotes
    rw [ih h, Account.vsfVotes_eq hv]
    simp only [AuditTotals.plus, List.map_cons, List.sum_cons, add_assoc]

theorem auditConversions_eq {l : List (Nat × ConvertRequest)} (h : auditConversions l t = .ok u) :
    u = t.plus (l.map fun r => r.2.amount.inMuse).sum (l.map fun r => r.2.amount.inMbd).sum 0 0 := by
  induction l generalizing t with
  | nil =>
    cases h
    exact (AuditTotals.plus_zero _).symm
  | cons row l ih =>
    obtain ⟨i, r⟩ := row
    unfold auditConversions at h
    rw [List.map_cons, List.map_cons, List.sum_cons, List.sum_cons, Asset.inMuse, Asset.inMbd]
    split at h
    · rename_i hm
      obtain ⟨supply, hsupply, h⟩ := except_bind_ok.mp h
      obtain ⟨_, rfl⟩ := Asset.add_ok hsupply
      rw [ih h, if_pos hm, if_neg (by rw [hm]; decide)]
      simp only [AuditTotals.plus, add_assoc, zero_add]
    · rename_i hm
      split at h
      · rename_i hb
        obtain ⟨mbd, hmbd, h⟩ := except_bind_ok.mp h
        obtain ⟨_, rfl⟩ := Asset.add_ok hmbd
        rw [ih h, if_neg hm, if_pos hb]
        simp only [AuditTotals.plus, add_assoc, zero_add]
      · cases h

theorem auditOrders_eq {l : List (Nat × LimitOrder)} (h : auditOrders l t = .ok u) :
    u = t.plus (l.map fun r => r.2.amountForSale.inMuse).sum
      (l.map fun r => r.2.amountForSale.inMbd).sum 0 0 := by
  induction l generalizing t with
  | nil =>
    cases h
    exact (AuditTotals.plus_zero _).symm
  | cons row l ih =>
    obtain ⟨i, o⟩ := row
    unfold auditOrders at h
    have hamount : o.amountForSale = ⟨o.forSale, o.sellPrice.base.assetId⟩ := rfl
    rw [List.map_cons, List.map_cons, List.sum_cons, List.sum_cons, hamount, Asset.inMuse,
      Asset.inMbd]
    split at h
    · rename_i hm
      obtain ⟨supply, hsupply, h⟩ := except_bind_ok.mp h
      obtain ⟨_, rfl⟩ := Asset.add_ok hsupply
      rw [ih h, if_pos hm, if_neg (by rw [hm]; decide)]
      simp only [AuditTotals.plus, Asset.muse, add_assoc, zero_add]
    · rename_i hm
      split at h
      · rename_i hb
        obtain ⟨mbd, hmbd, h⟩ := except_bind_ok.mp h
        obtain ⟨_, rfl⟩ := Asset.add_ok hmbd
        rw [ih h, if_neg hm, if_pos hb]
        simp only [AuditTotals.plus, Asset.mbd, add_assoc, zero_add]
      · rename_i hb
        rw [ih h, if_neg hm, if_neg hb, zero_add, zero_add]

theorem auditBalances_eq {l : List (Nat × Balance)} (h : auditBalances l t = .ok u) :
    u = t.plus (l.map fun r => r.2.balance.amount).sum 0 0 0 := by
  induction l generalizing t with
  | nil =>
    cases h
    exact (AuditTotals.plus_zero _).symm
  | cons row l ih =>
    obtain ⟨i, b⟩ := row
    obtain ⟨supply, hsupply, h⟩ := except_bind_ok.mp h
    obtain ⟨_, rfl⟩ := Asset.add_ok hsupply
    rw [ih h]
    simp only [AuditTotals.plus, List.map_cons, List.sum_cons, add_assoc]

theorem auditContents_eq {l : List (Nat × Content)} (h : auditContents l t = .ok u) :
    u = t.plus (l.map fun r =>
      r.2.accumulatedBalanceMaster.amount + r.2.accumulatedBalanceComp.amount).sum 0 0 0 := by
  induction l generalizing t with
  | nil =>
    cases h
    exact (AuditTotals.plus_zero _).symm
  | cons row l ih =>
    obtain ⟨i, c⟩ := row
    obtain ⟨supply, hsupply, h⟩ := except_bind_ok.mp h
    obtain ⟨supply', hsupply', h⟩ := except_bind_ok.mp h
    obtain ⟨_, rfl⟩ := Asset.add_ok hsupply
    obtain ⟨_, rfl⟩ := Asset.add_ok hsupply'
    rw [ih h]
    simp only [AuditTotals.plus, List.map_cons, List.sum_cons, add_assoc]

end

/-! ## 3. The audit of a state that is reached -/

section

variable {s : Store chainSchema}

/-- The order of the names does not matter. -/
theorem sum_byName (w : Account → Int) :
    (((s.rows Kind.account).insertionSort fun a b : Nat × Account => a.2.name ≤ b.2.name).map
      fun r => w r.2).sum = (s.table Kind.account).map.sum w :=
  ((List.perm_insertionSort _ _).map _).sum_eq

/-- What validate_invariants counts for the accounts is the total of the vesting shares. -/
theorem Kept.vsfShares {K : Poll → Prop} (hs : Kept K s) :
    (s.table Kind.account).map.sum Account.vsfShare = s.props.totalVestingShares.amount := by
  have hsound := hs.sound
  refine Eq.trans ?_ ((hsound.settled.total hsound.steady.closed).trans hsound.shares.symm)
  refine Eq.trans ?_ (sum_nodes (s := s) _).symm
  refine congrArg List.sum (List.map_congr_left fun r hr => ?_)
  have ha := get_of_mem_accounts hr
  have hslots : r.2.proxiedVsfVotes.length = Polls.depth :=
    hsound.steady.slots r.1 _ (get_ballot_some ha)
  unfold Account.vsfShare
  refine if_ctx_congr (hsound.steady.up_eq_none (get_ballot_some ha)).symm (fun _ => ?_) fun _ => ?_
  · rw [voteWeight_eq hslots]
    exact Finset.sum_congr rfl fun j _ => (level_account ha j).symm
  · exact (level_account ha Polls.depth).symm

/-- What the audit adds up, index by index. -/
theorem auditTotals_eq {t : AuditTotals} (h : s.auditTotals = .ok t) :
    t = (⟨Asset.muse 0, Asset.mbd 0, Asset.vests 0, 0⟩ : AuditTotals).plus
      (s.weight museWeight + s.props.totalVestingFundMuse.amount) (s.weight mbdWeight)
      (s.weight vestsWeight) ((s.table Kind.account).map.sum Account.vsfShare) := by
  obtain ⟨t₁, h1, h⟩ := except_bind_ok.mp h
  obtain ⟨t₂, h2, h⟩ := except_bind_ok.mp h
  obtain ⟨t₃, h3, h⟩ := except_bind_ok.mp h
  obtain ⟨t₄, h4, h⟩ := except_bind_ok.mp h
  obtain ⟨t₅, h5, h⟩ := except_bind_ok.mp h
  obtain ⟨supply, h6, h⟩ := except_bind_ok.mp h
  cases h
  obtain ⟨_, rfl⟩ := Asset.add_ok h6
  have h1 : t₁ = (⟨Asset.muse 0, Asset.mbd 0, Asset.vests 0, 0⟩ : AuditTotals).plus
      ((s.table Kind.account).map.sum (museWeight .account))
      ((s.table Kind.account).map.sum (mbdWeight .account))
      ((s.table Kind.account).map.sum (vestsWeight .account))
      ((s.table Kind.account).map.sum Account.vsfShare) := by
    refine (auditAccounts_eq h1).trans ?_
    rw [sum_byName (fun a => a.balance.amount), sum_byName (fun a => a.mbdBalance.amount),
      sum_byName (fun a => a.vestingShares.amount), sum_byName Account.vsfShare]
    rfl
  have h2 : t₂ = t₁.plus ((s.table Kind.convertRequest).map.sum (museWeight .convertRequest))
    ((s.table Kind.convertRequest).map.sum (mbdWeight .convertRequest)) 0 0 := auditConversions_eq h2
  have h3 : t₃ = t₂.plus ((s.table Kind.limitOrder).map.sum (museWeight .limitOrder))
    ((s.table Kind.limitOrder).map.sum (mbdWeight .limitOrder)) 0 0 := auditOrders_eq h3
  have h4 : t₄ = t₃.plus ((s.table Kind.balance).map.sum (museWeight .balance)) 0 0 0 :=
    auditBalances_eq h4
  have h5 : t₅ = t₄.plus ((s.table Kind.content).map.sum (museWeight .content)) 0 0 0 :=
    auditContents_eq h5
  have hmuse := museGap_eq s
  have hmbd := mbdGap_eq s
  have hvests := vestsGap_eq s
  unfold museGap at hmuse
  unfold mbdGap at hmbd
  unfold vestsGap at hvests
  rw [h5, h4, h3, h2, h1]
  simp only [AuditTotals.plus, AuditTotals.mk.injEq, Asset.mk.injEq, and_true]
  refine ⟨by omega, by omega, by omega, by omega⟩

/-- Where the accounts and the supplies balance, the totals are those of the global object. -/
theorem Accounted.totals (hs : Accounted s) {t : AuditTotals} (ht : s.auditTotals = .ok t) :
    t.totalSupply = Asset.muse (s.props.currentSupply.amount + s.props.supplyDelta.amount) ∧
    t.totalMbd = Asset.mbd s.props.currentMbdSupply.amount ∧
    t.totalVesting = Asset.vests s.props.totalVestingShares.amount ∧
    t.totalVsfVotes = s.props.totalVestingShares.amount := by
  obtain ⟨hmuse, hmbd, hvests⟩ := hs.balanced
  rw [auditTotals_eq ht, AuditTotals.plus, hs.kept.vsfShares]
  unfold museGap DynamicGlobalProperty.museCount at hmuse
  unfold mbdGap at hmbd
  unfold vestsGap at hvests
  refine ⟨congrArg Asset.muse ?_, congrArg Asset.mbd ?_, congrArg Asset.vests ?_, zero_add _⟩
  · show 0 + (s.weight museWeight + s.props.totalVestingFundMuse.amount) = _
    omega
  · show 0 + s.weight mbdWeight = _
    omega
  · show 0 + s.weight vestsWeight = _
    omega

/-- **The audit agrees with the counters.** In every state attained over unspoilt attempts, when the
sums of `validate_invariants` do not overflow, they are the supplies and the vesting shares of the
global object, the supply with its delta. -/
theorem audit_totals [Fc] {g : GenesisState} {d : Database chainSchema}
    (h : Attained (fun _ op => op.MintsNothing) Unspoilt g d) {t : AuditTotals}
    (ht : d.store.auditTotals = .ok t) :
    t.totalSupply =
      Asset.muse (d.store.props.currentSupply.amount + d.store.props.supplyDelta.amount) ∧
    t.totalMbd = Asset.mbd d.store.props.currentMbdSupply.amount ∧
    t.totalVesting = Asset.vests d.store.props.totalVestingShares.amount ∧
    t.totalVsfVotes = d.store.props.totalVestingShares.amount :=
  (h.reached.accounted fun _ _ hop => hop).totals ht

end

section

attribute [local instance] sampleFc

/-- With an asset issued, an order in it and a failed execution, the audit of the sample adds up. -/
theorem audit_totals_attempted : ∃ t : AuditTotals, tokenAttempted.store.auditTotals = .ok t ∧
    t.totalSupply = Asset.muse (tokenAttempted.store.props.currentSupply.amount +
      tokenAttempted.store.props.supplyDelta.amount) ∧
    t.totalMbd = Asset.mbd tokenAttempted.store.props.currentMbdSupply.amount ∧
    t.totalVesting = Asset.vests tokenAttempted.store.props.totalVestingShares.amount ∧
    t.totalVsfVotes = tokenAttempted.store.props.totalVestingShares.amount := by
  have hattained : Attained (fun _ op => op.MintsNothing) Unspoilt aliceGenesis tokenAttempted := by
    refine attained_tokenAttempted (fun s => ⟨fun a ha => ?_, fun a ha => ?_, fun a ha => ?_⟩)
      fun s ops time a ha => ?_
    · cases ha
    · cases ha
      exact .inl (show ¬(3 = museSymbol ∨ 3 = mbdSymbol) by decide)
    · cases ha
    · cases ha
  have hsome : tokenAttempted.store.auditTotals.toOption.isSome = true := by decide +kernel
  obtain ⟨t, ht⟩ := Option.isSome_iff_exists.mp hsome
  exact ⟨t, except_of_toOption ht, audit_totals hattained (except_of_toOption ht)⟩

end

/-! ## 4. What is left to fail -/

section

variable {d : Database chainSchema} {p : DynamicGlobalProperty} {f : FeedHistory}

/-- What `validate_invariants` checks beyond the totals. -/
structure DynamicGlobalProperty.Backed (p : DynamicGlobalProperty) (f : FeedHistory)
    (witnesses : List (Nat × Witness)) : Prop where
  votes : ∀ w ∈ witnesses, w.2.votes < p.totalVestingShares.amount
  virtualSupply : p.virtualSupply.ge p.currentSupply = .ok true
  worth : f.currentMedianHistory.isNull = false → ∃ worth,
    p.currentMbdSupply.mul f.currentMedianHistory = .ok worth ∧
      worth.add p.currentSupply = .ok p.virtualSupply

theorem forEach_require_ok {β : Type} {l : List β} {c : β → Prop} [DecidablePred c] {m : String}
    {u : Unit} {d' : Database chainSchema} :
    (Action.forEach l fun y => (Action.require (c y) m : Act n Unit)).run d = .ok u d' ↔
      (∀ y ∈ l, c y) ∧ d' = d := by
  induction l with
  | nil => exact ⟨fun h => by cases h; exact ⟨fun y hy => (List.not_mem_nil hy).elim, rfl⟩,
      fun h => h.2 ▸ rfl⟩
  | cons y l ih =>
    show ((Action.require (c y) m : Act n Unit) >>= fun _ => Action.forEach l _).run d = _ ↔ _
    rw [Action.bind_require_ok, ih, List.forall_mem_cons, and_assoc]

/-- **The totals cannot fail the audit.** In a state as above, with nothing in the delta of the
supply, `validate_invariants` comes down to the votes of the witnesses and the virtual supply. -/
theorem validateInvariants_iff [Fc] {g : GenesisState}
    (h : Attained (fun _ op => op.MintsNothing) Unspoilt g d)
    (hprops : d.store.get Kind.dynamicGlobalProperty 0 = some p)
    (hfeed : d.store.get Kind.feedHistory 0 = some f)
    (hpassed : (hasHardfork hardfork02 : Act n Bool).run d = .ok true d)
    (hmuse : p.currentSupply.assetId = museSymbol) (hmbd : p.currentMbdSupply.assetId = mbdSymbol)
    (hvests : p.totalVestingShares.assetId = vestsSymbol) (hdelta : p.supplyDelta.amount = 0)
    {t : AuditTotals} (ht : d.store.auditTotals = .ok t) :
    (validateInvariants : Act n Unit).run d = .ok () d ↔
      p.Backed f (d.store.rows Kind.witness) := by
  obtain ⟨h1, h2, h3, h4⟩ := (h.reached.accounted fun _ _ hop => hop).totals ht
  rw [Store.props_of_get hprops] at h1 h2 h3 h4
  rw [hdelta, add_zero] at h1
  have e1 : p.currentSupply = t.totalSupply := h1 ▸ congrArg (Asset.mk _) hmuse
  have e2 : p.currentMbdSupply = t.totalMbd := h2 ▸ congrArg (Asset.mk _) hmbd
  have e3 : p.totalVestingShares = t.totalVesting := h3 ▸ congrArg (Asset.mk _) hvests
  have hvotes : p.totalVestingShares.amount = t.totalVsfVotes := h4.symm
  constructor
  · intro h
    obtain ⟨_, _, hhard, h⟩ := Action.bind_ok.mp h
    cases hpassed.symm.trans hhard
    obtain ⟨p', hp', h⟩ := bind_getDgp_ok.mp h
    obtain rfl := Option.some.inj (hp'.symm.trans hprops)
    replace h := Action.bind_read_ok.mp h
    obtain ⟨_, _, hw, h⟩ := Action.bind_ok.mp h
    obtain ⟨hw, rfl⟩ := forEach_require_ok.mp hw
    replace h := Action.bind_read_ok.mp h
    obtain ⟨_, -, h⟩ := Action.bind_lift_ok.mp h
    obtain ⟨-, h⟩ := Action.bind_require_ok.mp h
    obtain ⟨-, h⟩ := Action.bind_require_ok.mp h
    obtain ⟨-, h⟩ := Action.bind_require_ok.mp h
    obtain ⟨-, h⟩ := Action.bind_require_ok.mp h
    obtain ⟨_, hge, h⟩ := Action.bind_lift_ok.mp h
    obtain ⟨rfl, h⟩ := Action.bind_require_ok.mp h
    obtain ⟨f', hf', h⟩ := bind_getFeedHistory_ok.mp h
    obtain rfl := Option.some.inj (hf'.symm.trans hfeed)
    refine ⟨hw, hge, fun hnull => ?_⟩
    rw [if_pos hnull] at h
    obtain ⟨worth, hworth, h⟩ := Action.bind_lift_ok.mp h
    obtain ⟨_, hsum, h⟩ := Action.bind_lift_ok.mp h
    obtain ⟨rfl, -⟩ := Action.require_ok.mp h
    exact ⟨worth, hworth, hsum⟩
  · intro h
    refine Action.bind_ok.mpr ⟨true, d, hpassed, bind_getDgp_ok.mpr ⟨p, hprops, ?_⟩⟩
    refine Action.bind_read_ok.mpr (Action.bind_ok.mpr
      ⟨(), d, forEach_require_ok.mpr ⟨h.votes, rfl⟩, Action.bind_read_ok.mpr ?_⟩)
    refine Action.bind_lift_ok.mpr ⟨t, ht, Action.bind_require_ok.mpr ⟨e1, ?_⟩⟩
    refine Action.bind_require_ok.mpr ⟨e2, Action.bind_require_ok.mpr ⟨e3, ?_⟩⟩
    refine Action.bind_require_ok.mpr ⟨hvotes, Action.bind_lift_ok.mpr ⟨true, h.virtualSupply, ?_⟩⟩
    refine Action.bind_require_ok.mpr ⟨rfl, bind_getFeedHistory_ok.mpr ⟨f, hfeed, ?_⟩⟩
    split
    · obtain ⟨worth, hworth, hsum⟩ := h.worth ‹_›
      exact Action.bind_lift_ok.mpr ⟨worth, hworth, Action.bind_lift_ok.mpr
        ⟨p.virtualSupply, hsum, Action.require_ok.mpr ⟨rfl, rfl⟩⟩⟩
    · rfl

end

end MuseChain
