/-
  File:      MuseChain/Safety/Programs.lean
  Subject:   Which parts of the state each function of the chain writes to.

  The lists are what the source writes; the proofs follow the programs statement by statement.
  A function that calls another needs the parts of that one too, which is decided.
-/
import MuseChain.Safety.Parts

namespace MuseChain

variable {n : Nat} {l : List Part}

/-! ## 1. What several functions write to -/

abbrev balanceParts : List Part :=
  [.account .muse, .account .mbd, .props .supply, .made .accountBalance, .whole .accountBalance]

abbrev supplyParts : List Part := .props .fund :: balanceParts

abbrev voteParts : List Part :=
  [.account .proxied, .witness .votes, .witness .virtual, .platform .votes]

abbrev depositParts : List Part := .account .vests :: .account .score :: voteParts

abbrev vestingParts : List Part := .props .fund :: .props .shares :: depositParts

abbrev cancelParts : List Part := .gone .limitOrder :: balanceParts

abbrev fillParts : List Part := .whole .limitOrder :: cancelParts

abbrev producerParts : List Part := .account .muse :: vestingParts

abbrev conversionParts : List Part := .gone .convertRequest :: balanceParts

abbrev payParts : List Part := vestingParts ++ supplyParts

abbrev contentSideParts : List Part := .content .accumulated :: payParts

abbrev contentPayParts : List Part := .content .accumulated :: .content .plays :: payParts

abbrev cashoutParts : List Part := .account .listening :: .gone .report :: contentPayParts

abbrev withdrawalParts : List Part := .account .withdrawal :: .account .muse :: vestingParts

abbrev scheduleParts : List Part :=
  [.whole .witnessSchedule, .whole .hardforkProperty, .witness .virtual, .props .rate,
    .props .blockSize]

abbrev accountCreateParts : List Part := .made .account :: .account .muse :: vestingParts

abbrev proxyParts : List Part :=
  [.gone .witnessVote, .gone .streamingPlatformVote, .account .witnessCount,
    .account .platformCount, .account .proxy] ++ voteParts

abbrev payBlockParts : List Part := .account .withdrawal :: .gone .convertRequest :: cashoutParts

abbrev headParts : List Part :=
  [.witness .missed, .witness .signing, .props .head, .props .time, .props .slots, .props .usage]

abbrev hardforkParts : List Part := [.whole .hardforkProperty, .props .supply, .gone .proposal]

/-! ## 2. Balances, votes, scores -/

@[simp] theorem composed_mintInterest (interestPaid : Asset) (h : [.props .supply] ⊆ l) :
    Composed l (mintInterest interestPaid : Act n Unit) := by
  refine .mono h ?_
  unfold mintInterest
  repeat' first
    | with_reducible apply composed_bind | intro _ | (solve | simp +decide)
    | exact composed_modifyWith fun _ _ f => by cases f <;> simp +decide

@[simp] theorem composed_adjustMuseBalance (acc : Nat) (delta : Asset) (h : [.account .muse] ⊆ l) :
    Composed l (adjustMuseBalance acc delta : Act n Unit) := by
  refine .mono h ?_
  unfold adjustMuseBalance
  exact composed_modifyWith fun _ _ f => by cases f <;> simp +decide

@[simp] theorem composed_adjustMbdBalance (acc : Nat) (delta : Asset) (h : [.account .mbd, .props
    .supply] ⊆ l) :
    Composed l (adjustMbdBalance acc delta : Act n Unit) := by
  refine .mono h ?_
  unfold adjustMbdBalance
  repeat' first
    | with_reducible apply composed_bind | with_reducible apply composed_ite | intro _
    | (solve | simp +decide) | refine .modifyNested (fun _ => ?_) fun _ _ f => by cases f <;> simp +decide

@[simp] theorem composed_adjustAssetBalance (acc : Nat) (delta : Asset) (h : [.made
    .accountBalance, .whole .accountBalance] ⊆ l) :
    Composed l (adjustAssetBalance acc delta : Act n Unit) := by
  refine .mono h ?_
  unfold adjustAssetBalance
  repeat' first
    | with_reducible apply composed_bind | intro _ | (solve | simp +decide)
    | exact composed_modifyWith fun _ _ => .inl (by decide)
    | exact .create (by decide) trivial
    | split

@[simp] theorem composed_adjustBalance (acc : Nat) (delta : Asset) (h : balanceParts ⊆ l) :
    Composed l (adjustBalance acc delta : Act n Unit) := by
  refine .mono h ?_
  unfold adjustBalance
  repeat' first
    | with_reducible apply composed_ite | intro _ | (solve | simp +decide)

@[simp] theorem composed_adjustSupply (delta : Asset) (adjustVesting : Bool) (h : [.props .supply,
    .props .fund] ⊆ l) :
    Composed l (adjustSupply delta adjustVesting : Act n Unit) := by
  refine .mono h ?_
  unfold adjustSupply
  repeat' first
    | with_reducible apply composed_bind | intro _ | (solve | simp +decide)
    | exact composed_modifyWith fun _ _ f => by cases f <;> simp +decide

@[simp] theorem composed_payFee (acc : Nat) (fee : Asset) (h : supplyParts ⊆ l) :
    Composed l (payFee acc fee : Act n Unit) := by
  refine .mono h ?_
  unfold payFee
  repeat' first
    | with_reducible apply composed_bind | with_reducible apply composed_ite | intro _
    | (solve | simp +decide)

@[simp] theorem composed_createMbd (toAccount : Nat) (muse : Asset) (h : supplyParts ⊆ l) :
    Composed l (createMbd toAccount muse : Act n Asset) := by
  refine .mono h ?_
  unfold createMbd
  repeat' first
    | with_reducible apply composed_bind | with_reducible apply composed_ite | intro _
    | (solve | simp +decide)

@[simp] theorem composed_adjustWitnessVote (witness : Nat) (delta : Int) (h : [.witness .votes,
    .witness .virtual] ⊆ l) :
    Composed l (adjustWitnessVote witness delta : Act n Unit) := by
  refine .mono h ?_
  unfold adjustWitnessVote
  repeat' first
    | with_reducible apply composed_bind | intro _ | (solve | simp +decide)
    | exact composed_modifyWith fun _ _ f => by cases f <;> simp +decide

@[simp] theorem composed_adjustWitnessVotes (acc : Nat) (delta : Int) (h : [.witness .votes,
    .witness .virtual] ⊆ l) :
    Composed l (adjustWitnessVotes acc delta : Act n Unit) := by
  refine .mono h ?_
  unfold adjustWitnessVotes
  repeat' first
    | with_reducible apply composed_bind | with_reducible apply composed_forEach | intro _
    | (solve | simp +decide)

@[simp] theorem composed_adjustStreamingPlatformVote (sp : Nat) (delta : Int) (h : [.platform
    .votes] ⊆ l) :
    Composed l (adjustStreamingPlatformVote sp delta : Act n Unit) := by
  refine .mono h ?_
  unfold adjustStreamingPlatformVote
  repeat' first
    | with_reducible apply composed_bind | intro _ | (solve | simp +decide)
    | exact composed_modifyWith fun _ _ f => by cases f <;> simp +decide

@[simp] theorem composed_adjustStreamingPlatformVotes (acc : Nat) (delta : Int) (h : [.platform
    .votes] ⊆ l) :
    Composed l (adjustStreamingPlatformVotes acc delta : Act n Unit) := by
  refine .mono h ?_
  unfold adjustStreamingPlatformVotes
  repeat' first
    | with_reducible apply composed_bind | with_reducible apply composed_forEach | intro _
    | (solve | simp +decide)

@[simp] theorem composed_adjustProxiedFrom (left : Nat) (acc : Nat) (delta : Int) (h : voteParts ⊆
    l) :
    Composed l (adjustProxiedFrom left acc delta : Act n Unit) := by
  refine .mono h ?_
  induction left generalizing acc delta with
  | zero =>
    unfold adjustProxiedFrom
    repeat' first
      | with_reducible apply composed_bind | with_reducible apply composed_ite | intro _
      | (solve | simp +decide)
  | succ _ ih =>
    unfold adjustProxiedFrom
    repeat' first
      | with_reducible apply composed_bind | with_reducible apply composed_ite | intro _
      | (solve | simp +decide)
      | exact ih _ _
      | exact composed_modifyWith fun _ _ f => by cases f <;> simp +decide

@[simp] theorem composed_adjustProxiedWitnessVotes (acc : Nat) (delta : Int) (h : voteParts ⊆ l) :
    Composed l (adjustProxiedWitnessVotes acc delta : Act n Unit) := by
  refine .mono h ?_
  unfold adjustProxiedWitnessVotes
  simp +decide

@[simp] theorem composed_adjustProxiedDeltasFrom (left : Nat) (acc : Nat) (deltas : List Int) (h :
    voteParts ⊆ l) :
    Composed l (adjustProxiedDeltasFrom left acc deltas : Act n Unit) := by
  refine .mono h ?_
  induction left generalizing acc deltas with
  | zero =>
    unfold adjustProxiedDeltasFrom
    repeat' first
      | with_reducible apply composed_bind | with_reducible apply composed_ite | intro _
      | (solve | simp +decide)
  | succ _ ih =>
    unfold adjustProxiedDeltasFrom
    repeat' first
      | with_reducible apply composed_bind | with_reducible apply composed_ite | intro _
      | (solve | simp +decide)
      | exact ih _ _
      | exact composed_modifyWith fun _ _ f => by cases f <;> simp +decide

@[simp] theorem composed_adjustProxiedWitnessDeltas (acc : Nat) (deltas : List Int) (h : voteParts
    ⊆ l) :
    Composed l (adjustProxiedWitnessDeltas acc deltas : Act n Unit) := by
  refine .mono h ?_
  unfold adjustProxiedWitnessDeltas
  simp +decide

@[simp] theorem composed_clearWitnessVotes (acc : Nat) (h : [.gone .witnessVote, .account
    .witnessCount] ⊆ l) :
    Composed l (clearWitnessVotes acc : Act n Unit) := by
  refine .mono h ?_
  unfold clearWitnessVotes
  repeat' first
    | with_reducible apply composed_bind | intro _ | (solve | simp +decide)
    | exact composed_modifyWith fun _ _ f => by cases f <;> simp +decide
    | exact .remove (by decide)
    | with_reducible apply composed_forEach

@[simp] theorem composed_clearStreamingPlatformVotes (acc : Nat) (h : [.gone
    .streamingPlatformVote, .account .platformCount] ⊆ l) :
    Composed l (clearStreamingPlatformVotes acc : Act n Unit) := by
  refine .mono h ?_
  unfold clearStreamingPlatformVotes
  repeat' first
    | with_reducible apply composed_bind | intro _ | (solve | simp +decide)
    | exact composed_modifyWith fun _ _ f => by cases f <;> simp +decide
    | exact .remove (by decide)
    | with_reducible apply composed_forEach

@[simp] theorem composed_bumpScore (acc : Nat) (delta : Int) (h : [.account .score] ⊆ l) :
    Composed l (bumpScore acc delta : Act n Unit) := by
  refine .mono h ?_
  unfold bumpScore
  exact composed_modifyWith fun _ _ f => by cases f <;> simp +decide

@[simp] theorem composed_recursiveRecalculateScore (acc : Nat) (delta : Int) (h : [.account
    .score] ⊆ l) :
    Composed l (recursiveRecalculateScore acc delta : Act n Unit) := by
  refine .mono h ?_
  unfold recursiveRecalculateScore
  repeat' first
    | with_reducible apply composed_bind | intro _ | (solve | simp +decide)
    | with_reducible apply composed_forEach

@[simp] theorem composed_recalculateScore (acc : Nat) (h : [.account .score] ⊆ l) :
    Composed l (recalculateScore acc : Act n Unit) := by
  refine .mono h ?_
  unfold recalculateScore
  repeat' first
    | with_reducible apply composed_bind | intro _ | (solve | simp +decide)
    | exact composed_modifyWith fun _ _ f => by cases f <;> simp +decide

@[simp] theorem composed_createVesting (toAccount : Nat) (muse : Asset) (h : vestingParts ⊆ l) :
    Composed l (createVesting toAccount muse : Act n Asset) := by
  refine .mono h ?_
  unfold createVesting
  repeat' first
    | with_reducible apply composed_bind | intro _ | (solve | simp +decide)
    | exact composed_modifyWith fun _ _ f => by cases f <;> simp +decide

@[simp] theorem composed_updateOwnerAuthority (acc : Nat) (ownerAuthority : Authority) (h :
    [.account .owner, .made .ownerAuthorityHistory] ⊆ l) :
    Composed l (updateOwnerAuthority acc ownerAuthority : Act n Unit) := by
  refine .mono h ?_
  unfold updateOwnerAuthority
  repeat' first
    | with_reducible apply composed_bind | with_reducible apply composed_ite | intro _
    | (solve | simp +decide)
    | exact composed_modifyWith fun _ _ f => by cases f <;> simp +decide
    | exact .create (by decide) trivial

/-! ## 3. The market -/

@[simp] theorem composed_cancelOrder (order : Nat) (h : cancelParts ⊆ l) :
    Composed l (cancelOrder order : Act n Unit) := by
  refine .mono h ?_
  unfold cancelOrder
  repeat' first
    | with_reducible apply composed_bind | intro _ | (solve | simp +decide) | exact composed_of_looks (looks_get _ _)
    | exact .remove (by decide)

@[simp] theorem composed_fillOrder (order : Nat) (pays receives : Asset) (h : fillParts ⊆ l) :
    Composed l (fillOrder order pays receives : Act n Bool) := by
  refine .mono h ?_
  unfold fillOrder
  repeat' first
    | with_reducible apply composed_bind | with_reducible apply composed_ite | intro _
    | (solve | simp +decide)
    | exact composed_of_looks (looks_get _ _)
    | exact composed_modifyWith fun _ _ => .inl (by decide)
    | exact .remove (by decide)

@[simp] theorem composed_matchOrders (newOrder oldOrder : Nat) (matchPrice : Price) (h : fillParts
    ⊆ l) :
    Composed l (matchOrders newOrder oldOrder matchPrice : Act n (Bool × Bool)) := by
  refine .mono h ?_
  unfold matchOrders
  repeat' first
    | with_reducible apply composed_bind | intro _ | (solve | simp +decide) | exact composed_of_looks (looks_get _ _)

@[simp] theorem composed_matchEach (newOrder : Nat) (orders : List (Nat × LimitOrder)) (h :
    fillParts ⊆ l) :
    Composed l (matchEach newOrder orders : Act n Unit) := by
  refine .mono h ?_
  induction orders with
  | nil =>
    unfold matchEach
    simp +decide
  | cons _ _ ih =>
    unfold matchEach
    repeat' first
      | with_reducible apply composed_bind | with_reducible apply composed_ite | intro _
      | (solve | simp +decide) | exact ih

@[simp] theorem composed_applyOrder (order : Nat) (h : fillParts ⊆ l) :
    Composed l (applyOrder order : Act n Bool) := by
  refine .mono h ?_
  unfold applyOrder
  repeat' first
    | with_reducible apply composed_bind | intro _ | (solve | simp +decide) | exact composed_of_looks (looks_get _ _)

@[simp] theorem composed_clearExpiredOrders (h : cancelParts ⊆ l) :
    Composed l (clearExpiredOrders : Act n Unit) := by
  refine .mono h ?_
  unfold clearExpiredOrders
  repeat' first
    | with_reducible apply composed_bind | intro _ | (solve | simp +decide) | exact composed_of_looks (looks_read _)

/-! ## 4. Rewards and withdrawals -/

@[simp] theorem composed_getProducerReward (h : producerParts ⊆ l) :
    Composed l (getProducerReward : Act n Asset) := by
  refine .mono h ?_
  unfold getProducerReward
  repeat' first
    | with_reducible apply composed_bind | with_reducible apply composed_ite | intro _
    | (solve | simp +decide)
    | exact composed_modifyWith fun _ _ f => by cases f <;> simp +decide

@[simp] theorem composed_processFunds (contentReward witnessPay vestingReward : Asset) (h :
    [.props .supply, .props .fund] ⊆ l) :
    Composed l (processFunds contentReward witnessPay vestingReward : Act n Unit) := by
  refine .mono h ?_
  unfold processFunds
  exact composed_modifyWith fun _ _ f => by cases f <;> simp +decide

@[simp] theorem composed_adjustFunds (contentReward paidToContent : Asset) (h : [.props .supply] ⊆
    l) :
    Composed l (adjustFunds contentReward paidToContent : Act n Unit) := by
  refine .mono h ?_
  unfold adjustFunds
  repeat' first
    | with_reducible apply composed_bind | with_reducible apply composed_ite | intro _
    | (solve | simp +decide)
    | exact composed_modifyWith fun _ _ f => by cases f <;> simp +decide

@[simp] theorem composed_convertEach (price : Price) (requests : List (Nat × ConvertRequest))
    (total : Asset × Asset) (h : conversionParts ⊆ l) :
    Composed l (convertEach price requests total : Act n (Asset × Asset)) := by
  refine .mono h ?_
  induction requests generalizing total with
  | nil =>
    unfold convertEach
    simp +decide
  | cons _ _ ih =>
    unfold convertEach
    repeat' first
      | with_reducible apply composed_bind | intro _ | (solve | simp +decide) | exact ih _
      | exact .remove (by decide)

@[simp] theorem composed_processConversions (h : conversionParts ⊆ l) :
    Composed l (processConversions : Act n Unit) := by
  refine .mono h ?_
  unfold processConversions
  repeat' first
    | with_reducible apply composed_bind | with_reducible apply composed_ite | intro _
    | (solve | simp +decide)
    | exact composed_of_looks (looks_read _)
    | exact composed_modifyWith fun _ _ f => by cases f <;> simp +decide

@[simp] theorem composed_payDistributions (toPay : Asset) (ds : List Distribution) (paid : Asset)
    (h : payParts ⊆ l) :
    Composed l (payDistributions toPay ds paid : Act n Asset) := by
  refine .mono h ?_
  induction ds generalizing paid with
  | nil =>
    unfold payDistributions
    simp +decide
  | cons _ _ ih =>
    unfold payDistributions
    repeat' first | with_reducible apply composed_bind | intro _ | (solve | simp +decide) | exact ih _

@[simp] theorem composed_payToContentSide (side : ContentSide) (content : Nat) (payout : Asset)
    (h : contentSideParts ⊆ l) :
    Composed l (payToContentSide side content payout : Act n Unit) := by
  refine .mono h ?_
  unfold payToContentSide
  repeat' first
    | with_reducible apply composed_bind | with_reducible apply composed_ite | intro _
    | (solve | simp +decide)
    | exact composed_of_looks (looks_get _ _)
    | exact composed_modifyWith fun _ _ f => by
        cases f <;> cases side <;> simp +decide [ContentSide.setAccumulated]

@[simp] theorem composed_payToContentMaster (content : Nat) (payout : Asset)
    (h : contentSideParts ⊆ l) :
    Composed l (payToContentMaster content payout : Act n Unit) := by
  refine .mono h ?_
  unfold payToContentMaster
  simp +decide

@[simp] theorem composed_payToContentComp (content : Nat) (payout : Asset)
    (h : contentSideParts ⊆ l) :
    Composed l (payToContentComp content payout : Act n Unit) := by
  refine .mono h ?_
  unfold payToContentComp
  simp +decide

@[simp] theorem composed_payToPlatform (platform : Nat) (payout : Asset) (h : payParts ⊆ l) :
    Composed l (payToPlatform platform payout : Act n Unit) := by
  refine .mono h ?_
  unfold payToPlatform
  repeat' first
    | with_reducible apply composed_bind | intro _ | (solve | simp +decide) | exact composed_of_looks (looks_get _ _)

@[simp] theorem composed_payToContent (content : Nat) (payout : Asset) (platform : Nat) (h :
    contentPayParts ⊆ l) :
    Composed l (payToContent content payout platform : Act n Asset) := by
  refine .mono h ?_
  unfold payToContent
  repeat' first
    | with_reducible apply composed_bind | with_reducible apply composed_ite | intro _
    | (solve | simp +decide)
    | exact composed_of_looks (looks_get _ _)
    | exact composed_modifyWith fun _ _ f => by cases f <;> simp +decide

@[simp] theorem composed_dropListening (consumer time : Nat) (h : [.account .listening] ⊆ l) :
    Composed l (dropListening consumer time : Act n Unit) := by
  refine .mono h ?_
  unfold dropListening
  exact composed_modifyWith fun _ _ f => by cases f <;> simp +decide

@[simp] theorem composed_cashoutEach (hf2 : Bool) (totalPayout : Asset) (customers fullTime : Nat)
    (reports : List (Nat × Report)) (paid : Asset × List (Nat × Nat)) (h : cashoutParts ⊆ l) :
    Composed l
      (cashoutEach hf2 totalPayout customers fullTime reports paid : Act n (Asset × List (Nat × Nat))) := by
  refine .mono h ?_
  induction reports generalizing paid with
  | nil =>
    unfold cashoutEach
    simp +decide
  | cons _ _ ih =>
    unfold cashoutEach
    repeat' first
      | with_reducible apply composed_bind | with_reducible apply composed_ite | intro _
      | (solve | simp +decide) | exact ih _ | exact .remove (by decide)

@[simp] theorem composed_processContentCashout (contentReward : Asset) (h : cashoutParts ⊆ l) :
    Composed l (processContentCashout contentReward : Act n Asset) := by
  refine .mono h ?_
  unfold processContentCashout
  repeat' first
    | with_reducible apply composed_bind | with_reducible apply composed_ite | intro _
    | (solve | simp +decide) | exact composed_of_looks (looks_read _)

@[simp] theorem composed_depositVests (toWithdraw : Int) (routes : List (Nat ×
    WithdrawVestingRoute)) (deposited : Int) (h : depositParts ⊆ l) :
    Composed l (depositVests toWithdraw routes deposited : Act n Int) := by
  refine .mono h ?_
  induction routes generalizing deposited with
  | nil =>
    unfold depositVests
    simp +decide
  | cons _ _ ih =>
    unfold depositVests
    repeat' first
      | with_reducible apply composed_bind | with_reducible apply composed_ite | intro _
      | (solve | simp +decide)
      | exact ih _
      | exact composed_modifyWith fun _ _ f => by cases f <;> simp +decide

@[simp] theorem composed_takeFromVestingFund (converted : Asset) (vests : Int) (h : [.props .fund,
    .props .shares] ⊆ l) :
    Composed l (takeFromVestingFund converted vests : Act n Unit) := by
  refine .mono h ?_
  unfold takeFromVestingFund
  exact composed_modifyWith fun _ _ f => by cases f <;> simp +decide

@[simp] theorem composed_depositMuse (toWithdraw : Int) (routes : List (Nat ×
    WithdrawVestingRoute)) (deposited : Int × Asset) (h : [.account .muse, .props .fund, .props
    .shares] ⊆ l) :
    Composed l (depositMuse toWithdraw routes deposited : Act n (Int × Asset)) := by
  refine .mono h ?_
  induction routes generalizing deposited with
  | nil =>
    unfold depositMuse
    simp +decide
  | cons _ _ ih =>
    unfold depositMuse
    repeat' first
      | with_reducible apply composed_bind | with_reducible apply composed_ite | intro _
      | (solve | simp +decide)
      | exact ih _
      | exact composed_modifyWith fun _ _ f => by cases f <;> simp +decide

@[simp] theorem composed_processVestingWithdrawal (acc : Nat) (h : withdrawalParts ⊆ l) :
    Composed l (processVestingWithdrawal acc : Act n Unit) := by
  refine .mono h ?_
  unfold processVestingWithdrawal
  repeat' first
    | with_reducible apply composed_bind | with_reducible apply composed_ite | intro _
    | (solve | simp +decide)
    | exact composed_modifyWith fun _ _ f => by cases f <;> simp +decide

@[simp] theorem composed_withdrawEach (fuel : Nat) (next : Option Nat) (h : withdrawalParts ⊆ l) :
    Composed l (withdrawEach fuel next : Act n Unit) := by
  refine .mono h ?_
  induction fuel generalizing next with
  | zero =>
    cases next with
    | none => exact composed_of_looks (looks_pure ())
    | some acc => exact composed_of_looks (looks_throw _)
  | succ fuel ih =>
    cases next with
    | none => exact composed_of_looks (looks_pure ())
    | some acc =>
      unfold withdrawEach
      refine composed_bind (by simp +decide) fun now => composed_bind (by simp +decide) fun a =>
        composed_ite (fun _ => ?_) fun _ => by simp +decide
      exact composed_bind (by simp +decide) fun next => composed_bind (by simp +decide) fun _ => ih next

@[simp] theorem composed_processVestingWithdrawals (h : withdrawalParts ⊆ l) :
    Composed l (processVestingWithdrawals : Act n Unit) := by
  refine .mono h ?_
  unfold processVestingWithdrawals
  repeat' first | with_reducible apply composed_bind | intro _ | (solve | simp +decide)

/-! ## 5. Schedule and feeds -/

@[simp] theorem composed_resetVirtualScheduleTime (h : [.whole .witnessSchedule, .witness
    .virtual] ⊆ l) :
    Composed l (resetVirtualScheduleTime : Act n Unit) := by
  refine .mono h ?_
  unfold resetVirtualScheduleTime
  repeat' first
    | with_reducible apply composed_bind | intro _ | exact composed_of_looks (looks_read _)
    | exact composed_modifyWith fun _ _ f => by cases f <;> simp +decide
    | exact composed_modifyWith fun _ _ => .inl (by decide)
    | with_reducible apply composed_forEach

@[simp] theorem composed_updateProcessed (newVirtualTime : Nat) (processed : List (Nat × Witness))
    (h : [.witness .virtual] ⊆ l) :
    Composed l (updateProcessed newVirtualTime processed : Act n Bool) := by
  refine .mono h ?_
  induction processed with
  | nil =>
    unfold updateProcessed
    simp +decide
  | cons _ _ ih =>
    unfold updateProcessed
    repeat' first
      | with_reducible apply composed_bind | with_reducible apply composed_ite | intro _
      | (solve | simp +decide)
      | exact ih
      | exact composed_modifyWith fun _ _ f => by cases f <;> simp +decide

@[simp] theorem composed_updateMedianWitnessProps (h : [.whole .witnessSchedule, .props .rate,
    .props .blockSize] ⊆ l) :
    Composed l (updateMedianWitnessProps : Act n Unit) := by
  refine .mono h ?_
  unfold updateMedianWitnessProps
  repeat' first
    | with_reducible apply composed_bind | intro _ | (solve | simp +decide)
    | exact composed_modifyWith fun _ _ f => by cases f <;> simp +decide
    | exact composed_modifyWith fun _ _ => .inl (by decide)
    | with_reducible apply composed_foldEach

@[simp] theorem composed_updateWitnessSchedule4 (h : scheduleParts ⊆ l) :
    Composed l (updateWitnessSchedule4 : Act n Unit) := by
  refine .mono h ?_
  unfold updateWitnessSchedule4
  repeat' first
    | with_reducible apply composed_bind | intro _ | (solve | simp +decide) | exact composed_of_looks (looks_read _)
    | exact composed_modifyWith fun _ _ => .inl (by decide)
    | split

@[simp] theorem composed_updateWitnessSchedule (h : scheduleParts ⊆ l) :
    Composed l (updateWitnessSchedule : Act n Unit) := by
  refine .mono h ?_
  unfold updateWitnessSchedule
  repeat' first | with_reducible apply composed_bind | (solve | simp +decide)

@[simp] theorem composed_updateMedianFeed (h : [.whole .feedHistory] ⊆ l) :
    Composed l (updateMedianFeed : Act n Unit) := by
  refine .mono h ?_
  unfold updateMedianFeed
  repeat' first
    | with_reducible apply composed_bind | intro _ | (solve | simp +decide)
    | exact composed_modifyWith fun _ _ => .inl (by decide)
    | with_reducible apply composed_foldEach
    | split

@[simp] theorem composed_updateVirtualSupply (h : [.props .supply] ⊆ l) :
    Composed l (updateVirtualSupply : Act n Unit) := by
  refine .mono h ?_
  unfold updateVirtualSupply
  repeat' first
    | with_reducible apply composed_bind | intro _ | (solve | simp +decide)
    | exact composed_modifyWith fun _ _ f => by cases f <;> simp +decide

@[simp] theorem composed_accountRecoveryProcessing (h : [.gone .accountRecoveryRequest, .gone
    .ownerAuthorityHistory, .gone .changeRecoveryAccountRequest, .account .recovery] ⊆ l) :
    Composed l (accountRecoveryProcessing : Act n Unit) := by
  refine .mono h ?_
  unfold accountRecoveryProcessing
  repeat' first
    | with_reducible apply composed_bind | intro _ | (solve | simp +decide) | exact composed_of_looks (looks_read _)
    | exact composed_modifyWith fun _ _ f => by cases f <;> simp +decide
    | exact .remove (by decide)
    | with_reducible apply composed_forEach

@[simp] theorem composed_clearSupplyDelta (h : [.props .supply] ⊆ l) :
    Composed l (clearSupplyDelta : Act n Unit) := by
  refine .mono h ?_
  unfold clearSupplyDelta
  exact composed_modifyWith fun _ _ f => by cases f <;> simp +decide

/-! ## 6. Evaluators -/

@[simp] theorem composed_setProved (acc now : Nat) (h : [.account .challenges] ⊆ l) :
    Composed l (setProved acc now : Act n Unit) := by
  refine .mono h ?_
  unfold setProved
  exact composed_modifyWith fun _ _ f => by cases f <;> simp +decide

@[simp] theorem composed_witnessUpdate (o : WitnessUpdateOp) (h : [.witness .signing, .made
    .witness] ⊆ l) :
    Composed l (witnessUpdate o : Act n Unit) := by
  refine .mono h ?_
  unfold witnessUpdate
  repeat' first
    | with_reducible apply composed_bind | intro _ | (solve | simp +decide)
    | exact composed_modifyWith fun _ _ f => by cases f <;> simp +decide
    | exact .create (by decide) (by simp [Blank])
    | split

@[simp] theorem composed_accountCreate [Fc] (o : AccountCreateOp) (h : accountCreateParts ⊆ l) :
    Composed l (accountCreate o : Act n Unit) := by
  refine .mono h ?_
  unfold accountCreate
  repeat' first
    | with_reducible apply composed_bind | with_reducible apply composed_ite | intro _
    | (solve | simp +decide)
    | exact composed_modifyWith fun _ _ f => by cases f <;> simp +decide
    | exact .create (by decide) (by simp [Blank])

@[simp] theorem composed_accountUpdate [Fc] (o : AccountUpdateOp) (h : [.account .owner, .account
    .auths, .account .challenges, .made .ownerAuthorityHistory] ⊆ l) :
    Composed l (accountUpdate o : Act n Unit) := by
  refine .mono h ?_
  unfold accountUpdate
  repeat' first
    | with_reducible apply composed_bind | intro _ | (solve | simp +decide)
    | exact composed_modifyWith fun _ _ f => by cases f <;> simp +decide
    | split

@[simp] theorem composed_escrowTransfer (h : [] ⊆ l) :
    Composed l (escrowTransfer : Act n Unit) := by
  refine .mono h ?_
  unfold escrowTransfer
  simp +decide

@[simp] theorem composed_escrowDispute (h : [] ⊆ l) :
    Composed l (escrowDispute : Act n Unit) := by
  refine .mono h ?_
  unfold escrowDispute
  simp +decide

@[simp] theorem composed_escrowRelease (h : [] ⊆ l) :
    Composed l (escrowRelease : Act n Unit) := by
  refine .mono h ?_
  unfold escrowRelease
  simp +decide

@[simp] theorem composed_transfer (sender receiver : String) (amount : Asset) (h : [.account
    .challenges] ++ balanceParts ⊆ l) :
    Composed l (transfer sender receiver amount : Act n Unit) := by
  refine .mono h ?_
  unfold transfer
  repeat' first
    | with_reducible apply composed_bind | with_reducible apply composed_ite | intro _
    | (solve | simp +decide)

@[simp] theorem composed_transferToVesting (sender receiver : String) (amount : Asset) (h :
    balanceParts ++ vestingParts ⊆ l) :
    Composed l (transferToVesting sender receiver amount : Act n Unit) := by
  refine .mono h ?_
  unfold transferToVesting
  repeat' first
    | with_reducible apply composed_bind | with_reducible apply composed_ite | intro _
    | (solve | simp +decide)

@[simp] theorem composed_withdrawVesting (clock : Nat) (account : String) (vestingShares : Asset)
    (h : [.account .withdrawal] ⊆ l) :
    Composed l (withdrawVesting clock account vestingShares : Act n Unit) := by
  refine .mono h ?_
  unfold withdrawVesting
  repeat' first
    | with_reducible apply composed_bind | with_reducible apply composed_ite | intro _
    | (solve | simp +decide)
    | exact composed_modifyWith fun _ _ f => by cases f <;> simp +decide

@[simp] theorem composed_setWithdrawVestingRoute (fromAccount toAccount : String) (percent : Nat)
    (autoVest : Bool) (h : [.made .withdrawVestingRoute, .gone .withdrawVestingRoute, .whole
    .withdrawVestingRoute, .account .routeCount] ⊆ l) :
    Composed l (setWithdrawVestingRoute fromAccount toAccount percent autoVest : Act n Unit) := by
  refine .mono h ?_
  unfold setWithdrawVestingRoute
  repeat' first
    | with_reducible apply composed_bind | intro _ | (solve | simp +decide) | exact composed_of_looks (looks_read _)
    | exact composed_modifyWith fun _ _ f => by cases f <;> simp +decide
    | exact composed_modifyWith fun _ _ => .inl (by decide)
    | exact .create (by decide) trivial
    | exact .remove (by decide) | split

@[simp] theorem composed_accountWitnessProxy (account proxy : String) (h : proxyParts ⊆ l) :
    Composed l (accountWitnessProxy account proxy : Act n Unit) := by
  refine .mono h ?_
  unfold accountWitnessProxy
  repeat' first
    | with_reducible apply composed_bind | with_reducible apply composed_ite | intro _
    | (solve | simp +decide)
    | exact composed_modifyWith fun _ _ f => by cases f <;> simp +decide

@[simp] theorem composed_bumpWitnessesVotedFor (acc : Nat) (delta : Nat) (h : [.account
    .witnessCount] ⊆ l) :
    Composed l (bumpWitnessesVotedFor acc delta : Act n Unit) := by
  refine .mono h ?_
  unfold bumpWitnessesVotedFor
  exact composed_modifyWith fun _ _ f => by cases f <;> simp +decide

@[simp] theorem composed_accountWitnessVote (account witness : String) (approve : Bool) (h :
    [.made .witnessVote, .gone .witnessVote, .witness .votes, .witness .virtual, .account
    .witnessCount] ⊆ l) :
    Composed l (accountWitnessVote account witness approve : Act n Unit) := by
  refine .mono h ?_
  unfold accountWitnessVote
  repeat' first
    | with_reducible apply composed_bind | intro _ | (solve | simp +decide) | exact composed_of_looks (looks_read _)
    | exact .create (by decide) trivial | exact .remove (by decide) | split

@[simp] theorem composed_customJson [Fc] (requiredBasicAuths : List String) (json : String) (h :
    [] ⊆ l) :
    Composed l (customJson requiredBasicAuths json : Act n Unit) := by
  refine .mono h ?_
  unfold customJson
  repeat' first
    | with_reducible apply composed_bind | with_reducible apply composed_ite | intro _
    | (solve | simp +decide) | with_reducible apply composed_forEach

@[simp] theorem composed_feedPublish (publisher : String) (exchangeRate : Price) (h : [.witness
    .feed] ⊆ l) :
    Composed l (feedPublish publisher exchangeRate : Act n Unit) := by
  refine .mono h ?_
  unfold feedPublish
  repeat' first
    | with_reducible apply composed_bind | intro _ | (solve | simp +decide)
    | exact composed_modifyWith fun _ _ f => by cases f <;> simp +decide

@[simp] theorem composed_convert (owner : String) (requestid : Nat) (amount : Asset) (h : [.made
    .convertRequest] ++ balanceParts ⊆ l) :
    Composed l (convert owner requestid amount : Act n Unit) := by
  refine .mono h ?_
  unfold convert
  repeat' first
    | with_reducible apply composed_bind | intro _ | (solve | simp +decide) | exact .create (by decide) trivial

@[simp] theorem composed_placeOrder (owner : String) (orderid : Nat) (amountToSell : Asset)
    (fillOrKill : Bool) (expiration : Nat) (sellPrice : Except Exn Price) (h : [.made .limitOrder]
    ++ fillParts ⊆ l) :
    Composed l
      (placeOrder owner orderid amountToSell fillOrKill expiration sellPrice : Act n Unit) := by
  refine .mono h ?_
  unfold placeOrder
  repeat' first
    | with_reducible apply composed_bind | intro _ | (solve | simp +decide) | exact .create (by decide) trivial

@[simp] theorem composed_limitOrderCreate (o : LimitOrderCreateOp) (h : [.made .limitOrder] ++
    fillParts ⊆ l) :
    Composed l (limitOrderCreate o : Act n Unit) := by
  refine .mono h ?_
  unfold limitOrderCreate
  simp +decide

@[simp] theorem composed_limitOrderCreate2 (o : LimitOrderCreate2Op) (h : [.made .limitOrder] ++
    fillParts ⊆ l) :
    Composed l (limitOrderCreate2 o : Act n Unit) := by
  refine .mono h ?_
  unfold limitOrderCreate2
  simp +decide

@[simp] theorem composed_limitOrderCancel (owner : String) (orderid : Nat) (h : cancelParts ⊆ l) :
    Composed l (limitOrderCancel owner orderid : Act n Unit) := by
  refine .mono h ?_
  unfold limitOrderCancel
  simp +decide

@[simp] theorem composed_reportOverProduction (h : [] ⊆ l) :
    Composed l (reportOverProduction : Act n Unit) := by
  refine .mono h ?_
  unfold reportOverProduction
  simp +decide

@[simp] theorem composed_challengeAuthority (challenger challenged : String) (requireOwner : Bool)
    (h : [.account .challenges] ++ balanceParts ++ vestingParts ⊆ l) :
    Composed l (challengeAuthority challenger challenged requireOwner : Act n Unit) := by
  refine .mono h ?_
  unfold challengeAuthority
  repeat' first
    | with_reducible apply composed_bind | with_reducible apply composed_ite | intro _
    | (solve | simp +decide)
    | exact composed_modifyWith fun _ _ f => by cases f <;> simp +decide

@[simp] theorem composed_proveAuthority (challenged : String) (requireOwner : Bool) (h : [.account
    .challenges] ⊆ l) :
    Composed l (proveAuthority challenged requireOwner : Act n Unit) := by
  refine .mono h ?_
  unfold proveAuthority
  repeat' first
    | with_reducible apply composed_bind | intro _ | (solve | simp +decide)
    | exact composed_modifyWith fun _ _ f => by cases f <;> simp +decide

@[simp] theorem composed_requestAccountRecovery (recoveryAccount accountToRecover : String)
    (newOwnerAuthority : Authority) (h : [.made .accountRecoveryRequest, .gone
    .accountRecoveryRequest, .whole .accountRecoveryRequest] ⊆ l) :
    Composed l
      (requestAccountRecovery recoveryAccount accountToRecover newOwnerAuthority : Act n Unit) := by
  refine .mono h ?_
  unfold requestAccountRecovery
  repeat' first
    | with_reducible apply composed_bind | intro _ | (solve | simp +decide) | exact composed_of_looks (looks_read _)
    | exact composed_modifyWith fun _ _ => .inl (by decide)
    | exact .create (by decide) trivial
    | exact .remove (by decide) | split

@[simp] theorem composed_recoverAccount (accountToRecover : String) (newOwnerAuthority
    recentOwnerAuthority : Authority) (h : [.gone .accountRecoveryRequest, .made
    .ownerAuthorityHistory, .account .owner, .account .recovery] ⊆ l) :
    Composed l
      (recoverAccount accountToRecover newOwnerAuthority recentOwnerAuthority : Act n Unit) := by
  refine .mono h ?_
  unfold recoverAccount
  repeat' first
    | with_reducible apply composed_bind | intro _ | (solve | simp +decide) | exact composed_of_looks (looks_read _)
    | exact composed_modifyWith fun _ _ f => by cases f <;> simp +decide
    | exact .remove (by decide)
    | split

@[simp] theorem composed_changeRecoveryAccount (accountToRecover newRecoveryAccount : String) (h :
    [.made .changeRecoveryAccountRequest, .gone .changeRecoveryAccountRequest, .whole
    .changeRecoveryAccountRequest] ⊆ l) :
    Composed l (changeRecoveryAccount accountToRecover newRecoveryAccount : Act n Unit) := by
  refine .mono h ?_
  unfold changeRecoveryAccount
  repeat' first
    | with_reducible apply composed_bind | intro _ | (solve | simp +decide) | exact composed_of_looks (looks_read _)
    | exact composed_modifyWith fun _ _ => .inl (by decide)
    | exact .create (by decide) trivial
    | exact .remove (by decide) | split

@[simp] theorem composed_streamingPlatformUpdate (owner url : String) (fee : Asset) (h :
    [.platform .url, .made .streamingPlatform] ++ supplyParts ⊆ l) :
    Composed l (streamingPlatformUpdate owner url fee : Act n Unit) := by
  refine .mono h ?_
  unfold streamingPlatformUpdate
  repeat' first
    | with_reducible apply composed_bind | intro _ | (solve | simp +decide) | exact composed_of_looks (looks_read _)
    | exact composed_modifyWith fun _ _ f => by cases f <;> simp +decide
    | exact .create (by decide) (by simp [Blank])
    | split

@[simp] theorem composed_streamingPlatformReport (o : StreamingPlatformReportOp) (h : [.made
    .report, .account .listening, .content .plays] ⊆ l) :
    Composed l (streamingPlatformReport o : Act n Unit) := by
  refine .mono h ?_
  unfold streamingPlatformReport
  repeat' first
    | with_reducible apply composed_bind | with_reducible apply composed_ite | intro _
    | (solve | simp +decide)
    | exact composed_of_looks (looks_get _ _)
    | exact composed_modifyWith fun _ _ f => by cases f <;> simp +decide
    | exact .create (by decide) trivial

@[simp] theorem composed_bumpPlatformsVotedFor (acc : Nat) (delta : Nat) (h : [.account
    .platformCount] ⊆ l) :
    Composed l (bumpPlatformsVotedFor acc delta : Act n Unit) := by
  refine .mono h ?_
  unfold bumpPlatformsVotedFor
  exact composed_modifyWith fun _ _ f => by cases f <;> simp +decide

@[simp] theorem composed_accountStreamingPlatformVote (account streamingPlatform : String)
    (approve : Bool) (h : [.made .streamingPlatformVote, .gone .streamingPlatformVote, .platform
    .votes, .account .platformCount] ⊆ l) :
    Composed l (accountStreamingPlatformVote account streamingPlatform approve : Act n Unit) := by
  refine .mono h ?_
  unfold accountStreamingPlatformVote
  repeat' first
    | with_reducible apply composed_bind | intro _ | (solve | simp +decide) | exact composed_of_looks (looks_read _)
    | exact .create (by decide) trivial | exact .remove (by decide) | split

@[simp] theorem composed_addSecondLevel (whose : List Nat) (who : Nat) (h : [.account .friends,
    .account .score] ⊆ l) :
    Composed l (addSecondLevel whose who : Act n Unit) := by
  refine .mono h ?_
  unfold addSecondLevel
  repeat' first
    | with_reducible apply composed_bind | intro _ | (solve | simp +decide)
    | exact composed_modifyWith fun _ _ f => by cases f <;> simp +decide
    | with_reducible apply composed_forEach

@[simp] theorem composed_befriend (who whom : Nat) (theirs : List Nat) (h : [.account .friends,
    .account .score] ⊆ l) :
    Composed l (befriend who whom theirs : Act n Unit) := by
  refine .mono h ?_
  unfold befriend
  repeat' first
    | with_reducible apply composed_bind
    | (solve | simp +decide)
    | exact composed_modifyWith fun _ _ f => by cases f <;> simp +decide

@[simp] theorem composed_friendship (who whom : String) (h : [.account .friends, .account .score]
    ⊆ l) :
    Composed l (friendship who whom : Act n Unit) := by
  refine .mono h ?_
  unfold friendship
  repeat' first
    | with_reducible apply composed_bind | with_reducible apply composed_ite | intro _
    | (solve | simp +decide)
    | exact composed_modifyWith fun _ _ f => by cases f <;> simp +decide

@[simp] theorem composed_rebuildSecondLevel (acc : Nat) (h : [.account .friends] ⊆ l) :
    Composed l (rebuildSecondLevel acc : Act n Unit) := by
  refine .mono h ?_
  unfold rebuildSecondLevel
  repeat' first
    | with_reducible apply composed_bind | intro _ | (solve | simp +decide)
    | exact composed_modifyWith fun _ _ f => by cases f <;> simp +decide

@[simp] theorem composed_dropFriend (who whom : Nat) (h : [.account .friends] ⊆ l) :
    Composed l (dropFriend who whom : Act n Unit) := by
  refine .mono h ?_
  unfold dropFriend
  exact composed_modifyWith fun _ _ f => by cases f <;> simp +decide

@[simp] theorem composed_rebuildFriendsOf (acc : Nat) (h : [.account .friends, .account .score] ⊆
    l) :
    Composed l (rebuildFriendsOf acc : Act n Unit) := by
  refine .mono h ?_
  unfold rebuildFriendsOf
  repeat' first
    | with_reducible apply composed_bind | with_reducible apply composed_forEach | intro _
    | (solve | simp +decide)

@[simp] theorem composed_unfriend (who whom : String) (h : [.account .friends, .account .score] ⊆
    l) :
    Composed l (unfriend who whom : Act n Unit) := by
  refine .mono h ?_
  unfold unfriend
  repeat' first
    | with_reducible apply composed_bind | with_reducible apply composed_ite | intro _
    | (solve | simp +decide)
    | exact composed_modifyWith fun _ _ f => by cases f <;> simp +decide

@[simp] theorem composed_content [Fc] (o : ContentOp) (h : [.made .content] ⊆ l) :
    Composed l (content o : Act n Unit) := by
  refine .mono h ?_
  unfold content
  repeat' first
    | with_reducible apply composed_bind | intro _ | (solve | simp +decide) | exact composed_of_looks (looks_read _)
    | exact .create (by decide) ⟨rfl, rfl, rfl⟩ | split

theorem updateContent_same (o : ContentUpdateOp) (hf2 : Bool) (now : Nat) (c : Content) :
    Same (.content .terms :: l) .content c (updateContent o hf2 now c) := by
  intro f
  unfold updateContent updateMaster updateComp
  cases f with
  | terms => exact .inl (List.mem_cons_self ..)
  | _ => exact .inr (by simp only [Content.view]; (repeat' split) <;> rfl)

@[simp] theorem composed_contentUpdate [Fc] (o : ContentUpdateOp)
    (h : .content .terms :: contentSideParts ⊆ l) :
    Composed l (contentUpdate o : Act n Unit) := by
  refine .mono h ?_
  unfold contentUpdate
  repeat' first
    | with_reducible apply composed_bind | intro _ | (solve | simp +decide) | exact composed_of_looks (looks_get _ _)
    | exact composed_modify fun c => updateContent_same o _ _ c
    | split

@[simp] theorem composed_contentDisable (url : String) (h : [.content .disabled] ⊆ l) :
    Composed l (contentDisable url : Act n Unit) := by
  refine .mono h ?_
  unfold contentDisable
  repeat' first
    | with_reducible apply composed_bind | intro _ | (solve | simp +decide) | exact composed_of_looks (looks_get _ _)
    | exact composed_modifyWith fun _ _ f => by cases f <;> simp +decide

@[simp] theorem composed_contentApprove (approver url : String) (h : [.made .contentApprove] ⊆ l) :
    Composed l (contentApprove approver url : Act n Unit) := by
  refine .mono h ?_
  unfold contentApprove
  repeat' first
    | with_reducible apply composed_bind | intro _ | (solve | simp +decide) | exact composed_of_looks (looks_get _ _)
    | exact .create (by decide) trivial

@[simp] theorem composed_vote (o : VoteOp) (h : [.account .voteTime, .made .contentVote, .whole
    .contentVote] ⊆ l) :
    Composed l (vote o : Act n Unit) := by
  refine .mono h ?_
  unfold vote
  repeat' first
    | with_reducible apply composed_bind | intro _ | (solve | simp +decide) | exact composed_of_looks (looks_get _ _)
    | exact composed_of_looks (looks_read _)
    | exact composed_modifyWith fun _ _ f => by cases f <;> simp +decide
    | exact composed_modifyWith fun _ _ => .inl (by decide)
    | exact .create (by decide) trivial | split

@[simp] theorem composed_balanceClaim [Fc] (o : BalanceClaimOp) (h : [.whole .balance, .gone
    .balance] ++ balanceParts ⊆ l) :
    Composed l (balanceClaim o : Act n Unit) := by
  refine .mono h ?_
  unfold balanceClaim
  repeat' first
    | with_reducible apply composed_bind | with_reducible apply composed_ite | intro _
    | (solve | simp +decide)
    | exact composed_of_looks (looks_get _ _)
    | exact composed_modifyWith fun _ _ => .inl (by decide)
    | exact .remove (by decide)

@[simp] theorem composed_assetCreate (o : AssetCreateOp) (h : [.made .asset] ⊆ l) :
    Composed l (assetCreate o : Act n Unit) := by
  refine .mono h ?_
  unfold assetCreate
  repeat' first
    | with_reducible apply composed_bind | intro _ | (solve | simp +decide) | exact .create (by decide) (by simp [Blank])
    | split

@[simp] theorem composed_changeAssetSupply (i : Nat) (delta : Int) (h : [.asset .supply] ⊆ l) :
    Composed l (changeAssetSupply i delta : Act n Unit) := by
  refine .mono h ?_
  unfold changeAssetSupply
  exact composed_modifyWith fun _ _ f => by cases f <;> simp +decide

@[simp] theorem composed_assetIssue (issuer : String) (assetToIssue : Asset) (issueToAccount :
    String) (h : [.asset .supply] ++ balanceParts ⊆ l) :
    Composed l (assetIssue issuer assetToIssue issueToAccount : Act n Unit) := by
  refine .mono h ?_
  unfold assetIssue
  repeat' first | with_reducible apply composed_bind | intro _ | (solve | simp +decide)

@[simp] theorem composed_assetReserve (payer : String) (amountToReserve : Asset) (h : [.asset
    .supply] ++ balanceParts ⊆ l) :
    Composed l (assetReserve payer amountToReserve : Act n Unit) := by
  refine .mono h ?_
  unfold assetReserve
  repeat' first | with_reducible apply composed_bind | intro _ | (solve | simp +decide)

@[simp] theorem composed_assetUpdate (o : AssetUpdateOp) (h : [.asset .options] ⊆ l) :
    Composed l (assetUpdate o : Act n Unit) := by
  refine .mono h ?_
  unfold assetUpdate
  repeat' first
    | with_reducible apply composed_bind | intro _ | (solve | simp +decide)
    | exact composed_modifyWith fun _ _ f => by cases f <;> simp +decide
    | split

/-! ## 7. Transactions and blocks -/

@[simp] theorem composed_updateAccountBandwidth (acc trxSize : Nat) (h : [.account .bandwidth] ⊆
    l) :
    Composed l (updateAccountBandwidth acc trxSize : Act n Unit) := by
  refine .mono h ?_
  unfold updateAccountBandwidth
  repeat' first
    | with_reducible apply composed_bind | with_reducible apply composed_ite | intro _
    | (solve | simp +decide)
    | exact composed_modifyWith fun _ _ f => by cases f <;> simp +decide

@[simp] theorem composed_updateAccountMarketBandwidth (acc trxSize : Nat) (h : [.account
    .bandwidth] ⊆ l) :
    Composed l (updateAccountMarketBandwidth acc trxSize : Act n Unit) := by
  refine .mono h ?_
  unfold updateAccountMarketBandwidth
  repeat' first
    | with_reducible apply composed_bind | with_reducible apply composed_ite | intro _
    | (solve | simp +decide)
    | exact composed_modifyWith fun _ _ f => by cases f <;> simp +decide

@[simp] theorem composed_chargeBandwidth [Fc] (trx : Transaction) (h : [.account .bandwidth] ⊆ l) :
    Composed l (chargeBandwidth trx : Act n Unit) := by
  refine .mono h ?_
  unfold chargeBandwidth
  repeat' first
    | with_reducible apply composed_bind | intro _ | (solve | simp +decide)
    | with_reducible apply composed_forEach

@[simp] theorem composed_processHeaderExtensions (b : SignedBlock) (h : [.witness .version,
    .witness .hardforkVote] ⊆ l) :
    Composed l (processHeaderExtensions b : Act n Unit) := by
  refine .mono h ?_
  unfold processHeaderExtensions
  repeat' first
    | with_reducible apply composed_bind | intro _ | (solve | simp +decide) | exact composed_of_looks (looks_get _ _)
    | exact composed_modifyWith fun _ _ f => by cases f <;> simp +decide
    | with_reducible apply composed_forEach
    | split

@[simp] theorem composed_countMissed (b : SignedBlock) (i : Nat) (h : [.witness .missed, .witness
    .signing] ⊆ l) :
    Composed l (countMissed b i : Act n Unit) := by
  refine .mono h ?_
  unfold countMissed
  repeat' first
    | with_reducible apply composed_bind | with_reducible apply composed_ite | intro _
    | (solve | simp +decide)
    | exact composed_modifyWith fun _ _ f => by cases f <;> simp +decide

@[simp] theorem composed_payBlock (h : payBlockParts ⊆ l) :
    Composed l (payBlock : Act n Unit) := by
  refine .mono h ?_
  unfold payBlock
  repeat' first
    | with_reducible apply composed_bind | with_reducible apply composed_ite | intro _
    | (solve | simp +decide)

@[simp] theorem composed_updateGlobalDynamicData [Fc] (skip : Skip) (b : SignedBlock)
    (h : headParts ⊆ l) : Composed l (updateGlobalDynamicData skip b : Act n Unit) := by
  refine .mono h ?_
  unfold updateGlobalDynamicData
  repeat' first
    | with_reducible apply composed_bind | with_reducible apply composed_ite | intro _
    | (solve | simp +decide)
    | exact .modifyWith fun _ _ e f => by cases e; cases f <;> simp +decide [nextProperties]

@[simp] theorem composed_updateSigningWitness [Fc] (wit : Nat) (b : SignedBlock)
    (h : [.witness .aslot, .witness .confirmed] ⊆ l) :
    Composed l (updateSigningWitness wit b : Act n Unit) := by
  refine .mono h ?_
  unfold updateSigningWitness
  repeat' first
    | with_reducible apply composed_bind | intro _ | (solve | simp +decide)
    | exact composed_modifyWith fun _ _ f => by cases f <;> simp +decide

@[simp] theorem composed_updateLastIrreversibleBlock (h : [.props .irreversible] ⊆ l) :
    Composed l (updateLastIrreversibleBlock : Act n Unit) := by
  refine .mono h ?_
  unfold updateLastIrreversibleBlock
  repeat' first
    | with_reducible apply composed_bind | with_reducible apply composed_ite
    | with_reducible apply composed_foldEach | intro _ | (solve | simp +decide)
    | exact composed_modifyWith fun _ _ f => by cases f <;> simp +decide
    | dsimp only
    | split

@[simp] theorem composed_createBlockSummary [Fc] (b : SignedBlock) (h : [.whole .blockSummary] ⊆ l) :
    Composed l (createBlockSummary b : Act n Unit) := by
  refine .mono h ?_
  exact composed_modify fun _ => .inl (by decide)

@[simp] theorem composed_clearExpiredTransactions (h : [.gone .transaction] ⊆ l) :
    Composed l (clearExpiredTransactions : Act n Unit) := by
  refine .mono h ?_
  unfold clearExpiredTransactions
  repeat' first
    | with_reducible apply composed_bind | intro _ | (solve | simp +decide)
    | exact composed_of_looks (looks_read _)
    | with_reducible apply composed_forEach | exact .remove (by decide)

/-! ## 8. Proposals -/

@[simp] theorem composed_proposalDelete (proposal : Nat) (vetoer : String) (h : [.gone .proposal]
    ⊆ l) :
    Composed l (proposalDelete proposal vetoer : Act n Unit) := by
  refine .mono h ?_
  unfold proposalDelete
  repeat' first
    | with_reducible apply composed_bind | intro _ | (solve | simp +decide) | exact composed_of_looks (looks_get _ _)
    | exact .remove (by decide)

@[simp] theorem composed_proposalCreate [Fc] (proposedOps : List Operation) (expirationTime : Nat)
    (reviewPeriodSeconds : Option Nat) (h : [.made .proposal] ⊆ l) :
    Composed l (proposalCreate proposedOps expirationTime reviewPeriodSeconds : Act n Unit) := by
  refine .mono h ?_
  unfold proposalCreate
  repeat' first
    | with_reducible apply composed_bind | with_reducible apply composed_ite | intro _
    | (solve | simp +decide) | exact .create (by decide) trivial

@[simp] theorem composed_removeExpiredProposals (h : [.gone .proposal] ⊆ l) :
    Composed l (removeExpiredProposals : Act n Unit) := by
  refine .mono h ?_
  unfold removeExpiredProposals
  repeat' first
    | with_reducible apply composed_bind | intro _ | (solve | simp +decide) | exact composed_of_looks (looks_read _)
    | with_reducible apply composed_forEach | exact .remove (by decide)

@[simp] theorem composed_applyHardfork (hardfork : Nat) (h : hardforkParts ⊆ l) :
    Composed l (applyHardfork hardfork : Act n Unit) := by
  refine .mono h ?_
  unfold applyHardfork
  repeat' first
    | with_reducible apply composed_bind | intro _ | (solve | simp +decide)
    | exact composed_modifyWith fun _ _ => .inl (by decide)
    | split

@[simp] theorem composed_hardforkEach (turns : Nat) (h : hardforkParts ⊆ l) :
    Composed l (hardforkEach turns : Act n Unit) := by
  refine .mono h ?_
  induction turns with
  | zero => exact composed_of_looks (looks_throw _)
  | succ _ ih =>
    unfold hardforkEach
    repeat' first
      | with_reducible apply composed_bind | with_reducible apply composed_ite | intro _
      | (solve | simp +decide) | exact ih

@[simp] theorem composed_processHardforks (h : hardforkParts ⊆ l) :
    Composed l (processHardforks : Act n Unit) := by
  refine .mono h ?_
  exact composed_hardforkEach _ (by decide)

/-! ## 9. Operations -/

/-- What the evaluator of an operation writes to, but for the proposals that an approval executes. -/
def Operation.parts : Operation → List Part
  | .vote _ => [.account .voteTime, .made .contentVote, .whole .contentVote]
  | .content _ => [.made .content]
  | .contentUpdate _ => .content .terms :: contentPayParts
  | .contentApprove _ _ => [.made .contentApprove]
  | .contentDisable _ => [.content .disabled]
  | .transfer _ _ _ _ => .account .challenges :: balanceParts
  | .transferToVesting _ _ _ => balanceParts ++ vestingParts
  | .withdrawVesting _ _ => [.account .withdrawal]
  | .limitOrderCreate _ => .made .limitOrder :: fillParts
  | .limitOrderCreate2 _ => .made .limitOrder :: fillParts
  | .limitOrderCancel _ _ => cancelParts
  | .feedPublish _ _ => [.witness .feed]
  | .convert _ _ _ => .made .convertRequest :: balanceParts
  | .accountCreate _ => accountCreateParts
  | .accountUpdate _ =>
      [.account .owner, .account .auths, .account .challenges, .made .ownerAuthorityHistory]
  | .witnessUpdate _ => [.witness .signing, .made .witness]
  | .accountWitnessVote _ _ _ =>
      [.made .witnessVote, .gone .witnessVote, .witness .votes, .witness .virtual,
        .account .witnessCount]
  | .accountWitnessProxy _ _ => proxyParts
  | .streamingPlatformUpdate _ _ _ => [.platform .url, .made .streamingPlatform] ++ supplyParts
  | .accountStreamingPlatformVote _ _ _ =>
      [.made .streamingPlatformVote, .gone .streamingPlatformVote, .platform .votes,
        .account .platformCount]
  | .streamingPlatformReport _ => [.made .report, .account .listening, .content .plays]
  | .assetCreate _ => [.made .asset]
  | .assetUpdate _ => [.asset .options]
  | .assetIssue _ _ _ => .asset .supply :: balanceParts
  | .assetReserve _ _ _ => .asset .supply :: balanceParts
  | .custom _ => []
  | .reportOverProduction _ _ _ => []
  | .customJson _ _ _ _ => []
  | .setWithdrawVestingRoute _ _ _ _ =>
      [.made .withdrawVestingRoute, .gone .withdrawVestingRoute, .whole .withdrawVestingRoute,
        .account .routeCount]
  | .challengeAuthority _ _ _ => .account .challenges :: balanceParts ++ vestingParts
  | .proveAuthority _ _ => [.account .challenges]
  | .requestAccountRecovery _ _ _ =>
      [.made .accountRecoveryRequest, .gone .accountRecoveryRequest,
        .whole .accountRecoveryRequest]
  | .recoverAccount _ _ _ =>
      [.gone .accountRecoveryRequest, .made .ownerAuthorityHistory, .account .owner,
        .account .recovery]
  | .changeRecoveryAccount _ _ =>
      [.made .changeRecoveryAccountRequest, .gone .changeRecoveryAccountRequest,
        .whole .changeRecoveryAccountRequest]
  | .escrowTransfer _ => []
  | .escrowDispute _ => []
  | .escrowRelease _ => []
  | .proposalCreate _ _ _ => [.made .proposal]
  | .proposalUpdate _ => []
  | .proposalDelete _ _ _ => [.gone .proposal]
  | .virtualOp _ => []
  | .friendship _ _ => [.account .friends, .account .score]
  | .unfriend _ _ => [.account .friends, .account .score]
  | .balanceClaim _ => [.whole .balance, .gone .balance] ++ balanceParts

/-- Whether an operation approves proposals, and so may execute them. -/
def Operation.approves : Operation → Bool
  | .proposalUpdate _ => true
  | _ => false

/-- **Every evaluator writes to the parts of its operation only.** -/
theorem composed_evaluate [Fc] (clock : Nat) (push : Nat → Act n Unit) {op : Operation}
    (h : op.approves = false) : Composed op.parts (evaluate clock push op) := by
  cases op with
  | proposalUpdate o => cases h
  | _ => simp +decide [evaluate, Operation.parts]

end MuseChain
