/-
  File:      MuseChain/Safety/Licences.lean
  Subject:   What evaluators and the steps of block processing may touch.

  One licence says it for all of them (`licence`): no step but the two that are about it touches
  the transactions that were seen, none but the end of a block moves the head, and proposals keep
  the operations they were made with. The proofs follow the programs statement by statement.
-/
import MuseChain.Db.Agree
import MuseChain.Safety.Frames

namespace MuseChain

variable {n : Nat}

/-! ## 1. The licence -/

/-- The part of the global properties that only the end of a block changes. -/
structure Anchor where
  head : Head
  time : Nat
  maximumProposalLifetime : Nat

def DynamicGlobalProperty.anchor (p : DynamicGlobalProperty) : Anchor :=
  ⟨p.head, p.time, p.maximumProposalLifetime⟩

/-- The indexes that any evaluator may change as it likes. -/
def Kind.isPlain : Kind → Bool
  | .transaction | .proposal | .dynamicGlobalProperty | .blockSummary | .witness => false
  | _ => true

/-- The indexes whose objects may be dropped when a modifier throws. -/
def Kind.isLoose : Kind → Bool
  | .transaction | .proposal | .dynamicGlobalProperty | .blockSummary => false
  | _ => true

theorem Kind.isLoose_of_isPlain {k : Kind} (h : k.isPlain = true) : k.isLoose = true := by
  cases k with
  | transaction | proposal | dynamicGlobalProperty | blockSummary => exact h
  | _ => rfl

/-- What evaluators may do: they never touch the transactions that were seen, the block summaries,
where the chain is and which blocks the witnesses confirmed. `make` says which proposals they may
create, `touch` of which they may change the approvals and which they may remove. -/
def licence (make : Proposal → Prop) (touch : Nat → Prop) : Licence chainSchema where
  create
    | .proposal => make
    | .witness => fun w => w.lastConfirmedBlockNum = 0
    | k => fun _ => k.isPlain = true
  modify
    | .proposal => fun i p q => touch i ∧ p.proposedTransaction = q.proposedTransaction
    | .dynamicGlobalProperty => fun _ p q => p.anchor = q.anchor
    | .witness => fun _ w v => w.lastConfirmedBlockNum = v.lastConfirmedBlockNum
    | k => fun _ _ _ => k.isPlain = true
  remove
    | .proposal => fun i _ => touch i
    | k => fun _ _ => k.isPlain = true
  spoil k := k.isLoose = true

theorem licence_le {make make' : Proposal → Prop} {touch touch' : Nat → Prop}
    (hm : ∀ p, make p → make' p) (ht : ∀ i, touch i → touch' i) :
    (licence make touch).Le (licence make' touch') where
  create {k a} h := by
    cases k with
    | proposal => exact hm a h
    | _ => exact h
  modify {k i a b} h := by
    cases k with
    | proposal => exact ⟨ht i h.1, h.2⟩
    | _ => exact h
  remove {k i a} h := by
    cases k with
    | proposal => exact ht i h
    | _ => exact h
  spoil h := h

section

variable {make : Proposal → Prop} {touch : Nat → Prop} {α β : Type}

theorem within_create_plain {k : Kind} {a : k.Object} (hk : k.isPlain = true) :
    Within (licence make touch) (Action.create (S := chainSchema) k a : Act n Nat) := by
  refine within_create ?_
  cases k with
  | proposal | witness => cases hk
  | _ => exact hk

theorem within_remove_plain {k : Kind} {i : Nat} (hk : k.isPlain = true) :
    Within (licence make touch) (Action.remove (S := chainSchema) k i : Act n Unit) := by
  refine within_remove fun a => ?_
  cases k with
  | proposal => cases hk
  | _ => exact hk

theorem licence_modify_plain {k : Kind} (hk : k.isPlain = true) (i : Nat) (a b : k.Object) :
    (licence make touch).modify k i a b := by
  cases k with
  | proposal | dynamicGlobalProperty | witness => cases hk
  | _ => exact hk

theorem within_modifyWith_plain {k : Kind} {i : Nat} {f : k.Object → Except Exn β}
    {upd : k.Object → β → k.Object} {hkey : ∀ a b, chainSchema.SameKey k a (upd a b)}
    (hk : k.isPlain = true) :
    Within (licence make touch)
      (Action.modifyWith (S := chainSchema) k i f upd hkey : Act n Unit) :=
  within_modifyWith (.inl (Kind.isLoose_of_isPlain hk)) (.inl (.inl (Kind.isLoose_of_isPlain hk)))
    fun a b _ => licence_modify_plain hk i a (upd a b)

theorem within_modifyNested_plain {k : Kind} {i : Nat} {body : k.Object → Act n β}
    {upd : k.Object → β → k.Object} {hkey : ∀ a b, chainSchema.SameKey k a (upd a b)}
    (hk : k.isPlain = true) (hb : ∀ a, Within (licence make touch) (body a)) :
    Within (licence make touch)
      (Action.modifyNested (S := chainSchema) k i body upd hkey : Act n Unit) :=
  within_modifyNested (.inl (Kind.isLoose_of_isPlain hk)) (.inl (Kind.isLoose_of_isPlain hk)) hb
    fun a b => licence_modify_plain hk i a (upd a b)

/-- The block that a witness confirmed last stays. -/
theorem within_modifyWith_witness {i : Nat} {f : Witness → Except Exn β}
    {upd : Witness → β → Witness} {hkey : ∀ a b, chainSchema.SameKey Kind.witness a (upd a b)}
    (h : ∀ w x, w.lastConfirmedBlockNum = (upd w x).lastConfirmedBlockNum) :
    Within (licence make touch)
      (Action.modifyWith (S := chainSchema) Kind.witness i f upd hkey : Act n Unit) :=
  within_modifyWith (.inl rfl) (.inl (.inl rfl)) fun w x _ => h w x

theorem within_modify_witness {i : Nat} {upd : Witness → Witness}
    {hkey : ∀ a, chainSchema.SameKey Kind.witness a (upd a)}
    (h : ∀ w, w.lastConfirmedBlockNum = (upd w).lastConfirmedBlockNum) :
    Within (licence make touch)
      (Action.modify (S := chainSchema) Kind.witness i upd hkey : Act n Unit) :=
  within_modify (.inl rfl) h

/-- The counters of the chain's global object. -/
theorem within_modifyDgp {f : DynamicGlobalProperty → Except Exn β}
    {upd : DynamicGlobalProperty → β → DynamicGlobalProperty}
    (h : ∀ p x, p.anchor = (upd p x).anchor) :
    Within (licence make touch) (modifyDgp f upd : Act n Unit) :=
  within_modifyWith (.inr rfl) (.inl (.inr rfl)) fun p x _ => h p x

end

section

variable {make : Proposal → Prop} {touch : Nat → Prop}

/-! ## 2. Balances, votes, scores -/

@[simp] theorem within_mintInterest (interestPaid : Asset) :
    Within (licence make touch) (mintInterest interestPaid : Act n Unit) := by
  unfold mintInterest
  repeat' first
    | with_reducible apply within_bind | intro _ | (solve | simp)
    | exact within_modifyDgp fun _ _ => rfl

@[simp] theorem within_adjustMuseBalance (acc : Nat) (delta : Asset) :
    Within (licence make touch) (adjustMuseBalance acc delta : Act n Unit) := by
  unfold adjustMuseBalance
  exact within_modifyWith_plain rfl

@[simp] theorem within_adjustMbdBalance (acc : Nat) (delta : Asset) :
    Within (licence make touch) (adjustMbdBalance acc delta : Act n Unit) := by
  unfold adjustMbdBalance
  repeat' first
    | with_reducible apply within_bind | with_reducible apply within_ite | intro _
    | (solve | simp) | apply within_modifyNested_plain rfl

@[simp] theorem within_adjustAssetBalance (acc : Nat) (delta : Asset) :
    Within (licence make touch) (adjustAssetBalance acc delta : Act n Unit) := by
  unfold adjustAssetBalance
  repeat' first
    | with_reducible apply within_bind | intro _ | (solve | simp)
    | exact within_modifyWith_plain rfl | exact within_create_plain rfl | split

@[simp] theorem within_adjustBalance (acc : Nat) (delta : Asset) :
    Within (licence make touch) (adjustBalance acc delta : Act n Unit) := by
  unfold adjustBalance
  simp

@[simp] theorem within_adjustSupply (delta : Asset) (adjustVesting : Bool) :
    Within (licence make touch) (adjustSupply delta adjustVesting : Act n Unit) := by
  unfold adjustSupply
  repeat' first
    | with_reducible apply within_bind | intro _ | (solve | simp)
    | exact within_modifyDgp fun _ _ => rfl

@[simp] theorem within_payFee (acc : Nat) (fee : Asset) :
    Within (licence make touch) (payFee acc fee : Act n Unit) := by
  unfold payFee
  repeat' first
    | with_reducible apply within_bind | with_reducible apply within_ite | intro _
    | (solve | simp)

@[simp] theorem within_createMbd (toAccount : Nat) (muse : Asset) :
    Within (licence make touch) (createMbd toAccount muse : Act n Asset) := by
  unfold createMbd
  repeat' first
    | with_reducible apply within_bind | with_reducible apply within_ite | intro _
    | (solve | simp)

@[simp] theorem within_adjustWitnessVote (witness : Nat) (delta : Int) :
    Within (licence make touch) (adjustWitnessVote witness delta : Act n Unit) := by
  unfold adjustWitnessVote
  repeat' first
    | with_reducible apply within_bind | intro _ | (solve | simp)
    | exact within_modifyWith_witness fun _ _ => rfl

@[simp] theorem within_adjustWitnessVotes (acc : Nat) (delta : Int) :
    Within (licence make touch) (adjustWitnessVotes acc delta : Act n Unit) := by
  unfold adjustWitnessVotes
  simp

@[simp] theorem within_adjustStreamingPlatformVote (sp : Nat) (delta : Int) :
    Within (licence make touch) (adjustStreamingPlatformVote sp delta : Act n Unit) := by
  unfold adjustStreamingPlatformVote
  repeat' first
    | with_reducible apply within_bind | intro _ | (solve | simp)
    | exact within_modifyWith_plain rfl

@[simp] theorem within_adjustStreamingPlatformVotes (acc : Nat) (delta : Int) :
    Within (licence make touch) (adjustStreamingPlatformVotes acc delta : Act n Unit) := by
  unfold adjustStreamingPlatformVotes
  simp

@[simp] theorem within_adjustProxiedFrom (left : Nat) (acc : Nat) (delta : Int) :
    Within (licence make touch) (adjustProxiedFrom left acc delta : Act n Unit) := by
  induction left generalizing acc delta with
  | zero =>
    unfold adjustProxiedFrom
    repeat' first
      | with_reducible apply within_bind | with_reducible apply within_ite | intro _
      | (solve | simp)
  | succ _ ih =>
    unfold adjustProxiedFrom
    repeat' first
      | with_reducible apply within_bind | with_reducible apply within_ite | intro _
      | (solve | simp) | exact ih _ _ | exact within_modifyWith_plain rfl

@[simp] theorem within_adjustProxiedWitnessVotes (acc : Nat) (delta : Int) :
    Within (licence make touch) (adjustProxiedWitnessVotes acc delta : Act n Unit) := by
  unfold adjustProxiedWitnessVotes
  simp

@[simp] theorem within_adjustProxiedDeltasFrom (left : Nat) (acc : Nat) (deltas : List Int) :
    Within (licence make touch) (adjustProxiedDeltasFrom left acc deltas : Act n Unit) := by
  induction left generalizing acc deltas with
  | zero =>
    unfold adjustProxiedDeltasFrom
    repeat' first
      | with_reducible apply within_bind | with_reducible apply within_ite | intro _
      | (solve | simp)
  | succ _ ih =>
    unfold adjustProxiedDeltasFrom
    repeat' first
      | with_reducible apply within_bind | with_reducible apply within_ite | intro _
      | (solve | simp) | exact ih _ _ | exact within_modifyWith_plain rfl

@[simp] theorem within_adjustProxiedWitnessDeltas (acc : Nat) (deltas : List Int) :
    Within (licence make touch) (adjustProxiedWitnessDeltas acc deltas : Act n Unit) := by
  unfold adjustProxiedWitnessDeltas
  simp

@[simp] theorem within_clearWitnessVotes (acc : Nat) :
    Within (licence make touch) (clearWitnessVotes acc : Act n Unit) := by
  unfold clearWitnessVotes
  repeat' first
    | with_reducible apply within_bind | intro _ | (solve | simp)
    | exact within_modifyWith_plain rfl | exact within_remove_plain rfl
    | with_reducible apply within_forEach

@[simp] theorem within_clearStreamingPlatformVotes (acc : Nat) :
    Within (licence make touch) (clearStreamingPlatformVotes acc : Act n Unit) := by
  unfold clearStreamingPlatformVotes
  repeat' first
    | with_reducible apply within_bind | intro _ | (solve | simp)
    | exact within_modifyWith_plain rfl | exact within_remove_plain rfl
    | with_reducible apply within_forEach

@[simp] theorem within_bumpScore (acc : Nat) (delta : Int) :
    Within (licence make touch) (bumpScore acc delta : Act n Unit) := by
  unfold bumpScore
  exact within_modifyWith_plain rfl

@[simp] theorem within_recursiveRecalculateScore (acc : Nat) (delta : Int) :
    Within (licence make touch) (recursiveRecalculateScore acc delta : Act n Unit) := by
  unfold recursiveRecalculateScore
  repeat' first
    | with_reducible apply within_bind | intro _ | (solve | simp)
    | with_reducible apply within_forEach

@[simp] theorem within_recalculateScore (acc : Nat) :
    Within (licence make touch) (recalculateScore acc : Act n Unit) := by
  unfold recalculateScore
  repeat' first
    | with_reducible apply within_bind | intro _ | (solve | simp)
    | exact within_modifyWith_plain rfl

@[simp] theorem within_createVesting (toAccount : Nat) (muse : Asset) :
    Within (licence make touch) (createVesting toAccount muse : Act n Asset) := by
  unfold createVesting
  repeat' first
    | with_reducible apply within_bind | intro _ | (solve | simp)
    | exact within_modifyWith_plain rfl | exact within_modifyDgp fun _ _ => rfl

@[simp] theorem within_updateOwnerAuthority (acc : Nat) (ownerAuthority : Authority) :
    Within (licence make touch) (updateOwnerAuthority acc ownerAuthority : Act n Unit) := by
  unfold updateOwnerAuthority
  repeat' first
    | with_reducible apply within_bind | with_reducible apply within_ite | intro _
    | (solve | simp) | exact within_modifyWith_plain rfl | exact within_create_plain rfl

/-! ## 3. The market -/

@[simp] theorem within_cancelOrder (order : Nat) :
    Within (licence make touch) (cancelOrder order : Act n Unit) := by
  unfold cancelOrder
  repeat' first
    | with_reducible apply within_bind | intro _ | (solve | simp) | exact (looks_get _ _).within
    | exact within_remove_plain rfl

@[simp] theorem within_fillOrder (order : Nat) (pays receives : Asset) :
    Within (licence make touch) (fillOrder order pays receives : Act n Bool) := by
  unfold fillOrder
  repeat' first
    | with_reducible apply within_bind | with_reducible apply within_ite | intro _
    | (solve | simp) | exact (looks_get _ _).within | exact within_modifyWith_plain rfl
    | exact within_remove_plain rfl

@[simp] theorem within_matchOrders (newOrder oldOrder : Nat) (matchPrice : Price) :
    Within (licence make touch)
      (matchOrders newOrder oldOrder matchPrice : Act n (Bool × Bool)) := by
  unfold matchOrders
  repeat' first
    | with_reducible apply within_bind | intro _ | (solve | simp) | exact (looks_get _ _).within

@[simp] theorem within_matchEach (newOrder : Nat) (orders : List (Nat × LimitOrder)) :
    Within (licence make touch) (matchEach newOrder orders : Act n Unit) := by
  induction orders with
  | nil =>
    unfold matchEach
    simp
  | cons _ _ ih =>
    unfold matchEach
    repeat' first
      | with_reducible apply within_bind | with_reducible apply within_ite | intro _
      | (solve | simp) | exact ih

@[simp] theorem within_applyOrder (order : Nat) :
    Within (licence make touch) (applyOrder order : Act n Bool) := by
  unfold applyOrder
  repeat' first
    | with_reducible apply within_bind | intro _ | (solve | simp) | exact (looks_get _ _).within

@[simp] theorem within_clearExpiredOrders :
    Within (licence make touch) (clearExpiredOrders : Act n Unit) := by
  unfold clearExpiredOrders
  repeat' first
    | with_reducible apply within_bind | intro _ | (solve | simp) | exact (looks_read _).within

/-! ## 4. Rewards and withdrawals -/

@[simp] theorem within_getProducerReward :
    Within (licence make touch) (getProducerReward : Act n Asset) := by
  unfold getProducerReward
  repeat' first
    | with_reducible apply within_bind | with_reducible apply within_ite | intro _
    | (solve | simp) | exact within_modifyWith_plain rfl

@[simp] theorem within_processFunds (contentReward witnessPay vestingReward : Asset) :
    Within (licence make touch)
      (processFunds contentReward witnessPay vestingReward : Act n Unit) := by
  unfold processFunds
  exact within_modifyDgp fun _ _ => rfl

@[simp] theorem within_adjustFunds (contentReward paidToContent : Asset) :
    Within (licence make touch) (adjustFunds contentReward paidToContent : Act n Unit) := by
  unfold adjustFunds
  repeat' first
    | with_reducible apply within_bind | with_reducible apply within_ite | intro _
    | (solve | simp) | exact within_modifyDgp fun _ _ => rfl

@[simp] theorem within_convertEach (price : Price) (requests : List (Nat × ConvertRequest))
    (total : Asset × Asset) :
    Within (licence make touch) (convertEach price requests total : Act n (Asset × Asset)) := by
  induction requests generalizing total with
  | nil =>
    unfold convertEach
    simp
  | cons _ _ ih =>
    unfold convertEach
    repeat' first
      | with_reducible apply within_bind | intro _ | (solve | simp) | exact ih _
      | exact within_remove_plain rfl

@[simp] theorem within_processConversions :
    Within (licence make touch) (processConversions : Act n Unit) := by
  unfold processConversions
  repeat' first
    | with_reducible apply within_bind | with_reducible apply within_ite | intro _
    | (solve | simp) | exact (looks_read _).within | exact within_modifyDgp fun _ _ => rfl

@[simp] theorem within_payDistributions (toPay : Asset) (l : List Distribution) (paid : Asset) :
    Within (licence make touch) (payDistributions toPay l paid : Act n Asset) := by
  induction l generalizing paid with
  | nil =>
    unfold payDistributions
    simp
  | cons _ _ ih =>
    unfold payDistributions
    repeat' first | with_reducible apply within_bind | intro _ | (solve | simp) | exact ih _

@[simp] theorem within_payToContentSide (side : ContentSide) (content : Nat) (payout : Asset) :
    Within (licence make touch) (payToContentSide side content payout : Act n Unit) := by
  unfold payToContentSide
  repeat' first
    | with_reducible apply within_bind | with_reducible apply within_ite | intro _
    | (solve | simp) | exact (looks_get _ _).within | exact within_modifyWith_plain rfl

@[simp] theorem within_payToContentMaster (content : Nat) (payout : Asset) :
    Within (licence make touch) (payToContentMaster content payout : Act n Unit) := by
  unfold payToContentMaster
  simp

@[simp] theorem within_payToContentComp (content : Nat) (payout : Asset) :
    Within (licence make touch) (payToContentComp content payout : Act n Unit) := by
  unfold payToContentComp
  simp

@[simp] theorem within_payToPlatform (platform : Nat) (payout : Asset) :
    Within (licence make touch) (payToPlatform platform payout : Act n Unit) := by
  unfold payToPlatform
  repeat' first
    | with_reducible apply within_bind | intro _ | (solve | simp) | exact (looks_get _ _).within

@[simp] theorem within_payToContent (content : Nat) (payout : Asset) (platform : Nat) :
    Within (licence make touch) (payToContent content payout platform : Act n Asset) := by
  unfold payToContent
  repeat' first
    | with_reducible apply within_bind | with_reducible apply within_ite | intro _
    | (solve | simp) | exact (looks_get _ _).within | exact within_modifyWith_plain rfl

@[simp] theorem within_dropListening (consumer time : Nat) :
    Within (licence make touch) (dropListening consumer time : Act n Unit) := by
  unfold dropListening
  exact within_modifyWith_plain rfl

@[simp] theorem within_cashoutEach (hf2 : Bool) (totalPayout : Asset) (customers fullTime : Nat)
    (reports : List (Nat × Report)) (paid : Asset × List (Nat × Nat)) :
    Within (licence make touch)
      (cashoutEach hf2 totalPayout customers fullTime reports paid : Act n (Asset × List (Nat × Nat))) := by
  induction reports generalizing paid with
  | nil =>
    unfold cashoutEach
    simp
  | cons _ _ ih =>
    unfold cashoutEach
    repeat' first
      | with_reducible apply within_bind | with_reducible apply within_ite | intro _
      | (solve | simp) | exact ih _ | exact within_remove_plain rfl

@[simp] theorem within_processContentCashout (contentReward : Asset) :
    Within (licence make touch) (processContentCashout contentReward : Act n Asset) := by
  unfold processContentCashout
  repeat' first
    | with_reducible apply within_bind | with_reducible apply within_ite | intro _
    | (solve | simp) | exact (looks_read _).within

@[simp] theorem within_depositVests (toWithdraw : Int)
    (routes : List (Nat × WithdrawVestingRoute)) (deposited : Int) :
    Within (licence make touch) (depositVests toWithdraw routes deposited : Act n Int) := by
  induction routes generalizing deposited with
  | nil =>
    unfold depositVests
    simp
  | cons _ _ ih =>
    unfold depositVests
    repeat' first
      | with_reducible apply within_bind | with_reducible apply within_ite | intro _
      | (solve | simp) | exact ih _ | exact within_modifyWith_plain rfl

@[simp] theorem within_takeFromVestingFund (converted : Asset) (vests : Int) :
    Within (licence make touch) (takeFromVestingFund converted vests : Act n Unit) := by
  unfold takeFromVestingFund
  exact within_modifyDgp fun _ _ => rfl

@[simp] theorem within_depositMuse (toWithdraw : Int) (routes : List (Nat × WithdrawVestingRoute))
    (deposited : Int × Asset) :
    Within (licence make touch)
      (depositMuse toWithdraw routes deposited : Act n (Int × Asset)) := by
  induction routes generalizing deposited with
  | nil =>
    unfold depositMuse
    simp
  | cons _ _ ih =>
    unfold depositMuse
    repeat' first
      | with_reducible apply within_bind | with_reducible apply within_ite | intro _
      | (solve | simp) | exact ih _ | exact within_modifyWith_plain rfl

@[simp] theorem within_processVestingWithdrawal (acc : Nat) :
    Within (licence make touch) (processVestingWithdrawal acc : Act n Unit) := by
  unfold processVestingWithdrawal
  repeat' first
    | with_reducible apply within_bind | intro _ | (solve | simp)
    | exact within_modifyWith_plain rfl

@[simp] theorem within_withdrawEach (fuel : Nat) (next : Option Nat) :
    Within (licence make touch) (withdrawEach fuel next : Act n Unit) := by
  induction fuel generalizing next with
  | zero =>
    cases next with
    | none => exact (looks_pure ()).within
    | some acc => exact (looks_throw _).within
  | succ fuel ih =>
    cases next with
    | none => exact (looks_pure ()).within
    | some acc =>
      unfold withdrawEach
      refine within_bind (by simp) fun now => within_bind (by simp) fun a =>
        within_ite (fun _ => ?_) fun _ => by simp
      exact within_bind (by simp) fun next => within_bind (by simp) fun _ => ih next

@[simp] theorem within_processVestingWithdrawals :
    Within (licence make touch) (processVestingWithdrawals : Act n Unit) := by
  unfold processVestingWithdrawals
  repeat' first | with_reducible apply within_bind | intro _ | (solve | simp)

/-! ## 5. Schedule and feeds -/

@[simp] theorem within_resetVirtualScheduleTime :
    Within (licence make touch) (resetVirtualScheduleTime : Act n Unit) := by
  unfold resetVirtualScheduleTime
  repeat' first
    | with_reducible apply within_bind | intro _ | exact (looks_read _).within
    | exact within_modifyWith_witness fun _ _ => rfl | exact within_modifyWith_plain rfl
    | with_reducible apply within_forEach

@[simp] theorem within_updateProcessed (newVirtualTime : Nat) (processed : List (Nat × Witness)) :
    Within (licence make touch) (updateProcessed newVirtualTime processed : Act n Bool) := by
  induction processed with
  | nil =>
    unfold updateProcessed
    simp
  | cons _ _ ih =>
    unfold updateProcessed
    repeat' first
      | with_reducible apply within_bind | with_reducible apply within_ite | intro _
      | (solve | simp) | exact ih | exact within_modify_witness fun _ => rfl

@[simp] theorem within_updateMedianWitnessProps :
    Within (licence make touch) (updateMedianWitnessProps : Act n Unit) := by
  unfold updateMedianWitnessProps
  repeat' first
    | with_reducible apply within_bind | intro _ | (solve | simp)
    | exact within_modifyWith_plain rfl | exact within_modifyDgp fun _ _ => rfl
    | with_reducible apply within_foldEach

@[simp] theorem within_updateWitnessSchedule4 :
    Within (licence make touch) (updateWitnessSchedule4 : Act n Unit) := by
  unfold updateWitnessSchedule4
  repeat' first
    | with_reducible apply within_bind | intro _ | (solve | simp) | exact (looks_read _).within
    | exact within_modifyWith_plain rfl | split

@[simp] theorem within_updateWitnessSchedule :
    Within (licence make touch) (updateWitnessSchedule : Act n Unit) := by
  unfold updateWitnessSchedule
  repeat' first | with_reducible apply within_bind | (solve | simp)

@[simp] theorem within_updateMedianFeed :
    Within (licence make touch) (updateMedianFeed : Act n Unit) := by
  unfold updateMedianFeed
  repeat' first
    | with_reducible apply within_bind | intro _ | (solve | simp)
    | exact within_modifyWith_plain rfl | with_reducible apply within_foldEach | split

@[simp] theorem within_updateVirtualSupply :
    Within (licence make touch) (updateVirtualSupply : Act n Unit) := by
  unfold updateVirtualSupply
  repeat' first
    | with_reducible apply within_bind | intro _ | (solve | simp)
    | exact within_modifyDgp fun _ _ => rfl

@[simp] theorem within_accountRecoveryProcessing :
    Within (licence make touch) (accountRecoveryProcessing : Act n Unit) := by
  unfold accountRecoveryProcessing
  repeat' first
    | with_reducible apply within_bind | intro _ | (solve | simp) | exact (looks_read _).within
    | exact within_modifyWith_plain rfl | exact within_remove_plain rfl
    | with_reducible apply within_forEach

@[simp] theorem within_clearSupplyDelta :
    Within (licence make touch) (clearSupplyDelta : Act n Unit) := by
  unfold clearSupplyDelta
  exact within_modifyDgp fun _ _ => rfl

/-! ## 6. Evaluators -/

@[simp] theorem within_setProved (acc now : Nat) :
    Within (licence make touch) (setProved acc now : Act n Unit) := by
  unfold setProved
  exact within_modifyWith_plain rfl

@[simp] theorem within_witnessUpdate (o : WitnessUpdateOp) :
    Within (licence make touch) (witnessUpdate o : Act n Unit) := by
  unfold witnessUpdate
  repeat' first
    | with_reducible apply within_bind | intro _ | (solve | simp)
    | exact within_modify_witness fun _ => rfl | exact within_create rfl | split

@[simp] theorem within_accountCreate [Fc] (o : AccountCreateOp) :
    Within (licence make touch) (accountCreate o : Act n Unit) := by
  unfold accountCreate
  repeat' first
    | with_reducible apply within_bind | with_reducible apply within_ite | intro _
    | (solve | simp) | exact within_modifyWith_plain rfl | exact within_create_plain rfl

@[simp] theorem within_accountUpdate [Fc] (o : AccountUpdateOp) :
    Within (licence make touch) (accountUpdate o : Act n Unit) := by
  unfold accountUpdate
  repeat' first
    | with_reducible apply within_bind | intro _ | (solve | simp)
    | exact within_modifyWith_plain rfl | split

@[simp] theorem within_escrowTransfer :
    Within (licence make touch) (escrowTransfer : Act n Unit) := by
  unfold escrowTransfer
  simp

@[simp] theorem within_escrowDispute :
    Within (licence make touch) (escrowDispute : Act n Unit) := by
  unfold escrowDispute
  simp

@[simp] theorem within_escrowRelease :
    Within (licence make touch) (escrowRelease : Act n Unit) := by
  unfold escrowRelease
  simp

@[simp] theorem within_transfer (sender receiver : String) (amount : Asset) :
    Within (licence make touch) (transfer sender receiver amount : Act n Unit) := by
  unfold transfer
  repeat' first
    | with_reducible apply within_bind | with_reducible apply within_ite | intro _
    | (solve | simp)

@[simp] theorem within_transferToVesting (sender receiver : String) (amount : Asset) :
    Within (licence make touch) (transferToVesting sender receiver amount : Act n Unit) := by
  unfold transferToVesting
  repeat' first
    | with_reducible apply within_bind | with_reducible apply within_ite | intro _
    | (solve | simp)

@[simp] theorem within_withdrawVesting (clock : Nat) (account : String) (vestingShares : Asset) :
    Within (licence make touch) (withdrawVesting clock account vestingShares : Act n Unit) := by
  unfold withdrawVesting
  repeat' first
    | with_reducible apply within_bind | with_reducible apply within_ite | intro _
    | (solve | simp) | exact within_modifyWith_plain rfl

@[simp] theorem within_setWithdrawVestingRoute (fromAccount toAccount : String) (percent : Nat)
    (autoVest : Bool) :
    Within (licence make touch)
      (setWithdrawVestingRoute fromAccount toAccount percent autoVest : Act n Unit) := by
  unfold setWithdrawVestingRoute
  repeat' first
    | with_reducible apply within_bind | intro _ | (solve | simp) | exact (looks_read _).within
    | exact within_modifyWith_plain rfl | exact within_create_plain rfl
    | exact within_remove_plain rfl | split

@[simp] theorem within_accountWitnessProxy (account proxy : String) :
    Within (licence make touch) (accountWitnessProxy account proxy : Act n Unit) := by
  unfold accountWitnessProxy
  repeat' first
    | with_reducible apply within_bind | with_reducible apply within_ite | intro _
    | (solve | simp) | exact within_modifyWith_plain rfl

@[simp] theorem within_bumpWitnessesVotedFor (acc : Nat) (delta : Nat) :
    Within (licence make touch) (bumpWitnessesVotedFor acc delta : Act n Unit) := by
  unfold bumpWitnessesVotedFor
  exact within_modifyWith_plain rfl

@[simp] theorem within_accountWitnessVote (account witness : String) (approve : Bool) :
    Within (licence make touch) (accountWitnessVote account witness approve : Act n Unit) := by
  unfold accountWitnessVote
  repeat' first
    | with_reducible apply within_bind | intro _ | (solve | simp) | exact (looks_read _).within
    | exact within_create_plain rfl | exact within_remove_plain rfl | split

@[simp] theorem within_customJson [Fc] (requiredBasicAuths : List String) (json : String) :
    Within (licence make touch) (customJson requiredBasicAuths json : Act n Unit) := by
  unfold customJson
  repeat' first
    | with_reducible apply within_bind | with_reducible apply within_ite | intro _
    | (solve | simp) | with_reducible apply within_forEach

@[simp] theorem within_feedPublish (publisher : String) (exchangeRate : Price) :
    Within (licence make touch) (feedPublish publisher exchangeRate : Act n Unit) := by
  unfold feedPublish
  repeat' first
    | with_reducible apply within_bind | intro _ | (solve | simp)
    | exact within_modify_witness fun _ => rfl

@[simp] theorem within_convert (owner : String) (requestid : Nat) (amount : Asset) :
    Within (licence make touch) (convert owner requestid amount : Act n Unit) := by
  unfold convert
  repeat' first
    | with_reducible apply within_bind | intro _ | (solve | simp) | exact within_create_plain rfl

@[simp] theorem within_placeOrder (owner : String) (orderid : Nat) (amountToSell : Asset)
    (fillOrKill : Bool) (expiration : Nat) (sellPrice : Except Exn Price) :
    Within (licence make touch)
      (placeOrder owner orderid amountToSell fillOrKill expiration sellPrice : Act n Unit) := by
  unfold placeOrder
  repeat' first
    | with_reducible apply within_bind | intro _ | (solve | simp) | exact within_create_plain rfl

@[simp] theorem within_limitOrderCreate (o : LimitOrderCreateOp) :
    Within (licence make touch) (limitOrderCreate o : Act n Unit) := by
  unfold limitOrderCreate
  simp

@[simp] theorem within_limitOrderCreate2 (o : LimitOrderCreate2Op) :
    Within (licence make touch) (limitOrderCreate2 o : Act n Unit) := by
  unfold limitOrderCreate2
  simp

@[simp] theorem within_limitOrderCancel (owner : String) (orderid : Nat) :
    Within (licence make touch) (limitOrderCancel owner orderid : Act n Unit) := by
  unfold limitOrderCancel
  simp

@[simp] theorem within_reportOverProduction :
    Within (licence make touch) (reportOverProduction : Act n Unit) := by
  unfold reportOverProduction
  simp

@[simp] theorem within_challengeAuthority (challenger challenged : String) (requireOwner : Bool) :
    Within (licence make touch)
      (challengeAuthority challenger challenged requireOwner : Act n Unit) := by
  unfold challengeAuthority
  repeat' first
    | with_reducible apply within_bind | with_reducible apply within_ite | intro _
    | (solve | simp) | exact within_modifyWith_plain rfl

@[simp] theorem within_proveAuthority (challenged : String) (requireOwner : Bool) :
    Within (licence make touch) (proveAuthority challenged requireOwner : Act n Unit) := by
  unfold proveAuthority
  repeat' first
    | with_reducible apply within_bind | intro _ | (solve | simp)
    | exact within_modifyWith_plain rfl

@[simp] theorem within_requestAccountRecovery (recoveryAccount accountToRecover : String)
    (newOwnerAuthority : Authority) :
    Within (licence make touch)
      (requestAccountRecovery recoveryAccount accountToRecover newOwnerAuthority : Act n Unit) := by
  unfold requestAccountRecovery
  repeat' first
    | with_reducible apply within_bind | intro _ | (solve | simp) | exact (looks_read _).within
    | exact within_modifyWith_plain rfl | exact within_create_plain rfl
    | exact within_remove_plain rfl | split

@[simp] theorem within_recoverAccount (accountToRecover : String)
    (newOwnerAuthority recentOwnerAuthority : Authority) :
    Within (licence make touch)
      (recoverAccount accountToRecover newOwnerAuthority recentOwnerAuthority : Act n Unit) := by
  unfold recoverAccount
  repeat' first
    | with_reducible apply within_bind | intro _ | (solve | simp) | exact (looks_read _).within
    | exact within_modifyWith_plain rfl | exact within_remove_plain rfl | split

@[simp] theorem within_changeRecoveryAccount (accountToRecover newRecoveryAccount : String) :
    Within (licence make touch)
      (changeRecoveryAccount accountToRecover newRecoveryAccount : Act n Unit) := by
  unfold changeRecoveryAccount
  repeat' first
    | with_reducible apply within_bind | intro _ | (solve | simp) | exact (looks_read _).within
    | exact within_modifyWith_plain rfl | exact within_create_plain rfl
    | exact within_remove_plain rfl | split

@[simp] theorem within_streamingPlatformUpdate (owner url : String) (fee : Asset) :
    Within (licence make touch) (streamingPlatformUpdate owner url fee : Act n Unit) := by
  unfold streamingPlatformUpdate
  repeat' first
    | with_reducible apply within_bind | intro _ | (solve | simp) | exact (looks_read _).within
    | exact within_modifyWith_plain rfl | exact within_create_plain rfl | split

@[simp] theorem within_streamingPlatformReport (o : StreamingPlatformReportOp) :
    Within (licence make touch) (streamingPlatformReport o : Act n Unit) := by
  unfold streamingPlatformReport
  repeat' first
    | with_reducible apply within_bind | with_reducible apply within_ite | intro _
    | (solve | simp) | exact (looks_get _ _).within | exact within_modifyWith_plain rfl
    | exact within_create_plain rfl

@[simp] theorem within_bumpPlatformsVotedFor (acc : Nat) (delta : Nat) :
    Within (licence make touch) (bumpPlatformsVotedFor acc delta : Act n Unit) := by
  unfold bumpPlatformsVotedFor
  exact within_modifyWith_plain rfl

@[simp] theorem within_accountStreamingPlatformVote (account streamingPlatform : String)
    (approve : Bool) :
    Within (licence make touch)
      (accountStreamingPlatformVote account streamingPlatform approve : Act n Unit) := by
  unfold accountStreamingPlatformVote
  repeat' first
    | with_reducible apply within_bind | intro _ | (solve | simp) | exact (looks_read _).within
    | exact within_create_plain rfl | exact within_remove_plain rfl | split

@[simp] theorem within_addSecondLevel (whose : List Nat) (who : Nat) :
    Within (licence make touch) (addSecondLevel whose who : Act n Unit) := by
  unfold addSecondLevel
  repeat' first
    | with_reducible apply within_bind | intro _ | (solve | simp)
    | exact within_modifyWith_plain rfl | with_reducible apply within_forEach

@[simp] theorem within_befriend (who whom : Nat) (theirs : List Nat) :
    Within (licence make touch) (befriend who whom theirs : Act n Unit) := by
  unfold befriend
  repeat' first
    | with_reducible apply within_bind | (solve | simp) | exact within_modifyWith_plain rfl

@[simp] theorem within_friendship (who whom : String) :
    Within (licence make touch) (friendship who whom : Act n Unit) := by
  unfold friendship
  repeat' first
    | with_reducible apply within_bind | with_reducible apply within_ite | intro _
    | (solve | simp) | exact within_modifyWith_plain rfl

@[simp] theorem within_rebuildSecondLevel (acc : Nat) :
    Within (licence make touch) (rebuildSecondLevel acc : Act n Unit) := by
  unfold rebuildSecondLevel
  repeat' first
    | with_reducible apply within_bind | intro _ | (solve | simp)
    | exact within_modifyWith_plain rfl

@[simp] theorem within_dropFriend (who whom : Nat) :
    Within (licence make touch) (dropFriend who whom : Act n Unit) := by
  unfold dropFriend
  exact within_modifyWith_plain rfl

@[simp] theorem within_rebuildFriendsOf (acc : Nat) :
    Within (licence make touch) (rebuildFriendsOf acc : Act n Unit) := by
  unfold rebuildFriendsOf
  repeat' first | with_reducible apply within_bind | (solve | simp)

@[simp] theorem within_unfriend (who whom : String) :
    Within (licence make touch) (unfriend who whom : Act n Unit) := by
  unfold unfriend
  repeat' first
    | with_reducible apply within_bind | with_reducible apply within_ite | intro _
    | (solve | simp) | exact within_modifyWith_plain rfl

@[simp] theorem within_content [Fc] (o : ContentOp) :
    Within (licence make touch) (content o : Act n Unit) := by
  unfold content
  repeat' first
    | with_reducible apply within_bind | intro _ | (solve | simp) | exact (looks_read _).within
    | exact within_create_plain rfl | split

@[simp] theorem within_contentUpdate [Fc] (o : ContentUpdateOp) :
    Within (licence make touch) (contentUpdate o : Act n Unit) := by
  unfold contentUpdate
  repeat' first
    | with_reducible apply within_bind | intro _ | (solve | simp) | exact (looks_get _ _).within
    | exact within_modifyWith_plain rfl | split

@[simp] theorem within_contentDisable (url : String) :
    Within (licence make touch) (contentDisable url : Act n Unit) := by
  unfold contentDisable
  repeat' first
    | with_reducible apply within_bind | intro _ | (solve | simp) | exact (looks_get _ _).within
    | exact within_modifyWith_plain rfl

@[simp] theorem within_contentApprove (approver url : String) :
    Within (licence make touch) (contentApprove approver url : Act n Unit) := by
  unfold contentApprove
  repeat' first
    | with_reducible apply within_bind | intro _ | (solve | simp) | exact (looks_get _ _).within
    | exact within_create_plain rfl

@[simp] theorem within_vote (o : VoteOp) :
    Within (licence make touch) (vote o : Act n Unit) := by
  unfold vote
  repeat' first
    | with_reducible apply within_bind | intro _ | (solve | simp) | exact (looks_get _ _).within
    | exact (looks_read _).within | exact within_modifyWith_plain rfl
    | exact within_create_plain rfl | split

@[simp] theorem within_balanceClaim [Fc] (o : BalanceClaimOp) :
    Within (licence make touch) (balanceClaim o : Act n Unit) := by
  unfold balanceClaim
  repeat' first
    | with_reducible apply within_bind | with_reducible apply within_ite | intro _
    | (solve | simp) | exact (looks_get _ _).within | exact within_modifyWith_plain rfl
    | exact within_remove_plain rfl

@[simp] theorem within_assetCreate (o : AssetCreateOp) :
    Within (licence make touch) (assetCreate o : Act n Unit) := by
  unfold assetCreate
  repeat' first
    | with_reducible apply within_bind | intro _ | (solve | simp) | exact within_create_plain rfl
    | split

@[simp] theorem within_changeAssetSupply (i : Nat) (delta : Int) :
    Within (licence make touch) (changeAssetSupply i delta : Act n Unit) := by
  unfold changeAssetSupply
  exact within_modifyWith_plain rfl

@[simp] theorem within_assetIssue (issuer : String) (assetToIssue : Asset)
    (issueToAccount : String) :
    Within (licence make touch) (assetIssue issuer assetToIssue issueToAccount : Act n Unit) := by
  unfold assetIssue
  repeat' first | with_reducible apply within_bind | intro _ | (solve | simp)

@[simp] theorem within_assetReserve (payer : String) (amountToReserve : Asset) :
    Within (licence make touch) (assetReserve payer amountToReserve : Act n Unit) := by
  unfold assetReserve
  repeat' first | with_reducible apply within_bind | intro _ | (solve | simp)

@[simp] theorem within_assetUpdate (o : AssetUpdateOp) :
    Within (licence make touch) (assetUpdate o : Act n Unit) := by
  unfold assetUpdate
  repeat' first
    | with_reducible apply within_bind | intro _ | (solve | simp)
    | exact within_modifyWith_plain rfl | split

/-! ## 7. Transactions and blocks -/

@[simp] theorem within_updateAccountBandwidth (acc trxSize : Nat) :
    Within (licence make touch) (updateAccountBandwidth acc trxSize : Act n Unit) := by
  unfold updateAccountBandwidth
  repeat' first
    | with_reducible apply within_bind | with_reducible apply within_ite | intro _
    | (solve | simp) | exact within_modifyWith_plain rfl

@[simp] theorem within_updateAccountMarketBandwidth (acc trxSize : Nat) :
    Within (licence make touch) (updateAccountMarketBandwidth acc trxSize : Act n Unit) := by
  unfold updateAccountMarketBandwidth
  repeat' first
    | with_reducible apply within_bind | with_reducible apply within_ite | intro _
    | (solve | simp) | exact within_modifyWith_plain rfl

@[simp] theorem within_chargeBandwidth [Fc] (trx : Transaction) :
    Within (licence make touch) (chargeBandwidth trx : Act n Unit) := by
  unfold chargeBandwidth
  repeat' first
    | with_reducible apply within_bind | intro _ | (solve | simp)
    | with_reducible apply within_forEach

@[simp] theorem within_processHeaderExtensions (b : SignedBlock) :
    Within (licence make touch) (processHeaderExtensions b : Act n Unit) := by
  unfold processHeaderExtensions
  repeat' first
    | with_reducible apply within_bind | intro _ | (solve | simp) | exact (looks_get _ _).within
    | exact within_modify_witness fun _ => rfl | with_reducible apply within_forEach | split

@[simp] theorem within_countMissed (b : SignedBlock) (i : Nat) :
    Within (licence make touch) (countMissed b i : Act n Unit) := by
  unfold countMissed
  repeat' first
    | with_reducible apply within_bind | with_reducible apply within_ite | intro _
    | (solve | simp) | exact within_modifyWith_witness fun _ _ => rfl

@[simp] theorem within_payBlock : Within (licence make touch) (payBlock : Act n Unit) := by
  unfold payBlock
  repeat' first
    | with_reducible apply within_bind | with_reducible apply within_ite | intro _
    | (solve | simp)

end

/-- The block that the signing witness confirmed last is all that this changes. -/
theorem within_updateSigningWitness {P : Licence chainSchema} (hspoil : P.spoil Kind.witness)
    (h : ∀ i (w v : Witness), P.modify Kind.witness i w v) (wit : Nat) (b : SignedBlock) :
    Within P (updateSigningWitness wit b : Act n Unit) := by
  unfold updateSigningWitness
  refine within_bind (by simp) fun p => within_bind (by simp) fun slot => ?_
  exact within_modify (.inl hspoil) fun w => h wit w _

/-- The last irreversible block is all that this changes. -/
theorem within_updateLastIrreversibleBlock {P : Licence chainSchema}
    (h : ∀ num : DynamicGlobalProperty → Nat, Within P (modifyDgp (fun _ => .ok ()) fun q _ =>
      { q with lastIrreversibleBlockNum := num q } : Act n Unit)) :
    Within P (updateLastIrreversibleBlock : Act n Unit) := by
  unfold updateLastIrreversibleBlock
  refine within_bind (by simp) fun p => within_ite (fun _ => h _) fun _ => ?_
  refine within_bind (by simp) fun wso => within_bind (within_foldEach (fun nums name => ?_) _) ?_
  · exact within_bind (by simp) fun w => by simp
  · intro nums
    simp only
    split
    · simp
    · exact within_ite (fun _ => h _) fun _ => by simp

/-! ## 8. Proposals -/

section

variable {make : Proposal → Prop}

theorem within_remove_proposal {touch : Nat → Prop} {i : Nat} (h : touch i) :
    Within (licence make touch) (Action.remove (S := chainSchema) Kind.proposal i : Act n Unit) :=
  within_remove fun _ => h

@[simp] theorem within_proposalDelete {touch : Nat → Prop} {proposal : Nat} (h : touch proposal)
    (vetoer : String) : Within (licence make touch) (proposalDelete proposal vetoer : Act n Unit) := by
  unfold proposalDelete
  repeat' first
    | with_reducible apply within_bind | intro _ | (solve | simp) | exact (looks_get _ _).within
    | exact within_remove_proposal h

theorem within_proposalCreate [Fc] (proposedOps : List Operation) (expirationTime : Nat)
    (reviewPeriodSeconds : Option Nat) {touch : Nat → Prop}
    (h : ∀ p : Proposal, p.proposedTransaction.operations = proposedOps → make p) :
    Within (licence make touch)
      (proposalCreate proposedOps expirationTime reviewPeriodSeconds : Act n Unit) := by
  unfold proposalCreate
  repeat' first
    | with_reducible apply within_bind | with_reducible apply within_ite | intro _
    | (solve | simp) | exact within_create (h _ rfl)

@[simp] theorem within_removeExpiredProposals :
    Within (licence make fun _ => True) (removeExpiredProposals : Act n Unit) := by
  unfold removeExpiredProposals
  repeat' first
    | with_reducible apply within_bind | intro _ | (solve | simp) | exact (looks_read _).within
    | with_reducible apply within_forEach | exact within_remove_proposal trivial

@[simp] theorem within_applyHardfork (hardfork : Nat) :
    Within (licence make fun _ => True) (applyHardfork hardfork : Act n Unit) := by
  unfold applyHardfork
  repeat' first
    | with_reducible apply within_bind | intro _ | (solve | simp)
    | exact within_modifyWith_plain rfl | split

@[simp] theorem within_hardforkEach (turns : Nat) :
    Within (licence make fun _ => True) (hardforkEach turns : Act n Unit) := by
  induction turns with
  | zero => exact (looks_throw _).within
  | succ _ ih =>
    unfold hardforkEach
    repeat' first
      | with_reducible apply within_bind | with_reducible apply within_ite | intro _
      | (solve | simp) | exact ih

@[simp] theorem within_processHardforks :
    Within (licence make fun _ => True) (processHardforks : Act n Unit) := within_hardforkEach _

end

/-! ## 9. Operations that run operations -/

/-- The proposed operations are ones that `ok` allows. -/
def Proposal.Only (ok : Operation → Prop) (p : Proposal) : Prop :=
  ∀ op ∈ p.proposedTransaction.operations, ok op

/-- All proposals are of such operations. -/
def ProposeOnly (ok : Operation → Prop) (s : Store chainSchema) : Prop :=
  ∀ i (p : Proposal), s.get Kind.proposal i = some p → p.Only ok

/-- What evaluators may do, if all they may propose is `ok`. -/
def opLicence (ok : Operation → Prop) : Licence chainSchema := licence (Proposal.Only ok) fun _ => True

/-- What a block may do then: anything, but for the operations of proposals. -/
def blockLicence (ok : Operation → Prop) : Licence chainSchema where
  create
    | .proposal => Proposal.Only ok
    | _ => fun _ => True
  modify
    | .proposal => fun _ p q => p.proposedTransaction = q.proposedTransaction
    | _ => fun _ _ _ => True
  remove _ _ _ := True
  spoil _ := True

theorem opLicence_le (ok : Operation → Prop) : (opLicence ok).Le (blockLicence ok) where
  create {k a} h := by
    cases k with
    | proposal => exact h
    | _ => trivial
  modify {k i a b} h := by
    cases k with
    | proposal => exact h.2
    | _ => trivial
  remove _ := trivial
  spoil _ := trivial

/-- Proposals of operations that are `ok` become no others. -/
def onlyLaw (ok : Operation → Prop) : Law chainSchema where
  rel
    | .proposal => fun o q : Option Proposal => (∀ p, o = some p → p.Only ok) →
        ∀ p, q = some p → p.Only ok
    | _ => fun _ _ => True
  refl := by
    intro k o
    cases k with
    | proposal => exact id
    | _ => trivial
  trans := by
    intro k o p q h h'
    cases k with
    | proposal => exact h' ∘ h
    | _ => trivial

theorem blockLicence_respects (ok : Operation → Prop) :
    (blockLicence ok).Respects (onlyLaw ok).idLaw where
  create {k i a} h := by
    cases k with
    | proposal =>
      intro _ p hp
      cases hp
      exact h
    | _ => trivial
  modify {k i a b} h := by
    cases k with
    | proposal =>
      intro ho p hp
      cases hp
      show ∀ op ∈ b.proposedTransaction.operations, ok op
      rw [← h]
      exact ho a rfl
    | _ => trivial
  remove {k i a} h := by
    cases k with
    | proposal => exact fun _ p hp => nomatch hp
    | _ => trivial
  spoil {k i} h a := by
    cases k with
    | proposal => exact fun _ p hp => nomatch hp
    | _ => trivial

/-- **All proposals stay ones that are `ok`.** -/
theorem blockLicence_keeps (ok : Operation → Prop) : (blockLicence ok).Keeps (ProposeOnly ok) := by
  intro d d' h hd
  have hrev : Reversible (onlyLaw ok).idLaw d.store := by
    intro k i o _
    cases k with
    | proposal => exact fun _ p hp => hd i p hp
    | _ => trivial
  have ho := (h.kept (blockLicence_respects ok) hrev (Fenced.zero _ d)).2
  exact fun i p hp => ho Kind.proposal i (fun q hq => hd i q hq) p hp

theorem opLicence_keeps (ok : Operation → Prop) : (opLicence ok).Keeps (ProposeOnly ok) :=
  fun _ _ h hd => blockLicence_keeps ok _ _ (h.mono (opLicence_le ok)) hd

/-- The proposal that an operation is about. -/
def Operation.touches : Operation → Option Nat
  | .proposalUpdate o => some o.proposal
  | .proposalDelete _ proposal _ => some proposal
  | _ => none

section

variable {I : Store chainSchema → Prop} {make : Proposal → Prop} {touch : Nat → Prop}
  {push push' : Nat → Act n Unit}

theorem agree_proposalUpdate (hP : (licence make touch).Keeps I) (o : ProposalUpdateOp)
    (ht : touch o.proposal)
    (h : Agree I (licence make touch) (push o.proposal) (push' o.proposal)) :
    Agree I (licence make touch) (proposalUpdate push o) (proposalUpdate push' o) := by
  unfold proposalUpdate
  refine .after hP (looks_get _ _).within fun p => .after hP (by simp) fun hf3 => ?_
  refine .after hP (by simp) fun now => .after hP (by simp) fun _ => ?_
  refine .after hP (within_modify (.inr rfl) fun p => ⟨ht, rfl⟩) fun _ => ?_
  refine .after hP (looks_get _ _).within fun p => .ite (fun _ => Within.agree (by simp)) fun _ => ?_
  refine .after hP (by simp) fun authorized => .ite (fun _ => ?_) fun _ => Within.agree (by simp)
  exact .catching hP h fun _ => Within.agree (by simp)

/-- **Two evaluations of an operation agree if they agree on what it withdraws, proposes and
executes.** -/
theorem agree_evaluate [Fc] {clock clock' : Nat} (hP : (licence make touch).Keeps I)
    {op : Operation}
    (hwithdraw : ∀ account vestingShares, op = .withdrawVesting account vestingShares →
      (withdrawVesting clock account vestingShares : Act n Unit) =
        withdrawVesting clock' account vestingShares)
    (hcreate : ∀ ops expiration review, op = .proposalCreate ops expiration review →
      Within (licence make touch) (proposalCreate ops expiration review : Act n Unit))
    (htouch : ∀ q, op.touches = some q →
      touch q ∧ Agree I (licence make touch) (push q) (push' q)) :
    Agree I (licence make touch) (evaluate clock push op) (evaluate clock' push' op) := by
  cases op with
  | withdrawVesting account vestingShares =>
    simp only [evaluate, hwithdraw _ _ rfl]
    exact Within.agree (within_withdrawVesting _ _ _)
  | proposalCreate ops expiration review => exact Within.agree (hcreate _ _ _ rfl)
  | proposalUpdate o => exact agree_proposalUpdate hP o (htouch _ rfl).1 (htouch _ rfl).2
  | proposalDelete payer proposal vetoer =>
    exact Within.agree (within_proposalDelete (htouch proposal rfl).1 vetoer)
  | _ =>
    simp only [evaluate]
    exact Within.agree (by simp)

end

/-- With either clock, the operations that are `ok` do the same, and what they propose is `ok`. -/
structure ClockFree [Fc] (ok : Operation → Prop) (clock clock' : Nat) : Prop where
  withdraw : ∀ {account vestingShares}, ok (.withdrawVesting account vestingShares) → ∀ {n},
    (withdrawVesting clock account vestingShares : Act n Unit) =
      withdrawVesting clock' account vestingShares
  proposed : ∀ {ops expiration review}, ok (.proposalCreate ops expiration review) →
    ∀ op ∈ ops, ok op

section

variable [Fc] {ok : Operation → Prop} {clock clock' : Nat}

/-- One clock is like itself. -/
theorem clockFree_same (clock : Nat) : ClockFree (fun _ => True) clock clock :=
  ⟨fun _ _ => rfl, fun _ _ _ => trivial⟩

/-- Operations that are `ok` do the same. -/
theorem ClockFree.agree_evaluate (hc : ClockFree ok clock clock')
    {push push' : Nat → Act n Unit}
    (h : ∀ i, Agree (ProposeOnly ok) (opLicence ok) (push i) (push' i)) {op : Operation}
    (hop : ok op) :
    Agree (ProposeOnly ok) (opLicence ok) (evaluate clock push op) (evaluate clock' push' op) := by
  refine MuseChain.agree_evaluate (opLicence_keeps ok) (fun account vestingShares e => ?_)
    (fun ops expiration review e => ?_) fun q _ => ⟨trivial, h q⟩
  · exact hc.withdraw (e ▸ hop)
  · refine within_proposalCreate ops expiration review fun p hp op' hmem => ?_
    rw [hp] at hmem
    exact hc.proposed (e ▸ hop) op' hmem

theorem agree_pushProposal (hc : ClockFree ok clock clock') (n i : Nat) :
    Agree (ProposeOnly ok) (opLicence ok) (pushProposal clock n i) (pushProposal clock' n i) := by
  have hP := opLicence_keeps ok
  induction n generalizing i with
  | zero => exact Within.agree (looks_throw _).within
  | succ n ih =>
    refine .nested ((looks_get _ _).within.agree.bind hP fun d p d₁ hd hr => ?_)
    obtain ⟨hg, _⟩ := Action.get_ok.mp hr
    refine .bind hP (.forEach hP fun op hop => ?_) fun _ _ _ _ _ =>
      (within_remove_proposal trivial).agree
    exact hc.agree_evaluate ih (hd i p hg op hop)

theorem agree_applyOperation (hc : ClockFree ok clock clock') {op : Operation} (hop : ok op) :
    Agree (ProposeOnly ok) (opLicence ok) (applyOperation clock n op)
      (applyOperation clock' n op) :=
  hc.agree_evaluate (agree_pushProposal hc n) hop

end

section

variable [Fc] {clock clock' : Nat} {I : Store chainSchema → Prop} {make : Proposal → Prop}

theorem agree_expireEach (hP : (licence make fun _ => True).Keeps I)
    (h : ∀ i, Agree I (licence make fun _ => True) (pushProposal clock n i)
      (pushProposal clock' n i)) (turns : Nat) :
    Agree I (licence make fun _ => True) (expireEach clock n turns)
      (expireEach clock' n turns) := by
  induction turns with
  | zero => exact Within.agree (looks_throw _).within
  | succ turns ih =>
    unfold expireEach
    refine .after hP (by simp) fun first => ?_
    cases first with
    | none => exact Within.agree (by simp)
    | some i =>
      refine .bind hP (.catching hP ?_ fun _ => Within.agree (by simp)) fun _ executed _ _ _ => ?_
      · refine .after hP (looks_get _ _).within fun p => .after hP (by simp) fun authorized => ?_
        refine .ite (fun _ => ?_) fun _ => Within.agree (by simp)
        exact .bind hP (h i) fun _ _ _ _ _ => Within.agree (by simp)
      · exact .ite (fun _ => ih) fun _ => .after hP (within_remove_proposal trivial) fun _ => ih

theorem agree_clearExpiredProposals (hP : (licence make fun _ => True).Keeps I)
    (h : ∀ i, Agree I (licence make fun _ => True) (pushProposal clock n i)
      (pushProposal clock' n i)) :
    Agree I (licence make fun _ => True) (clearExpiredProposals clock n)
      (clearExpiredProposals clock' n) := by
  unfold clearExpiredProposals
  refine .after hP (by simp) fun hf3 => .ite (fun _ => ?_) fun _ => Within.agree (by simp)
  exact .after hP (looks_rows _).within fun proposals => agree_expireEach hP h _

end

end MuseChain
