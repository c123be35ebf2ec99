/-
  File:      MuseChain/Chain/Rewards.lean
  Subject:   The money of a block: rewards, conversions, payouts of content, vesting withdrawals.

  The functions of database.cpp that `_apply_block` calls after the transactions, and that move
  MUSE, MBD or vesting shares.
-/
import MuseChain.Chain.Market

namespace MuseChain

variable {n : Nat}

/-! ## 1. The size of the rewards -/

/-- `calc_percent_reward< percent, multiply_constant, shift_constant >`. -/
def calcPercentReward (percent multiplyConstant shiftConstant : Nat) (currentSupply : Int) :
    Except Exn Int := do
  let reward := u128 (uint128OfInt currentSupply * u64 (percent * multiplyConstant))
  let reward := u128 (reward + 2 ^ (shiftConstant - 1)) / 2 ^ shiftConstant
  let x ← toUint64 reward
  pure (int64OfNat x)

def getContentReward : Act n Asset := do
  let props ← getDynamicGlobalProperties
  let hf2 ← hasHardfork hardfork02
  let amount ← Action.lift
    (if hf2 then calcPercentReward contentAprPercent02 aprPercentMultiplyPerDay02
      aprPercentShiftPerDay02 props.virtualSupply.amount
    else calcPercentReward contentAprPercent aprPercentMultiplyPerDay
      aprPercentShiftPerDay props.virtualSupply.amount)
  Action.lift ((Asset.muse amount).max (Asset.muse miningReward))

def getVestingReward : Act n Asset := do
  let props ← getDynamicGlobalProperties
  let hf2 ← hasHardfork hardfork02
  let amount ← Action.lift
    (if hf2 then calcPercentReward vestingArpPercent02 aprPercentMultiplyPerBlock02
      aprPercentShiftPerBlock02 props.virtualSupply.amount
    else calcPercentReward vestingArpPercent aprPercentMultiplyPerBlock
      aprPercentShiftPerBlock props.virtualSupply.amount)
  pure (Asset.muse amount)

/-- `get_producer_reward`, which also pays it. -/
def getProducerReward : Act n Asset := do
  let props ← getDynamicGlobalProperties
  let hf2 ← hasHardfork hardfork02
  let amount ← Action.lift
    (if hf2 then calcPercentReward producerAprPercent02 aprPercentMultiplyPerBlock02
      aprPercentShiftPerBlock02 props.virtualSupply.amount
    else calcPercentReward producerAprPercent aprPercentMultiplyPerBlock
      aprPercentShiftPerBlock props.virtualSupply.amount)
  let pay ← Action.lift ((Asset.muse amount).max (Asset.muse miningReward))
  let witness ← getAccountId props.currentWitness
  let a ← getAccount witness
  if startMinerVotingBlock ≤ props.headBlockNumber ∨ a.vestingShares.amount = 0 then do
    let _ ← createVesting witness pay
    pure pay
  else do
    Action.modifyWith (S := chainSchema) Kind.account witness
      (fun a : Account => a.balance.add pay)
      fun (a : Account) x => { a with balance := x }
    pure pay

/-! ## 2. The funds -/

def processFunds (contentReward witnessPay vestingReward : Asset) : Act n Unit :=
  modifyDgp
    (fun p => do
      let fund ← p.totalVestingFundMuse.add vestingReward
      let rewardFund ← p.totalRewardFundMuse.add contentReward
      let sum ← contentReward.add witnessPay
      let sum ← sum.add vestingReward
      let supply ← p.currentSupply.add sum
      let virt ← p.virtualSupply.add sum
      pure (fund, rewardFund, supply, virt))
    fun p x =>
      { p with
        totalVestingFundMuse := x.1
        totalRewardFundMuse := x.2.1
        currentSupply := x.2.2.1
        virtualSupply := x.2.2.2 }

def adjustFunds (contentReward paidToContent : Asset) : Act n Unit := do
  let hf2 ← hasHardfork hardfork02
  let initialContentAllocation ← if hf2 then pure contentReward else getContentReward
  let delta ← Action.lift (initialContentAllocation.sub paidToContent)
  let trueDelta ← Action.lift (contentReward.sub paidToContent)
  modifyDgp
    (fun p => do
      let rewardFund ← p.totalRewardFundMuse.sub delta
      let supply ← p.currentSupply.sub delta
      let virt ← p.virtualSupply.sub delta
      let diff ← delta.sub trueDelta
      let supplyDelta ← p.supplyDelta.add diff
      pure (rewardFund, supply, virt, supplyDelta))
    fun p x =>
      { p with
        totalRewardFundMuse := x.1
        currentSupply := x.2.1
        virtualSupply := x.2.2.1
        supplyDelta := x.2.2.2 }

/-- The loop of `process_conversions`: what was converted in all. -/
def convertEach (price : Price) : List (Nat × ConvertRequest) → Asset × Asset → Act n (Asset × Asset)
  | [], net => pure net
  | (i, r) :: rest, (netMbd, netMuse) => do
      let user ← getAccountId r.owner
      let amountToIssue ← Action.lift (r.amount.mul price)
      adjustBalance user amountToIssue
      let netMbd ← Action.lift (netMbd.add r.amount)
      let netMuse ← Action.lift (netMuse.add amountToIssue)
      Action.remove (S := chainSchema) Kind.convertRequest i
      convertEach price rest (netMbd, netMuse)

def processConversions : Act n Unit := do
  let now ← headBlockTime
  let feed ← getFeedHistory
  if feed.currentMedianHistory.isNull then pure ()
  else do
    let due ← dueRows Kind.convertRequest (fun r : ConvertRequest => r.conversionDate)
      fun t => t ≤ now
    let (netMbd, netMuse) ← convertEach feed.currentMedianHistory due (Asset.mbd 0, Asset.muse 0)
    modifyDgp
      (fun p => do
        let supply ← p.currentSupply.add netMuse
        let mbd ← p.currentMbdSupply.sub netMbd
        let virt ← p.virtualSupply.add netMuse
        let worth ← netMbd.mul feed.currentMedianHistory
        let virt ← virt.sub worth
        pure (supply, mbd, virt))
      fun p x =>
        { p with currentSupply := x.1, currentMbdSupply := x.2.1, virtualSupply := x.2.2 }

/-! ## 3. Content -/

/-- The two sides of a content, which `pay_to_content_master` and `pay_to_content_comp` pay. -/
inductive ContentSide where
  | master
  | comp

namespace ContentSide

def distributions : ContentSide → Content → List Distribution
  | master, c => c.distributionsMaster
  | comp, c => c.distributionsComp

def accumulated : ContentSide → Content → Asset
  | master, c => c.accumulatedBalanceMaster
  | comp, c => c.accumulatedBalanceComp

def setAccumulated : ContentSide → Content → Asset → Content
  | master, c, x => { c with accumulatedBalanceMaster := x }
  | comp, c, x => { c with accumulatedBalanceComp := x }

theorem setAccumulated_sameKey (side : ContentSide) (c : Content) (x : Asset) :
    chainSchema.SameKey Kind.content c (side.setAccumulated c x) := by
  intro _
  cases side with
  | master => rfl
  | comp => rfl

end ContentSide

/-- The loop over the distributions: what was paid in all. -/
def payDistributions (toPay : Asset) : List Distribution → Asset → Act n Asset
  | [], totalPaid => pure totalPaid
  | di :: rest, totalPaid => do
      let x ← Action.lift (safe (toPay.amount * di.bp))
      let x ← Action.lift (safeDiv x 10000)
      let authorReward : Asset := ⟨x, toPay.assetId⟩
      let totalPaid ← Action.lift (totalPaid.add authorReward)
      let vestingMuse ← Action.lift (authorReward.sub authorReward)
      let author ← getAccountId di.payee
      let _ ← createVesting author vestingMuse
      let _ ← createMbd author authorReward
      payDistributions toPay rest totalPaid

def payToContentSide (side : ContentSide) (content : Nat) (payout : Asset) : Act n Unit := do
  let co ← getObject .content content
  if side.distributions co = [] then
    Action.modifyWith (S := chainSchema) Kind.content content
      (fun c : Content => (side.accumulated c).add payout)
      (fun (c : Content) x => side.setAccumulated c x)
      fun c x => side.setAccumulated_sameKey c x
  else do
    let hf2 ← hasHardfork hardfork02
    let toPay ← if hf2 then Action.lift (payout.add (side.accumulated co)) else pure payout
    let totalPaid ← payDistributions toPay (side.distributions co) ⟨0, toPay.assetId⟩
    -- the log of an overpayment compares the two
    let _ ← Action.lift (totalPaid.gt toPay)
    let rest ← Action.lift (toPay.sub totalPaid)
    if hf2 then do
      let co ← getObject .content content
      if side.accumulated co ≠ rest then
        Action.modify (S := chainSchema) Kind.content content
          (fun c : Content => side.setAccumulated c rest)
          fun c => side.setAccumulated_sameKey c rest
    else if rest.amount ≠ 0 then
      Action.modifyWith (S := chainSchema) Kind.content content
        (fun c : Content => (side.accumulated c).add rest)
        (fun (c : Content) x => side.setAccumulated c x)
        fun c x => side.setAccumulated_sameKey c x

def payToContentMaster (content : Nat) (payout : Asset) : Act n Unit :=
  payToContentSide .master content payout

def payToContentComp (content : Nat) (payout : Asset) : Act n Unit :=
  payToContentSide .comp content payout

def payToPlatform (platform : Nat) (payout : Asset) : Act n Unit := do
  let pl ← getObject .streamingPlatform platform
  let owner ← getAccountId pl.owner
  let vestingMuse ← Action.lift (payout.sub (Asset.muse 0))
  let _ ← createVesting owner vestingMuse
  let _ ← createMbd owner (Asset.muse 0)
  pure ()

/-- `amount * part / 10000`. -/
def bpOf (amount : Int) (part : Nat) : Except Exn Int := do
  let x ← safe (amount * part)
  safeDiv x 10000

/-- `pay_to_content`: what was paid. -/
def payToContent (content : Nat) (payout : Asset) (platform : Nat) : Act n Asset := do
  let hf2 ← hasHardfork hardfork02
  let payout ← if hf2 then pure payout else do
    -- the former curation reward
    let reserve ← Action.lift (payout.mulNat curateAprPercentReserve)
    let reserve ← Action.lift (reserve.divNat 100)
    Action.lift (payout.sub reserve)
  let co ← getObject .content content
  let platformAmount ← Action.lift (bpOf payout.amount co.playingReward)
  let platformReward : Asset := ⟨platformAmount, payout.assetId⟩
  let left ← Action.lift (safe (payout.amount - platformAmount))
  let payout : Asset := ⟨left, payout.assetId⟩
  let compAmount ← Action.lift (bpOf payout.amount co.publishersShare)
  let compReward : Asset := ⟨compAmount, payout.assetId⟩
  let masterReward ← Action.lift (payout.sub compReward)
  payToContentMaster content masterReward
  payToContentComp content compReward
  payToPlatform platform platformReward
  let paid ← Action.lift ((Asset.muse 0).add masterReward)
  let paid ← Action.lift (paid.add compReward)
  let paid ← Action.lift (paid.add platformReward)
  Action.modifyWith (S := chainSchema) Kind.content content
    (fun c : Content => .ok (sub32 c.timesPlayed24 1))
    fun (c : Content) x => { c with timesPlayed24 := x }
  pure paid

/-- The consumers of the reports so far, and the time they listened, at most an hour each. -/
def countListeners : List (Nat × Report) → List Nat × Nat → Act n (List Nat × Nat)
  | [], acc => pure acc
  | (_, r) :: rest, (customers, fullTime) =>
      if r.consumer ∈ customers then countListeners rest (customers, fullTime)
      else do
        let user ← getAccount r.consumer
        countListeners rest
          (r.consumer :: customers, u64 (fullTime + min user.totalListeningTime 3600))

/-- `listening_times[ consumer ] += play_time`, in the order of the consumers. -/
def addListening (consumer time : Nat) : List (Nat × Nat) → List (Nat × Nat)
  | [] => [(consumer, time)]
  | (c, t) :: rest =>
      if c = consumer then (c, u32 (t + time)) :: rest
      else if consumer < c then (consumer, time) :: (c, t) :: rest
      else (c, t) :: addListening consumer time rest

/-- `a.total_listening_time -= time`. -/
def dropListening (consumer time : Nat) : Act n Unit :=
  Action.modifyWith (S := chainSchema) Kind.account consumer
    (fun a : Account => .ok (sub32 a.totalListeningTime time))
    fun (a : Account) x => { a with totalListeningTime := x }

/-- The share of one report in the payout of the day. -/
def payReserve (hf2 : Bool) (totalPayout : Asset) (playTime listened customers fullTime : Nat) :
    Except Exn Asset := do
  let x ← totalPayout.mulNat playTime
  let x ← if hf2 then do
      let x ← x.mulNat (min listened 3600)
      x.divNat (u32 fullTime)
    else x.divNat (u32 customers)
  x.divNat listened

/-- The loop of `process_content_cashout` over the reports of the day before. -/
def cashoutEach (hf2 : Bool) (totalPayout : Asset) (customers fullTime : Nat) :
    List (Nat × Report) → Asset × List (Nat × Nat) → Act n (Asset × List (Nat × Nat))
  | [], acc => pure acc
  | (i, r) :: rest, (paid, listeningTimes) => do
      let consumer ← getAccount r.consumer
      Action.require (0 < consumer.totalListeningTime) "consumer.total_listening_time > 0"
      let reserve ← Action.lift
        (payReserve hf2 totalPayout r.playTime consumer.totalListeningTime customers fullTime)
      let paidNow ← payToContent r.content reserve r.streamingPlatform
      let paid ← Action.lift (paid.add paidNow)
      if hf2 then pure () else dropListening r.consumer r.playTime
      Action.remove (S := chainSchema) Kind.report i
      cashoutEach hf2 totalPayout customers fullTime rest
        (paid, addListening r.consumer r.playTime listeningTimes)

def processContentCashout (contentReward : Asset) : Act n Asset := do
  let now ← headBlockTime
  let hf2 ← hasHardfork hardfork02
  let totalPayout ← if hf2 then pure contentReward else getContentReward
  let reports ← dueRows Kind.report (fun r : Report => r.created) fun t => t ≤ now
  let (customers, fullTime) ← countListeners reports ([], 0)
  let due ← dueRows Kind.report (fun r : Report => r.created) fun t => t + 60 * 24 * 60 ≤ now
  let (paid, listeningTimes) ←
    cashoutEach hf2 totalPayout customers.length fullTime due (Asset.muse 0, [])
  if hf2 then Action.forEach listeningTimes fun l => dropListening l.1 l.2
  pure paid

/-! ## 4. Vesting withdrawals -/

/-- The routes that the two passes visit: `upper_bound( from, account_id_type() )` skips a route
to the first account. -/
def withdrawRoutesOf (acc : Nat) : Act n (List (Nat × WithdrawVestingRoute)) :=
  Action.read fun s =>
    ((s.rows Kind.withdrawVestingRoute).filter fun r : Nat × WithdrawVestingRoute =>
      r.2.fromAccount = acc && decide (0 < r.2.toAccount)).insertionSort
        fun a b : Nat × WithdrawVestingRoute => a.2.toAccount ≤ b.2.toAccount

/-- `( uint128_t( to_withdraw ) * percent / MUSE_100_PERCENT ).to_uint64()` as a share. -/
def routeShare (toWithdraw : Int) (percent : Nat) : Except Exn Int := do
  let x ← toUint64 (u128 (uint128OfInt toWithdraw * percent) / percent100)
  pure (int64OfNat x)

/-- What is due to an account that withdraws. -/
def withdrawalDue (a : Account) : Except Exn Int := do
  let left ← safe (a.toWithdraw - a.withdrawn)
  if left < a.vestingWithdrawRate.amount then do
    let x ← safeMod a.toWithdraw a.vestingWithdrawRate.amount
    pure (min a.vestingShares.amount x)
  else pure (min a.vestingShares.amount a.vestingWithdrawRate.amount)

/-- The first pass: routes that take vesting shares. -/
def depositVests (toWithdraw : Int) : List (Nat × WithdrawVestingRoute) → Int → Act n Int
  | [], deposited => pure deposited
  | (_, r) :: rest, deposited =>
      if r.autoVest then do
        let toDeposit ← Action.lift (routeShare toWithdraw r.percent)
        let deposited ← Action.lift (safe (deposited + toDeposit))
        if 0 < toDeposit then do
          Action.modifyWith (S := chainSchema) Kind.account r.toAccount
            (fun a : Account => safe (a.vestingShares.amount + toDeposit))
            fun (a : Account) x => { a with vestingShares := { a.vestingShares with amount := x } }
          adjustProxiedWitnessVotes r.toAccount toDeposit
          recursiveRecalculateScore r.toAccount toDeposit
        depositVests toWithdraw rest deposited
      else depositVests toWithdraw rest deposited

/-- `total_vesting_fund_muse -= converted`, `total_vesting_shares.amount -= vests`. -/
def takeFromVestingFund (converted : Asset) (vests : Int) : Act n Unit :=
  modifyDgp
    (fun p => do
      let fund ← p.totalVestingFundMuse.sub converted
      let shares ← safe (p.totalVestingShares.amount - vests)
      pure (fund, shares))
    fun p x =>
      { p with
        totalVestingFundMuse := x.1
        totalVestingShares := { p.totalVestingShares with amount := x.2 } }

/-- The second pass: routes that take MUSE. -/
def depositMuse (toWithdraw : Int) :
    List (Nat × WithdrawVestingRoute) → Int × Asset → Act n (Int × Asset)
  | [], acc => pure acc
  | (_, r) :: rest, (deposited, total) =>
      if r.autoVest then depositMuse toWithdraw rest (deposited, total)
      else do
        let toDeposit ← Action.lift (routeShare toWithdraw r.percent)
        let deposited ← Action.lift (safe (deposited + toDeposit))
        let props ← getDynamicGlobalProperties
        let converted ← Action.lift ((Asset.vests toDeposit).mul props.getVestingSharePrice)
        let total ← Action.lift (total.add converted)
        if 0 < toDeposit then do
          Action.modifyWith (S := chainSchema) Kind.account r.toAccount
            (fun a : Account => a.balance.add converted)
            fun (a : Account) x => { a with balance := x }
          takeFromVestingFund converted toDeposit
        depositMuse toWithdraw rest (deposited, total)

/-- One turn of the loop of `process_vesting_withdrawals`. -/
def processVestingWithdrawal (acc : Nat) : Act n Unit := do
  let a ← getAccount acc
  let toWithdraw ← Action.lift (withdrawalDue a)
  let routes ← withdrawRoutesOf acc
  let asVests ← depositVests toWithdraw routes 0
  let (asMuse, _) ← depositMuse toWithdraw routes (0, Asset.muse 0)
  let x ← Action.lift (safe (toWithdraw - asMuse))
  let toConvert ← Action.lift (safe (x - asVests))
  Action.require (0 ≤ toConvert) "Deposited more vests than were supposed to be withdrawn"
  let props ← getDynamicGlobalProperties
  let converted ← Action.lift ((Asset.vests toConvert).mul props.getVestingSharePrice)
  Action.modifyWith (S := chainSchema) Kind.account acc
    (fun a : Account => do
      let shares ← safe (a.vestingShares.amount - toWithdraw)
      let balance ← a.balance.add converted
      let withdrawn ← safe (a.withdrawn + toWithdraw)
      pure (shares, balance, withdrawn))
    fun (a : Account) x =>
      let done := decide (a.toWithdraw ≤ x.2.2) || decide (x.1 = 0)
      { a with
        vestingShares := { a.vestingShares with amount := x.1 }
        balance := x.2.1
        withdrawn := x.2.2
        vestingWithdrawRate :=
          if done then { a.vestingWithdrawRate with amount := 0 } else a.vestingWithdrawRate
        nextVestingWithdrawal :=
          if done then timeMaximum
          else u32 (a.nextVestingWithdrawal + vestingWithdrawIntervalSeconds) }
  takeFromVestingFund converted toConvert
  if 0 < toWithdraw then do
    adjustProxiedWitnessVotes acc (-toWithdraw)
    recursiveRecalculateScore acc (-toWithdraw)

/-- An account's place in the order by_next_vesting_withdrawal. -/
def withdrawalKey (r : Nat × Account) : Nat × Nat := (r.2.nextVestingWithdrawal, r.1)

def keyLt (a b : Nat × Nat) : Bool := a.1 < b.1 || (a.1 = b.1 && a.2 < b.2)

/-- The first account of the order, or the one right after a place of it. -/
def withdrawalAfter (place : Option (Nat × Nat)) : Act n (Option Nat) :=
  Action.read fun s =>
    (((s.rows Kind.account).filter fun r : Nat × Account =>
      match place with
      | none => true
      | some k => keyLt k (withdrawalKey r)).insertionSort fun a b : Nat × Account =>
        !keyLt (withdrawalKey b) (withdrawalKey a)).head?.map (·.1)

/-- The loop: the iterator is moved on before the account it points to is changed. An account
comes back only a whole interval later, which bounds the turns. -/
def withdrawEach : Nat → Option Nat → Act n Unit
  | _, none => pure ()
  | 0, some _ => Action.throw (.crash "vesting withdrawals do not end")
  | fuel + 1, some acc => do
      let now ← headBlockTime
      let a ← getAccount acc
      if a.nextVestingWithdrawal ≤ now then do
        let next ← withdrawalAfter (some (withdrawalKey (acc, a)))
        processVestingWithdrawal acc
        withdrawEach fuel next
      else pure ()

def processVestingWithdrawals : Act n Unit := do
  let now ← headBlockTime
  let first ← withdrawalAfter none
  let accounts ← Action.read fun s => (s.rows Kind.account).length
  withdrawEach (accounts * (now / vestingWithdrawIntervalSeconds + 2) + 1) first

end MuseChain
