/-
  File:      MuseChain/Chain/Balances.lean
  Subject:   The functions of database.cpp that look objects up and move value between accounts.

  Objects are referred to by their ids; where the source holds a reference across calls, the
  object is read again. C `assert`s, which are compiled out, and the notification of observers
  are left out.
-/
import MuseChain.Chain.Objects
import Mathlib.Data.List.Sort

namespace MuseChain

variable {n : Nat}

/-! ## 1. Lookups -/

/-- The first object of an index, in the order of the ids, that `p` holds of. -/
def findRow (k : Kind) (p : k.Object → Bool) : Act n (Option (Nat × k.Object)) :=
  Action.read fun s => (s.rows k).find? fun r => p r.2

/-- A lookup by a unique key that throws `msg` when there is no such object. -/
def getRow (k : Kind) (p : k.Object → Bool) (msg : String) : Act n Nat := do
  match ← findRow k p with
  | some (i, _) => pure i
  | none => Action.throw (.assert msg)

/-- The object a reference stands for. -/
def getObject (k : Kind) (i : Nat) : Act n k.Object := Action.get (S := chainSchema) k i

def getAccount (i : Nat) : Act n Account := getObject .account i

/-- `get_account( name )`. -/
def getAccountId (name : String) : Act n Nat :=
  getRow .account (fun a : Account => a.name = name)
    "Unable to find account '${acct}'. Did you forget to add a record for it?"

/-- `get_account( name )`, for its value. -/
def getAccountByName (name : String) : Act n Account := do
  let i ← getAccountId name
  getAccount i

def getDynamicGlobalProperties : Act n DynamicGlobalProperty := getObject .dynamicGlobalProperty 0

def getFeedHistory : Act n FeedHistory := getObject .feedHistory 0

def getWitnessScheduleObject : Act n WitnessSchedule := getObject .witnessSchedule 0

def getHardforkProperty : Act n HardforkProperty := getObject .hardforkProperty 0

def headBlockTime : Act n Nat := do
  let p ← getDynamicGlobalProperties
  pure p.time

def headBlockNum : Act n Nat := do
  let p ← getDynamicGlobalProperties
  pure p.headBlockNumber

def hasHardfork (hardfork : Nat) : Act n Bool := do
  let p ← getHardforkProperty
  pure (hardfork < p.processedHardforks.length)

def findWitness (name : String) : Act n (Option (Nat × Witness)) :=
  findRow .witness fun w : Witness => w.owner = name

def getWitnessId (name : String) : Act n Nat :=
  getRow .witness (fun w : Witness => w.owner = name)
    "Unable to find witness account '${wit}'. Did you forget to add a record for it?"

def getStreamingPlatformId (name : String) : Act n Nat :=
  getRow .streamingPlatform (fun p : StreamingPlatform => p.owner = name)
    "Unable to find streaming_platform account '${wit}'. Did you forget to add a record for it?"

def getContentId (url : String) : Act n Nat :=
  getRow .content (fun c : Content => c.url = url) "itr != by_url_idx.end()"

def getLimitOrderId (name : String) (orderid : Nat) : Act n Nat :=
  getRow .limitOrder (fun o : LimitOrder => o.seller = name ∧ o.orderid = orderid)
    "Unable to find order '${acct}/${id}'."

/-- The account's `account_balance_object` of an asset. -/
def findAccountBalance (acc asset : Nat) : Act n (Option (Nat × AccountBalance)) :=
  findRow .accountBalance fun b : AccountBalance => b.owner = acc ∧ b.assetType = asset

def modifyDgp {β : Type} (f : DynamicGlobalProperty → Except Exn β)
    (upd : DynamicGlobalProperty → β → DynamicGlobalProperty) : Act n Unit :=
  Action.modifyWith (S := chainSchema) Kind.dynamicGlobalProperty 0 f upd

/-! ## 2. Balances and supplies -/

/-- `fc::uint128::to_uint64()`. -/
def toUint64 (x : Nat) : Except Exn Nat :=
  if x < 2 ^ 64 then .ok x else .error (.assert "hi == 0")

/-- The seconds a balance was held, `fc::uint128_t( balance ) * seconds`, added up. -/
def addMbdSeconds (a : Account) (now : Nat) : Nat :=
  u128 (a.mbdSeconds +
    uint128OfInt a.mbdBalance.amount * uint128OfInt ((now : Int) - a.mbdSecondsLastUpdate))

/-- The interest that `mbd_seconds` have earned. -/
def interestOf (mbdSeconds rate : Nat) : Except Exn Int := do
  let x ← toUint64 (u128 (mbdSeconds / secondsPerYear * rate) / percent100)
  pure (int64OfNat x)

def interestDue (a : Account) (now : Nat) : Bool :=
  a.mbdSecondsLastUpdate ≠ now && 0 < addMbdSeconds a now &&
    (sbdInterestCompoundIntervalSec : Int) < (now : Int) - a.mbdLastInterestPayment

/-- The part of `adjust_balance` that pays the interest into the supply. -/
def mintInterest (interestPaid : Asset) : Act n Unit := do
  let feed ← getFeedHistory
  modifyDgp
    (fun p => do
      let s ← p.currentMbdSupply.add interestPaid
      let m ← interestPaid.mul feed.currentMedianHistory
      let v ← p.virtualSupply.add m
      pure (s, v))
    fun p x => { p with currentMbdSupply := x.1, virtualSupply := x.2 }

/-- `adjust_balance` for MUSE. -/
def adjustMuseBalance (acc : Nat) (delta : Asset) : Act n Unit :=
  Action.modifyWith (S := chainSchema) Kind.account acc
    (fun a : Account => safe (a.balance.amount + delta.amount))
    fun (a : Account) x => { a with balance := { a.balance with amount := x } }

/-- `adjust_balance` for MBD: the seconds are counted and, when it is due, interest is paid. -/
def adjustMbdBalance (acc : Nat) (delta : Asset) : Act n Unit :=
  Action.modifyNested (S := chainSchema) Kind.account acc
    (fun a : Account => do
      let now ← headBlockTime
      if interestDue a now then do
        let props ← getDynamicGlobalProperties
        let interest ← Action.lift (interestOf (addMbdSeconds a now) props.mbdInterestRate)
        let withInterest ← Action.lift (a.mbdBalance.add (Asset.mbd interest))
        mintInterest (Asset.mbd interest)
        let balance ← Action.lift (withInterest.add delta)
        pure (balance, 0, now, now)
      else do
        let balance ← Action.lift (a.mbdBalance.add delta)
        if a.mbdSecondsLastUpdate ≠ now then
          pure (balance, addMbdSeconds a now, now, a.mbdLastInterestPayment)
        else pure (balance, a.mbdSeconds, a.mbdSecondsLastUpdate, a.mbdLastInterestPayment))
    fun (a : Account) x =>
      { a with
        mbdBalance := x.1
        mbdSeconds := x.2.1
        mbdSecondsLastUpdate := x.2.2.1
        mbdLastInterestPayment := x.2.2.2 }

/-- `adjust_balance` for every other asset. -/
def adjustAssetBalance (acc : Nat) (delta : Asset) : Act n Unit := do
  if delta.amount = 0 then pure ()
  else
    match ← findAccountBalance acc delta.assetId with
    | none => do
        Action.require (0 < delta.amount)
          "Insufficient Balance: ${a}'s balance of ${b} is less than required ${r}"
        let _ ← Action.create (S := chainSchema) Kind.accountBalance
          { owner := acc, assetType := delta.assetId, balance := delta.amount : AccountBalance }
        pure ()
    | some (i, b) => do
        if delta.amount < 0 then do
          let need ← Action.lift (safe (-delta.amount))
          Action.require (need ≤ b.balance)
            "Insufficient Balance: ${a}'s balance of ${b} is less than required ${r}"
        Action.modifyWith (S := chainSchema) Kind.accountBalance i
          (fun b : AccountBalance => safe (b.balance + delta.amount))
          fun (b : AccountBalance) x => { b with balance := x }

def adjustBalance (acc : Nat) (delta : Asset) : Act n Unit :=
  if delta.assetId = museSymbol then adjustMuseBalance acc delta
  else if delta.assetId = mbdSymbol then adjustMbdBalance acc delta
  else adjustAssetBalance acc delta

def getBalance (acc symbol : Nat) : Act n Asset := do
  let a ← getAccount acc
  if symbol = museSymbol then pure a.balance
  else if symbol = mbdSymbol then pure a.mbdBalance
  else
    match ← findAccountBalance acc symbol with
    | none => pure ⟨0, symbol⟩
    | some (_, b) => pure ⟨b.balance, symbol⟩

/-- `adjust_supply( delta, adjust_vesting )`. -/
def adjustSupply (delta : Asset) (adjustVesting : Bool := false) : Act n Unit := do
  let props ← getDynamicGlobalProperties
  let feed ← getFeedHistory
  let adjustVesting := adjustVesting && decide (blocksPerDay * 7 ≤ props.headBlockNumber)
  modifyDgp
    (fun p => do
      if delta.assetId = museSymbol then do
        let extra ← if adjustVesting && decide (0 < delta.amount) then safe (delta.amount * 9)
          else pure 0
        let sum ← delta.add (Asset.muse extra)
        let supply ← p.currentSupply.add sum
        let virt ← p.virtualSupply.add sum
        let fund ← p.totalVestingFundMuse.add (Asset.muse extra)
        pure (supply, p.currentMbdSupply, virt, fund)
      else if delta.assetId = mbdSymbol then do
        let mbd ← p.currentMbdSupply.add delta
        let worth ← mbd.mul feed.currentMedianHistory
        let virt ← worth.add p.currentSupply
        pure (p.currentSupply, mbd, virt, p.totalVestingFundMuse)
      else .error (.assert "!\"invalid symbol\""))
    fun p x =>
      { p with
        currentSupply := x.1
        currentMbdSupply := x.2.1
        virtualSupply := x.2.2.1
        totalVestingFundMuse := x.2.2.2 }

def payFee (acc : Nat) (fee : Asset) : Act n Unit := do
  Action.require (0 ≤ fee.amount) "fee.amount >= 0"
  if fee.amount = 0 then pure ()
  else do
    let neg ← Action.lift fee.neg
    adjustBalance acc neg
    adjustSupply neg

def toMbd (muse : Asset) : Act n Asset := do
  Action.require (muse.assetId = museSymbol) "muse.asset_id == MUSE_SYMBOL"
  let feed ← getFeedHistory
  if feed.currentMedianHistory.isNull then pure (Asset.mbd 0)
  else Action.lift (muse.mul feed.currentMedianHistory)

def toMuse (mbd : Asset) : Act n Asset := do
  Action.require (mbd.assetId = mbdSymbol) "mbd.asset_id == MBD_SYMBOL"
  let feed ← getFeedHistory
  if feed.currentMedianHistory.isNull then pure (Asset.muse 0)
  else Action.lift (mbd.mul feed.currentMedianHistory)

/-- `create_mbd`: what was credited, which is MUSE when there is no price. -/
def createMbd (toAccount : Nat) (muse : Asset) : Act n Asset := do
  if muse.amount = 0 then pure (Asset.mbd 0)
  else do
    let feed ← getFeedHistory
    if feed.currentMedianHistory.isNull then do
      adjustBalance toAccount muse
      pure muse
    else do
      let mbd ← Action.lift (muse.mul feed.currentMedianHistory)
      adjustBalance toAccount mbd
      let neg ← Action.lift muse.neg
      adjustSupply neg
      adjustSupply mbd
      pure mbd

/-! ## 3. Votes that follow the vesting shares -/

/-- `fc::uint128::max_value()`. -/
def virtualScheduleLapLength2 : Nat := 2 ^ 128 - 1

/-- `a / b` of two `fc::uint128`. -/
def div128 (a b : Nat) : Except Exn Nat :=
  if b = 0 then .error (.overflow "Divide by zero") else .ok (a / b)

def sub128 (a b : Nat) : Nat := u128 (a + (2 ^ 128 - b))

def adjustWitnessVote (witness : Nat) (delta : Int) : Act n Unit := do
  let wso ← getWitnessScheduleObject
  let props ← getDynamicGlobalProperties
  Action.modifyWith (S := chainSchema) Kind.witness witness
    (fun w : Witness => do
      let deltaPos := u128 (uint128OfInt w.votes *
        sub128 wso.currentVirtualTime w.virtualLastUpdate)
      let position := u128 (w.virtualPosition + deltaPos)
      let votes ← safe (w.votes + delta)
      check (votes ≤ props.totalVestingShares.amount)
        "w.votes <= get_dynamic_global_properties().total_vesting_shares.amount"
      let lap ← div128 (sub128 virtualScheduleLapLength2 position) (uint128OfInt (votes + 1))
      let time := u128 (wso.currentVirtualTime + lap)
      pure (position, votes,
        if time < wso.currentVirtualTime then virtualScheduleLapLength2 else time))
    fun (w : Witness) x =>
      { w with
        virtualPosition := x.1
        virtualLastUpdate := wso.currentVirtualTime
        votes := x.2.1
        virtualScheduledTime := x.2.2 }

/-- The votes of an account in the order of what they are for. -/
def witnessVotesOf (acc : Nat) : Act n (List (Nat × WitnessVote)) :=
  Action.read fun s =>
    ((s.rows Kind.witnessVote).filter fun r : Nat × WitnessVote => r.2.account = acc).insertionSort
      fun a b : Nat × WitnessVote => a.2.witness ≤ b.2.witness

def adjustWitnessVotes (acc : Nat) (delta : Int) : Act n Unit := do
  let votes ← witnessVotesOf acc
  Action.forEach votes fun v => adjustWitnessVote v.2.witness delta

def adjustStreamingPlatformVote (sp : Nat) (delta : Int) : Act n Unit := do
  let props ← getDynamicGlobalProperties
  Action.modifyWith (S := chainSchema) Kind.streamingPlatform sp
    (fun p : StreamingPlatform => do
      let votes ← safe (p.votes + delta)
      check (votes ≤ props.totalVestingShares.amount)
        "spo.votes <= get_dynamic_global_properties().total_vesting_shares.amount"
      pure votes)
    fun (p : StreamingPlatform) x => { p with votes := x }

def streamingPlatformVotesOf (acc : Nat) : Act n (List (Nat × StreamingPlatformVote)) :=
  Action.read fun s =>
    ((s.rows Kind.streamingPlatformVote).filter fun r : Nat × StreamingPlatformVote =>
      r.2.account = acc).insertionSort
        fun a b : Nat × StreamingPlatformVote => a.2.streamingPlatform ≤ b.2.streamingPlatform

def adjustStreamingPlatformVotes (acc : Nat) (delta : Int) : Act n Unit := do
  let votes ← streamingPlatformVotesOf acc
  Action.forEach votes fun v => adjustStreamingPlatformVote v.2.streamingPlatform delta

/-- `adjust_proxied_witness_votes( a, delta, depth )`, with `left` proxies still to follow:
`depth` is `MUSE_MAX_PROXY_RECURSION_DEPTH - left`. -/
def adjustProxiedFrom : Nat → Nat → Int → Act n Unit
  | left, acc, delta => do
      let a ← getAccount acc
      if a.proxy ≠ proxyToSelfAccount then
        match left with
        | 0 => pure ()
        | left + 1 => do
            let depth := maxProxyRecursionDepth - (left + 1)
            let proxy ← getAccountId a.proxy
            Action.modifyWith (S := chainSchema) Kind.account proxy
              (fun p : Account => safe (p.proxiedVsfVotes.getD depth 0 + delta))
              fun (p : Account) x => { p with proxiedVsfVotes := p.proxiedVsfVotes.set depth x }
            adjustProxiedFrom left proxy delta
      else do
        adjustWitnessVotes acc delta
        adjustStreamingPlatformVotes acc delta

def adjustProxiedWitnessVotes (acc : Nat) (delta : Int) : Act n Unit :=
  adjustProxiedFrom maxProxyRecursionDepth acc delta

/-- One pass of the loop of the other overload: the proxy's entries `depth ..` take the deltas. -/
def addDeltas (votes : List Int) (deltas : List Int) : Nat → Nat → Except Exn (List Int)
  | _, 0 => .ok votes
  | depth, i + 1 => do
      -- the loop runs downwards, from `i` to 0
      let x ← safe (votes.getD (i + depth) 0 + deltas.getD i 0)
      addDeltas (votes.set (i + depth) x) deltas depth i

def sumShares (l : List Int) (start : Int) : Except Exn Int :=
  match l with
  | [] => .ok start
  | x :: l => do
      let s ← safe (start + x)
      sumShares l s

/-- `adjust_proxied_witness_votes( a, std::array delta, depth )`. -/
def adjustProxiedDeltasFrom : Nat → Nat → List Int → Act n Unit
  | left, acc, deltas => do
      let a ← getAccount acc
      let depth := maxProxyRecursionDepth - left
      if a.proxy ≠ proxyToSelfAccount then
        match left with
        | 0 => pure ()
        | left + 1 => do
            let proxy ← getAccountId a.proxy
            Action.modifyWith (S := chainSchema) Kind.account proxy
              (fun p : Account => addDeltas p.proxiedVsfVotes deltas depth
                (maxProxyRecursionDepth - depth))
              fun (p : Account) x => { p with proxiedVsfVotes := x }
            adjustProxiedDeltasFrom left proxy deltas
      else do
        let total ← Action.lift
          (sumShares (deltas.take (maxProxyRecursionDepth - depth + 1)).reverse 0)
        adjustWitnessVotes acc total
        adjustStreamingPlatformVotes acc total

def adjustProxiedWitnessDeltas (acc : Nat) (deltas : List Int) : Act n Unit :=
  adjustProxiedDeltasFrom maxProxyRecursionDepth acc deltas

def clearWitnessVotes (acc : Nat) : Act n Unit := do
  let votes ← witnessVotesOf acc
  Action.forEach votes fun v => Action.remove (S := chainSchema) Kind.witnessVote v.1
  Action.modify (S := chainSchema) Kind.account acc
    fun a : Account => { a with witnessesVotedFor := 0 }

def clearStreamingPlatformVotes (acc : Nat) : Act n Unit := do
  let votes ← streamingPlatformVotesOf acc
  Action.forEach votes fun v => Action.remove (S := chainSchema) Kind.streamingPlatformVote v.1
  Action.modify (S := chainSchema) Kind.account acc
    fun a : Account => { a with streamingPlatformsVotedFor := 0 }

/-! ## 4. Scores -/

/-- `detail::isqrt`, `i` passes before the end. -/
def isqrtLoop : Nat → Nat → Nat → Nat → Nat
  | 0, _, _, root => root / 2
  | i + 1, a, rem, root =>
      let root := u32 (root * 2)
      let rem := u64 (u64 (rem * 4) + a / 2 ^ 62)
      let a := u64 (a * 4)
      if root < rem then
        let root := u32 (root + 1)
        isqrtLoop i a (u64 (rem + (2 ^ 64 - root))) (u32 (root + 1))
      else isqrtLoop i a rem root

def isqrt (a : Nat) : Nat := isqrtLoop 32 a 0 0

/-- `get_scoring_vesting()`. -/
def Account.getScoringVesting (a : Account) : Nat := uint64OfInt a.vestingShares.amount

/-- `ao.score += delta`, of an unsigned and a signed number. -/
def addScore (score : Nat) (delta : Int) : Nat := uint64OfInt (score + delta)

def bumpScore (acc : Nat) (delta : Int) : Act n Unit :=
  Action.modify (S := chainSchema) Kind.account acc
    fun a : Account => { a with score := addScore a.score delta }

def recursiveRecalculateScore (acc : Nat) (delta : Int) : Act n Unit := do
  let a ← getAccount acc
  let oldAmount ← Action.lift (safe (a.vestingShares.amount - delta))
  let scoreDelta := (isqrt a.getScoringVesting : Int) - isqrt (uint64OfInt oldAmount)
  bumpScore acc scoreDelta
  Action.forEach a.friends fun f => do
    let _ ← getAccount f
    bumpScore f (Int.tdiv (scoreDelta * scoringPercentage1stLevel) 100)
  Action.forEach a.secondLevel fun f => do
    let _ ← getAccount f
    bumpScore f (Int.tdiv (scoreDelta * scoringPercentage2stLevel) 100)

/-- The loops of `recalculate_score` and `get_scoring`. -/
def scoreOf (a : Account) : Act n Nat := do
  let start := isqrt a.getScoringVesting
  let s ← Action.foldEach a.friends start fun s f => do
    let o ← getAccount f
    pure (u64 (s + u32 (isqrt o.getScoringVesting * scoringPercentage1stLevel) / 100))
  Action.foldEach a.secondLevel s fun s f => do
    let o ← getAccount f
    pure (u64 (s + u32 (isqrt o.getScoringVesting * scoringPercentage2stLevel) / 100))

def recalculateScore (acc : Nat) : Act n Unit := do
  let a ← getAccount acc
  let score ← scoreOf a
  Action.modify (S := chainSchema) Kind.account acc fun a : Account => { a with score := score }

/-- `get_scoring( content )`. -/
def getScoringContent (c : Content) : Act n Nat := do
  let payees := c.distributionsComp ++ c.distributionsMaster
  let total ← Action.foldEach payees 0 fun s d => do
    let a ← getAccountByName d.payee
    pure (u64 (s + a.score))
  pure (if payees = [] then 0 else total / payees.length)

/-! ## 5. Vesting -/

/-- `create_vesting`: the new shares. -/
def createVesting (toAccount : Nat) (muse : Asset) : Act n Asset := do
  let props ← getDynamicGlobalProperties
  let newVesting ← Action.lift (muse.mul props.getVestingSharePrice)
  Action.modifyWith (S := chainSchema) Kind.account toAccount
    (fun a : Account => a.vestingShares.add newVesting)
    fun (a : Account) x => { a with vestingShares := x }
  modifyDgp
    (fun p => do
      let fund ← p.totalVestingFundMuse.add muse
      let shares ← p.totalVestingShares.add newVesting
      pure (fund, shares))
    fun p x => { p with totalVestingFundMuse := x.1, totalVestingShares := x.2 }
  adjustProxiedWitnessVotes toAccount newVesting.amount
  recursiveRecalculateScore toAccount newVesting.amount
  pure newVesting

/-! ## 6. Owner authorities -/

def updateOwnerAuthority (acc : Nat) (ownerAuthority : Authority) : Act n Unit := do
  let num ← headBlockNum
  let now ← headBlockTime
  let a ← getAccount acc
  if 3186477 ≤ num then do
    let _ ← Action.create (S := chainSchema) Kind.ownerAuthorityHistory
      { account := a.name, previousOwnerAuthority := a.owner,
        lastValidTime := now : OwnerAuthorityHistory }
    pure ()
  Action.modify (S := chainSchema) Kind.account acc
    fun a : Account => { a with owner := ownerAuthority, lastOwnerUpdate := now }

end MuseChain
