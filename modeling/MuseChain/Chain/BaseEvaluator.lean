/-
  File:      MuseChain/Chain/BaseEvaluator.lean
  Subject:   do_apply of the evaluators of base_evaluator.cpp.

  An evaluator is named after the operation it applies. What follows an `FC_ASSERT( false )` in
  the source is unreachable and left out.
-/
import MuseChain.Chain.Rewards

namespace MuseChain

variable {n : Nat}

/-! ## 1. Helpers -/

/-- `fc::seconds` between two times, which may be negative. -/
def elapsed (now since : Nat) : Int := (now : Int) - since

/-- An `int64_t` after an operation that is not checked. -/
def wrap64 (x : Int) : Int := int64OfNat (uint64OfInt x)

/-- `fc::json::is_valid`, with the parser that the hardfork calls for. -/
def checkJson [Fc] (json msg : String) : Act n Unit := do
  let hf3 ← hasHardfork hardfork03
  Action.require ((if hf3 then Fc.jsonValid json else Fc.jsonValidBrokenNul json) = true) msg

def setProved (acc now : Nat) : Act n Unit :=
  Action.modify (S := chainSchema) Kind.account acc
    fun a : Account => { a with activeChallenged := false, lastActiveProved := now }

def Account.witnessVoteWeight (a : Account) : Except Exn Int :=
  sumShares a.proxiedVsfVotes a.vestingShares.amount

/-! ## 2. Accounts and witnesses -/

def witnessUpdate (o : WitnessUpdateOp) : Act n Unit := do
  let _ ← getAccountId o.owner
  Action.require (o.url.utf8ByteSize ≤ maxWitnessUrlLength)
    "o.url.size() <= MUSE_MAX_WITNESS_URL_LENGTH"
  match ← findWitness o.owner with
  | some (i, _) =>
      Action.modify (S := chainSchema) Kind.witness i fun w : Witness =>
        { w with url := o.url, signingKey := o.blockSigningKey, props := o.props }
  | none => do
      let now ← headBlockTime
      let _ ← Action.create (S := chainSchema) Kind.witness
        { owner := o.owner, url := o.url, signingKey := o.blockSigningKey, created := now,
          props := o.props : Witness }
      pure ()

section

variable [Fc]

def accountCreate (o : AccountCreateOp) : Act n Unit := do
  if 0 < o.jsonMetadata.utf8ByteSize then
    checkJson o.jsonMetadata "JSON Metadata not valid JSON"
  let hf3 ← hasHardfork hardfork03
  if hf3 then Action.lift o.basic.validate
  let creator ← getAccountId o.creator
  let props ← getDynamicGlobalProperties
  if 0 < props.headBlockNumber then do
    let c ← getAccount creator
    let ge ← Action.lift (c.balance.ge o.fee)
    Action.require (ge = true) "Isufficient balance to create account"
    let wso ← getWitnessScheduleObject
    let ge ← Action.lift (o.fee.ge wso.medianProps.accountCreationFee)
    Action.require (ge = true) "Insufficient Fee: ${f} required, ${p} provided"
  Action.modifyWith (S := chainSchema) Kind.account creator
    (fun c : Account => c.balance.sub o.fee)
    fun (c : Account) x => { c with balance := x }
  let newAccount ← Action.create (S := chainSchema) Kind.account
    { name := o.newAccountName, owner := o.owner, active := o.active, basic := o.basic,
      memoKey := o.memoKey, lastOwnerUpdate := 0, created := props.time,
      lastVoteTime := props.time, mined := false, recoveryAccount := o.creator,
      jsonMetadata := o.jsonMetadata : Account }
  if 0 < o.fee.amount then do
    let _ ← createVesting newAccount o.fee
    pure ()

def accountUpdate (o : AccountUpdateOp) : Act n Unit := do
  if 0 < o.jsonMetadata.utf8ByteSize then
    checkJson o.jsonMetadata "JSON Metadata not valid JSON"
  Action.require (o.account ≠ tempAccount) "o.account != MUSE_TEMP_ACCOUNT"
  let hf3 ← hasHardfork hardfork03
  match hf3, o.basic with
  | true, some b => Action.lift b.validate
  | _, _ => pure ()
  let account ← getAccountId o.account
  match o.owner with
  | some owner => do
      let a ← getAccount account
      let now ← headBlockTime
      Action.require (ownerUpdateLimit < elapsed now a.lastOwnerUpdate)
        "db().head_block_time() - account.last_owner_update > MUSE_OWNER_UPDATE_LIMIT"
      updateOwnerAuthority account owner
  | none => pure ()
  let now ← headBlockTime
  Action.modify (S := chainSchema) Kind.account account fun a : Account =>
    let proves := (o.active.isSome || o.owner.isSome) && a.activeChallenged
    { a with
      active := o.active.getD a.active
      basic := o.basic.getD a.basic
      memoKey := if o.memoKey ≠ 0 then o.memoKey else a.memoKey
      activeChallenged := if proves then false else a.activeChallenged
      lastActiveProved := if proves then now else a.lastActiveProved
      jsonMetadata := if 0 < o.jsonMetadata.utf8ByteSize then o.jsonMetadata else a.jsonMetadata }

end

/-! ## 3. Transfers and vesting -/

def escrowTransfer : Act n Unit := Action.throw (.assert "Escrow transfer operation not enabled")

def escrowDispute : Act n Unit := Action.throw (.assert "Escrow dispute operation not enabled")

def escrowRelease : Act n Unit := Action.throw (.assert "Escrow release operation not enabled")

def transfer (sender receiver : String) (amount : Asset) : Act n Unit := do
  let fromAccount ← getAccountId sender
  let toAccount ← getAccountId receiver
  let a ← getAccount fromAccount
  if a.activeChallenged then do
    let now ← headBlockTime
    setProved fromAccount now
  if amount.assetId ≠ vestsSymbol then do
    let balance ← getBalance fromAccount amount.assetId
    let ge ← Action.lift (balance.ge amount)
    Action.require (ge = true) "db().get_balance( from_account, o.amount.asset_id ) >= o.amount"
    let neg ← Action.lift amount.neg
    adjustBalance fromAccount neg
    adjustBalance toAccount amount
  else Action.throw (.assert "transferring of Vestings (VEST) is not allowed.")

def transferToVesting (sender receiver : String) (amount : Asset) : Act n Unit := do
  let fromAccount ← getAccountId sender
  let toAccount ← if receiver ≠ "" then getAccountId receiver else pure fromAccount
  let balance ← getBalance fromAccount museSymbol
  let ge ← Action.lift (balance.ge amount)
  Action.require (ge = true) "db().get_balance( from_account, MUSE_SYMBOL) >= o.amount"
  let neg ← Action.lift amount.neg
  adjustBalance fromAccount neg
  let _ ← createVesting toAccount amount
  pure ()

/-- `o.vesting_shares.amount / MUSE_VESTING_WITHDRAW_INTERVALS`, at least 1. -/
def withdrawRate (amount : Int) : Except Exn Asset := do
  let x ← safeDiv amount vestingWithdrawIntervals
  pure (Asset.vests (if x = 0 then 1 else x))

/-- `clock` is `fc::time_point::now()`, in microseconds. -/
def withdrawVesting (clock : Nat) (account : String) (vestingShares : Asset) : Act n Unit := do
  let acc ← getAccountId account
  let now ← headBlockTime
  -- the soft fork: only a node whose clock is close to the head block rejects
  if (clock : Int) - 15000000 < now * 1000000 then
    Action.require (0 ≤ vestingShares.amount) "Cannot withdraw a negative amount of VESTS!"
  let a ← getAccount acc
  let ge ← Action.lift (a.vestingShares.ge (Asset.vests 0))
  Action.require (ge = true) "account.vesting_shares >= asset( 0, VESTS_SYMBOL )"
  let ge ← Action.lift (a.vestingShares.ge vestingShares)
  Action.require (ge = true) "account.vesting_shares >= o.vesting_shares"
  if a.mined then pure ()
  else do
    let props ← getDynamicGlobalProperties
    let wso ← getWitnessScheduleObject
    let minVests ← Action.lift (wso.medianProps.accountCreationFee.mul props.getVestingSharePrice)
    let gt ← Action.lift (a.vestingShares.gt { minVests with amount := wrap64 (minVests.amount * 10) })
    Action.require (gt = true)
      "Account registered by another account requires 10x account creation fee worth of Vestings before it can power down"
  if vestingShares.amount ≤ 0 then do
    if vestingShares.amount = 0 then
      Action.require (a.vestingWithdrawRate.amount ≠ 0)
        "this operation would not change the vesting withdraw rate"
    Action.modify (S := chainSchema) Kind.account acc fun a : Account =>
      { a with
        vestingWithdrawRate := Asset.vests 0
        nextVestingWithdrawal := timeMaximum
        toWithdraw := 0
        withdrawn := 0 }
  else
    Action.modifyWith (S := chainSchema) Kind.account acc
      (fun a : Account => do
        let rate ← withdrawRate vestingShares.amount
        check (a.vestingWithdrawRate ≠ rate)
          "this operation would not change the vesting withdraw rate"
        pure rate)
      fun (a : Account) rate =>
        { a with
          vestingWithdrawRate := rate
          nextVestingWithdrawal := u32 (now + vestingWithdrawIntervalSeconds)
          toWithdraw := vestingShares.amount
          withdrawn := 0 }

def setWithdrawVestingRoute (fromAccount toAccount : String) (percent : Nat) (autoVest : Bool) :
    Act n Unit := do
  let fromId ← getAccountId fromAccount
  let toId ← getAccountId toAccount
  let route ← findRow Kind.withdrawVestingRoute fun r : WithdrawVestingRoute =>
    r.fromAccount = fromId ∧ r.toAccount = toId
  match route with
  | none => do
      Action.require (percent ≠ 0) "Cannot create a 0% destination."
      let a ← getAccount fromId
      Action.require (a.withdrawRoutes < maxWithdrawRoutes)
        "from_account.withdraw_routes < MUSE_MAX_WITHDRAW_ROUTES"
      let _ ← Action.create (S := chainSchema) Kind.withdrawVestingRoute
        { fromAccount := fromId, toAccount := toId, percent := percent,
          autoVest := autoVest : WithdrawVestingRoute }
      Action.modifyWith (S := chainSchema) Kind.account fromId
        (fun a : Account => .ok (u16 (a.withdrawRoutes + 1)))
        fun (a : Account) x => { a with withdrawRoutes := x }
  | some (i, _) =>
      if percent = 0 then do
        Action.remove (S := chainSchema) Kind.withdrawVestingRoute i
        Action.modifyWith (S := chainSchema) Kind.account fromId
          (fun a : Account => .ok (u16 (a.withdrawRoutes + 65535)))
          fun (a : Account) x => { a with withdrawRoutes := x }
      else
        -- the two accounts are the ones it was found by
        Action.modify (S := chainSchema) Kind.withdrawVestingRoute i fun r : WithdrawVestingRoute =>
          { r with percent := percent, autoVest := autoVest }
  let routes ← withdrawRoutesOf fromId
  Action.require (routes.foldl (fun t r => u16 (t + r.2.percent)) 0 ≤ percent100)
    "More than 100% of vesting allocated to destinations"

/-! ## 4. Votes -/

/-- The check for proxy loops: the chain may have `MUSE_MAX_PROXY_RECURSION_DEPTH` accounts. -/
def checkProxyChain : Nat → List Nat → Nat → Act n Unit
  | left, chain, cprox => do
      let a ← getAccount cprox
      if a.proxy = "" then pure ()
      else do
        let next ← getAccountId a.proxy
        Action.require (next ∉ chain) "Attempt to create a proxy loop"
        Action.require ((next :: chain).length ≤ maxProxyRecursionDepth) "Proxy chain is too long"
        match left with
        | 0 => Action.throw (.crash "the chain is longer than its bound")
        | left + 1 => checkProxyChain left (next :: chain) next

def negEach : List Int → Except Exn (List Int)
  | [] => .ok []
  | x :: l => do
      let y ← safe (-x)
      let ys ← negEach l
      pure (y :: ys)

def accountWitnessProxy (account proxy : String) : Act n Unit := do
  let acc ← getAccountId account
  let a ← getAccount acc
  Action.require (a.proxy ≠ proxy) "something must change"
  let delta ← Action.lift (negEach (a.vestingShares.amount :: a.proxiedVsfVotes))
  adjustProxiedWitnessDeltas acc delta
  if proxy ≠ "" then do
    let newProxy ← getAccountId proxy
    checkProxyChain maxProxyRecursionDepth
      (if newProxy = acc then [acc] else [acc, newProxy]) newProxy
    clearWitnessVotes acc
    clearStreamingPlatformVotes acc
    Action.modify (S := chainSchema) Kind.account acc fun a : Account => { a with proxy := proxy }
    let back ← Action.lift (negEach delta)
    adjustProxiedWitnessDeltas acc back
  else
    Action.modify (S := chainSchema) Kind.account acc fun a : Account => { a with proxy := proxy }

/-- `a.witnesses_voted_for++` and `--`, on a `uint16_t`. -/
def bumpWitnessesVotedFor (acc : Nat) (delta : Nat) : Act n Unit :=
  Action.modifyWith (S := chainSchema) Kind.account acc
    (fun a : Account => .ok (u16 (a.witnessesVotedFor + delta)))
    fun (a : Account) x => { a with witnessesVotedFor := x }

def accountWitnessVote (account witness : String) (approve : Bool) : Act n Unit := do
  let voter ← getAccountId account
  let v ← getAccount voter
  Action.require (v.proxy = "")
    "A proxy is currently set, please clear the proxy before voting for a witness"
  let wit ← getWitnessId witness
  let vote ← findRow Kind.witnessVote fun r : WitnessVote => r.account = voter ∧ r.witness = wit
  match vote with
  | none => do
      Action.require (approve = true)
        "vote doesn't exist, user must be indicate a desire to approve witness"
      Action.require (v.witnessesVotedFor < maxAccountWitnessVotes)
        "account has voted for too many witnesses"
      let _ ← Action.create (S := chainSchema) Kind.witnessVote
        { witness := wit, account := voter : WitnessVote }
      let weight ← Action.lift v.witnessVoteWeight
      adjustWitnessVote wit weight
      bumpWitnessesVotedFor voter 1
  | some (i, _) => do
      Action.require (approve = false)
        "vote currently exists, user must be indicate a desire to reject witness"
      let weight ← Action.lift v.witnessVoteWeight
      let neg ← Action.lift (safe (-weight))
      adjustWitnessVote wit neg
      bumpWitnessesVotedFor voter 65535
      Action.remove (S := chainSchema) Kind.witnessVote i

/-! ## 5. Custom operations, feeds -/

def customJson [Fc] (requiredBasicAuths : List String) (json : String) : Act n Unit := do
  if 0 < json.utf8ByteSize then checkJson json "JSON data not valid JSON"
  Action.forEach requiredBasicAuths fun auth => do
    let a ← getAccountByName auth
    Action.require ((a.ownerChallenged || a.activeChallenged) = false)
      "!( acnt.owner_challenged || acnt.active_challenged )"

def feedPublish (publisher : String) (exchangeRate : Price) : Act n Unit := do
  let wit ← getWitnessId publisher
  let now ← headBlockTime
  Action.modify (S := chainSchema) Kind.witness wit fun w : Witness =>
    { w with mbdExchangeRate := exchangeRate, lastMbdExchangeUpdate := now }

def convert (owner : String) (requestid : Nat) (amount : Asset) : Act n Unit := do
  let acc ← getAccountId owner
  let balance ← getBalance acc amount.assetId
  let ge ← Action.lift (balance.ge amount)
  Action.require (ge = true) "db().get_balance( owner, o.amount.asset_id ) >= o.amount"
  let neg ← Action.lift amount.neg
  adjustBalance acc neg
  let feed ← getFeedHistory
  Action.require (feed.currentMedianHistory.isNull = false)
    "!fhistory.current_median_history.is_null()"
  let now ← headBlockTime
  let _ ← Action.create (S := chainSchema) Kind.convertRequest
    { owner := owner, requestid := requestid, amount := amount,
      conversionDate := u32 (now + conversionDelay) : ConvertRequest }
  pure ()

/-! ## 6. Limit orders -/

/-- What the two create operations share: they differ in the price. -/
def placeOrder (owner : String) (orderid : Nat) (amountToSell : Asset) (fillOrKill : Bool)
    (expiration : Nat) (sellPrice : Except Exn Price) : Act n Unit := do
  let now ← headBlockTime
  Action.require (now < expiration) "o.expiration > db().head_block_time()"
  let acc ← getAccountId owner
  let balance ← getBalance acc amountToSell.assetId
  let ge ← Action.lift (balance.ge amountToSell)
  Action.require (ge = true)
    "db().get_balance( owner, o.amount_to_sell.asset_id ) >= o.amount_to_sell"
  let neg ← Action.lift amountToSell.neg
  adjustBalance acc neg
  let price ← Action.lift sellPrice
  let order ← Action.create (S := chainSchema) Kind.limitOrder
    { created := now, seller := owner, orderid := orderid, forSale := amountToSell.amount,
      sellPrice := price, expiration := expiration : LimitOrder }
  let filled ← applyOrder order
  if fillOrKill then Action.require (filled = true) "filled"

def limitOrderCreate (o : LimitOrderCreateOp) : Act n Unit :=
  placeOrder o.owner o.orderid o.amountToSell o.fillOrKill o.expiration
    (Price.ofAssets o.amountToSell o.minToReceive)

def limitOrderCreate2 (o : LimitOrderCreate2Op) : Act n Unit :=
  placeOrder o.owner o.orderid o.amountToSell o.fillOrKill o.expiration (.ok o.exchangeRate)

def limitOrderCancel (owner : String) (orderid : Nat) : Act n Unit := do
  let order ← getLimitOrderId owner orderid
  cancelOrder order

/-- `report_over_production_evaluator`, which throws one of two messages. -/
def reportOverProduction : Act n Unit := Action.throw (.assert "this operation is disabled")

/-! ## 7. Challenges and recovery -/

def challengeAuthority (challenger challenged : String) (requireOwner : Bool) : Act n Unit := do
  let challengedId ← getAccountId challenged
  let challengerId ← getAccountId challenger
  if requireOwner then
    Action.throw (.assert "Challenging the owner key is not supported at this time")
  else do
    let fee := Asset.muse activeChallengeFee
    let a ← getAccount challengerId
    let ge ← Action.lift (a.balance.ge fee)
    Action.require (ge = true) "challenger.balance >= MUSE_ACTIVE_CHALLENGE_FEE"
    let c ← getAccount challengedId
    Action.require ((c.ownerChallenged || c.activeChallenged) = false)
      "!( challenged.owner_challenged || challenged.active_challenged )"
    let now ← headBlockTime
    Action.require (activeChallengeCooldown < elapsed now c.lastActiveProved)
      "db().head_block_time() - challenged.last_active_proved > MUSE_ACTIVE_CHALLENGE_COOLDOWN"
    let neg ← Action.lift fee.neg
    adjustBalance challengerId neg
    let _ ← createVesting challengedId fee
    Action.modify (S := chainSchema) Kind.account challengedId
      fun a : Account => { a with activeChallenged := true }

def proveAuthority (challenged : String) (requireOwner : Bool) : Act n Unit := do
  let acc ← getAccountId challenged
  let a ← getAccount acc
  Action.require ((a.ownerChallenged || a.activeChallenged) = true)
    "challenged.owner_challenged || challenged.active_challenged"
  let now ← headBlockTime
  Action.modify (S := chainSchema) Kind.account acc fun a : Account =>
    { a with
      activeChallenged := false
      lastActiveProved := now
      ownerChallenged := if requireOwner then false else a.ownerChallenged
      lastOwnerProved := if requireOwner then now else a.lastOwnerProved }

/-- The witnesses in the order by_vote_name: the most votes, then the name. -/
def byVoteName (l : List (Nat × Witness)) : List (Nat × Witness) :=
  l.insertionSort fun a b : Nat × Witness =>
    b.2.votes < a.2.votes ∨ (a.2.votes = b.2.votes ∧ nameLt b.2.owner a.2.owner = false)

def requestAccountRecovery (recoveryAccount accountToRecover : String)
    (newOwnerAuthority : Authority) : Act n Unit := do
  let a ← getAccountByName accountToRecover
  if a.recoveryAccount ≠ "" then
    Action.require (a.recoveryAccount = recoveryAccount)
      "account_to_recover.recovery_account == o.recovery_account"
  else do
    let witnesses ← Action.rows (S := chainSchema) Kind.witness
    match (byVoteName witnesses).head? with
    | some w =>
        Action.require (w.2.owner = recoveryAccount)
          "db().get_index_type< witness_index >().indices().get< by_vote_name >().begin()->owner == o.recovery_account"
    | none => Action.throw (.crash "begin() of an empty index")
  let now ← headBlockTime
  let request ← findRow Kind.accountRecoveryRequest fun r : AccountRecoveryRequest =>
    r.accountToRecover = accountToRecover
  match request with
  | none => do
      Action.require (newOwnerAuthority.isImpossible = false)
        "Cannot recover with an impossible authority"
      Action.require (newOwnerAuthority.weightThreshold ≠ 0) "Cannot recover with an open authority"
      let _ ← Action.create (S := chainSchema) Kind.accountRecoveryRequest
        { accountToRecover := accountToRecover, newOwnerAuthority := newOwnerAuthority,
          expires := u32 (now + accountRecoveryRequestExpirationPeriod) : AccountRecoveryRequest }
      pure ()
  | some (i, _) =>
      if newOwnerAuthority.weightThreshold = 0 then
        Action.remove (S := chainSchema) Kind.accountRecoveryRequest i
      else do
        Action.require (newOwnerAuthority.isImpossible = false)
          "Cannot recover with an impossible authority"
        Action.modify (S := chainSchema) Kind.accountRecoveryRequest i
          fun r : AccountRecoveryRequest =>
            { r with
              newOwnerAuthority := newOwnerAuthority
              expires := u32 (now + accountRecoveryRequestExpirationPeriod) }

def recoverAccount (accountToRecover : String)
    (newOwnerAuthority recentOwnerAuthority : Authority) : Act n Unit := do
  let acc ← getAccountId accountToRecover
  let a ← getAccount acc
  let now ← headBlockTime
  Action.require (ownerUpdateLimit < elapsed now a.lastAccountRecovery)
    "db().head_block_time() - account.last_account_recovery > MUSE_OWNER_UPDATE_LIMIT"
  let request ← findRow Kind.accountRecoveryRequest fun r : AccountRecoveryRequest =>
    r.accountToRecover = accountToRecover
  match request with
  | none => Action.throw (.assert "request != recovery_request_idx.end()")
  | some (i, r) => do
      Action.require (r.newOwnerAuthority = newOwnerAuthority)
        "request->new_owner_authority == o.new_owner_authority"
      let hist ← findRow Kind.ownerAuthorityHistory fun h : OwnerAuthorityHistory =>
        h.account = accountToRecover ∧ h.previousOwnerAuthority = recentOwnerAuthority
      Action.require (hist.isSome = true) "Recent authority not found in authority history"
      Action.remove (S := chainSchema) Kind.accountRecoveryRequest i
      updateOwnerAuthority acc newOwnerAuthority
      Action.modify (S := chainSchema) Kind.account acc
        fun a : Account => { a with lastAccountRecovery := now }

def changeRecoveryAccount (accountToRecover newRecoveryAccount : String) : Act n Unit := do
  let _ ← getAccountId newRecoveryAccount
  let a ← getAccountByName accountToRecover
  let now ← headBlockTime
  let request ← findRow Kind.changeRecoveryAccountRequest fun r : ChangeRecoveryAccountRequest =>
    r.accountToRecover = accountToRecover
  match request with
  | none => do
      let _ ← Action.create (S := chainSchema) Kind.changeRecoveryAccountRequest
        { accountToRecover := accountToRecover, recoveryAccount := newRecoveryAccount,
          effectiveOn := u32 (now + ownerAuthRecoveryPeriod) : ChangeRecoveryAccountRequest }
      pure ()
  | some (i, _) =>
      if a.recoveryAccount ≠ newRecoveryAccount then
        Action.modify (S := chainSchema) Kind.changeRecoveryAccountRequest i
          fun r : ChangeRecoveryAccountRequest =>
            { r with
              recoveryAccount := newRecoveryAccount
              effectiveOn := u32 (now + ownerAuthRecoveryPeriod) }
      else Action.remove (S := chainSchema) Kind.changeRecoveryAccountRequest i

end MuseChain
