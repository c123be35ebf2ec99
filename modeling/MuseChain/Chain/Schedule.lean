/-
  File:      MuseChain/Chain/Schedule.lean
  Subject:   Witness schedule, price feed, irreversibility, recovery requests and hardforks.

  The rest of what `_apply_block` does after the transactions. The version that most witnesses
  run, which only the wallet shows, is left out.
-/
import MuseChain.Chain.Proposals

namespace MuseChain

variable {n : Nat}

/-! ## 1. Slots -/

/-- `get_slot_time`. -/
def getSlotTime (slotNum : Nat) : Act n Nat := do
  let p ← getDynamicGlobalProperties
  if slotNum = 0 then pure 0
  else if p.headBlockNumber = 0 then pure (u32 (p.time + slotNum * blockInterval))
  else pure (u32 (p.time / blockInterval * blockInterval + slotNum * blockInterval))

def getSlotAtTime (when_ : Nat) : Act n Nat := do
  let first ← getSlotTime 1
  if when_ < first then pure 0 else pure (u32 ((when_ - first) / blockInterval + 1))

def getScheduledWitness (slotNum : Nat) : Act n String := do
  let p ← getDynamicGlobalProperties
  let wso ← getWitnessScheduleObject
  let aslot := u64 (p.currentAslot + slotNum)
  match wso.currentShuffledWitnesses[aslot % wso.currentShuffledWitnesses.length]? with
  | some w => pure w
  | none => Action.throw (.crash "no scheduled witnesses")

def getWitness (name : String) : Act n Witness := do
  let i ← getWitnessId name
  getObject .witness i

/-! ## 2. The schedule -/

/-- The witnesses in the order by_schedule_time. -/
def byScheduleTime (l : List (Nat × Witness)) : List (Nat × Witness) :=
  l.insertionSort fun a b : Nat × Witness =>
    a.2.virtualScheduledTime < b.2.virtualScheduledTime ∨
      (a.2.virtualScheduledTime = b.2.virtualScheduledTime ∧ a.1 ≤ b.1)

/-- A witness that hardfork 3 skips. -/
def unsignable (hf3 : Bool) (w : Witness) : Bool := hf3 && decide (w.signingKey = 0)

/-- The runners: the new virtual time, who was processed, and who is added. -/
def runners (hf3 : Bool) (voted : List Nat) :
    List (Nat × Witness) → Nat → Nat → Nat × List (Nat × Witness) × List String
  | [], _, time => (time, [], [])
  | r :: rest, count, time =>
      if maxMiners ≤ count then (time, [], [])
      else if unsignable hf3 r.2 || decide (r.1 ∈ voted) then
        let (t, processed, added) := runners hf3 voted rest count r.2.virtualScheduledTime
        (t, r :: processed, added)
      else
        let (t, processed, added) := runners hf3 voted rest (count + 1) r.2.virtualScheduledTime
        (t, r :: processed, r.2.owner :: added)

def resetVirtualScheduleTime : Act n Unit := do
  Action.modify (S := chainSchema) Kind.witnessSchedule 0
    fun o : WitnessSchedule => { o with currentVirtualTime := 0 }
  let witnesses ← Action.rows (S := chainSchema) Kind.witness
  Action.forEach witnesses fun r =>
    Action.modifyWith (S := chainSchema) Kind.witness r.1
      (fun w : Witness => div128 virtualScheduleLapLength2 (uint128OfInt (w.votes + 1)))
      fun (w : Witness) x =>
        { w with virtualPosition := 0, virtualLastUpdate := 0, virtualScheduledTime := x }

/-- The update of the processed witnesses: whether the virtual time overflowed. -/
def updateProcessed (newVirtualTime : Nat) : List (Nat × Witness) → Act n Bool
  | [] => pure false
  | r :: rest => do
      let lap ← Action.lift (div128 virtualScheduleLapLength2 (uint128OfInt (r.2.votes + 1)))
      let time := u128 (newVirtualTime + lap)
      if time < newVirtualTime then pure true
      else do
        Action.modify (S := chainSchema) Kind.witness r.1 fun w : Witness =>
          { w with
            virtualPosition := 0, virtualLastUpdate := newVirtualTime, virtualScheduledTime := time }
        updateProcessed newVirtualTime rest

/-- The votes of the scheduled witnesses for the next hardfork, in the order of the map. -/
def hardforkVotes (names : List String) : Act n (List (Version × Nat)) := do
  let votes ← Action.foldEach names [] fun votes name => do
    let w ← getWitness name
    pure (votes ++ [(w.hardforkVersionVote, w.hardforkTimeVote)])
  pure (votes.insertionSort fun a b : Version × Nat =>
    a.1.lt b.1 = true ∨ (a.1 = b.1 ∧ a.2 ≤ b.2))

/-- `std::swap( l[i], l[j] )`. -/
def swapAt (l : List String) (i j : Nat) : List String :=
  match l[i]?, l[j]? with
  | some a, some b => (l.set i b).set j a
  | _, _ => l

/-- The random number of pass `i` of the shuffle. -/
def shuffleKey (nowHi i : Nat) : Nat :=
  let k := u64 (nowHi + u64 (i * 2685821657736338717))
  let k := k ^^^ (k >>> 12)
  let k := k ^^^ u64 (k <<< 25)
  let k := k ^^^ (k >>> 27)
  u64 (k * 2685821657736338717)

/-- The shuffle, `left` passes before its end. -/
def shuffleFrom (nowHi size : Nat) : Nat → List String → List String
  | 0, l => l
  | left + 1, l =>
      let i := size - (left + 1)
      shuffleFrom nowHi size left (swapAt l i (i + shuffleKey nowHi i % (left + 1)))

/-- The middle one of the scheduled witnesses when they are sorted by `le`. -/
def medianWitness (active : List Witness) (le : Witness → Witness → Bool) : Except Exn Witness :=
  let sorted := active.insertionSort fun a b => le a b = true
  match sorted[sorted.length / 2]? with
  | some w => .ok w
  | none => .error (.crash "no scheduled witnesses")

def updateMedianWitnessProps : Act n Unit := do
  let wso ← getWitnessScheduleObject
  let active ← Action.foldEach wso.currentShuffledWitnesses [] fun active name => do
    let w ← getWitness name
    pure (active ++ [w])
  let fee ← Action.lift (medianWitness active fun a b =>
    decide (a.props.accountCreationFee.amount ≤ b.props.accountCreationFee.amount))
  let spFee ← Action.lift (medianWitness active fun a b =>
    decide (a.props.streamingPlatformUpdateFee.amount ≤ b.props.streamingPlatformUpdateFee.amount))
  Action.modify (S := chainSchema) Kind.witnessSchedule 0 fun o : WitnessSchedule =>
    { o with
      medianProps :=
        { o.medianProps with
          accountCreationFee := fee.props.accountCreationFee
          streamingPlatformUpdateFee := spFee.props.streamingPlatformUpdateFee } }
  let size ← Action.lift (medianWitness active fun a b =>
    decide (a.props.maximumBlockSize ≤ b.props.maximumBlockSize))
  let rate ← Action.lift (medianWitness active fun a b =>
    decide (a.props.mbdInterestRate ≤ b.props.mbdInterestRate))
  modifyDgp (fun _ => .ok ()) fun p _ =>
    { p with
      maximumBlockSize := size.props.maximumBlockSize, mbdInterestRate := rate.props.mbdInterestRate }

def updateWitnessSchedule4 : Act n Unit := do
  let hf3 ← hasHardfork hardfork03
  let witnesses ← Action.rows (S := chainSchema) Kind.witness
  let voted := ((byVoteName witnesses).filter fun r => !unsignable hf3 r.2).take maxVotedWitnesses
  let wso ← getWitnessScheduleObject
  let (newVirtualTime, processed, added) :=
    runners hf3 (voted.map (·.1)) (byScheduleTime witnesses) voted.length wso.currentVirtualTime
  let activeWitnesses := voted.map (·.2.owner) ++ added
  let reset ← updateProcessed newVirtualTime processed
  if reset then resetVirtualScheduleTime
  let newVirtualTime := if reset then 0 else newVirtualTime
  Action.require (activeWitnesses.length ≤ maxMiners)
    "number of active witnesses does not equal MUSE_MAX_MINERS"
  let votes ← hardforkVotes wso.currentShuffledWitnesses
  match votes.find? fun v => decide (hardforkRequiredWitnesses ≤ votes.count v) with
  | some v =>
      Action.modify (S := chainSchema) Kind.hardforkProperty 0
        fun h : HardforkProperty => { h with nextHardfork := v.1, nextHardforkTime := v.2 }
  | none =>
      Action.modify (S := chainSchema) Kind.hardforkProperty 0
        fun h : HardforkProperty => { h with nextHardfork := h.currentHardforkVersion }
  let now ← headBlockTime
  let num ← headBlockNum
  let size := activeWitnesses.length
  let shuffled := shuffleFrom (u64 (now * 4294967296)) size size activeWitnesses
  Action.modify (S := chainSchema) Kind.witnessSchedule 0 fun o : WitnessSchedule =>
    { o with
      currentShuffledWitnesses := shuffled
      currentVirtualTime := newVirtualTime
      nextShuffleBlockNum := u32 (num + size) }
  updateMedianWitnessProps

def updateWitnessSchedule : Act n Unit := do
  let num ← headBlockNum
  if num % maxMiners = 0 then updateWitnessSchedule4

/-! ## 3. The price feed and the virtual supply -/

/-- The middle price. -/
def medianPrice (l : List Price) : Option Price :=
  (l.insertionSort fun a b => b.blt a = false)[l.length / 2]?

def updateMedianFeed : Act n Unit := do
  let num ← headBlockNum
  if num % feedIntervalBlocks = 0 then do
    let now ← headBlockTime
    let wso ← getWitnessScheduleObject
    let feeds ← Action.foldEach wso.currentShuffledWitnesses [] fun feeds name => do
      let w ← getWitness name
      pure (if w.lastMbdExchangeUpdate < now + maxFeedAge && !w.mbdExchangeRate.isNull then
        feeds ++ [w.mbdExchangeRate] else feeds)
    match medianPrice feeds with
    | none => pure ()
    | some median =>
        Action.modify (S := chainSchema) Kind.feedHistory 0 fun h : FeedHistory =>
          let history := h.priceHistory ++ [median]
          let history := if feedHistoryWindow < history.length then history.tail else history
          { h with
            priceHistory := history
            currentMedianHistory := (medianPrice history).getD h.currentMedianHistory }

def updateVirtualSupply : Act n Unit := do
  let feed ← getFeedHistory
  modifyDgp
    (fun p => do
      let worth ← if feed.currentMedianHistory.isNull then pure (Asset.muse 0)
        else p.currentMbdSupply.mul feed.currentMedianHistory
      p.currentSupply.add worth)
    fun p x => { p with virtualSupply := x }

/-! ## 4. Irreversibility -/

def updateLastIrreversibleBlock : Act n Unit := do
  let p ← getDynamicGlobalProperties
  if p.headBlockNumber < startMinerVotingBlock then
    modifyDgp (fun _ => .ok ()) fun q _ =>
      { q with
        lastIrreversibleBlockNum := if maxMiners < p.headBlockNumber then p.headBlockNumber - maxMiners
          else q.lastIrreversibleBlockNum }
  else do
    let wso ← getWitnessScheduleObject
    let nums ← Action.foldEach wso.currentShuffledWitnesses [] fun nums name => do
      let w ← getWitness name
      pure (nums ++ [w.lastConfirmedBlockNum])
    let offset := (percent100 - irreversibleThreshold) * nums.length / percent100
    -- the element that `std::nth_element` puts there
    match (nums.insertionSort (· ≤ ·))[offset]? with
    | none => Action.throw (.crash "no scheduled witnesses")
    | some num =>
        if p.lastIrreversibleBlockNum < num then
          modifyDgp (fun _ => .ok ()) fun q _ => { q with lastIrreversibleBlockNum := num }

/-! ## 5. Requests and hardforks -/

/-- The rows of an index, in the order of the ids, up to the first that `p` does not hold of. -/
def leadingRows (k : Kind) (p : k.Object → Bool) : Act n (List (Nat × k.Object)) :=
  Action.read fun s => (s.rows k).takeWhile fun r => p r.2

def accountRecoveryProcessing : Act n Unit := do
  let now ← headBlockTime
  let requests ← dueRows Kind.accountRecoveryRequest
    (fun r : AccountRecoveryRequest => r.expires) fun t => t ≤ now
  Action.forEach requests fun r => Action.remove (S := chainSchema) Kind.accountRecoveryRequest r.1
  let history ← leadingRows Kind.ownerAuthorityHistory fun h : OwnerAuthorityHistory =>
    decide (u32 (h.lastValidTime + ownerAuthRecoveryPeriod) < now)
  Action.forEach history fun h => Action.remove (S := chainSchema) Kind.ownerAuthorityHistory h.1
  let changes ← dueRows Kind.changeRecoveryAccountRequest
    (fun r : ChangeRecoveryAccountRequest => r.effectiveOn) fun t => t ≤ now
  Action.forEach changes fun r => do
    let acc ← getAccountId r.2.accountToRecover
    Action.modify (S := chainSchema) Kind.account acc
      fun a : Account => { a with recoveryAccount := r.2.recoveryAccount }
    Action.remove (S := chainSchema) Kind.changeRecoveryAccountRequest r.1

/-- `_hardfork_versions[ i ]`. -/
def hardforkVersion (i : Nat) : Version := ⟨0, hardforkMinors.getD i 0, 0⟩

def clearSupplyDelta : Act n Unit :=
  modifyDgp
    (fun p => do
      let supply ← p.currentSupply.add p.supplyDelta
      let virt ← p.virtualSupply.add p.supplyDelta
      pure (supply, virt))
    fun p x => { p with currentSupply := x.1, virtualSupply := x.2, supplyDelta := Asset.muse 0 }

def removeExpiredProposals : Act n Unit := do
  let now ← headBlockTime
  let due ← dueRows Kind.proposal (fun p : Proposal => p.expirationTime) fun t => t ≤ now
  Action.forEach due fun p => Action.remove (S := chainSchema) Kind.proposal p.1

def applyHardfork (hardfork : Nat) : Act n Unit := do
  if hardfork = hardfork01 then do
    let _ ← getAccountId initMinerName
    pure ()
  else if hardfork = hardfork02 then clearSupplyDelta
  else if hardfork = hardfork03 then removeExpiredProposals
  Action.modifyWith (S := chainSchema) Kind.hardforkProperty 0
    (fun h : HardforkProperty => do
      check (hardfork = h.lastHardfork + 1) "Hardfork being applied out of order"
      check (h.processedHardforks.length = hardfork) "Hardfork being applied out of order")
    fun (h : HardforkProperty) _ =>
      { h with
        processedHardforks := h.processedHardforks ++ [hardforkTimes.getD hardfork 0]
        lastHardfork := hardfork
        currentHardforkVersion := hardforkVersion hardfork }

/-- The loop of `process_hardforks`. -/
def hardforkEach : Nat → Act n Unit
  | 0 => Action.throw (.crash "more hardforks than there are")
  | turns + 1 => do
      let h ← getHardforkProperty
      let now ← headBlockTime
      if (hardforkVersion h.lastHardfork).lt h.nextHardfork && decide (h.nextHardforkTime ≤ now) then
        if h.lastHardfork < numHardforks then do
          applyHardfork (h.lastHardfork + 1)
          hardforkEach turns
        else Action.throw (.assert "unknown hardfork")

def processHardforks : Act n Unit := hardforkEach (numHardforks + 1)

end MuseChain
