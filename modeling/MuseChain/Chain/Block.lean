/-
  File:      MuseChain/Chain/Block.lean
  Subject:   Transactions and blocks: _apply_transaction and the two halves of _apply_block.

  In the middle of `_apply_block` the undo and the fork database get a new max size. That is no
  change of the object database, so the function is cut there: `applyBlockFirst` runs up to it,
  `applyBlockRest` from it.
-/
import MuseChain.Chain.Schedule

namespace MuseChain

variable {n : Nat}

/-- The skip flags; all false is `skip_nothing`. -/
structure Skip where
  witnessSignature : Bool := false
  transactionSignatures : Bool := false
  transactionDupeCheck : Bool := false
  forkDb : Bool := false
  blockSizeCheck : Bool := false
  taposCheck : Bool := false
  authorityCheck : Bool := false
  merkleCheck : Bool := false
  undoHistoryCheck : Bool := false
  witnessScheduleCheck : Bool := false
  validate : Bool := false

/-- The flags of a block that a later checkpoint vouches for. -/
def Skip.checkpoint : Skip :=
  ⟨true, true, true, true, true, true, true, true, true, true, true⟩

/-! ## 1. Bandwidth -/

/-- The average after `trx_size * MUSE_BANDWIDTH_PRECISION` more, `delta` seconds later. -/
def averageBandwidth (average : Nat) (delta : Int) (new : Nat) : Nat :=
  if (bandwidthAverageWindowSeconds : Int) ≤ delta then new
  else
    let oldWeight := u64 (average * uint64OfInt (bandwidthAverageWindowSeconds - delta))
    let newWeight := u64 (uint64OfInt delta * new)
    u64 (oldWeight + newWeight) / bandwidthAverageWindowSeconds

/-- `account_vshares * max_virtual_bandwidth > account_average_bandwidth * total_vshares`. -/
def checkBandwidth (vshares average max : Nat) (total : Int) : Except Exn Unit :=
  check (u128 (average * uint128OfInt total) < u128 (vshares * max))
    "account exceeded maximum allowed bandwidth per vesting share account_vshares: ${account_vshares} account_average_bandwidth: ${account_average_bandwidth} max_virtual_bandwidth: ${max_virtual_bandwidth} total_vesting_shares: ${total_vesting_shares}"

def updateAccountBandwidth (acc trxSize : Nat) : Act n Unit := do
  let props ← getDynamicGlobalProperties
  let total := props.totalVestingShares.amount
  if 0 < total then
    Action.modifyWith (S := chainSchema) Kind.account acc
      (fun a : Account => do
        let new := u64 (trxSize * bandwidthPrecision)
        let average := averageBandwidth a.averageBandwidth
          (elapsed props.time a.lastBandwidthUpdate) new
        let vshares := if 0 < a.vestingShares.amount then uint128OfInt a.vestingShares.amount else 1
        checkBandwidth vshares average props.maxVirtualBandwidth total
        pure (u64 (a.lifetimeBandwidth + new), average))
      fun (a : Account) x =>
        { a with
          lifetimeBandwidth := x.1, averageBandwidth := x.2, lastBandwidthUpdate := props.time }

def updateAccountMarketBandwidth (acc trxSize : Nat) : Act n Unit := do
  let props ← getDynamicGlobalProperties
  let total := props.totalVestingShares.amount
  if 0 < total then
    Action.modifyWith (S := chainSchema) Kind.account acc
      (fun a : Account => do
        let average := averageBandwidth a.averageMarketBandwidth
          (elapsed props.time a.lastMarketBandwidthUpdate) (u64 (trxSize * bandwidthPrecision))
        check (0 < a.vestingShares.amount)
          "only accounts with a positive vesting balance may transact"
        checkBandwidth (uint128OfInt a.vestingShares.amount) average
          (props.maxVirtualBandwidth / 10) total
        pure average)
      fun (a : Account) x =>
        { a with averageMarketBandwidth := x, lastMarketBandwidthUpdate := props.time }

/-! ## 2. Transactions -/

section

variable [Fc] (clock : Nat) (skip : Skip)

/-- `transaction::validate`. -/
def Transaction.validate (trx : Transaction) : Except Exn Unit := do
  check (trx.operations.isEmpty = false) "A transaction must have at least one operation"
  validateOps trx.operations

/-- `get_signature_keys`. -/
def Transaction.getSignatureKeys (trx : Transaction) : Except Exn (List PublicKey) :=
  match Fc.signatureKeys trx with
  | none => .error (.assert "unable to reconstruct public key from signature")
  | some keys => do
      check keys.Nodup "Duplicate Signature detected"
      pure keys

/-- `verify_authority`. -/
def verifyAuthority (trx : Transaction) : Act n Unit := do
  let hf3 ← hasHardfork hardfork03
  let keys ← Action.lift trx.getSignatureKeys
  let r ← Action.read fun s =>
    if hf3 then verifyAuthorityV2 trx.operations keys (gettersOf s) false maxSigCheckDepth {}
    else verifyAuthorityV1 trx.operations keys (gettersOf s) maxSigCheckDepth {}
  Action.lift r

/-- The accounts whose bandwidth a transaction uses. -/
def Transaction.required (trx : Transaction) : List String :=
  nameSet (trx.operations.flatMap fun op =>
    op.requiredActive ++ op.requiredOwner ++ op.requiredBasic)

def chargeBandwidth (trx : Transaction) : Act n Unit :=
  Action.forEach trx.required fun auth => do
    let acc ← getAccountId auth
    updateAccountBandwidth acc (u32 (Fc.trxPackSize trx))
    if trx.operations.any Operation.isMarket then
      updateAccountMarketBandwidth acc (u32 (Fc.trxPackSize trx))

/-- The TaPoS check and the expiration, from block 1 on. -/
def checkReference (trx : Transaction) : Act n Unit := do
  let p ← getDynamicGlobalProperties
  if 0 < p.headBlockNumber then do
    if skip.taposCheck then pure ()
    else do
      let summary ← getObject .blockSummary trx.refBlockNum
      Action.require (trx.refBlockPrefix = Fc.idPrefix summary.blockId)
        "trx.ref_block_prefix == tapos_block_summary.block_id._hash[1]"
    Action.require (trx.expiration ≤ p.time + maxTimeUntilExpiration)
      "trx.expiration <= now + fc::seconds(MUSE_MAX_TIME_UNTIL_EXPIRATION)"
    Action.require (p.time < trx.expiration) "now < trx.expiration"

/-- `is_known_transaction`. -/
def isKnownTransaction (s : Store chainSchema) (id : Digest) : Bool :=
  (s.rows Kind.transaction).any fun r : Nat × TransactionObject => r.2.trxId = id

/-- `_apply_transaction`. -/
def applyTransaction (n : Nat) (trx : Transaction) : Act n Unit := do
  if skip.validate then pure () else Action.lift trx.validate
  let known ← Action.read fun s => isKnownTransaction s (Fc.trxId trx)
  Action.require (skip.transactionDupeCheck = true ∨ known = false)
    "(skip & skip_transaction_dupe_check) || trx_idx.indices().get<by_trx_id>().find(trx_id) == trx_idx.indices().get<by_trx_id>().end()"
  if skip.transactionSignatures || skip.authorityCheck then pure () else verifyAuthority trx
  chargeBandwidth trx
  checkReference skip trx
  if skip.transactionDupeCheck then pure ()
  else do
    let _ ← Action.create (S := chainSchema) Kind.transaction
      { trxId := Fc.trxId trx, trx := trx : TransactionObject }
    pure ()
  Action.forEach trx.operations fun op => applyOperation clock n op

/-! ## 3. Headers -/

/-- One pass of `calculate_merkle_root`. -/
def merkleLevel : List Digest → List Digest
  | a :: b :: rest => Fc.hashPair a b :: merkleLevel rest
  | l => l

def merkleLoop : Nat → List Digest → Digest
  | _, [] => 0
  | _, [a] => Fc.checksum a
  | 0, a :: _ => Fc.checksum a
  | passes + 1, l => merkleLoop passes (merkleLevel l)

def SignedBlock.calculateMerkleRoot (b : SignedBlock) : Digest :=
  merkleLoop b.transactions.length (b.transactions.map Fc.merkleDigest)

/-- `validate_block_header`: the signing witness. -/
def validateBlockHeader (b : SignedBlock) : Act n Nat := do
  let p ← getDynamicGlobalProperties
  Action.require (p.headBlockId = b.previous) "head_block_id() == next_block.previous"
  Action.require (p.time < b.timestamp) "head_block_time() < next_block.timestamp"
  let wit ← getWitnessId b.witness
  let w ← getObject .witness wit
  if skip.witnessSignature then pure ()
  else
    Action.require (Fc.signee b.toSignedBlockHeader = some w.signingKey)
      "next_block.validate_signee( witness.signing_key )"
  if skip.witnessScheduleCheck then pure ()
  else do
    let slotNum ← getSlotAtTime b.timestamp
    Action.require (0 < slotNum) "slot_num > 0"
    let scheduled ← getScheduledWitness slotNum
    Action.require (w.owner = scheduled) "Witness produced block at wrong time"
  pure wit

def processHeaderExtensions (b : SignedBlock) : Act n Unit :=
  Action.forEach b.extensions fun e =>
    match e with
    | .void => pure ()
    | .version v => do
        let wit ← getWitnessId b.witness
        let w ← getObject .witness wit
        if v ≠ w.runningVersion then
          Action.modify (S := chainSchema) Kind.witness wit
            fun w : Witness => { w with runningVersion := v }
    | .hardforkVersionVote v time => do
        let wit ← getWitnessId b.witness
        let w ← getObject .witness wit
        if v ≠ w.hardforkVersionVote ∨ time ≠ w.hardforkTimeVote then
          -- the assignment to a `hardfork_version` masks the revision, the comparison does not
          Action.modify (S := chainSchema) Kind.witness wit
            fun w : Witness =>
              { w with hardforkVersionVote := { v with revision := 0 }, hardforkTimeVote := time }

/-! ## 4. The block -/

/-- One pass of the loop over the missed slots. -/
def countMissed (b : SignedBlock) (i : Nat) : Act n Unit := do
  let name ← getScheduledWitness (i + 1)
  let wit ← getWitnessId name
  let hf3 ← hasHardfork hardfork03
  let num ← headBlockNum
  if name ≠ b.witness then
    Action.modifyWith (S := chainSchema) Kind.witness wit
      (fun w : Witness => .ok (u32 (w.totalMissed + 1),
        if hf3 && decide (blocksPerDay < sub32 num w.lastConfirmedBlockNum) then 0
          else w.signingKey))
      fun (w : Witness) x => { w with totalMissed := x.1, signingKey := x.2 }

/-- `recent_slots_filled` and `participation_count` after `left` more slots. -/
def fillSlots : Nat → Nat × Nat → Nat × Nat
  | 0, s => s
  | left + 1, (filled, count) =>
      fillSlots left
        (u128 (filled * 2), (count + (if 2 ^ 127 ≤ filled then 255 else 0)) % 256)

/-- The same with the slot of the block itself first. -/
def participation (missed filled count : Nat) : Nat × Nat :=
  let first := (u128 (filled * 2 + 1), (count + (if 2 ^ 127 ≤ filled then 255 else 0) + 1) % 256)
  fillSlots missed first

/-- The reserve ratio after the block, which changes every 20 blocks. -/
def reserveRatio (num ratio average max : Nat) : Nat :=
  if num % 20 = 0 then
    min (if max / 4 < average then ratio / 2 else u64 (ratio + 1)) maxReserveRatio
  else ratio

/-- The callback of `update_global_dynamic_data`. -/
def nextProperties (b : SignedBlock) (missed : Nat) (p : DynamicGlobalProperty) :
    DynamicGlobalProperty :=
  let slots := participation missed p.recentSlotsFilled p.participationCount
  let average := u32 ((u32 (99 * p.averageBlockSize) + Fc.blockPackSize b) / 100)
  let ratio := reserveRatio b.blockNum p.currentReserveRatio average p.maximumBlockSize
  { p with
    recentSlotsFilled := slots.1
    participationCount := slots.2
    headBlockNumber := b.blockNum
    headBlockId := b.toSignedBlockHeader.id
    time := b.timestamp
    currentAslot := u64 (p.currentAslot + u32 (missed + 1))
    averageBlockSize := average
    currentReserveRatio := ratio
    maxVirtualBandwidth :=
      u64 (u64 (u64 (p.maximumBlockSize * ratio) * bandwidthPrecision) *
        bandwidthAverageWindowSeconds) / blockInterval }

/-- `update_global_dynamic_data`, up to the max sizes. -/
def updateGlobalDynamicData (b : SignedBlock) : Act n Unit := do
  let now ← headBlockTime
  let missed ← if now ≠ 0 then do
      let slot ← getSlotAtTime b.timestamp
      pure (sub32 slot 1)
    else pure 0
  Action.forEach (List.range missed) fun i => countMissed b i
  modifyDgp (fun p => .ok (nextProperties b missed p)) fun _ p => p
  let p ← getDynamicGlobalProperties
  if skip.undoHistoryCheck then pure ()
  else
    Action.require (sub32 p.headBlockNumber p.lastIrreversibleBlockNum < maxUndoHistory)
      "Please add a checkpoint if you would like to continue applying blocks beyond this point."

def updateSigningWitness (wit : Nat) (b : SignedBlock) : Act n Unit := do
  let p ← getDynamicGlobalProperties
  let slot ← getSlotAtTime b.timestamp
  Action.modify (S := chainSchema) Kind.witness wit fun w : Witness =>
    { w with lastAslot := u64 (p.currentAslot + slot), lastConfirmedBlockNum := b.blockNum }

def createBlockSummary (b : SignedBlock) : Act n Unit :=
  Action.modify (S := chainSchema) Kind.blockSummary (b.blockNum % 65536)
    fun s : BlockSummary => { s with blockId := b.toSignedBlockHeader.id }

def clearExpiredTransactions : Act n Unit := do
  let now ← headBlockTime
  let due ← dueRows Kind.transaction (fun t : TransactionObject => t.trx.expiration) fun t => t < now
  Action.forEach due fun t => Action.remove (S := chainSchema) Kind.transaction t.1

/-- `_apply_block` up to the new max sizes: the signing witness. -/
def applyBlockFirst (n : Nat) (b : SignedBlock) : Act n Nat := do
  Action.require (skip.merkleCheck = true ∨ b.transactionMerkleRoot = b.calculateMerkleRoot)
    "mysterious place..."
  let signingWitness ← validateBlockHeader skip b
  let p ← getDynamicGlobalProperties
  Action.require (Fc.blockPackSize b ≤ p.maximumBlockSize) "Block Size is too Big"
  modifyDgp (fun _ => .ok ()) fun p _ => { p with currentWitness := b.witness }
  processHeaderExtensions b
  let w ← getWitness b.witness
  let h ← getHardforkProperty
  Action.require (w.runningVersion.ge h.currentHardforkVersion = true)
    "Block produced by witness that is not running current hardfork"
  Action.forEach b.transactions fun trx => applyTransaction clock skip n trx
  updateGlobalDynamicData skip b
  pure signingWitness

/-- The steps of `_apply_block` that pay: rewards, conversions, content, withdrawals. -/
def payBlock : Act n Unit := do
  let contentReward ← getContentReward
  let witnessPay ← getProducerReward
  let num ← headBlockNum
  let vestingReward ← if num < startVestingBlock then pure (Asset.muse 0) else getVestingReward
  processFunds contentReward witnessPay vestingReward
  processConversions
  let paidForContent ← processContentCashout contentReward
  adjustFunds contentReward paidForContent
  processVestingWithdrawals

/-- `_apply_block` from the new max sizes on. -/
def applyBlockRest (n : Nat) (signingWitness : Nat) (b : SignedBlock) : Act n Unit := do
  updateSigningWitness signingWitness b
  updateLastIrreversibleBlock
  createBlockSummary b
  clearExpiredTransactions
  clearExpiredProposals clock n
  clearExpiredOrders
  updateWitnessSchedule
  updateMedianFeed
  updateVirtualSupply
  payBlock
  updateVirtualSupply
  accountRecoveryProcessing
  processHardforks

end

end MuseChain
