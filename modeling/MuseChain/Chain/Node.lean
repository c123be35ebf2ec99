/-
  File:      MuseChain/Chain/Node.lean
  Subject:   The node: push_block, push_transaction, generate_block, and what they keep.

  A node holds the object database with its undo stack, the fork database, the block log, the
  pending transactions and the session they are applied in. Every call leaves the node in some
  state, also when it throws (`Reply`). `depth` is how deep proposals may execute each other;
  `clock` is the clock that the call sees.
-/
import MuseChain.Chain.ForkDatabase

namespace MuseChain

/-! ## 1. State -/

structure Node where
  db : Database chainSchema
  forkDb : ForkDb
  log : BlockLog
  pendingTx : List Transaction
  poppedTx : List Transaction
  /-- `_pending_tx_session`, as the flag `_disable_on_exit` of the session. -/
  pendingSession : Option Bool
  checkpoints : List (Nat × BlockId)

/-- How a call of the node ends. -/
inductive Reply (α : Type) where
  | ok (a : α) (m : Node)
  | thrown (e : Exn) (m : Node)

namespace Reply

variable {α : Type}

def node : Reply α → Node
  | ok _ m => m
  | thrown _ m => m

def isOk : Reply α → Bool
  | ok _ _ => true
  | thrown _ _ => false

@[simp] theorem node_ok (a : α) (m : Node) : (ok a m).node = m := rfl

@[simp] theorem node_thrown (e : Exn) (m : Node) : (thrown e m : Reply α).node = m := rfl

theorem exists_of_isOk {r : Reply Unit} (h : r.isOk = true) : ∃ m, r = .ok () m := by
  cases r with
  | ok a m => exact ⟨m, rfl⟩
  | thrown e m => cases h

theorem exists_of_thrown {r : Reply α} (h : r.isOk = false) : ∃ e, r = .thrown e r.node := by
  cases r with
  | ok a m => cases h
  | thrown e m => exact ⟨e, rfl⟩

end Reply

namespace Node

def props (m : Node) : DynamicGlobalProperty :=
  (m.db.store.get Kind.dynamicGlobalProperty 0).getD {}

def headBlockId (m : Node) : BlockId := m.props.headBlockId

def headBlockNum (m : Node) : Nat := m.props.headBlockNumber

/-- `_pending_tx_session.reset()`. -/
def resetPending (m : Node) : Node :=
  match m.pendingSession with
  | none => m
  | some exit => { m with db := m.db.dropSession exit, pendingSession := none }

section

variable [Fc] (clock depth : Nat) (skip : Skip)

/-! ## 2. Applying a block -/

/-- The skip flags that `apply_block` uses, when the checkpoints let the block pass. -/
def checkpointSkip (m : Node) (b : SignedBlock) : Except Exn Skip :=
  match m.checkpoints.getLast? with
  | none => .ok skip
  | some last =>
      if last.2 = ⟨0, 0⟩ then .ok skip
      else
        match m.checkpoints.find? fun c => c.1 = b.blockNum with
        | some c =>
            if b.toSignedBlockHeader.id = c.2 then
              .ok (if b.blockNum ≤ last.1 then Skip.checkpoint else skip)
            else .error (.assert "Block did not match checkpoint")
        | none => .ok (if b.blockNum ≤ last.1 then Skip.checkpoint else skip)

/-- `set_max_size( head_block_number - last_irreversible_block_num + 1 )`, of both. -/
def setMaxSizes (m : Node) : Node :=
  let size := u32 (sub32 m.props.headBlockNumber m.props.lastIrreversibleBlockNum + 1)
  { m with db := { m.db with maxSize := size }, forkDb := m.forkDb.setMaxSize size }

/-- `apply_block`. -/
def applyBlock (m : Node) (b : SignedBlock) : Reply Unit :=
  match m.checkpointSkip skip b with
  | .error e => .thrown e m
  | .ok skip =>
      match (applyBlockFirst clock skip depth b).run m.db with
      | .thrown e d => .thrown e { m with db := d }
      | .ok signingWitness d =>
          let m := setMaxSizes { m with db := d }
          match (applyBlockRest clock depth signingWitness b).run m.db with
          | .thrown e d => .thrown e { m with db := d }
          | .ok _ d => .ok () { m with db := d }

/-- `auto session = _undo_db.start_undo_session(); apply_block( b ); _block_id_to_block.store( id,
b ); session.commit();` -/
def applyInSession (m : Node) (b : SignedBlock) (id : BlockId) : Reply Unit :=
  let start := m.db.startUndoSession false
  match applyBlock clock depth skip { m with db := start.2 } b with
  | .thrown e m => .thrown e { m with db := m.db.dropSession start.1 }
  | .ok _ m =>
      let m := { m with log := m.log.store id b }
      match m.db.commit with
      | .ok _ d => .ok () { m with db := d }
      | .thrown e d => .thrown e { m with db := d }

theorem checkpointSkip_congr {m n : Node} (b : SignedBlock) (h : n.checkpoints = m.checkpoints) :
    n.checkpointSkip skip b = m.checkpointSkip skip b := by
  unfold checkpointSkip
  rw [h]

theorem checkpointSkip_of_nil {m : Node} (b : SignedBlock) (h : m.checkpoints = []) :
    m.checkpointSkip skip b = .ok skip := by
  unfold checkpointSkip
  rw [h]
  rfl

/-- A block that is applied runs through both halves, and its session is committed. -/
theorem applyInSession_ok {clock depth : Nat} {skip : Skip} {m m' : Node} {b : SignedBlock}
    {id : BlockId} {u : Unit} (h : applyInSession clock depth skip m b id = .ok u m') :
    ∃ skip' wit d d', m.checkpointSkip skip b = .ok skip' ∧
      (applyBlockFirst clock skip' depth b).run (m.db.startUndoSession false).2 = .ok wit d ∧
      (applyBlockRest clock depth wit b).run (setMaxSizes { m with db := d }).db = .ok () d' ∧
      m' = { setMaxSizes { m with db := d } with
        db := { d' with activeSessions := d'.activeSessions - 1 }
        log := m.log.store id b } := by
  have hskip : ∀ d, checkpointSkip skip { m with db := d } b = m.checkpointSkip skip b :=
    fun d => checkpointSkip_congr skip b rfl
  unfold applyInSession applyBlock at h
  simp only [hskip] at h
  cases hs : m.checkpointSkip skip b with
  | error e =>
    simp only [hs] at h
    cases h
  | ok skip' =>
    simp only [hs] at h
    cases hfirst : (applyBlockFirst clock skip' depth b).run (m.db.startUndoSession false).2 with
    | thrown e d =>
      simp only [hfirst] at h
      cases h
    | ok wit d =>
      simp only [hfirst] at h
      cases hrest : (applyBlockRest clock depth wit b).run (setMaxSizes { m with db := d }).db with
      | thrown e d' =>
        simp only [hrest] at h
        cases h
      | ok u' d' =>
        simp only [hrest] at h
        unfold Database.commit at h
        split at h
        · rename_i d₂ hcommit
          split at hcommit
          · cases hcommit
          · cases hcommit
            cases h
            exact ⟨skip', wit, d, d', rfl, hfirst, hrest, rfl⟩
        · cases h

/-! ## 3. Popping blocks -/

/-- `fetch_block_by_id`. -/
def fetchBlockById (m : Node) (id : BlockId) : Option SignedBlock :=
  match m.forkDb.find id with
  | some item => some item.data
  | none => m.log.fetchOptional id

/-- `pop_block`; `held` are the fork items that the caller holds. -/
def popBlock (held : List ForkItem) (m : Node) : Reply Unit :=
  let m := m.resetPending
  match m.fetchBlockById m.headBlockId with
  | none => .thrown (.assert "there are no blocks to pop") m
  | some b =>
      match m.forkDb.popBlock held with
      | .error e => .thrown e m
      | .ok f =>
          let m := { m with forkDb := f }
          match m.db.popCommit with
          | .thrown e d => .thrown e { m with db := d }
          | .ok _ d => .ok () { m with db := d, poppedTx := b.transactions ++ m.poppedTx }

/-- `while( head_block_id() != id ) pop_block();` Each turn takes one undo state. -/
def popUntil (held : List ForkItem) (id : BlockId) : Nat → Node → Reply Unit
  | 0, m => .thrown (.crash "more blocks popped than there are undo states") m
  | fuel + 1, m =>
      if m.headBlockId = id then .ok () m
      else
        match m.popBlock held with
        | .thrown e m => .thrown e m
        | .ok _ m => popUntil held id fuel m

def popTo (m : Node) (held : List ForkItem) (id : BlockId) : Reply Unit :=
  popUntil held id (m.db.stack.length + 2) m

/-! ## 4. Switching forks -/

/-- The last loop of a failed switch: the blocks of the good fork, the oldest first. They are all
stored under the id of the block that was pushed. -/
def restoreEach (newId : BlockId) : List ForkItem → Node → Reply Unit
  | [], m => .ok () m
  | item :: rest, m =>
      match applyInSession clock depth skip m item.data newId with
      | .thrown e m => .thrown e m
      | .ok _ m => restoreEach newId rest m

/-- The two branches of a switch; in each, the newest block comes first. -/
structure Branches where
  first : List ForkItem
  second : List ForkItem

def Branches.held (br : Branches) : List ForkItem := br.first ++ br.second

/-- The common ancestor: the block before the last one of the old branch. -/
def Branches.base (br : Branches) : BlockId :=
  match br.second.getLast? with
  | some item => item.data.previous
  | none => ⟨0, 0⟩

/-- A switch that failed at the first block of `rest` with `e`. -/
def failSwitch (m : Node) (newId : BlockId) (br : Branches) (rest : List ForkItem) (e : Exn) :
    Reply Bool :=
  let f := rest.foldl (fun f item => f.remove item.data.toSignedBlockHeader.id) m.forkDb
  let f := match br.second with
    | front :: _ => f.setHead front
    | [] => f
  match popTo { m with forkDb := f } br.held br.base with
  | .thrown e m => .thrown e m
  | .ok _ m =>
      match restoreEach clock depth skip newId br.second.reverse m with
      | .thrown e m => .thrown e m
      | .ok _ m => .thrown e m

/-- The loop over the new branch, the oldest block first. -/
def pushEach (newId : BlockId) (br : Branches) : List ForkItem → Node → Reply Bool
  | [], m => .ok true m
  | item :: rest, m =>
      match applyInSession clock depth skip m item.data item.id with
      | .ok _ m => pushEach newId br rest m
      | .thrown (.crash why) m => .thrown (.crash why) m
      | .thrown e m => failSwitch clock depth skip m newId br (item :: rest) e

/-- `_push_block`, when the new head is on another branch and higher. -/
def switchForks (m : Node) (newId : BlockId) (newHead : ForkItem) : Reply Bool :=
  match m.forkDb.fetchBranchFrom newHead.id m.headBlockId with
  | .error e => .thrown e m
  | .ok (first, second) =>
      let br : Branches := ⟨first, second⟩
      match popTo m br.held br.base with
      | .thrown e m => .thrown e m
      | .ok _ m => pushEach clock depth skip newId br br.first.reverse m

/-! ## 5. push_block -/

/-- The end of `_push_block`: the block extends the current chain. -/
def extendChain (m : Node) (b : SignedBlock) : Reply Bool :=
  match applyInSession clock depth skip m b b.toSignedBlockHeader.id with
  | .ok _ m => .ok false m
  | .thrown (.crash why) m => .thrown (.crash why) m
  | .thrown e m => .thrown e { m with forkDb := m.forkDb.remove b.toSignedBlockHeader.id }

/-- `_push_block`: whether it switched forks. -/
def pushBlockOnly (m : Node) (b : SignedBlock) : Reply Bool :=
  if skip.forkDb then extendChain clock depth skip m b
  else
    match m.forkDb.pushBlock b with
    | .error e => .thrown e m
    | .ok f =>
        let m := { m with forkDb := f }
        match f.head with
        | none => .thrown (.crash "no head after a push") m
        | some newHead =>
            if newHead.data.previous = m.headBlockId then extendChain clock depth skip m b
            else if m.headBlockNum < newHead.num then
              switchForks clock depth skip m b.toSignedBlockHeader.id newHead
            else .ok false m

/-- `_push_transaction`. -/
def pushTransactionOnly (m : Node) (trx : Transaction) : Reply Unit :=
  let m := match m.pendingSession with
    | some _ => m
    | none =>
        let start := m.db.startUndoSession false
        { m with db := start.2, pendingSession := some start.1 }
  let start := m.db.startUndoSession false
  match (applyTransaction clock skip depth trx).run start.2 with
  | .thrown e d => .thrown e { m with db := d.dropSession start.1 }
  | .ok _ d =>
      let m := { m with pendingTx := m.pendingTx ++ [trx] }
      match d.merge with
      | .ok _ d => .ok () { m with db := d }
      | .thrown e d => .thrown e { m with db := d.dropSession start.1 }

/-- The loops of `~pending_transactions_restorer`. -/
def restorePending : List Transaction → Node → Node
  | [], m => m
  | trx :: rest, m =>
      if isKnownTransaction m.db.store (Fc.trxId trx) then restorePending rest m
      else restorePending rest (pushTransactionOnly clock depth skip m trx).node

/-- `without_pending_transactions`. -/
def withoutPending {α : Type} (m : Node) (callback : Node → Reply α) : Reply α :=
  let pending := m.pendingTx
  let restore (m : Node) : Node :=
    let m := restorePending clock depth skip m.poppedTx m
    restorePending clock depth skip pending { m with poppedTx := [] }
  match callback { m with pendingTx := [] }.resetPending with
  | .ok a m => .ok a (restore m)
  | .thrown (.crash why) m => .thrown (.crash why) m
  | .thrown e m => .thrown e (restore m)

/-- `push_block`. -/
def pushBlock (m : Node) (b : SignedBlock) : Reply Bool :=
  withoutPending clock depth skip m fun m => pushBlockOnly clock depth skip m b

/-- `push_transaction`. -/
def pushTransaction (m : Node) (trx : Transaction) : Reply Unit :=
  if Fc.trxPackSize trx ≤ sub32 m.props.maximumBlockSize 256 then
    pushTransactionOnly clock depth skip m trx
  else .thrown
    (.assert "fc::raw::pack_size(trx) <= (get_dynamic_global_properties().maximum_block_size - 256)")
    m

/-! ## 6. generate_block -/

/-- The extensions of a new block: the version, and a vote on the next hardfork. -/
def extensionsOf (w : Witness) (h : HardforkProperty) : List HeaderExtension :=
  let version : Version := ⟨blockchainMajor, blockchainMinor, blockchainRevision⟩
  let hardfork : Version := ⟨blockchainMajor, blockchainMinor, 0⟩
  let next := hardforkVersion (h.lastHardfork + 1)
  let nextTime := hardforkTimes.getD (h.lastHardfork + 1) 0
  (if w.runningVersion ≠ version then [.version version] else []) ++
    if h.currentHardforkVersion.lt hardfork = true then
      if w.hardforkVersionVote ≠ next ∨ w.hardforkTimeVote ≠ nextTime then
        [.hardforkVersionVote next nextTime]
      else []
    else if h.currentHardforkVersion = hardfork ∧ hardfork.lt w.hardforkVersionVote = true then
      [.hardforkVersionVote (hardforkVersion h.lastHardfork) (hardforkTimes.getD h.lastHardfork 0)]
    else []

/-- The tests of `_generate_block` and the header without transactions. -/
def blockHeader (when_ : Nat) (witnessOwner : String) (key : Nat) :
    Act 0 SignedBlockHeader := do
  let slotNum ← getSlotAtTime when_
  Action.require (0 < slotNum) "slot_num > 0"
  let scheduled ← getScheduledWitness slotNum
  Action.require (scheduled = witnessOwner) "scheduled_witness == witness_owner"
  let w ← getWitness witnessOwner
  Action.require (skip.witnessSignature = true ∨ w.signingKey = Fc.publicKey key)
    "witness_obj.signing_key == block_signing_private_key.get_public_key()"
  let h ← getHardforkProperty
  let p ← getDynamicGlobalProperties
  pure
    { previous := p.headBlockId
      timestamp := when_
      witness := witnessOwner
      transactionMerkleRoot := 0
      extensions := extensionsOf w h
      witnessSignature := 0 }

/-- The loop over the pending transactions: the ones that go into the block. -/
def includeEach (when_ maximum : Nat) :
    List Transaction → Nat → List Transaction → Node → Except Exn (List Transaction × Node)
  | [], _, included, m => .ok (included, m)
  | trx :: rest, size, included, m =>
      if trx.expiration < when_ then includeEach when_ maximum rest size included m
      else if maximum ≤ size + Fc.trxPackSize trx then
        includeEach when_ maximum rest size included m
      else
        let start := m.db.startUndoSession false
        match (applyTransaction clock skip depth trx).run start.2 with
        | .thrown (.crash why) _ => .error (.crash why)
        | .thrown _ d =>
            includeEach when_ maximum rest size included { m with db := d.dropSession start.1 }
        | .ok _ d =>
            match d.merge with
            | .ok _ d =>
                includeEach when_ maximum rest (size + Fc.trxPackSize trx) (included ++ [trx])
                  { m with db := d }
            | .thrown _ d =>
                includeEach when_ maximum rest size included { m with db := d.dropSession start.1 }

/-- `generate_block`: the new block. -/
def generateBlock (m : Node) (when_ : Nat) (witnessOwner : String) (key : Nat) :
    Reply SignedBlock :=
  match (blockHeader skip when_ witnessOwner key).run m.db with
  | .thrown e d => .thrown e { m with db := d }
  | .ok header _ =>
      let m := m.resetPending
      let start := m.db.startUndoSession false
      let m := { m with db := start.2, pendingSession := some start.1 }
      match includeEach clock depth skip when_ m.props.maximumBlockSize m.pendingTx
          (Fc.blockPackSize ⟨header, []⟩ + 4) [] m with
      | .error e => .thrown e m
      | .ok (included, m) =>
          let m := m.resetPending
          let b : SignedBlock := ⟨header, included⟩
          let header := { header with transactionMerkleRoot := b.calculateMerkleRoot }
          let header := if skip.witnessSignature then header
            else { header with witnessSignature := Fc.sign key header }
          let b : SignedBlock := ⟨header, included⟩
          if skip.blockSizeCheck = true ∨ Fc.blockPackSize b ≤ maxBlockSize then
            match pushBlock clock depth skip m b with
            | .ok _ m => .ok b m
            | .thrown e m => .thrown e m
          else .thrown (.assert "fc::raw::pack_size(pending_block) <= MUSE_MAX_BLOCK_SIZE") m

end

end Node

end MuseChain
