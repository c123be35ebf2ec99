/-
  File:      MuseChain/Net/Sync.lean
  Subject:   How two nodes find out which blocks one of them lacks.

  A node that connects to a peer sends it a synopsis of its chain, the ids of a few blocks. The peer
  answers with the ids from the last of these blocks on that is in its chain, at most 2000 at a time,
  and with how many more there are. The node notes the ids it does not know and asks on.

  The synopsis and the answer are made in application.cpp (sections 1 and 2), the rest is in node.cpp
  (section 3). Of a connection this is the part about block ids: fetching the blocks themselves is
  left out, and so is what the answering node notes about the asking one.
-/
import MuseChain.Chain.Node

namespace MuseChain

/-! ## 1. What the database answers -/

namespace BlockLog

/-- `contains`. -/
def contains (log : BlockLog) (id : BlockId) : Bool :=
  if id = ⟨0, 0⟩ then false
  else
    match log.get id.num with
    | some (i, _) => decide (i = id)
    | none => false

/-- `fetch_block_id`. -/
def fetchBlockId (log : BlockLog) (blockNum : Nat) : Except Exn BlockId :=
  match log.get blockNum with
  | some (id, _) => do
      check (id ≠ ⟨0, 0⟩) "Empty block_id in block_database (maybe corrupt on disk?)"
      pure id
  | none => .error (.assert "Block number ${block_num} not contained in block database")

end BlockLog

namespace Node

/-- `is_known_block`. -/
def isKnownBlock (m : Node) (id : BlockId) : Bool :=
  (m.forkDb.find id).isSome || m.log.contains id

/-- `get_block_id_for_num`. -/
def getBlockIdForNum (m : Node) (blockNum : Nat) : Except Exn BlockId := m.log.fetchBlockId blockNum

/-- `last_non_undoable_block_num`. -/
def lastNonUndoableBlockNum (m : Node) : Nat := sub32 m.headBlockNum (u32 m.db.stack.length)

/-- `get_block_ids_on_fork`: the blocks of the fork, the newest first, and the common ancestor. -/
def getBlockIdsOnFork (m : Node) (headOfFork : BlockId) : Except Exn (List BlockId) := do
  let (first, second) ← m.forkDb.fetchBranchFrom m.headBlockId headOfFork
  match first.getLast? with
  | none => .error (.crash "a branch without blocks")
  | some item => .ok (second.map ForkItem.id ++ [item.data.previous])

end Node

/-! ## 2. The application -/

/-- The exceptions that the network tells apart. -/
inductive SyncError where
  | peerIsOnAnUnreachableFork
  | blockOlderThanUndoHistory
  | other (e : Exn)

/-- An exception that the network has no name for. -/
def SyncError.lift {α : Type} (x : Except Exn α) : Except SyncError α := x.mapError .other

/-- `do { push } while`: a loop over block numbers, each half of the way to `trueHigh` and one
further, as long as they are not above `last`. There are 2^32 block numbers. -/
def halvingLoop (push : Nat → List BlockId → Except Exn (List BlockId)) (trueHigh last : Nat) :
    Nat → Nat → List BlockId → Except Exn (List BlockId)
  | 0, _, _ => .error (.crash "the synopsis has no end")
  | fuel + 1, low, synopsis => do
      let synopsis ← push low synopsis
      let low := u32 (low + u32 (sub32 trueHigh low + 2) / 2)
      if low ≤ last then halvingLoop push trueHigh last fuel low synopsis else pure synopsis

namespace Node

/-- `is_included_block`. -/
def isIncludedBlock (m : Node) (id : BlockId) : Except Exn Bool := do
  let preferred ← m.getBlockIdForNum id.num
  pure (decide (id = preferred))

/-- The loop of `get_block_ids` over the synopsis, which is given in reverse. -/
def lastKnownBlockId (m : Node) : List BlockId → Except Exn (Option BlockId)
  | [] => .ok none
  | id :: rest =>
      if id = ⟨0, 0⟩ then .ok (some id)
      else if m.isKnownBlock id then do
        let included ← m.isIncludedBlock id
        if included then pure (some id) else lastKnownBlockId m rest
      else lastKnownBlockId m rest

/-- The loop of `get_block_ids` that collects `left` ids from `num` on; block 0 is passed over. -/
def collectIds (m : Node) : Nat → Nat → Except Exn (List BlockId)
  | 0, _ => .ok []
  | left + 1, num =>
      let num := max num 1
      if num ≤ m.headBlockNum then do
        let id ← m.getBlockIdForNum num
        let rest ← collectIds m left (u32 (num + 1))
        pure (id :: rest)
      else .ok []

/-- The remaining item count of `get_block_ids`. -/
def remainingItemCount (m : Node) (result : List BlockId) : Nat :=
  match result.getLast? with
  | none => 0
  | some back => m.headBlockNum - back.num

/-- `get_block_ids`: the ids, and the remaining item count. -/
def getBlockIds (m : Node) (synopsis : List BlockId) (limit : Nat) :
    Except SyncError (List BlockId × Nat) :=
  if m.headBlockNum = 0 then .ok ([], 0)
  else do
    let lastKnown ←
      if synopsis = [] ∨ synopsis = [⟨0, 0⟩] then pure ⟨0, 0⟩
      else do
        let found ← SyncError.lift (m.lastKnownBlockId synopsis.reverse)
        match found with
        | none => .error .peerIsOnAnUnreachableFork
        | some id => pure id
    let result ← SyncError.lift (m.collectIds limit lastKnown.num)
    pure (result, m.remainingItemCount result)

/-- The end of `get_blockchain_synopsis`: up to `nonForkHigh` the ids are those of the chain, then
those of the fork. -/
def summarize (m : Node) (low nonForkHigh high after : Nat) (fork : List BlockId) :
    Except Exn (List BlockId) :=
  let push := fun low synopsis => do
    let id ←
      if low ≤ nonForkHigh then m.getBlockIdForNum low
      else
        match fork[low - nonForkHigh - 1]? with
        | some id => pure id
        | none => .error (.crash "beyond the end of the fork history")
    pure (synopsis ++ [id])
  halvingLoop push (u32 (high + after)) high (2 ^ 32) (if low = 0 then 1 else low) []

/-- `get_blockchain_synopsis`. -/
def getBlockchainSynopsis (m : Node) (referencePoint : BlockId) (after : Nat) :
    Except SyncError (List BlockId) := do
  let low := m.lastNonUndoableBlockNum
  if referencePoint ≠ ⟨0, 0⟩ then do
    let included ← SyncError.lift (m.isIncludedBlock referencePoint)
    if included then
      let high := referencePoint.num
      SyncError.lift (m.summarize (min low high) high high after [])
    else do
      let history ← SyncError.lift (m.getBlockIdsOnFork referencePoint)
      -- the last one is the common ancestor; block 0 has the number 0
      let nonForkHigh := (history.getLastD ⟨0, 0⟩).num
      let fork := history.dropLast.reverse
      let high := u32 (nonForkHigh + fork.length)
      if nonForkHigh < low then throw .blockOlderThanUndoHistory
      else SyncError.lift (m.summarize low nonForkHigh high after fork)
  else if m.headBlockNum = 0 then pure []
  else SyncError.lift (m.summarize low m.headBlockNum m.headBlockNum after [])

variable [Fc]

/-- `get_block_time`; of a block that is not known it is `time_point_sec::min()`. -/
def getBlockTime (m : Node) (id : BlockId) : Nat :=
  match m.fetchBlockById id with
  | some b => b.timestamp
  | none => 0

end Node

/-! ## 3. The network -/

def netFutureSyncBlocksGracePeriodSec : Nat := 3600
def netMinBlockIdsToPrefetch : Nat := 10000

/-- The `limit` that `get_block_ids` has by default. -/
def blockIdsLimit : Nat := 2000

/-- What a node keeps of a peer about its blocks. -/
structure PeerConnection where
  lastBlockDelegateHasSeen : BlockId := ⟨0, 0⟩
  lastBlockTimeDelegateHasSeen : Nat := 0
  idsOfItemsToGet : List BlockId := []
  numberOfUnfetchedItemIds : Nat := 0
  weNeedSyncItemsFromPeer : Bool := false
  /-- The synopsis of the request that is not answered yet. -/
  itemIdsRequestedFromPeer : Option (List BlockId) := none

/-- `blockchain_item_ids_inventory_message`. -/
structure BlockchainItemIdsInventory where
  totalRemainingItemCount : Nat
  itemHashesAvailable : List BlockId

/-- What a node does next with a peer. -/
inductive SyncStep where
  /-- A request is on its way. -/
  | asking (p : PeerConnection)
  /-- The blocks on the list are fetched. -/
  | fetching (p : PeerConnection)
  /-- The peer has no block that the node lacks. -/
  | inSync (p : PeerConnection)
  /-- An answer that nobody asked for. -/
  | ignored (p : PeerConnection)
  | disconnected (why : String)
  /-- An exception that is only logged. -/
  | stalled (e : SyncError)

/-- One turn of the loop over `ids`, the first of which has the number `first`. -/
def pushNoted (ids : List BlockId) (first low : Nat) (synopsis : List BlockId) :
    Except Exn (List BlockId) :=
  if first ≤ low then
    match ids[low - first]? with
    | some id => .ok (synopsis ++ [id])
    | none => .error (.crash "beyond the end of ids_of_items_to_get")
  else .ok synopsis

/-- Where the loop over `ids` starts. -/
def firstNumber : List BlockId → Nat
  | [] => 1
  | id :: _ => id.num

namespace Node

variable [Fc]

omit [Fc] in
/-- `create_blockchain_synopsis_for_peer`. -/
def createBlockchainSynopsisForPeer (m : Node) (p : PeerConnection) :
    Except SyncError (List BlockId) := do
  let ids := p.idsOfItemsToGet
  let synopsis ← m.getBlockchainSynopsis p.lastBlockDelegateHasSeen (u32 ids.length)
  match ids with
  | [] => pure synopsis
  | front :: _ =>
      let trueHigh := u32 (front.num + ids.length - 1)
      SyncError.lift (halvingLoop (pushNoted ids front.num) trueHigh trueHigh (2 ^ 32)
        (firstNumber synopsis) synopsis)

omit [Fc] in
/-- `fetch_next_batch_of_item_ids_from_peer`. -/
def fetchNextBatch (m : Node) (p : PeerConnection) : SyncStep :=
  match m.createBlockchainSynopsisForPeer p with
  | .ok synopsis => .asking { p with itemIdsRequestedFromPeer := some synopsis }
  | .error .blockOlderThanUndoHistory => .disconnected "You are on a fork I'm unable to switch to"
  | .error e => .stalled e

/-- `start_synchronizing_with_peer`. -/
def startSynchronizingWithPeer (m : Node) (p : PeerConnection) : SyncStep :=
  m.fetchNextBatch
    { p with
      idsOfItemsToGet := []
      numberOfUnfetchedItemIds := 0
      weNeedSyncItemsFromPeer := true
      lastBlockDelegateHasSeen := ⟨0, 0⟩
      lastBlockTimeDelegateHasSeen := m.getBlockTime ⟨0, 0⟩ }

omit [Fc] in
/-- `on_fetch_blockchain_item_ids_message`: the reply. -/
def onFetchBlockchainItemIds (m : Node) (synopsis : List BlockId) :
    Except SyncError BlockchainItemIdsInventory :=
  match m.getBlockIds synopsis blockIdsLimit with
  | .ok (ids, remaining) => .ok ⟨remaining, ids⟩
  | .error .peerIsOnAnUnreachableFork => .ok ⟨0, []⟩
  | .error e => .error e

end Node

/-- The tests of a reply: its ids are in sequence and start at one that was sent. -/
def checkInventory (synopsis : List BlockId) : List BlockId → Except String Unit
  | [] => .ok ()
  | front :: rest =>
      if (rest.zipIdx 1).all fun r => decide (r.1.num = u32 (front.num + r.2)) then
        if synopsis = [] then
          if front.num = 1 then .ok ()
          else .error "You gave an invalid response for my request for sync blocks.  I asked for blocks starting from the beginning of the chain, but you returned a list of blocks starting with ${first_block}"
        else if front ∈ synopsis then .ok ()
        else .error "You gave an invalid response for my request for sync blocks.  I asked for blocks following something in ${synopsis}, but you returned a list of blocks starting with ${first_block} which wasn't one of your choices"
      else .error "You gave an invalid response to my request for sync blocks.  The list of blocks you provided is not sequential, the ${position}th block in their reply was block number ${actual_num}, but it should have been number ${expected_num}"

namespace Node

variable [Fc]

/-- The block was seen. -/
def seen (m : Node) (p : PeerConnection) (id : BlockId) : PeerConnection :=
  { p with lastBlockDelegateHasSeen := id, lastBlockTimeDelegateHasSeen := m.getBlockTime id }

/-- The loop that drops the blocks from the front that the node has. -/
def flushKnown (m : Node) : PeerConnection → List BlockId → PeerConnection × List BlockId
  | p, [] => (p, [])
  | p, id :: rest =>
      if m.isKnownBlock id then flushKnown m (m.seen p id) rest else (p, id :: rest)

/-- The ids of the reply come after those of before. -/
def takeInventory (m : Node) (others : List PeerConnection) (p : PeerConnection) :
    List BlockId → PeerConnection
  | [] => p
  | front :: rest =>
      match p.idsOfItemsToGet with
      | [] =>
          -- what another peer is asked for first stays on the list
          if others.any fun o => decide (o.idsOfItemsToGet.head? = some front) then
            { p with idsOfItemsToGet := front :: rest }
          else
            let r := m.flushKnown p (front :: rest)
            { r.1 with idsOfItemsToGet := r.2 }
      | ids =>
          match ids.reverse.dropWhile fun id => decide (id ≠ front) with
          | [] => { m.seen p front with idsOfItemsToGet := rest }
          | _ :: before => { p with idsOfItemsToGet := before.reverse ++ front :: rest }

omit [Fc] in
/-- The end of `on_blockchain_item_ids_inventory_message`: what to do with the list. -/
def afterInventory (m : Node) (now : Nat) (p : PeerConnection) : SyncStep :=
  let remaining := p.numberOfUnfetchedItemIds
  if u32 (now + netFutureSyncBlocksGracePeriodSec) <
      u32 (p.lastBlockTimeDelegateHasSeen + u32 (remaining * blockInterval)) then
    .disconnected "You offered me a list of more sync blocks than could possibly exist.  Total blocks offered: ${blocks}, Minimum time of the last block you offered: ${minimum_time_of_last_offered_block}, Now: ${now}"
  else if remaining ≠ 0 then
    if netMinBlockIdsToPrefetch < p.idsOfItemsToGet.length then .fetching p
    else m.fetchNextBatch p
  else if p.idsOfItemsToGet ≠ [] then .fetching p
  else m.fetchNextBatch p

omit [Fc] in
/-- Whether a peer that has no more ids has sent nothing new. -/
def hasNothingNew (m : Node) : List BlockId → Bool
  | [] => true
  | [id] => m.isKnownBlock id
  | _ => false

/-- `on_blockchain_item_ids_inventory_message` at `now`. -/
def onBlockchainItemIdsInventory (m : Node) (now : Nat) (others : List PeerConnection)
    (message : BlockchainItemIdsInventory) (p : PeerConnection) : SyncStep :=
  match p.itemIdsRequestedFromPeer with
  | none => .ignored p
  | some synopsis =>
      match checkInventory synopsis message.itemHashesAvailable with
      | .error why => .disconnected why
      | .ok () =>
          let remaining := message.totalRemainingItemCount
          let p := { p with itemIdsRequestedFromPeer := none }
          if remaining = 0 ∧ m.hasNothingNew message.itemHashesAvailable = true ∧
              p.idsOfItemsToGet = [] ∧ p.numberOfUnfetchedItemIds = 0 then
            .inSync { p with weNeedSyncItemsFromPeer := false }
          else
            m.afterInventory now { m.takeInventory others p message.itemHashesAvailable with
              numberOfUnfetchedItemIds := remaining }

end Node

/-! ## 4. Two nodes -/

variable [Fc]

/-- A request of `us` is answered by `peer`, and the answer received. -/
def syncRound (us peer : Node) (now : Nat) : SyncStep → SyncStep
  | .asking p =>
      match peer.onFetchBlockchainItemIds (p.itemIdsRequestedFromPeer.getD []) with
      | .ok message => us.onBlockchainItemIdsInventory now [] message p
      | .error e => .stalled e
  | step => step

/-- Some rounds, from the first request on. -/
def syncRounds (us peer : Node) (now : Nat) : Nat → SyncStep
  | 0 => us.startSynchronizingWithPeer {}
  | rounds + 1 => syncRound us peer now (syncRounds us peer now rounds)

end MuseChain
