/-
  File:      MuseChain/Chain/ForkDatabase.lean
  Subject:   The fork database and the block log.

  A fork item is a heap object: `tag` tells two items of one block apart, and `prev` is a weak
  pointer, the tag of the item it points to. It can be locked while that item is in the index, is
  the head, or is held by the caller. The index of unlinked blocks, which nothing is put into, and
  the flag `invalid`, which nothing sets, are left out.
-/
import MuseChain.Chain.Block

namespace MuseChain

/-! ## 1. Items -/

structure ForkItem where
  tag : Nat
  id : BlockId
  num : Nat
  prev : Option Nat
  data : SignedBlock

structure ForkDb where
  index : List ForkItem
  head : Option ForkItem
  maxSize : Nat
  nextTag : Nat

namespace ForkDb

/-- The fork database before the first block. -/
def empty : ForkDb := ⟨[], none, 1024, 0⟩

def find (f : ForkDb) (id : BlockId) : Option ForkItem := f.index.find? fun i => i.id = id

/-- `weak_ptr::lock`, with the items that the caller holds. -/
def lock (f : ForkDb) (held : List ForkItem) (prev : Option Nat) : Option ForkItem :=
  match prev with
  | none => none
  | some t => (f.index ++ f.head.toList ++ held).find? fun i => i.tag = t

/-- The items that stay when everything below `num` is erased. -/
def keepFrom (num : Nat) (l : List ForkItem) : List ForkItem := l.filter fun i => decide (num ≤ i.num)

/-! ## 2. Operations -/

/-- `_index.insert( item )`, which does nothing when the id is there. -/
def insert (f : ForkDb) (item : ForkItem) : ForkDb :=
  { f with index := if (f.find item.id).isSome then f.index else f.index ++ [item] }

/-- `_head = item`, if it is higher, and what is too old is erased. -/
def advance (f : ForkDb) (item : ForkItem) : ForkDb :=
  match f.head with
  | none => { f with head := some item }
  | some h =>
      if h.num < item.num then
        { f with head := some item, index := keepFrom (item.num - min f.maxSize item.num) f.index }
      else f

/-- Where a new block links: nowhere, or to the item of the block before it. -/
def linkOf (f : ForkDb) (b : SignedBlock) : Except Exn (Option Nat) :=
  match f.head with
  | none => .ok none
  | some h =>
      if b.blockNum ≤ h.num - f.maxSize then
        .error (.assert "attempting to push a block that is too old")
      else if b.previous = ⟨0, 0⟩ then .ok none
      else
        match f.find b.previous with
        | some p => .ok (some p.tag)
        | none => .error (.assert "block does not link to known chain")

theorem linkOf_no_crash {f : ForkDb} {b : SignedBlock} {why : String} :
    f.linkOf b ≠ .error (.crash why) := by
  intro he
  unfold ForkDb.linkOf at he
  split at he
  · cases he
  · split at he
    · cases he
    · split at he
      · cases he
      · split at he <;> cases he

variable [Fc]

def itemOf (tag : Nat) (b : SignedBlock) (prev : Option Nat) : ForkItem :=
  ⟨tag, b.toSignedBlockHeader.id, b.blockNum, prev, b⟩

/-- `push_block`; what it returns is the head afterwards. -/
def pushBlock (f : ForkDb) (b : SignedBlock) : Except Exn ForkDb := do
  let prev ← f.linkOf b
  let item := itemOf f.nextTag b prev
  pure (({ f with nextTag := f.nextTag + 1 }.insert item).advance item)

/-- `start_block`. -/
def startBlock (f : ForkDb) (b : SignedBlock) : ForkDb :=
  let item := itemOf f.nextTag b none
  { ({ f with nextTag := f.nextTag + 1 }.insert item) with head := some item }

/-- `pop_block`. -/
def popBlock (f : ForkDb) (held : List ForkItem) : Except Exn ForkDb :=
  match f.head with
  | none => .error (.assert "cannot pop an empty fork database")
  | some h =>
      match f.lock held h.prev with
      | none => .error (.assert "popping head block would leave fork DB empty")
      | some p => .ok { f with head := some p }

def setHead (f : ForkDb) (item : ForkItem) : ForkDb := { f with head := some item }

def remove (f : ForkDb) (id : BlockId) : ForkDb :=
  { f with index := f.index.filter fun i => decide (i.id ≠ id) }

def setMaxSize (f : ForkDb) (size : Nat) : ForkDb :=
  match f.head with
  | none => { f with maxSize := size }
  | some h => { f with maxSize := size, index := keepFrom (h.num - size) f.index }

/-! ## 3. Branches -/

/-- The first two loops of `fetch_branch_from`: down to block number `num`. -/
def climb (f : ForkDb) (num : Nat) : Nat → ForkItem → List ForkItem →
    Except Exn (ForkItem × List ForkItem)
  | 0, _, _ => .error (.crash "a branch longer than the index")
  | fuel + 1, item, result =>
      if num < item.num then
        match f.lock [] item.prev with
        | none => .error (.assert "first_branch")
        | some p => climb f num fuel p (result ++ [item])
      else .ok (item, result)

/-- The third loop: down both branches to the same previous block. -/
def climbBoth (f : ForkDb) : Nat → ForkItem → ForkItem → List ForkItem → List ForkItem →
    Except Exn (List ForkItem × List ForkItem)
  | 0, _, _, _, _ => .error (.crash "a branch longer than the index")
  | fuel + 1, a, b, first, second =>
      if a.data.previous = b.data.previous then .ok (first ++ [a], second ++ [b])
      else
        match f.lock [] a.prev, f.lock [] b.prev with
        | some p, some q => climbBoth f fuel p q (first ++ [a]) (second ++ [b])
        | _, _ => .error (.assert "first_branch")

/-- `fetch_branch_from`: the two branches, the newest block first. -/
def fetchBranchFrom (f : ForkDb) (first second : BlockId) :
    Except Exn (List ForkItem × List ForkItem) := do
  match f.find first, f.find second with
  | some a, some b => do
      let fuel := f.index.length + 2
      let (a, l) ← climb f b.num fuel a []
      let (b, r) ← climb f a.num fuel b []
      climbBoth f fuel a b l r
  | _, _ => .error (.assert "first_branch_itr != _index.get<block_id>().end()")

end ForkDb

/-! ## 4. The block log -/

/-- `block_database`: the entry of each block number. -/
abbrev BlockLog : Type := FMap (BlockId × SignedBlock)

namespace BlockLog

variable [Fc]

/-- `store( id, block )`: the number is taken from the id. -/
def store (log : BlockLog) (id : BlockId) (b : SignedBlock) : BlockLog :=
  let id := if id = ⟨0, 0⟩ then b.toSignedBlockHeader.id else id
  log.put id.num (some (id, b))

/-- `fetch_by_number`. -/
def fetchByNumber (log : BlockLog) (num : Nat) : Option SignedBlock :=
  match log.get num with
  | some (id, b) => if b.toSignedBlockHeader.id = id then some b else none
  | none => none

/-- `fetch_optional`. -/
def fetchOptional (log : BlockLog) (id : BlockId) : Option SignedBlock :=
  match log.get id.num with
  | some (i, b) => if i = id ∧ b.toSignedBlockHeader.id = i then some b else none
  | none => none

end BlockLog

end MuseChain
