/-
  File:      MuseChain/Chain/BlockDatabase.lean
  Subject:   The block database on disk.

  The index file is the list of its entries, one at `sizeof( index_entry ) * num` for each block
  number; the blocks file is a list of bytes. Both are empty when the database is opened for the
  first time. A read beyond the end of a file leaves the stream failed, which is not followed any
  further: it is a `crash` here. `pack` and `unpack` are what the source takes from fc.
-/
import MuseChain.Chain.ForkDatabase
import MuseChain.Lib.Records

namespace MuseChain

/-- `fc::raw`: `pack_to_vector` and `unpack_from_vector` of blocks. -/
class FcRaw where
  pack : SignedBlock → List UInt8
  unpack : List UInt8 → Option SignedBlock

structure IndexEntry where
  blockPos : Nat := 0
  blockSize : Nat := 0
  blockId : BlockId := ⟨0, 0⟩
  deriving DecidableEq, Inhabited

structure BlockDatabase where
  blockNumToPos : List IndexEntry := []
  blocks : List UInt8 := []

namespace BlockDatabase

variable [Fc] [FcRaw]

/-! ## 1. Writing -/

/-- `store`; the size of an entry has 32 bits. -/
def store (d : BlockDatabase) (id : BlockId) (b : SignedBlock) : BlockDatabase :=
  let id := if id = ⟨0, 0⟩ then b.toSignedBlockHeader.id else id
  let vec := FcRaw.pack b
  let e : IndexEntry := ⟨d.blocks.length, u32 vec.length, id⟩
  { blockNumToPos := Records.write {} d.blockNumToPos id.num e, blocks := d.blocks ++ vec }

omit [Fc] [FcRaw] in
/-- `remove`. -/
def remove (d : BlockDatabase) (id : BlockId) : Except Exn BlockDatabase :=
  match d.blockNumToPos[id.num]? with
  | none => .error (.assert "Block ${id} not contained in block database")
  | some e =>
      if e.blockId = id then
        .ok { d with blockNumToPos := d.blockNumToPos.set id.num { e with blockSize := 0 } }
      else .ok d

/-! ## 2. Reading -/

omit [Fc] [FcRaw] in
/-- `contains`. -/
def contains (d : BlockDatabase) (id : BlockId) : Bool :=
  if id = ⟨0, 0⟩ then false
  else
    match d.blockNumToPos[id.num]? with
    | none => false
    | some e => decide (e.blockId = id ∧ 0 < e.blockSize)

/-- What all readers do with an entry; what unpack and the check of the id throw is caught. -/
def readBlock (d : BlockDatabase) (e : IndexEntry) : Except Exn (Option SignedBlock) :=
  match Records.slice d.blocks e.blockPos e.blockSize with
  | none => .error (.crash "a read beyond the end of the blocks file")
  | some data =>
      match FcRaw.unpack data with
      | none => .ok none
      | some result => .ok (if result.toSignedBlockHeader.id = e.blockId then some result else none)

/-- `fetch_optional`. -/
def fetchOptional (d : BlockDatabase) (id : BlockId) : Except Exn (Option SignedBlock) :=
  match d.blockNumToPos[id.num]? with
  | none => .ok none
  | some e => if e.blockId = id then d.readBlock e else .ok none

/-- `fetch_by_number`. -/
def fetchByNumber (d : BlockDatabase) (blockNum : Nat) : Except Exn (Option SignedBlock) :=
  match d.blockNumToPos[blockNum]? with
  | none => .ok none
  | some e => d.readBlock e

/-- The loop of `last_index_entry`, from position `pos` down. What is no block is cut off. -/
def lastIndexEntryFrom (d : BlockDatabase) :
    Nat → Except Exn (BlockDatabase × Option IndexEntry)
  | 0 => .ok (d, none)
  | pos + 1 =>
      match d.blockNumToPos[pos]? with
      | none => .error (.crash "a read beyond the end of the index file")
      | some e =>
          if 0 < e.blockSize ∧ e.blockPos + e.blockSize ≤ d.blocks.length then
            match d.readBlock e with
            | .error x => .error x
            | .ok (some _) => .ok (d, some e)
            | .ok none =>
                lastIndexEntryFrom { d with blockNumToPos := d.blockNumToPos.take pos } pos
          else lastIndexEntryFrom { d with blockNumToPos := d.blockNumToPos.take pos } pos

/-- `last_index_entry`. -/
def lastIndexEntry (d : BlockDatabase) : Except Exn (BlockDatabase × Option IndexEntry) :=
  d.lastIndexEntryFrom d.blockNumToPos.length

/-- `last`. -/
def last (d : BlockDatabase) : Except Exn (BlockDatabase × Option SignedBlock) :=
  match d.lastIndexEntry with
  | .error x => .error x
  | .ok (d, none) => .ok (d, none)
  | .ok (d, some entry) =>
      match d.fetchByNumber entry.blockId.num with
      | .error x => .error x
      | .ok b => .ok (d, b)

/-- `last_id`. -/
def lastId (d : BlockDatabase) : Except Exn (BlockDatabase × Option BlockId) :=
  match d.lastIndexEntry with
  | .error x => .error x
  | .ok (d, entry) => .ok (d, entry.map IndexEntry.blockId)

/-! ## 3. Cutting off -/

/-- The loop of `cutoff_blocks`, at most `fuel` times. -/
def cutoffLoop (limit : Nat) : Nat → BlockDatabase → Except Exn BlockDatabase
  | 0, _ => .error (.crash "more blocks than the index has entries")
  | fuel + 1, d =>
      match d.lastId with
      | .error x => .error x
      | .ok (d, none) => .ok d
      | .ok (d, some id) =>
          if limit < id.num then
            match d.remove id with
            | .error x => .error x
            | .ok d => cutoffLoop limit fuel d
          else .ok d

/-- `cutoff_blocks`; `limit` is the last block number to keep. -/
def cutoffBlocks (d : BlockDatabase) (limit : Nat) : Except Exn BlockDatabase :=
  cutoffLoop limit (d.blockNumToPos.length + 1) d

end BlockDatabase

/-! ## 4. Removing from the block log -/

namespace BlockLog

/-- What `remove( id )` does to the blocks: the block of that id is gone. -/
def remove (log : BlockLog) (id : BlockId) : BlockLog :=
  match log.get id.num with
  | some (i, _) => if i = id then log.put id.num none else log
  | none => log

/-- What is left of the blocks up to a number. -/
def upTo (log : BlockLog) (limit : Nat) : BlockLog :=
  ⟨log.rows.filter fun row => decide (row.1 ≤ limit), log.sorted.filter _⟩

/-- The entry of the greatest number, if there is one. -/
def IsLast (log : BlockLog) : Option (BlockId × SignedBlock) → Prop
  | some (id, b) => log.get id.num = some (id, b) ∧ ∀ n, id.num < n → log.get n = none
  | none => ∀ n, log.get n = none

end BlockLog

end MuseChain
