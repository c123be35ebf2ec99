/-
  File:      MuseChain/Chain/MerkleRoot.lean
  Subject:   `calculate_merkle_root` as it runs: the loops over one array, with their counters.

  The counters `i`, `i_max` and `k` are 32-bit numbers, the size of the array a 64-bit one. Every
  place that is read or written is checked to lie inside the array. A loop takes the passes it may
  make; nothing comes out when they do not suffice.
-/
import MuseChain.Chain.Block

namespace MuseChain

/-- `ids[k] = x`. -/
def setAt {α : Type} (ids : List α) (k : Nat) (x : α) : Option (List α) :=
  if k < ids.length then some (ids.set k x) else none

section

variable [Fc]

/-- The first loop: the digests of the transactions. -/
def fillIds (trxs : List Transaction) : Nat → Nat → List Digest → Option (List Digest)
  | 0, _, _ => none
  | passes + 1, i, ids =>
      if i < trxs.length then do
        let trx ← trxs[i]?
        let ids ← setAt ids i (Fc.merkleDigest trx)
        fillIds trxs passes (u32 (i + 1)) ids
      else some ids

/-- The inner loop: the pairs before `i_max`. -/
def hashPairs (iMax : Nat) : Nat → Nat → Nat → List Digest → Option (Nat × List Digest)
  | 0, _, _, _ => none
  | passes + 1, i, k, ids =>
      if i < iMax then do
        let left ← ids[i]?
        let right ← ids[u32 (i + 1)]?
        let ids ← setAt ids k (Fc.hashPair left right)
        hashPairs iMax passes (u32 (i + 2)) (u32 (k + 1)) ids
      else some (k, ids)

/-- The outer loop, with `current_number_of_hashes` of the ids still in use. -/
def reduceIds (pairPasses : Nat) : Nat → Nat → List Digest → Option (List Digest)
  | 0, _, _ => none
  | passes + 1, current, ids =>
      if 1 < current then do
        let iMax := u32 (current - current % 2)
        let (k, ids) ← hashPairs iMax pairPasses 0 0 ids
        if current % 2 = 1 then do
          let last ← ids[iMax]?
          let ids ← setAt ids k last
          reduceIds pairPasses passes (u32 (k + 1)) ids
        else reduceIds pairPasses passes k ids
      else some ids

/-- `calculate_merkle_root` while no loop makes more than `passes` passes. -/
def SignedBlock.merkleRootWithin (passes : Nat) (b : SignedBlock) : Option Digest :=
  if b.transactions.length = 0 then some 0
  else do
    let ids ← fillIds b.transactions passes 0 (List.replicate b.transactions.length 0)
    let ids ← reduceIds passes passes b.transactions.length ids
    let root ← ids[0]?
    pure (Fc.checksum root)

/-- `calculate_merkle_root` returns `root`. -/
def SignedBlock.ReturnsRoot (b : SignedBlock) (root : Digest) : Prop :=
  ∃ passes, b.merkleRootWithin passes = some root

end

end MuseChain
