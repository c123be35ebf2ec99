/-
  File:      MuseChain/Safety/MerkleRoots.lean
  Subject:   The merkle root of a block is the root of a tree over its transactions.

  The array is overwritten from the front while it is read further behind: `hashPairs_spec` says
  what holds of both parts between two passes, `reduceIds_spec` that the outer loop ends with the
  root of the levels in front. Both need the size to fit the 32-bit counters; from 2^32
  transactions on the first loop never ends (`fillIds_endless`).
-/
import MuseChain.Chain.Genesis
import MuseChain.Chain.MerkleRoot
import MuseChain.Lib.Trees
import MuseChain.Safety.Numbers
import Mathlib.Data.Nat.Pairing

namespace MuseChain

theorem option_bind_of_eq {α β : Type} {x : Option α} {a : α} {f : α → Option β} (h : x = some a) :
    (x >>= f) = f a := by
  rw [h]
  rfl

theorem setAt_ok {α : Type} {ids : List α} {k : Nat} {x : α} (h : k < ids.length) :
    setAt ids k x = some (ids.set k x) := if_pos h

section

variable [Fc]

/-! ## 1. The loops -/

/-- The first loop: the digests before `i` are in place. -/
theorem fillIds_spec {trxs : List Transaction} (hlen : trxs.length < 2 ^ 32) (passes i : Nat)
    (ids : List Digest) (hi : i ≤ trxs.length) (hids : ids.length = trxs.length)
    (hdone : ids.take i = (trxs.map Fc.merkleDigest).take i)
    (hpasses : trxs.length < i + passes) :
    fillIds trxs passes i ids = some (trxs.map Fc.merkleDigest) := by
  induction passes generalizing i ids with
  | zero => omega
  | succ passes ih =>
    rw [fillIds]
    by_cases hlt : i < trxs.length
    · rw [if_pos hlt, option_bind_of_eq (List.getElem?_eq_getElem hlt),
        option_bind_of_eq (setAt_ok (by omega)), u32_of_lt (by omega)]
      refine ih (i + 1) _ hlt (by rw [List.length_set, hids]) ?_ (by omega)
      have hset : (ids.set i (Fc.merkleDigest trxs[i]))[i]? = some (Fc.merkleDigest trxs[i]) :=
        List.getElem?_set_self (by omega)
      have hmap : (trxs.map Fc.merkleDigest)[i]? = some (Fc.merkleDigest trxs[i]) := by
        rw [List.getElem?_map, List.getElem?_eq_getElem hlt, Option.map_some]
      rw [List.take_add_one, List.take_add_one, hset, hmap, List.take_set_of_le le_rfl, hdone]
    · rw [if_neg hlt]
      obtain rfl : i = trxs.length := by omega
      rw [List.take_of_length_le hids.le, List.take_of_length_le (by rw [List.length_map])] at hdone
      rw [hdone]

/-- **Between two passes of the inner loop**: the first `k` places hold the pairs that are joined,
    and nothing has been written from `2 * k` on. -/
theorem hashPairs_spec (orig : List Digest) (half : Nat) (hhalf : 2 * half ≤ orig.length)
    (hlen : orig.length < 2 ^ 32) (passes k : Nat) (ids : List Digest) (hk : k ≤ half)
    (hids : ids.length = orig.length) (hdone : ids.take k = level Fc.hashPair (orig.take (2 * k)))
    (hrest : ids.drop (2 * k) = orig.drop (2 * k)) (hpasses : half < k + passes) :
    ∃ ids', hashPairs (2 * half) passes (2 * k) k ids = some (half, ids') ∧
      ids'.length = orig.length ∧
      ids'.take half = level Fc.hashPair (orig.take (2 * half)) ∧
      ids'.drop (2 * half) = orig.drop (2 * half) := by
  induction passes generalizing k ids with
  | zero => omega
  | succ passes ih =>
    rw [hashPairs]
    by_cases hlt : 2 * k < 2 * half
    · have hget : ∀ j, 2 * k ≤ j → ids[j]? = orig[j]? := by
        intro j hj
        have hdrop := congrArg (fun l : List Digest => l[j - 2 * k]?) hrest
        simp only [List.getElem?_drop] at hdrop
        rwa [show 2 * k + (j - 2 * k) = j by omega] at hdrop
      have hleft : orig[2 * k]? = some orig[2 * k] := List.getElem?_eq_getElem (by omega)
      have hright : orig[2 * k + 1]? = some orig[2 * k + 1] := List.getElem?_eq_getElem (by omega)
      rw [if_pos hlt, option_bind_of_eq ((hget _ le_rfl).trans hleft),
        u32_of_lt (x := 2 * k + 1) (by omega),
        option_bind_of_eq ((hget _ (Nat.le_succ _)).trans hright),
        option_bind_of_eq (setAt_ok (by omega)), u32_of_lt (by omega), u32_of_lt (by omega)]
      refine ih (k + 1) _ (by omega) (by rw [List.length_set, hids]) ?_ ?_ (by omega)
      · have htake : orig.take (2 * (k + 1)) =
            orig.take (2 * k) ++ [orig[2 * k], orig[2 * k + 1]] := by
          rw [show 2 * (k + 1) = 2 * k + 1 + 1 by omega, List.take_add_one, List.take_add_one,
            hleft, hright, List.append_assoc]
          rfl
        have hset : (ids.set k (Fc.hashPair orig[2 * k] orig[2 * k + 1]))[k]? =
            some (Fc.hashPair orig[2 * k] orig[2 * k + 1]) := List.getElem?_set_self (by omega)
        rw [htake, level_append_two, List.take_add_one, hset, List.take_set_of_le le_rfl, hdone]
        · rfl
        · rw [List.length_take]
          omega
      · rw [List.drop_set_of_lt (by omega), show 2 * (k + 1) = 2 * k + 2 by omega,
          ← List.drop_drop, hrest, List.drop_drop]
    · rw [if_neg hlt]
      obtain rfl : k = half := by omega
      exact ⟨ids, rfl, hids, hdone, hrest⟩

/-- **The outer loop**: its result begins with the root of the levels over the ids in use. The
    ids in use become fewer with every pass. -/
theorem reduceIds_spec (pairPasses passes current : Nat) (ids : List Digest)
    (hlen : ids.length < 2 ^ 32) (hcur : current ≤ ids.length) (hpairs : current < pairPasses)
    (hpasses : current < passes) :
    ∃ ids', reduceIds pairPasses passes current ids = some ids' ∧
      (0 < current → ids'[0]? = levelRoot Fc.hashPair (ids.take current)) := by
  induction passes generalizing current ids with
  | zero => omega
  | succ passes ih =>
    rw [reduceIds]
    by_cases hlt : 1 < current
    case neg =>
      refine ⟨ids, if_neg hlt, fun hpos => ?_⟩
      obtain rfl : current = 1 := by omega
      cases ids with
      | nil => exact absurd hcur (by simp)
      | cons a rest =>
        rw [List.take_succ_cons, List.take_zero, levelRoot]
        rfl
    rw [if_pos hlt]
    obtain ⟨half, hhalf⟩ : ∃ half, current - current % 2 = 2 * half := ⟨current / 2, by omega⟩
    rw [hhalf, u32_of_lt (by omega)]
    dsimp only
    obtain ⟨ids', hrun, hlen', hdone, hrest⟩ := hashPairs_spec ids half
      (by omega) hlen pairPasses 0 ids (Nat.zero_le _) rfl (by simp [level]) rfl (by omega)
    rw [option_bind_of_eq hrun]
    dsimp only
    have heven : (ids.take (2 * half)).length % 2 = 0 := by
      rw [List.length_take]
      omega
    by_cases hodd : current % 2 = 1
    · -- an odd id is carried up behind the pairs
      have hcurrent : current = 2 * half + 1 := by omega
      obtain ⟨x, hx⟩ : ∃ x, ids[2 * half]? = some x :=
        ⟨_, List.getElem?_eq_getElem (by omega)⟩
      have hlast : ids'[2 * half]? = some x := by
        have hdrop := congrArg (fun l : List Digest => l[0]?) hrest
        simp only [List.getElem?_drop, add_zero] at hdrop
        exact hdrop.trans hx
      have hset : (ids'.set half x)[half]? = some x := List.getElem?_set_self (by omega)
      have hlevel : (ids'.set half x).take (half + 1) =
          level Fc.hashPair (ids.take current) := by
        rw [hcurrent, List.take_add_one, List.take_add_one, hset, List.take_set_of_le le_rfl, hdone,
          hx]
        exact (level_append_one _ _ _ heven).symm
      rw [if_pos hodd, option_bind_of_eq hlast, option_bind_of_eq (setAt_ok (by omega)),
        u32_of_lt (by omega)]
      obtain ⟨ids'', hloop, hroot⟩ := ih (half + 1) (ids'.set half x)
        (by rw [List.length_set]; omega) (by rw [List.length_set]; omega) (by omega) (by omega)
      refine ⟨ids'', hloop, fun _ => ?_⟩
      rw [hroot (by omega), hlevel, levelRoot_level]
    · have hcurrent : current = 2 * half := by omega
      rw [if_neg hodd]
      obtain ⟨ids'', hloop, hroot⟩ := ih half ids' (by omega) (by omega) (by omega) (by omega)
      refine ⟨ids'', hloop, fun _ => ?_⟩
      rw [hroot (by omega), hdone, ← hcurrent, levelRoot_level]

/-! ## 2. The root -/

/-- The tree over the transactions, with their digests at the leaves. -/
def SignedBlock.merkleTree (b : SignedBlock) : Option (Tree Digest) :=
  Tree.ofList (b.transactions.map Fc.merkleDigest)

/-- The digest of a tree. -/
def Tree.digest (t : Tree Digest) : Digest := t.fold Fc.hashPair id

/-- **Enough passes give the root of the tree.** -/
theorem merkleRootWithin_spec {b : SignedBlock} {t : Tree Digest}
    (hlen : b.transactions.length < 2 ^ 32) (ht : b.merkleTree = some t) {passes : Nat}
    (hpasses : b.transactions.length < passes) :
    b.merkleRootWithin passes = some (Fc.checksum t.digest) := by
  have hne : b.transactions.length ≠ 0 := by
    intro hzero
    unfold SignedBlock.merkleTree at ht
    rw [List.eq_nil_of_length_eq_zero hzero] at ht
    rw [Tree.ofList, List.map_nil, List.map_nil, levelRoot] at ht
    cases ht
  have hfill := fillIds_spec hlen passes 0 (List.replicate b.transactions.length 0)
    (Nat.zero_le _) List.length_replicate rfl (by omega)
  have hmap : (b.transactions.map Fc.merkleDigest).length = b.transactions.length :=
    List.length_map _
  obtain ⟨ids, hloop, hroot⟩ := reduceIds_spec passes passes b.transactions.length
    (b.transactions.map Fc.merkleDigest) (by omega) hmap.ge hpasses hpasses
  have hfold : ids[0]? = some t.digest := by
    unfold SignedBlock.merkleTree at ht
    rw [hroot (Nat.pos_of_ne_zero hne), List.take_of_length_le hmap.le, Tree.levelRoot_eq_fold,
      ht]
    rfl
  unfold SignedBlock.merkleRootWithin
  rw [if_neg hne, option_bind_of_eq hfill, option_bind_of_eq hloop, option_bind_of_eq hfold]
  rfl

/-- The model of the chain takes the same levels. -/
theorem merkleLevel_eq : ∀ l : List Digest, merkleLevel l = level Fc.hashPair l
  | [] => by simp [merkleLevel, level]
  | [_] => by simp [merkleLevel, level]
  | a :: b :: rest => by rw [merkleLevel, level, merkleLevel_eq rest]

theorem merkleLoop_eq (passes : Nat) (l : List Digest) (hl : l ≠ [])
    (hpasses : l.length ≤ passes + 1) :
    some (merkleLoop passes l) = (levelRoot Fc.hashPair l).map Fc.checksum := by
  induction passes generalizing l with
  | zero =>
    rcases l with _ | ⟨a, _ | ⟨b, rest⟩⟩
    · exact absurd rfl hl
    · rw [levelRoot, merkleLoop, Option.map_some]
    · exact absurd hpasses (by simp)
  | succ passes ih =>
    rcases l with _ | ⟨a, _ | ⟨b, rest⟩⟩
    · exact absurd rfl hl
    · rw [levelRoot, merkleLoop, Option.map_some]
    · have hshort := length_level Fc.hashPair (a :: b :: rest)
      rw [List.length_cons, List.length_cons] at hpasses hshort
      have hne : level Fc.hashPair (a :: b :: rest) ≠ [] := List.cons_ne_nil _ _
      have hloop := ih (level Fc.hashPair (a :: b :: rest)) hne (by omega)
      rw [levelRoot_level, ← merkleLevel_eq] at hloop
      exact hloop

theorem calculateMerkleRoot_eq {b : SignedBlock} {t : Tree Digest} (ht : b.merkleTree = some t)
    (hne : b.transactions ≠ []) : b.calculateMerkleRoot = Fc.checksum t.digest := by
  have hloop := merkleLoop_eq b.transactions.length (b.transactions.map Fc.merkleDigest)
    (mt List.map_eq_nil_iff.mp hne) (by rw [List.length_map]; omega)
  unfold SignedBlock.merkleTree at ht
  rw [Tree.levelRoot_eq_fold, ht, Option.map_some, Option.map_some] at hloop
  exact Option.some.inj hloop

/-! ## 3. More passes change nothing -/

theorem hashPairs_of_le {iMax p p' i k : Nat} {ids : List Digest} {r : Nat × List Digest}
    (h : p ≤ p') (hr : hashPairs iMax p i k ids = some r) : hashPairs iMax p' i k ids = some r := by
  induction p generalizing p' i k ids with
  | zero => cases hr
  | succ p ih =>
    obtain ⟨p', rfl⟩ := Nat.exists_eq_succ_of_ne_zero (show p' ≠ 0 by omega)
    rw [hashPairs] at hr ⊢
    split at hr
    · rename_i hlt
      obtain ⟨left, hleft, hr⟩ := Option.bind_eq_some_iff.mp hr
      obtain ⟨right, hright, hr⟩ := Option.bind_eq_some_iff.mp hr
      obtain ⟨ids', hset, hr⟩ := Option.bind_eq_some_iff.mp hr
      rw [if_pos hlt, option_bind_of_eq hleft, option_bind_of_eq hright, option_bind_of_eq hset]
      exact ih (by omega) hr
    · rename_i hge
      rw [if_neg hge]
      exact hr

theorem fillIds_of_le {trxs : List Transaction} {p p' i : Nat} {ids r : List Digest}
    (h : p ≤ p') (hr : fillIds trxs p i ids = some r) : fillIds trxs p' i ids = some r := by
  induction p generalizing p' i ids with
  | zero => cases hr
  | succ p ih =>
    obtain ⟨p', rfl⟩ := Nat.exists_eq_succ_of_ne_zero (show p' ≠ 0 by omega)
    rw [fillIds] at hr ⊢
    split at hr
    · rename_i hlt
      obtain ⟨trx, htrx, hr⟩ := Option.bind_eq_some_iff.mp hr
      obtain ⟨ids', hset, hr⟩ := Option.bind_eq_some_iff.mp hr
      rw [if_pos hlt, option_bind_of_eq htrx, option_bind_of_eq hset]
      exact ih (by omega) hr
    · rename_i hge
      rw [if_neg hge]
      exact hr

theorem reduceIds_of_le {q q' p p' current : Nat} {ids r : List Digest} (hq : q ≤ q')
    (h : p ≤ p') (hr : reduceIds q p current ids = some r) :
    reduceIds q' p' current ids = some r := by
  induction p generalizing p' current ids with
  | zero => cases hr
  | succ p ih =>
    obtain ⟨p', rfl⟩ := Nat.exists_eq_succ_of_ne_zero (show p' ≠ 0 by omega)
    rw [reduceIds] at hr ⊢
    split at hr
    · rename_i hlt
      obtain ⟨⟨k, ids'⟩, hpairs, hr⟩ := Option.bind_eq_some_iff.mp hr
      rw [if_pos hlt, option_bind_of_eq (hashPairs_of_le hq hpairs)]
      dsimp only at hr ⊢
      split at hr
      · rename_i hodd
        obtain ⟨last, hlast, hr⟩ := Option.bind_eq_some_iff.mp hr
        obtain ⟨ids'', hset, hr⟩ := Option.bind_eq_some_iff.mp hr
        rw [if_pos hodd, option_bind_of_eq hlast, option_bind_of_eq hset]
        exact ih (by omega) hr
      · rename_i heven
        rw [if_neg heven]
        exact ih (by omega) hr
    · rename_i hge
      rw [if_neg hge]
      exact hr

theorem merkleRootWithin_of_le {b : SignedBlock} {p p' : Nat} {root : Digest} (h : p ≤ p')
    (hr : b.merkleRootWithin p = some root) : b.merkleRootWithin p' = some root := by
  unfold SignedBlock.merkleRootWithin at hr ⊢
  split at hr
  · rename_i hempty
    rw [if_pos hempty]
    exact hr
  · rename_i hsome
    obtain ⟨ids, hfill, hr⟩ := Option.bind_eq_some_iff.mp hr
    obtain ⟨ids', hloop, hr⟩ := Option.bind_eq_some_iff.mp hr
    rw [if_neg hsome, option_bind_of_eq (fillIds_of_le h hfill),
      option_bind_of_eq (reduceIds_of_le h h hloop)]
    exact hr

/-- What `calculate_merkle_root` returns is the digest of the tree. -/
theorem returnsRoot_iff {b : SignedBlock} {t : Tree Digest} {root : Digest}
    (hlen : b.transactions.length < 2 ^ 32) (ht : b.merkleTree = some t) :
    b.ReturnsRoot root ↔ root = Fc.checksum t.digest := by
  have hspec := merkleRootWithin_spec hlen ht (Nat.lt_succ_self _)
  constructor
  · rintro ⟨passes, hr⟩
    have hmore := merkleRootWithin_of_le (Nat.le_add_right passes (b.transactions.length + 1)) hr
    have hspec' := merkleRootWithin_of_le (Nat.le_add_left (b.transactions.length + 1) passes) hspec
    exact Option.some.inj (hmore.symm.trans hspec')
  · rintro rfl
    exact ⟨_, hspec⟩

/-- The root of an empty block. -/
theorem returnsRoot_nil {b : SignedBlock} {root : Digest} (hnil : b.transactions = []) :
    b.ReturnsRoot root ↔ root = 0 := by
  have hzero : b.transactions.length = 0 := by rw [hnil]; rfl
  constructor
  · rintro ⟨passes, hr⟩
    unfold SignedBlock.merkleRootWithin at hr
    rw [if_pos hzero] at hr
    exact (Option.some.inj hr).symm
  · rintro rfl
    exact ⟨0, if_pos hzero⟩

/-! ## 4. What a root commits to -/

/-- What is taken for granted of the hashes: none has a collision, and the digest of a transaction
    is never the digest of a pair, nor the checksum of a root the one of an empty block. -/
structure MerkleHashes [Fc] : Prop where
  hashPair_inj : ∀ a b c d : Digest, Fc.hashPair a b = Fc.hashPair c d → a = c ∧ b = d
  checksum_inj : Function.Injective Fc.checksum
  leaf_ne_pair : ∀ (trx : Transaction) (a b : Digest), Fc.merkleDigest trx ≠ Fc.hashPair a b
  checksum_ne_empty : ∀ a : Digest, Fc.checksum a ≠ 0

theorem SignedBlock.exists_merkleTree {b : SignedBlock} (h : b.transactions ≠ []) :
    ∃ t, b.merkleTree = some t :=
  Tree.exists_ofList (mt List.map_eq_nil_iff.mp h)

/-- **The trees, and so the digests, of two blocks are told from their roots.** -/
theorem MerkleHashes.digests_eq (hashes : MerkleHashes) {b b' : SignedBlock} {t t' : Tree Digest}
    (ht : b.merkleTree = some t) (ht' : b'.merkleTree = some t')
    (h : Fc.checksum t.digest = Fc.checksum t'.digest) :
    b.transactions.map Fc.merkleDigest = b'.transactions.map Fc.merkleDigest := by
  have hleaf : ∀ {c : SignedBlock} {s : Tree Digest}, c.merkleTree = some s →
      ∀ a ∈ s.leaves, ∃ trx, a = Fc.merkleDigest trx := by
    intro c s hs a ha
    rw [Tree.leaves_ofList hs] at ha
    obtain ⟨trx, _, rfl⟩ := List.mem_map.mp ha
    exact ⟨trx, rfl⟩
  have htree : t = t' := by
    refine Tree.fold_inj (P := fun a => ∃ trx, a = Fc.merkleDigest trx) (fun _ _ _ _ h => h)
      hashes.hashPair_inj ?_ (hleaf ht) (hleaf ht') (hashes.checksum_inj h)
    rintro _ c d ⟨trx, rfl⟩
    exact hashes.leaf_ne_pair trx c d
  rw [← Tree.leaves_ofList ht, htree, Tree.leaves_ofList ht']

/-- **The merkle root commits to the transactions.** For a block of fewer than 2^32 transactions
    the loops end; with a transaction or more they return the checksum of the digest of the tree
    that pairs neighbours level by level; and two such blocks with one root have the same list of
    transaction digests. -/
theorem calculate_merkle_root_spec (hashes : MerkleHashes) (b b' : SignedBlock)
    (hlen : b.transactions.length < 2 ^ 32) (hlen' : b'.transactions.length < 2 ^ 32) :
    (∃ root, b.ReturnsRoot root) ∧
      (b.transactions ≠ [] → ∃ t, b.merkleTree = some t ∧
        ∀ root, b.ReturnsRoot root ↔ root = Fc.checksum t.digest) ∧
      ∀ root, b.ReturnsRoot root → b'.ReturnsRoot root →
        b.transactions.map Fc.merkleDigest = b'.transactions.map Fc.merkleDigest := by
  refine ⟨?_, fun hne => ?_, fun root hr hr' => ?_⟩
  · by_cases hnil : b.transactions = []
    · exact ⟨0, (returnsRoot_nil hnil).mpr rfl⟩
    · obtain ⟨t, ht⟩ := SignedBlock.exists_merkleTree hnil
      exact ⟨_, (returnsRoot_iff hlen ht).mpr rfl⟩
  · obtain ⟨t, ht⟩ := SignedBlock.exists_merkleTree hne
    exact ⟨t, ht, fun root => returnsRoot_iff hlen ht⟩
  · by_cases hnil : b.transactions = [] <;> by_cases hnil' : b'.transactions = []
    · rw [hnil, hnil']
    · obtain ⟨t', ht'⟩ := SignedBlock.exists_merkleTree hnil'
      rw [returnsRoot_nil hnil] at hr
      rw [returnsRoot_iff hlen' ht'] at hr'
      exact absurd (hr'.symm.trans hr) (hashes.checksum_ne_empty _)
    · obtain ⟨t, ht⟩ := SignedBlock.exists_merkleTree hnil
      rw [returnsRoot_iff hlen ht] at hr
      rw [returnsRoot_nil hnil'] at hr'
      exact absurd (hr.symm.trans hr') (hashes.checksum_ne_empty _)
    · obtain ⟨t, ht⟩ := SignedBlock.exists_merkleTree hnil
      obtain ⟨t', ht'⟩ := SignedBlock.exists_merkleTree hnil'
      rw [returnsRoot_iff hlen ht] at hr
      rw [returnsRoot_iff hlen' ht'] at hr'
      exact hashes.digests_eq ht ht' (hr.symm.trans hr')

/-- From 2^32 transactions on the counter of the first loop comes round before it reaches their
    number. -/
theorem fillIds_endless {trxs : List Transaction} (hlen : 2 ^ 32 ≤ trxs.length) (passes i : Nat)
    (ids : List Digest) (hi : i < 2 ^ 32) : fillIds trxs passes i ids = none := by
  induction passes generalizing i ids with
  | zero => rfl
  | succ passes ih =>
    have hlt : i < trxs.length := hi.trans_le hlen
    rw [fillIds, if_pos hlt, option_bind_of_eq (List.getElem?_eq_getElem hlt)]
    cases setAt ids i (Fc.merkleDigest trxs[i]) with
    | none => rfl
    | some ids' => exact ih _ ids' (Nat.mod_lt _ (by decide))

theorem not_returnsRoot {b : SignedBlock} {root : Digest} (h : 2 ^ 32 ≤ b.transactions.length) :
    ¬b.ReturnsRoot root := by
  rintro ⟨passes, hr⟩
  unfold SignedBlock.merkleRootWithin at hr
  rw [if_neg (by omega), fillIds_endless h passes 0 _ (by decide)] at hr
  cases hr

end

/-! ## 5. Hashes for a small block -/

/-- Hashes without collisions. -/
@[reducible] def treeFc : Fc :=
  { sampleFc with
    merkleDigest := fun trx => 2 * trx.expiration
    hashPair := fun a b => 2 * Nat.pair a b + 1
    checksum := fun a => a + 1 }

def plainTransaction (expiration : Nat) : Transaction := ⟨0, 0, expiration, [], []⟩

def blockOf (trxs : List Transaction) : SignedBlock := ⟨sampleHeader ⟨0, 0⟩ 1, trxs⟩

theorem treeFc_hashes : @MerkleHashes treeFc := by
  refine @MerkleHashes.mk treeFc (fun a b c d h => ?_) (fun a b h => ?_) (fun trx a b h => ?_)
    fun a => Nat.succ_ne_zero a
  · have hpair : Nat.pair a b = Nat.pair c d := by
      have h' : 2 * Nat.pair a b + 1 = 2 * Nat.pair c d + 1 := h
      omega
    exact Nat.pair_eq_pair.mp hpair
  · exact Nat.succ.inj h
  · have h' : 2 * trx.expiration = 2 * Nat.pair a b + 1 := h
    omega

/-- Three transactions have the root of their tree, and other three have another one. -/
theorem calculate_merkle_root_spec_three : ∃ root t, @SignedBlock.ReturnsRoot treeFc
      (blockOf [plainTransaction 1, plainTransaction 2, plainTransaction 3]) root ∧
    @SignedBlock.merkleTree treeFc
      (blockOf [plainTransaction 1, plainTransaction 2, plainTransaction 3]) = some t ∧
    root = @Fc.checksum treeFc (@Tree.digest treeFc t) ∧
    ¬@SignedBlock.ReturnsRoot treeFc
      (blockOf [plainTransaction 1, plainTransaction 2, plainTransaction 4]) root := by
  obtain ⟨⟨root, hroot⟩, htree, hsame⟩ := @calculate_merkle_root_spec treeFc treeFc_hashes
    (blockOf [plainTransaction 1, plainTransaction 2, plainTransaction 3])
    (blockOf [plainTransaction 1, plainTransaction 2, plainTransaction 4]) (by decide) (by decide)
  obtain ⟨t, ht, hiff⟩ := htree (List.cons_ne_nil _ _)
  exact ⟨root, t, hroot, ht, (hiff root).mp hroot, fun h => absurd (hsame root hroot h) (by decide)⟩

/-- A block of 2^32 transactions has no root: the loop over them never ends. -/
theorem calculate_merkle_root_endless : @MerkleHashes treeFc ∧
    (blockOf (List.replicate (2 ^ 32) (plainTransaction 1))).transactions ≠ [] ∧
    ¬∃ root, @SignedBlock.ReturnsRoot treeFc
      (blockOf (List.replicate (2 ^ 32) (plainTransaction 1))) root := by
  have hlen : (blockOf (List.replicate (2 ^ 32) (plainTransaction 1))).transactions.length =
      2 ^ 32 := List.length_replicate
  refine ⟨treeFc_hashes, List.ne_nil_of_length_pos (by rw [hlen]; decide), ?_⟩
  rintro ⟨root, hroot⟩
  exact @not_returnsRoot treeFc _ root hlen.ge hroot

end MuseChain
