/-
  File:      MuseChain/Safety/BlockLogs.lean
  Subject:   The block database on disk is the block log.

  * `Refines d m`: each block of the log `m` has its entry and its bytes in the files of `d`, and
    where the log has no block, the entry has size 0.
  * `Written d m`: what stores, removes and looks for the last block lead to, from empty files.
    Every such database refines the log that the same stores and removes make (`Written.refines`).
  * **`block_database_spec`**: all readers give what the log gives, finding the last block cuts off
    nothing of the log, and cutoff_blocks ends with the blocks up to its limit.
-/
import MuseChain.Chain.BlockDatabase
import MuseChain.Chain.Genesis

namespace MuseChain

/-! ## 1. The log -/

namespace BlockLog

variable {m : BlockLog} {id : BlockId} {b : SignedBlock} {n limit : Nat}

theorem get_upTo : (m.upTo limit).get n = if n ≤ limit then m.get n else none := by
  have hiff : ∀ a, (m.upTo limit).get n = some a ↔ n ≤ limit ∧ m.get n = some a := by
    intro a
    rw [← FMap.mem_rows, ← FMap.mem_rows]
    unfold upTo
    rw [List.mem_filter, decide_eq_true_eq]
    exact and_comm
  split
  · rename_i hn
    refine Option.ext fun a => ?_
    rw [hiff a]
    exact and_iff_right hn
  · rename_i hn
    refine Option.eq_none_iff_forall_ne_some.mpr fun a ha => ?_
    exact hn ((hiff a).mp ha).1

/-- A log without blocks above the limit. -/
theorem upTo_eq_self (h : ∀ n, limit < n → m.get n = none) : m.upTo limit = m := by
  refine FMap.ext_get fun n => ?_
  rw [get_upTo]
  split
  · rfl
  · exact (h n (by omega)).symm

theorem get_remove (h : m.get id.num = some (id, b)) :
    (m.remove id).get n = if n = id.num then none else m.get n := by
  unfold remove
  rw [h]
  dsimp only
  rw [if_pos rfl, FMap.get_put]

theorem remove_of_none (h : m.get id.num = none) : m.remove id = m := by
  unfold remove
  rw [h]

theorem upTo_remove (h : m.get id.num = some (id, b)) (hlimit : limit < id.num) :
    (m.remove id).upTo limit = m.upTo limit := by
  refine FMap.ext_get fun n => ?_
  rw [get_upTo, get_upTo, get_remove h]
  split
  · rw [if_neg (by omega)]
  · rfl

variable [Fc]

theorem get_store : (m.store b.toSignedBlockHeader.id b).get n =
    if n = b.toSignedBlockHeader.id.num then some (b.toSignedBlockHeader.id, b) else m.get n := by
  unfold store
  dsimp only
  rw [ite_self, FMap.get_put]

end BlockLog

namespace BlockDatabase

variable [Fc] [FcRaw] {d d' : BlockDatabase} {m : BlockLog} {e : IndexEntry} {id : BlockId}
  {b : SignedBlock} {n pos limit fuel : Nat}

/-! ## 2. Refinement -/

/-- A block that can be packed and unpacked, to a size that an entry can hold, and whose id is not
the one that stands for no block. -/
structure Packs (b : SignedBlock) : Prop where
  inverse : FcRaw.unpack (FcRaw.pack b) = some b
  small : (FcRaw.pack b).length < 2 ^ 32
  named : b.toSignedBlockHeader.id ≠ ⟨0, 0⟩

/-- An entry and the bytes that it points to are those of a block. -/
structure IsEntry (blocks : List UInt8) (e : IndexEntry) (id : BlockId) (b : SignedBlock) :
    Prop where
  blockId : e.blockId = id
  same : b.toSignedBlockHeader.id = id
  named : id ≠ ⟨0, 0⟩
  data : Records.slice blocks e.blockPos e.blockSize = some (FcRaw.pack b)
  inverse : FcRaw.unpack (FcRaw.pack b) = some b

/-- The entry of a number; what the index does not have reads as an empty one. -/
def entry (d : BlockDatabase) (n : Nat) : IndexEntry := d.blockNumToPos.getD n {}

structure Refines (d : BlockDatabase) (m : BlockLog) : Prop where
  kept : ∀ n id b, m.get n = some (id, b) → id.num = n ∧ IsEntry d.blocks (d.entry n) id b
  gone : ∀ n, m.get n = none → (d.entry n).blockSize = 0

/-- The databases that stores, removes and searches of the last block lead to, and the logs. A
remove that throws leaves the files as they are. -/
inductive Written : BlockDatabase → BlockLog → Prop
  | empty : Written {} FMap.empty
  | store {d : BlockDatabase} {m : BlockLog} {b : SignedBlock} : Written d m → Packs b →
      Written (d.store b.toSignedBlockHeader.id b) (m.store b.toSignedBlockHeader.id b)
  | remove {d d' : BlockDatabase} {m : BlockLog} {id : BlockId} : Written d m →
      d.remove id = .ok d' → Written d' (m.remove id)
  | removeThrows {d : BlockDatabase} {m : BlockLog} {id : BlockId} {x : Exn} : Written d m →
      d.remove id = .error x → Written d (m.remove id)
  | lastIndexEntry {d d' : BlockDatabase} {m : BlockLog} {o : Option IndexEntry} : Written d m →
      d.lastIndexEntry = .ok (d', o) → Written d' m

section

variable (hnil : FcRaw.unpack [] = none)

include hnil

theorem IsEntry.size_pos {blocks : List UInt8} (h : IsEntry blocks e id b) : 0 < e.blockSize := by
  refine Nat.pos_of_ne_zero fun hzero => ?_
  have hdata := h.data
  rw [hzero, Records.slice_zero] at hdata
  have hinverse := h.inverse
  rw [← Option.some.inj hdata, hnil] at hinverse
  cases hinverse

theorem Refines.get_none (h : Refines d m) (hn : d.blockNumToPos.length ≤ n) : m.get n = none := by
  cases hget : m.get n with
  | none => rfl
  | some row =>
    have hsize := (h.kept n row.1 row.2 hget).2.size_pos hnil
    unfold entry at hsize
    rw [Records.getD_of_length_le hn] at hsize
    cases hsize

end

/-- An entry of some size is that of a block of the log. -/
theorem Refines.get_some (h : Refines d m) (hsize : 0 < (d.entry n).blockSize) :
    ∃ b, m.get n = some ((d.entry n).blockId, b) := by
  cases hget : m.get n with
  | none => exact absurd (h.gone n hget) hsize.ne'
  | some row => exact ⟨row.2, by rw [(h.kept n row.1 row.2 hget).2.blockId]⟩

theorem IsEntry.readBlock (h : IsEntry d.blocks e id b) : d.readBlock e = .ok (some b) := by
  unfold BlockDatabase.readBlock
  rw [h.data]
  dsimp only
  rw [h.inverse]
  dsimp only
  rw [if_pos (h.same.trans h.blockId.symm)]

theorem readBlock_empty (hnil : FcRaw.unpack [] = none) (h : e.blockSize = 0) :
    d.readBlock e = .ok none := by
  unfold readBlock
  rw [h, Records.slice_zero]
  dsimp only
  rw [hnil]

theorem IsEntry.append {blocks more : List UInt8} (h : IsEntry blocks e id b) :
    IsEntry (blocks ++ more) e id b :=
  ⟨h.blockId, h.same, h.named, Records.slice_append h.data, h.inverse⟩

/-! ## 3. Writing -/

theorem refines_empty : Refines {} FMap.empty := by
  refine ⟨fun n id b h => ?_, fun n _ => ?_⟩
  · rw [FMap.get_empty] at h
    cases h
  · rfl

theorem Refines.store (h : Refines d m) (hb : Packs b) :
    Refines (d.store b.toSignedBlockHeader.id b) (m.store b.toSignedBlockHeader.id b) := by
  have hentry : ∀ n, (d.store b.toSignedBlockHeader.id b).entry n =
      if n = b.toSignedBlockHeader.id.num then
        ⟨d.blocks.length, u32 (FcRaw.pack b).length, b.toSignedBlockHeader.id⟩
      else d.entry n := by
    intro n
    unfold BlockDatabase.store entry
    dsimp only
    rw [ite_self, Records.getD_write]
  refine ⟨fun n id b' hget => ?_, fun n hget => ?_⟩
  · rw [BlockLog.get_store] at hget
    rw [hentry]
    split at hget
    · rename_i hn
      cases hget
      rw [if_pos hn]
      refine ⟨hn.symm, rfl, rfl, hb.named, ?_, hb.inverse⟩
      unfold u32
      dsimp only
      rw [Nat.mod_eq_of_lt hb.small]
      exact Records.slice_end
    · rename_i hn
      rw [if_neg hn]
      obtain ⟨hnum, hkept⟩ := h.kept n id b' hget
      exact ⟨hnum, hkept.append⟩
  · rw [BlockLog.get_store] at hget
    split at hget
    · cases hget
    · rename_i hn
      rw [hentry, if_neg hn]
      exact h.gone n hget

theorem Refines.remove (h : Refines d m) (hremove : d.remove id = .ok d') :
    Refines d' (m.remove id) := by
  unfold BlockDatabase.remove at hremove
  split at hremove
  · cases hremove
  · rename_i e hindex
    have hentry : d.entry id.num = e := Records.getD_of_some hindex
    have hlt : id.num < d.blockNumToPos.length := (List.getElem?_eq_some_iff.mp hindex).1
    split at hremove
    · rename_i hid
      cases hremove
      have hset : ∀ n, BlockDatabase.entry
          { d with blockNumToPos := d.blockNumToPos.set id.num { e with blockSize := 0 } } n =
          if n = id.num then { e with blockSize := 0 } else d.entry n :=
        fun n => Records.getD_set hlt
      have hget : ∀ n, (m.remove id).get n = if n = id.num then none else m.get n := by
        intro n
        cases hm : m.get id.num with
        | none =>
          rw [BlockLog.remove_of_none hm]
          split
          · rename_i hn
            rw [hn, hm]
          · rfl
        | some row =>
          obtain ⟨i, b⟩ := row
          obtain rfl : i = id := (h.kept _ i b hm).2.blockId.symm.trans (hentry ▸ hid)
          exact BlockLog.get_remove hm
      refine ⟨fun n i b hn => ?_, fun n hn => ?_⟩
      · rw [hget] at hn
        rw [hset]
        split at hn
        · cases hn
        · rename_i hne
          rw [if_neg hne]
          exact h.kept n i b hn
      · rw [hget] at hn
        rw [hset]
        split at hn
        · rename_i heq
          rw [if_pos heq]
        · rename_i hne
          rw [if_neg hne]
          exact h.gone n hn
    · rename_i hid
      cases hremove
      have hsame : m.remove id = m := by
        unfold BlockLog.remove
        split
        · rename_i i b hm
          rw [if_neg]
          rintro rfl
          exact hid (hentry ▸ (h.kept _ i b hm).2.blockId)
        · rfl
      rw [hsame]
      exact h

theorem Refines.removeThrows (hnil : FcRaw.unpack [] = none) (h : Refines d m) {x : Exn}
    (hremove : d.remove id = .error x) : m.remove id = m := by
  unfold BlockDatabase.remove at hremove
  split at hremove
  · rename_i hindex
    exact BlockLog.remove_of_none (h.get_none hnil (List.getElem?_eq_none_iff.mp hindex))
  · split at hremove
    · cases hremove
    · cases hremove

/-! ## 4. The last block -/

/-- A cut behind all blocks of the log. -/
theorem Refines.take (h : Refines d m) (hcut : ∀ n, pos ≤ n → m.get n = none) :
    Refines { d with blockNumToPos := d.blockNumToPos.take pos } m := by
  have htake : ∀ n, BlockDatabase.entry { d with blockNumToPos := d.blockNumToPos.take pos } n =
      if n < pos then d.entry n else {} := fun n => Records.getD_take
  refine ⟨fun n id b hget => ?_, fun n hget => ?_⟩
  · rw [htake]
    split
    · exact h.kept n id b hget
    · rename_i hn
      rw [hcut n (by omega)] at hget
      cases hget
  · rw [htake]
    split
    · exact h.gone n hget
    · rfl

/-- **The search of the last entry.** It cuts off only positions behind all blocks of the log. -/
theorem lastIndexEntryFrom_spec (hnil : FcRaw.unpack [] = none) (h : Refines d m)
    (hpos : d.blockNumToPos.length = pos) :
    ∃ k e o, d.lastIndexEntryFrom pos =
        .ok ({ d with blockNumToPos := d.blockNumToPos.take k }, e) ∧
      m.IsLast o ∧ e.map IndexEntry.blockId = o.map Prod.fst ∧ ∀ n, k ≤ n → m.get n = none := by
  induction pos generalizing d with
  | zero =>
    have hnone : ∀ n, m.get n = none := fun n => h.get_none hnil (hpos ▸ Nat.zero_le n)
    refine ⟨0, none, none, ?_, hnone, rfl, fun n _ => hnone n⟩
    rw [List.take_of_length_le hpos.le]
    rfl
  | succ pos ih =>
    have hindex : d.blockNumToPos[pos]? = some (d.entry pos) := by
      unfold entry
      rw [List.getD_eq_getElem?_getD, List.getElem?_eq_getElem (by omega)]
      rfl
    unfold lastIndexEntryFrom
    rw [hindex]
    dsimp only
    cases hget : m.get pos with
    | some row =>
      obtain ⟨id, b⟩ := row
      obtain ⟨hnum, hentry⟩ := h.kept pos id b hget
      have hsize := hentry.size_pos hnil
      rw [if_pos ⟨hsize, Records.slice_le hentry.data hsize⟩, hentry.readBlock]
      have hcut : ∀ n, pos + 1 ≤ n → m.get n = none := fun n hn => h.get_none hnil (hpos ▸ hn)
      refine ⟨pos + 1, some (d.entry pos), some (id, b), ?_, ⟨?_, ?_⟩, ?_, hcut⟩
      · rw [List.take_of_length_le hpos.le]
      · rw [hnum]
        exact hget
      · rw [hnum]
        exact hcut
      · exact congrArg some hentry.blockId
    | none =>
      -- nothing is stored there, so the entry is cut off
      rw [if_neg (by rw [h.gone pos hget]; exact fun hsize => absurd hsize.1 (lt_irrefl 0))]
      have hcut : ∀ n, pos ≤ n → m.get n = none := by
        intro n hn
        rcases eq_or_lt_of_le hn with rfl | hlt
        · exact hget
        · exact h.get_none hnil (by omega)
      obtain ⟨k, e, o, hrun, hlast, hid, hk⟩ := ih (h.take hcut) (by
        rw [List.length_take]
        omega)
      refine ⟨min k pos, e, o, ?_, hlast, hid, fun n hn => ?_⟩
      · rw [hrun, List.take_take]
      · rcases le_total k pos with hle | hle
        · exact hk n (by omega)
        · exact hcut n (by omega)

theorem lastIndexEntry_spec (hnil : FcRaw.unpack [] = none) (h : Refines d m) :
    ∃ k e o, d.lastIndexEntry = .ok ({ d with blockNumToPos := d.blockNumToPos.take k }, e) ∧
      m.IsLast o ∧ e.map IndexEntry.blockId = o.map Prod.fst ∧ ∀ n, k ≤ n → m.get n = none :=
  lastIndexEntryFrom_spec hnil h rfl

/-- **Stores, removes and searches keep the refinement.** -/
theorem Written.refines (hnil : FcRaw.unpack [] = none) (h : Written d m) : Refines d m := by
  induction h with
  | empty => exact refines_empty
  | store _ hb ih => exact ih.store hb
  | remove _ hremove ih => exact ih.remove hremove
  | removeThrows _ hremove ih => exact (ih.removeThrows hnil hremove).symm ▸ ih
  | lastIndexEntry _ hlast ih =>
    obtain ⟨k, e, o, hrun, -, -, hk⟩ := lastIndexEntry_spec hnil ih
    rw [hrun] at hlast
    cases hlast
    exact ih.take hk

/-! ## 5. The readers -/

omit [Fc] [FcRaw] in
theorem getElem?_cases : (d.blockNumToPos[n]? = none ∧ (d.entry n).blockSize = 0) ∨
    d.blockNumToPos[n]? = some (d.entry n) := by
  cases hindex : d.blockNumToPos[n]? with
  | none =>
    refine .inl ⟨rfl, ?_⟩
    unfold entry
    rw [Records.getD_of_length_le (List.getElem?_eq_none_iff.mp hindex)]
  | some e => exact .inr (congrArg some (Records.getD_of_some hindex).symm)

theorem Refines.contains (hnil : FcRaw.unpack [] = none) (h : Refines d m) :
    d.contains id = true ↔ ∃ n b, m.get n = some (id, b) := by
  constructor
  · intro hcontains
    unfold BlockDatabase.contains at hcontains
    split at hcontains
    · cases hcontains
    · obtain ⟨hindex, -⟩ | hindex := getElem?_cases (d := d) (n := id.num)
      · rw [hindex] at hcontains
        cases hcontains
      · rw [hindex] at hcontains
        obtain ⟨hid, hsize⟩ := of_decide_eq_true hcontains
        obtain ⟨b, hget⟩ := h.get_some hsize
        rw [hid] at hget
        exact ⟨id.num, b, hget⟩
  · rintro ⟨n, b, hget⟩
    obtain ⟨rfl, hentry⟩ := h.kept n id b hget
    have hsize := hentry.size_pos hnil
    unfold BlockDatabase.contains
    rw [if_neg hentry.named]
    obtain ⟨-, hzero⟩ | hindex := getElem?_cases (d := d) (n := id.num)
    · exact absurd hzero hsize.ne'
    · rw [hindex]
      exact decide_eq_true ⟨hentry.blockId, hsize⟩

theorem Refines.fetchByNumber (hnil : FcRaw.unpack [] = none) (h : Refines d m) :
    d.fetchByNumber n = .ok ((m.get n).map Prod.snd) := by
  unfold BlockDatabase.fetchByNumber
  cases hget : m.get n with
  | none =>
    obtain ⟨hindex, -⟩ | hindex := getElem?_cases (d := d) (n := n)
    · rw [hindex]
      rfl
    · rw [hindex]
      exact readBlock_empty hnil (h.gone n hget)
  | some row =>
    obtain ⟨hnum, hentry⟩ := h.kept n row.1 row.2 hget
    obtain ⟨-, hzero⟩ | hindex := getElem?_cases (d := d) (n := n)
    · exact absurd hzero (hentry.size_pos hnil).ne'
    · rw [hindex]
      exact hentry.readBlock

theorem Refines.fetchOptional (hnil : FcRaw.unpack [] = none) (h : Refines d m) :
    d.fetchOptional id =
      .ok (((m.get id.num).filter fun row => decide (row.1 = id)).map Prod.snd) := by
  unfold BlockDatabase.fetchOptional
  cases hget : m.get id.num with
  | none =>
    obtain ⟨hindex, -⟩ | hindex := getElem?_cases (d := d) (n := id.num)
    · rw [hindex]
      rfl
    · rw [hindex]
      dsimp only
      rw [readBlock_empty hnil (h.gone _ hget), ite_self]
      rfl
  | some row =>
    obtain ⟨i, b⟩ := row
    obtain ⟨hnum, hentry⟩ := h.kept _ i b hget
    obtain ⟨-, hzero⟩ | hindex := getElem?_cases (d := d) (n := id.num)
    · exact absurd hzero (hentry.size_pos hnil).ne'
    · rw [hindex, Option.filter_some]
      dsimp only
      rw [hentry.blockId, hentry.readBlock]
      by_cases hid : i = id
      · rw [if_pos hid, if_pos (decide_eq_true hid)]
        rfl
      · rw [if_neg hid, if_neg fun hdecide => hid (of_decide_eq_true hdecide)]
        rfl

/-- The files answer as the log of a node does. -/
theorem Refines.log (hnil : FcRaw.unpack [] = none) (h : Refines d m) :
    d.fetchByNumber n = .ok (m.fetchByNumber n) ∧ d.fetchOptional id = .ok (m.fetchOptional id) := by
  rw [h.fetchByNumber hnil, h.fetchOptional hnil]
  constructor
  · unfold BlockLog.fetchByNumber
    cases hget : m.get n with
    | none => rfl
    | some row =>
      obtain ⟨i, b⟩ := row
      dsimp only [Option.map_some]
      rw [if_pos (h.kept n i b hget).2.same]
  · unfold BlockLog.fetchOptional
    cases hget : m.get id.num with
    | none => rfl
    | some row =>
      obtain ⟨i, b⟩ := row
      have hsame := (h.kept _ i b hget).2.same
      rw [Option.filter_some]
      dsimp only
      by_cases hid : i = id
      · rw [if_pos (decide_eq_true hid), if_pos ⟨hid, hsame⟩]
        rfl
      · rw [if_neg fun hdecide => hid (of_decide_eq_true hdecide), if_neg fun hboth => hid hboth.1]
        rfl

/-- `last` and `last_id` give the entry of the greatest number, and cut off nothing of the log. -/
theorem Refines.last (hnil : FcRaw.unpack [] = none) (h : Refines d m) :
    ∃ k o, m.IsLast o ∧ (∀ n, k ≤ n → m.get n = none) ∧
      d.last = .ok ({ d with blockNumToPos := d.blockNumToPos.take k }, o.map Prod.snd) ∧
      d.lastId = .ok ({ d with blockNumToPos := d.blockNumToPos.take k }, o.map Prod.fst) := by
  obtain ⟨k, e, o, hrun, hlast, hid, hk⟩ := lastIndexEntry_spec hnil h
  refine ⟨k, o, hlast, hk, ?_, ?_⟩
  · unfold BlockDatabase.last
    rw [hrun]
    cases e with
    | none =>
      obtain rfl : o = none := Option.map_eq_none_iff.mp hid.symm
      rfl
    | some e =>
      obtain ⟨row, rfl, hrow⟩ := Option.map_eq_some_iff.mp hid.symm
      dsimp only
      rw [(h.take hk).fetchByNumber hnil, ← hrow, hlast.1]
  · unfold BlockDatabase.lastId
    rw [hrun, ← hid]

/-- A block that is in the log can be removed. -/
theorem Refines.remove_ok (hnil : FcRaw.unpack [] = none) (h : Refines d m)
    (hget : m.get id.num = some (id, b)) : ∃ d', d.remove id = .ok d' := by
  obtain ⟨-, hentry⟩ := h.kept _ id b hget
  unfold BlockDatabase.remove
  obtain ⟨-, hzero⟩ | hindex := getElem?_cases (d := d) (n := id.num)
  · exact absurd hzero (hentry.size_pos hnil).ne'
  · rw [hindex]
    dsimp only
    rw [if_pos hentry.blockId]
    exact ⟨_, rfl⟩

/-! ## 6. Cutting off -/

/-- What `last_id` leaves is written, too. -/
theorem Written.lastId {o : Option BlockId} (h : Written d m) (hlast : d.lastId = .ok (d', o)) :
    Written d' m := by
  unfold BlockDatabase.lastId at hlast
  split at hlast
  · cases hlast
  · rename_i hentry
    cases hlast
    exact h.lastIndexEntry hentry

/-- **The loop of cutoff_blocks.** Each round ends with all blocks at a lower number than before. -/
theorem cutoffLoop_spec (hnil : FcRaw.unpack [] = none) (h : Written d m) (hfuel : 0 < fuel)
    (hnum : ∀ n, fuel ≤ n + 1 → m.get n = none) :
    ∃ d', cutoffLoop limit fuel d = .ok d' ∧ Written d' (m.upTo limit) := by
  induction fuel generalizing d m with
  | zero => exact absurd hfuel (lt_irrefl 0)
  | succ fuel ih =>
    obtain ⟨k, o, hlast, hk, -, hid⟩ := (h.refines hnil).last hnil
    have hcut := h.lastId hid
    unfold cutoffLoop
    rw [hid]
    cases o with
    | none =>
      rw [BlockLog.upTo_eq_self fun n _ => hlast n]
      exact ⟨_, rfl, hcut⟩
    | some row =>
      obtain ⟨id, b⟩ := row
      obtain ⟨hget, habove⟩ := hlast
      dsimp only [Option.map_some]
      split
      · rename_i hlt
        obtain ⟨d', hremove⟩ := (hcut.refines hnil).remove_ok hnil hget
        rw [hremove]
        dsimp only
        have hlow : id.num + 1 < fuel + 1 := by
          by_contra hge
          rw [hnum id.num (by omega)] at hget
          cases hget
        obtain ⟨d'', hrun, hwritten⟩ := ih (hcut.remove hremove) (by omega) fun n hn => by
          rw [BlockLog.get_remove hget]
          split
          · rfl
          · exact habove n (by omega)
        rw [BlockLog.upTo_remove hget hlt] at hwritten
        exact ⟨d'', hrun, hwritten⟩
      · rename_i hle
        rw [BlockLog.upTo_eq_self fun n hn => habove n (by omega)]
        exact ⟨_, rfl, hcut⟩

theorem cutoffBlocks_spec (hnil : FcRaw.unpack [] = none) (h : Written d m) :
    ∃ d', d.cutoffBlocks limit = .ok d' ∧ Written d' (m.upTo limit) :=
  cutoffLoop_spec hnil h (Nat.succ_pos _) fun _ hn =>
    (h.refines hnil).get_none hnil (Nat.le_of_succ_le_succ hn)

/-- **The block database refines a map.** After any stores, removes and searches, the readers give
what the blocks of the log give; looking for the last block cuts off only what is behind all blocks
of the log; and cutoff_blocks ends with exactly the blocks up to its limit. -/
theorem block_database_spec (hnil : FcRaw.unpack [] = none) (h : Written d m) :
    (∀ id, d.contains id = true ↔ ∃ n b, m.get n = some (id, b)) ∧
    (∀ id, d.fetchOptional id =
      .ok (((m.get id.num).filter fun row => decide (row.1 = id)).map Prod.snd)) ∧
    (∀ n, d.fetchByNumber n = .ok ((m.get n).map Prod.snd)) ∧
    (∃ k o, m.IsLast o ∧ (∀ n, k ≤ n → m.get n = none) ∧
      d.last = .ok ({ d with blockNumToPos := d.blockNumToPos.take k }, o.map Prod.snd) ∧
      d.lastId = .ok ({ d with blockNumToPos := d.blockNumToPos.take k }, o.map Prod.fst)) ∧
    ∀ limit, ∃ d' m', d.cutoffBlocks limit = .ok d' ∧ Written d' m' ∧
      ∀ n, m'.get n = if n ≤ limit then m.get n else none := by
  have hrefines := h.refines hnil
  refine ⟨fun id => hrefines.contains hnil, fun id => hrefines.fetchOptional hnil,
    fun n => hrefines.fetchByNumber hnil, hrefines.last hnil, fun limit => ?_⟩
  obtain ⟨d', hrun, hwritten⟩ : ∃ d', d.cutoffBlocks limit = .ok d' ∧ Written d' (m.upTo limit) :=
    cutoffBlocks_spec hnil h
  exact ⟨d', _, hrun, hwritten, fun n => BlockLog.get_upTo⟩

end BlockDatabase

/-! ## 7. Two blocks -/

def littleEndian : Nat → Nat → List UInt8
  | 0, _ => []
  | k + 1, x => UInt8.ofNat x :: littleEndian k (x / 256)

def ofLittleEndian : List UInt8 → Nat
  | [] => 0
  | b :: l => b.toNat + 256 * ofLittleEndian l

/-- The bytes of a block without transactions: what changes from one to the next. -/
@[reducible] def sampleRaw : FcRaw where
  pack b := littleEndian 4 b.previous.num ++ littleEndian 20 b.previous.hash ++
    littleEndian 4 b.timestamp
  unpack l :=
    if l.length = 28 then
      some ⟨{ sampleHeader ⟨ofLittleEndian (l.take 4), ofLittleEndian ((l.drop 4).take 20)⟩ 0 with
        timestamp := ofLittleEndian (l.drop 24) }, []⟩
    else none

section

attribute [local instance] sampleFc sampleRaw

def lowerBlock : SignedBlock := ⟨sampleHeader ⟨0, 0⟩ 1, []⟩

def upperBlock : SignedBlock := ⟨sampleHeader lowerBlock.toSignedBlockHeader.id 2, []⟩

def twoBlocks : BlockDatabase :=
  (BlockDatabase.store {} lowerBlock.toSignedBlockHeader.id lowerBlock).store
    upperBlock.toSignedBlockHeader.id upperBlock

def twoBlockLog : BlockLog :=
  (BlockLog.store FMap.empty lowerBlock.toSignedBlockHeader.id lowerBlock).store
    upperBlock.toSignedBlockHeader.id upperBlock

/-- The two blocks are found, and the second one is cut off. -/
theorem block_database_spec_two_blocks :
    twoBlocks.contains lowerBlock.toSignedBlockHeader.id = true ∧
    twoBlocks.fetchByNumber 2 = .ok (some upperBlock) ∧
    ∃ d' m', twoBlocks.cutoffBlocks 1 = .ok d' ∧ BlockDatabase.Written d' m' ∧
      m'.get 1 = some (lowerBlock.toSignedBlockHeader.id, lowerBlock) ∧ m'.get 2 = none := by
  have hlower : BlockDatabase.Packs lowerBlock := ⟨rfl, by decide, by decide⟩
  have hupper : BlockDatabase.Packs upperBlock := ⟨rfl, by decide, by decide⟩
  have hwritten : BlockDatabase.Written twoBlocks twoBlockLog :=
    .store (.store .empty hlower) hupper
  obtain ⟨hcontains, -, hnumber, -, hcut⟩ := BlockDatabase.block_database_spec rfl hwritten
  obtain ⟨d', m', hrun, hwritten', hget⟩ := hcut 1
  exact ⟨(hcontains _).mpr ⟨1, lowerBlock, rfl⟩, hnumber 2, d', m', hrun, hwritten', hget 1, hget 2⟩

end

end MuseChain
