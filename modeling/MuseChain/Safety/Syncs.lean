/-
  File:      MuseChain/Safety/Syncs.lean
  Subject:   The exchange of block ids ends, and the node knows what it lacks.

  * `OnChain m chain`: the node's log has the ids of the chain, and the node knows no block above
    its head. `Node.Stored.onChain`: a node has this that started from the genesis and applied the
    blocks one by one.
  * `OnChain.getBlockIds`: the answer to a synopsis is the chain from the last id in it that is in
    the chain. `OnChain.summarize`: a synopsis is the chain at the rungs between its ends.
  * `Meeting`: two nodes whose chains part after `d` blocks; of the peer's branch the node has the
    blocks up to `c`. `Upto`: what the node has noted of the peer's chain.
  * `receive`: an answer leads from one such state to the next, or the exchange is over.
  * **`block_ids_exchanged`**: the exchange ends, with all ids or with as many as are fetched first.
-/
import MuseChain.Lib.Halving
import MuseChain.Net.Sync
import MuseChain.Safety.References

namespace MuseChain

/-! ## 1. Nodes that hold a chain -/

/-- Block `num` of a chain; below the first there is nothing. -/
def blockAt (chain : List BlockId) (num : Nat) : BlockId :=
  if num = 0 then ⟨0, 0⟩ else chain.getD (num - 1) ⟨0, 0⟩

/-- The blocks behind the first `s`, up to block `z`. -/
def stretch (chain : List BlockId) (s z : Nat) : List BlockId := (chain.take z).drop s

/-- The node holds the chain: in its log are the ids of the chain and no others, and in its fork
database are no blocks above the head. -/
structure OnChain (m : Node) (chain : List BlockId) : Prop where
  number : m.headBlockNum = chain.length
  head : m.headBlockId = blockAt chain chain.length
  small : chain.length + 2 < 2 ^ 32
  nums : ∀ i id, chain[i]? = some id → id.num = i + 1
  log : ∀ i id, chain[i]? = some id → ∃ b, m.log.get (i + 1) = some (id, b)
  above : ∀ num, chain.length < num → m.log.get num = none
  zero : m.log.get 0 = none
  forks : ∀ item ∈ m.forkDb.index, 0 < item.id.num ∧ item.id.num ≤ chain.length

section

variable {m : Node} {chain : List BlockId} {id : BlockId} {i num : Nat}

theorem blockAt_succ (h : chain[i]? = some id) : blockAt chain (i + 1) = id := by
  unfold blockAt
  rw [if_neg (Nat.succ_ne_zero i), Nat.add_sub_cancel, List.getD_eq_getElem?_getD, h]
  rfl

theorem getElem?_blockAt (h0 : 0 < num) (h : num ≤ chain.length) :
    chain[num - 1]? = some (blockAt chain num) := by
  have hlt : num - 1 < chain.length := by omega
  unfold blockAt
  rw [if_neg (by omega), List.getD_eq_getElem?_getD, List.getElem?_eq_getElem hlt]
  rfl

theorem blockAt_mem (h0 : 0 < num) (h : num ≤ chain.length) : blockAt chain num ∈ chain :=
  List.mem_of_getElem? (getElem?_blockAt h0 h)

theorem length_stretch {s z : Nat} (hz : z ≤ chain.length) :
    (stretch chain s z).length = z - s := by
  unfold stretch
  rw [List.length_drop, List.length_take, Nat.min_eq_left hz]

theorem getElem?_stretch {s z : Nat} (hi : s + i < z) (hz : z ≤ chain.length) :
    (stretch chain s z)[i]? = some (blockAt chain (s + i + 1)) := by
  unfold stretch
  rw [List.getElem?_drop, List.getElem?_take, if_pos hi,
    ← getElem?_blockAt (Nat.succ_pos (s + i)) (by omega), Nat.succ_sub_one]

theorem mem_stretch {s z : Nat} (hz : z ≤ chain.length) (h : id ∈ stretch chain s z) :
    ∃ num, s < num ∧ num ≤ z ∧ id = blockAt chain num := by
  obtain ⟨i, hi⟩ := List.getElem?_of_mem h
  have hlt := (List.getElem?_eq_some_iff.mp hi).1
  rw [length_stretch hz] at hlt
  rw [getElem?_stretch (by omega) hz] at hi
  exact ⟨s + i + 1, by omega, by omega, (Option.some.inj hi).symm⟩

theorem stretch_append {s y z : Nat} (hs : s ≤ y) (hy : y ≤ z) :
    stretch chain s y ++ stretch chain y z = stretch chain s z := by
  unfold stretch
  rw [← List.take_append_drop (y - s) ((chain.take z).drop s), ← List.drop_take, List.take_take,
    Nat.min_eq_left hy, List.drop_drop, Nat.add_sub_cancel' hs]

theorem stretch_succ {s z : Nat} (hs : s ≤ z) (hz : z < chain.length) :
    stretch chain s (z + 1) = stretch chain s z ++ [blockAt chain (z + 1)] := by
  have hlast : stretch chain z (z + 1) = [blockAt chain (z + 1)] := by
    refine List.ext_getElem? fun k => ?_
    cases k with
    | zero => exact getElem?_stretch (by omega) hz
    | succ k =>
      refine (List.getElem?_eq_none ?_).trans (List.getElem?_eq_none ?_).symm
      · rw [length_stretch hz]
        omega
      · simp
  rw [← stretch_append hs (Nat.le_succ z), hlast]

theorem stretch_eq_nil {s z : Nat} (h : z ≤ s) : stretch chain s z = [] := by
  refine List.drop_eq_nil_of_le ?_
  rw [List.length_take]
  omega

theorem getLast?_stretch {s z : Nat} (hs : s < z) (hz : z ≤ chain.length) :
    (stretch chain s z).getLast? = some (blockAt chain z) := by
  rw [List.getLast?_eq_getElem?, length_stretch hz, getElem?_stretch (by omega) hz]
  congr 2
  omega

theorem OnChain.num_blockAt (h : OnChain m chain) (h0 : 0 < num) (hn : num ≤ chain.length) :
    (blockAt chain num).num = num := by
  have := h.nums _ _ (getElem?_blockAt h0 hn)
  omega

theorem OnChain.ne_zero (h : OnChain m chain) (hid : id ∈ chain) : id ≠ ⟨0, 0⟩ := by
  obtain ⟨i, hi⟩ := List.getElem?_of_mem hid
  rintro rfl
  exact absurd (h.nums i _ hi) (by simp)

theorem OnChain.mem_iff (h : OnChain m chain) (h0 : 0 < id.num) (hn : id.num ≤ chain.length) :
    id ∈ chain ↔ id = blockAt chain id.num := by
  have hget := getElem?_blockAt h0 hn
  constructor
  · intro hid
    obtain ⟨i, hi⟩ := List.getElem?_of_mem hid
    have hnum := h.nums i id hi
    rw [hnum, blockAt_succ hi]
  · intro he
    rw [he]
    exact List.mem_of_getElem? hget

theorem OnChain.getBlockIdForNum (h : OnChain m chain) (h0 : 0 < num) (hn : num ≤ chain.length) :
    m.getBlockIdForNum num = .ok (blockAt chain num) := by
  have hget := getElem?_blockAt h0 hn
  obtain ⟨b, hb⟩ := h.log _ _ hget
  have hne := h.ne_zero (List.mem_of_getElem? hget)
  rw [Nat.sub_add_cancel h0] at hb
  unfold Node.getBlockIdForNum BlockLog.fetchBlockId
  rw [hb]
  simp only [check, if_pos hne]
  rfl

/-- Every block of the chain is known. -/
theorem OnChain.known (h : OnChain m chain) (hid : id ∈ chain) : m.isKnownBlock id = true := by
  obtain ⟨i, hi⟩ := List.getElem?_of_mem hid
  obtain ⟨b, hb⟩ := h.log i id hi
  unfold Node.isKnownBlock BlockLog.contains
  rw [if_neg (h.ne_zero hid), h.nums i id hi, hb]
  simp

/-- No block above the head is known. -/
theorem OnChain.bounds (h : OnChain m chain) (hknown : m.isKnownBlock id = true) :
    0 < id.num ∧ id.num ≤ chain.length := by
  rcases Bool.or_eq_true_iff.mp hknown with hfork | hlog
  · obtain ⟨item, hitem⟩ := Option.isSome_iff_exists.mp hfork
    have hmem := List.mem_of_find?_eq_some hitem
    have hid : item.id = id := by simpa using List.find?_some hitem
    exact hid ▸ h.forks item hmem
  · unfold BlockLog.contains at hlog
    split at hlog
    · cases hlog
    · cases hget : m.log.get id.num with
      | none =>
        rw [hget] at hlog
        cases hlog
      | some r =>
        refine ⟨Nat.pos_of_ne_zero fun hzero => ?_, Nat.le_of_not_lt fun hlt => ?_⟩
        · rw [hzero, h.zero] at hget
          cases hget
        · rw [h.above _ hlt] at hget
          cases hget

theorem OnChain.isIncludedBlock (h : OnChain m chain) (hknown : m.isKnownBlock id = true) :
    m.isIncludedBlock id = .ok (decide (id ∈ chain)) := by
  obtain ⟨h0, hn⟩ := h.bounds hknown
  unfold Node.isIncludedBlock
  rw [h.getBlockIdForNum h0 hn]
  show Except.ok (decide (id = blockAt chain id.num)) = _
  rw [decide_eq_decide.mpr (h.mem_iff h0 hn)]

/-! ## 2. The answer -/

/-- The synopsis is searched for a block of the chain. -/
theorem OnChain.lastKnownBlockId (h : OnChain m chain) {l : List BlockId}
    (hl : ∀ id ∈ l, id ≠ ⟨0, 0⟩) :
    m.lastKnownBlockId l = .ok (l.find? fun id => decide (id ∈ chain)) := by
  induction l with
  | nil => rfl
  | cons id l ih =>
    have ih := ih fun x hx => hl x (List.mem_cons_of_mem _ hx)
    unfold Node.lastKnownBlockId
    rw [if_neg (hl id List.mem_cons_self)]
    by_cases hknown : m.isKnownBlock id = true
    · rw [if_pos hknown, h.isIncludedBlock hknown]
      show (if decide (id ∈ chain) = true then pure (some id) else m.lastKnownBlockId l) = _
      by_cases hid : id ∈ chain
      · rw [if_pos (decide_eq_true hid), List.find?_cons_of_pos (by simpa using hid)]
        rfl
      · rw [if_neg (by simpa using hid), List.find?_cons_of_neg (by simpa using hid), ih]
    · have hid : id ∉ chain := fun hid => hknown (h.known hid)
      rw [if_neg hknown, List.find?_cons_of_neg (by simpa using hid), ih]

theorem OnChain.collectIds (h : OnChain m chain) {left : Nat} (h0 : 0 < num) :
    m.collectIds left num = .ok ((chain.drop (num - 1)).take left) := by
  induction left generalizing num with
  | zero => rfl
  | succ left ih =>
    have hsmall := h.small
    have hmax : max num 1 = num := by omega
    unfold Node.collectIds
    simp only [hmax, h.number]
    by_cases hn : num ≤ chain.length
    · have hnext : u32 (num + 1) = num + 1 := u32_of_lt (by omega)
      have hdrop : chain.drop (num - 1) = blockAt chain num :: chain.drop num := by
        have hget := getElem?_blockAt h0 hn
        obtain ⟨hlt, he⟩ := List.getElem?_eq_some_iff.mp hget
        rw [List.drop_eq_getElem_cons hlt, he, Nat.sub_add_cancel h0]
      rw [if_pos hn, h.getBlockIdForNum h0 hn, hnext, hdrop, List.take_succ_cons]
      have hrest := ih (show 0 < num + 1 from Nat.succ_pos num)
      rw [Nat.add_sub_cancel] at hrest
      rw [hrest]
      rfl
    · rw [if_neg hn, List.drop_eq_nil_of_le (by omega), List.take_nil]

/-- How far an answer gets that starts behind `start` blocks. -/
def answered (chain : List BlockId) (start limit : Nat) : Nat := min chain.length (start + limit)

theorem answered_le {start limit : Nat} : answered chain start limit ≤ chain.length :=
  Nat.min_le_left _ _

theorem lt_answered {start limit : Nat} (hstart : start < chain.length) (hlimit : 0 < limit) :
    start < answered chain start limit := by
  unfold answered
  omega

theorem take_drop_stretch {start limit : Nat} :
    (chain.drop start).take limit = stretch chain start (answered chain start limit) := by
  unfold stretch answered
  rw [Nat.min_comm, ← List.take_eq_take_min, List.drop_take, Nat.add_sub_cancel_left]

/-- What is returned with the ids behind `start`. -/
theorem OnChain.answer (h : OnChain m chain) {start limit : Nat} (hstart : start < chain.length)
    (hlimit : 0 < limit) : (do
      let result ← SyncError.lift (m.collectIds limit (start + 1))
      pure (result, m.remainingItemCount result)) =
    (.ok (stretch chain start (answered chain start limit),
      chain.length - answered chain start limit) : Except SyncError (List BlockId × Nat)) := by
  have hlt := lt_answered hstart hlimit
  have hle : answered chain start limit ≤ chain.length := answered_le
  rw [h.collectIds (Nat.succ_pos start), Nat.succ_sub_one, take_drop_stretch]
  have hcount : m.remainingItemCount (stretch chain start (answered chain start limit)) =
      chain.length - answered chain start limit := by
    unfold Node.remainingItemCount
    rw [getLast?_stretch hlt hle, h.number]
    exact congrArg (chain.length - ·) (h.num_blockAt (by omega) hle)
  exact congrArg (fun x => Except.ok (_, x)) hcount

/-- **The answer to a synopsis whose last block on the chain is the one behind `start` others.** -/
theorem OnChain.getBlockIds (h : OnChain m chain) {l r : List BlockId} {start limit : Nat}
    (hlimit : 0 < limit) (hl : ∀ x ∈ l ++ id :: r, x ≠ ⟨0, 0⟩) (hid : chain[start]? = some id)
    (hr : ∀ x ∈ r, x ∉ chain) :
    m.getBlockIds (l ++ id :: r) limit = .ok (stretch chain start (answered chain start limit),
      chain.length - answered chain start limit) := by
  have hmem := List.mem_of_getElem? hid
  have hlt := (List.getElem?_eq_some_iff.mp hid).1
  have hne : ¬(l ++ id :: r = [] ∨ l ++ id :: r = [⟨0, 0⟩]) := by
    rintro (hnil | hzero)
    · simp at hnil
    · exact hl ⟨0, 0⟩ (by rw [hzero]; exact List.mem_singleton_self _) rfl
  have hfind : (l ++ id :: r).reverse.find? (fun id => decide (id ∈ chain)) = some id := by
    rw [List.reverse_append, List.reverse_cons, List.append_assoc, List.find?_append]
    have hnone : r.reverse.find? (fun id => decide (id ∈ chain)) = none := by
      refine List.find?_eq_none.mpr fun x hx => ?_
      simpa using hr x (List.mem_reverse.mp hx)
    rw [hnone, List.singleton_append, List.find?_cons_of_pos (by simpa using hmem)]
    rfl
  have hfound := h.lastKnownBlockId (l := (l ++ id :: r).reverse) fun x hx =>
    hl x (List.mem_reverse.mp hx)
  unfold Node.getBlockIds
  rw [if_neg (by rw [h.number]; omega), if_neg hne, hfound, hfind]
  show (do
    let result ← SyncError.lift (m.collectIds limit id.num)
    pure (result, m.remainingItemCount result)) = _
  rw [h.nums start id hid, h.answer hlt hlimit]

/-- The answer to a node without blocks. -/
theorem OnChain.getBlockIds_nil (h : OnChain m chain) {limit : Nat} (hlimit : 0 < limit) :
    m.getBlockIds [] limit = .ok (stretch chain 0 (answered chain 0 limit),
      chain.length - answered chain 0 limit) := by
  by_cases hzero : chain.length = 0
  · have hnil := List.length_eq_zero_iff.mp hzero
    unfold Node.getBlockIds
    rw [if_pos (by rw [h.number, hzero]), hnil]
    simp [stretch]
  · obtain ⟨left, rfl⟩ := Nat.exists_eq_succ_of_ne_zero hlimit.ne'
    unfold Node.getBlockIds
    rw [if_neg (by rw [h.number]; exact hzero), if_pos (.inl rfl)]
    -- block 0 is passed over
    show (do
      let result ← SyncError.lift (m.collectIds (left + 1) 1)
      pure (result, m.remainingItemCount result)) = _
    exact h.answer (Nat.pos_of_ne_zero hzero) hlimit

end

/-! ## 3. The synopsis -/

section

variable {push : Nat → List BlockId → Except Exn (List BlockId)} {f : Nat → List BlockId}
  {trueHigh last low fuel : Nat}

theorem u32_next (hlow : low ≤ trueHigh) (hsmall : trueHigh + 2 < 2 ^ 32) :
    u32 (low + u32 (sub32 trueHigh low + 2) / 2) = Halving.next trueHigh low := by
  have hsub : sub32 trueHigh low = trueHigh - low := by
    unfold sub32 u32
    omega
  have hhalf : u32 (trueHigh - low + 2) = trueHigh - low + 2 := u32_of_lt (by omega)
  rw [hsub, hhalf, u32_of_lt (by omega)]
  rfl

/-- The loop goes over the rungs. -/
theorem halvingLoop_ok {synopsis : List BlockId} (hlow : low ≤ last) (hlast : last ≤ trueHigh)
    (hsmall : trueHigh + 2 < 2 ^ 32) (hfuel : last < low + fuel)
    (hpush : ∀ x acc, low ≤ x → x ≤ last → push x acc = .ok (acc ++ f x)) :
    halvingLoop push trueHigh last fuel low synopsis = .ok (synopsis ++
      ((Halving.rungs trueHigh low).filter fun x => decide (x ≤ last)).flatMap f) := by
  induction fuel generalizing low synopsis with
  | zero => omega
  | succ fuel ih =>
    have hstep := Halving.lt_next trueHigh low
    rw [Halving.rungs_of_le (hlow.trans hlast), List.filter_cons_of_pos (by simpa using hlow),
      List.flatMap_cons, ← List.append_assoc]
    unfold halvingLoop
    rw [hpush low synopsis le_rfl hlow]
    show (if u32 (low + u32 (sub32 trueHigh low + 2) / 2) ≤ last then
      halvingLoop push trueHigh last fuel (u32 (low + u32 (sub32 trueHigh low + 2) / 2))
        (synopsis ++ f low) else pure (synopsis ++ f low)) = _
    rw [u32_next (hlow.trans hlast) hsmall]
    by_cases hnext : Halving.next trueHigh low ≤ last
    · rw [if_pos hnext]
      exact ih hnext (by omega) fun x acc hx => hpush x acc (by omega)
    · have hnone : ((Halving.rungs trueHigh (Halving.next trueHigh low)).filter
          fun x => decide (x ≤ last)) = [] := by
        refine List.filter_eq_nil_iff.mpr fun x hx => ?_
        have := (Halving.mem_rungs hx).1
        simp only [decide_eq_true_eq]
        omega
      rw [if_neg hnext, hnone, List.flatMap_nil, List.append_nil]
      rfl

theorem flatMap_ite_singleton {α β : Type} {g : α → β} {p : α → Prop} [DecidablePred p]
    (l : List α) : (l.flatMap fun x => if p x then [g x] else []) =
      (l.filter fun x => decide (p x)).map g := by
  induction l with
  | nil => rfl
  | cons a l ih =>
    rw [List.flatMap_cons, ih]
    by_cases ha : p a
    · rw [if_pos ha, List.filter_cons_of_pos (by simpa using ha)]
      rfl
    · rw [if_neg ha, List.filter_cons_of_neg (by simpa using ha)]
      rfl

end

section

variable {m : Node} {chain : List BlockId}

/-- **A synopsis has the blocks at the rungs**: up to `d` those of our chain, then those of a
branch. -/
theorem OnChain.summarize (h : OnChain m chain) (branch : List BlockId) (low d high after : Nat)
    (hcommon : ∀ num ≤ d, blockAt chain num = blockAt branch num) (hd : d ≤ chain.length)
    (hlow : max low 1 ≤ high) (hhigh : high ≤ branch.length) (hsmall : high + after + 2 < 2 ^ 32) :
    m.summarize low d high after (stretch branch d high) =
      .ok (((Halving.rungs (high + after) (max low 1)).filter
        fun x => decide (x ≤ high)).map (blockAt branch)) := by
  have hstart : (if low = 0 then 1 else low) = max low 1 := by
    split <;> omega
  unfold Node.summarize
  rw [u32_of_lt (by omega), hstart, List.map_eq_flatMap]
  refine (halvingLoop_ok hlow (by omega) hsmall (by omega) fun x acc hx hle => ?_).trans
    (by rw [List.nil_append])
  by_cases hxd : x ≤ d
  · rw [if_pos hxd, h.getBlockIdForNum (by omega) (by omega), hcommon x hxd]
    rfl
  · have hget : (stretch branch d high)[x - d - 1]? = some (blockAt branch x) := by
      rw [getElem?_stretch (by omega) hhigh]
      congr 2
      omega
    simp only [if_neg hxd, hget]
    rfl

/-- The synopsis of a whole chain. -/
theorem OnChain.synopsis (h : OnChain m chain)
    (hund : max m.lastNonUndoableBlockNum 1 ≤ chain.length) :
    m.getBlockchainSynopsis ⟨0, 0⟩ 0 = .ok
      ((Halving.rungs chain.length (max m.lastNonUndoableBlockNum 1)).map (blockAt chain)) := by
  have hsmall := h.small
  have hsum := h.summarize chain m.lastNonUndoableBlockNum chain.length chain.length 0
    (fun _ _ => rfl) le_rfl hund le_rfl (by omega)
  have hall : ((Halving.rungs chain.length (max m.lastNonUndoableBlockNum 1)).filter
      fun x => decide (x ≤ chain.length)) =
      Halving.rungs chain.length (max m.lastNonUndoableBlockNum 1) :=
    List.filter_eq_self.mpr fun x hx => decide_eq_true (Halving.mem_rungs hx).2
  rw [Nat.add_zero, hall, stretch_eq_nil le_rfl] at hsum
  unfold Node.getBlockchainSynopsis
  rw [if_neg (by simp), if_neg (by rw [h.number]; omega), h.number, hsum]
  rfl

/-- **A synopsis is short and reaches back.** It has blocks of the chain with rising numbers, from
the last block that can not be undone to the head, about as many as the way has binary digits. And
for a peer that shares the first `c` blocks, the last shared block in it is not further behind
block `c` than block `c` is behind the head. -/
theorem synopsis_reaches_back (h : OnChain m chain)
    (hund : max m.lastNonUndoableBlockNum 1 ≤ chain.length) :
    ∃ nums : List Nat,
      m.getBlockchainSynopsis ⟨0, 0⟩ 0 = .ok (nums.map (blockAt chain)) ∧
      nums.Pairwise (· < ·) ∧
      nums.head? = some (max m.lastNonUndoableBlockNum 1) ∧
      nums.getLast? = some chain.length ∧
      2 ^ nums.length ≤ 2 * (chain.length - max m.lastNonUndoableBlockNum 1 + 1) ∧
      ∀ c, max m.lastNonUndoableBlockNum 1 ≤ c → c ≤ chain.length →
        ∃ x ∈ nums, x ≤ c ∧ (∀ y ∈ nums, y ≤ c → y ≤ x) ∧ c - x ≤ chain.length - c := by
  refine ⟨_, h.synopsis hund, Halving.pairwise_rungs _ _, ?_, Halving.getLast?_rungs hund,
    Halving.two_pow_rungs hund, fun c hlow hhigh => ?_⟩
  · rw [Halving.rungs_of_le hund]
    rfl
  · obtain ⟨l, r, x, he, hx, hr, hnear⟩ := Halving.exists_rung_le hlow hhigh
    have hrise := Halving.pairwise_rungs chain.length (max m.lastNonUndoableBlockNum 1)
    rw [he] at hrise ⊢
    refine ⟨x, by simp, hx, fun y hy hyc => ?_, hnear⟩
    rcases List.mem_append.mp hy with hl | hy
    · exact ((List.pairwise_append.mp hrise).2.2 y hl x List.mem_cons_self).le
    · rcases List.mem_cons.mp hy with rfl | hy
      · exact le_rfl
      · exact absurd hyc (Nat.not_le.mpr (hr y hy))

/-- The ids that a node has noted come behind those of the synopsis. -/
theorem listLoop_ok (c : Nat) {y low : Nat} (synopsis : List BlockId) (hy : y ≤ chain.length)
    (hlow : low ≤ y) (hsmall : chain.length + 2 < 2 ^ 32) :
    halvingLoop (pushNoted (stretch chain c y) (c + 1)) y y (2 ^ 32) low synopsis =
      .ok (synopsis ++ ((Halving.rungs y low).filter fun x => decide (c < x)).map
        (blockAt chain)) := by
  have hall : ((Halving.rungs y low).filter fun x => decide (x ≤ y)) = Halving.rungs y low :=
    List.filter_eq_self.mpr fun x hx => decide_eq_true (Halving.mem_rungs hx).2
  rw [← flatMap_ite_singleton (g := blockAt chain) (p := fun x => c < x)]
  refine (halvingLoop_ok (f := fun x => if c < x then [blockAt chain x] else []) hlow le_rfl
    (by omega) (by omega) fun x acc _ hle => ?_).trans (by rw [hall])
  unfold pushNoted
  by_cases hx : c < x
  · have hget : (stretch chain c y)[x - (c + 1)]? = some (blockAt chain x) := by
      rw [getElem?_stretch (by omega) hy]
      congr 2
      omega
    simp only [if_pos hx, if_pos (show c + 1 ≤ x from hx), hget]
  · simp only [if_neg hx, if_neg (show ¬c + 1 ≤ x from hx), List.append_nil]

end

/-! ## 4. A branch in the fork database -/

/-- The fork database has the blocks of the chain from the one behind `d` on, up to `top`. -/
structure HasBranch (f : ForkDb) (chain : List BlockId) (d top : Nat) (item : Nat → ForkItem) :
    Prop where
  found : ∀ num, d < num → num ≤ top → f.find (blockAt chain num) = some (item num)
  num : ∀ num, d < num → num ≤ top → (item num).num = num
  previous : ∀ num, d < num → num ≤ top → (item num).data.previous = blockAt chain (num - 1)
  linked : ∀ num, d + 1 < num → num ≤ top → f.lock [] (item num).prev = some (item (num - 1))

section

variable {f : ForkDb} {A B : List BlockId} {d top x y fuel : Nat} {a b : Nat → ForkItem}

theorem HasBranch.id (h : HasBranch f A d top a) (hd : d < x) (hx : x ≤ top) :
    (a x).id = blockAt A x := by
  simpa using List.find?_some (h.found x hd hx)

/-- There is an item for each of the blocks. -/
theorem HasBranch.length_le (h : HasBranch f A d top a) : top - d ≤ f.index.length := by
  have hnodup : ((List.range (top - d)).map fun k => a (d + 1 + k)).Nodup := by
    refine List.Nodup.map_on (fun k hk l hl he => ?_) List.nodup_range
    rw [List.mem_range] at hk hl
    have hnum := congrArg ForkItem.num he
    rw [h.num _ (by omega) (by omega), h.num _ (by omega) (by omega)] at hnum
    omega
  have hsub : ((List.range (top - d)).map fun k => a (d + 1 + k)) ⊆ f.index := by
    intro i hi
    obtain ⟨k, hk, rfl⟩ := List.mem_map.mp hi
    rw [List.mem_range] at hk
    exact List.mem_of_find?_eq_some (h.found _ (by omega) (by omega))
  have hlen := (List.subperm_of_subset hnodup hsub).length_le
  rwa [List.length_map, List.length_range] at hlen

/-- Down one branch. -/
theorem HasBranch.climb (h : HasBranch f A d top a) (hx : d < x) (hxy : x ≤ y) (hy : y ≤ top)
    (hfuel : y < x + fuel) (acc : List ForkItem) :
    ∃ l, f.climb x fuel (a y) acc = .ok (a x, acc ++ l) := by
  induction fuel generalizing y acc with
  | zero => omega
  | succ fuel ih =>
    unfold ForkDb.climb
    rw [h.num y (by omega) hy]
    by_cases hlt : x < y
    · rw [if_pos hlt, h.linked y (by omega) hy]
      obtain ⟨l, hl⟩ := ih (y := y - 1) (by omega) (by omega) (by omega) (acc ++ [a y])
      rw [List.append_assoc] at hl
      exact ⟨a y :: l, hl⟩
    · obtain rfl : x = y := by omega
      exact ⟨[], by rw [if_neg hlt, List.append_nil]⟩

/-- **Down both branches**, to the blocks behind the last common one. -/
theorem HasBranch.climbBoth (ha : HasBranch f A d top a) (hb : HasBranch f B d x b) (hd : d < y)
    (hyx : y ≤ x) (htop : y ≤ top) (hB : x ≤ B.length) (hcommon : blockAt A d = blockAt B d)
    (hapart : ∀ num, d < num → num ≤ top → blockAt A num ≠ blockAt B num)
    (fuel : Nat) (hfuel : y < d + 1 + fuel) (first second : List ForkItem) :
    ∃ l r, f.climbBoth fuel (a y) (b y) first second = .ok (l ++ [a (d + 1)], second ++ r) ∧
      r.map ForkItem.id = (stretch B d y).reverse := by
  induction fuel generalizing y first second with
  | zero => omega
  | succ fuel ih =>
    unfold ForkDb.climbBoth
    rw [ha.previous y hd htop, hb.previous y hd hyx]
    by_cases hend : y = d + 1
    · have hone : stretch B d (d + 1) = [blockAt B (d + 1)] := by
        rw [stretch_succ le_rfl (by omega), stretch_eq_nil le_rfl, List.nil_append]
      rw [hend, Nat.add_sub_cancel, if_pos hcommon]
      refine ⟨first, [b (d + 1)], rfl, ?_⟩
      rw [hone, List.map_singleton, hb.id (by omega) (by omega)]
      rfl
    · rw [if_neg (hapart (y - 1) (by omega) (by omega)), ha.linked y (by omega) htop,
        hb.linked y (by omega) hyx]
      obtain ⟨l, r, hrun, hr⟩ := ih (y := y - 1) (by omega) (by omega) (by omega) (by omega)
        (first ++ [a y]) (second ++ [b y])
      refine ⟨l, b y :: r, hrun.trans (by simp), ?_⟩
      have hsucc : stretch B d (y - 1 + 1) = stretch B d (y - 1) ++ [blockAt B (y - 1 + 1)] :=
        stretch_succ (by omega) (by omega)
      rw [Nat.sub_add_cancel (by omega)] at hsucc
      rw [hsucc, List.reverse_append, List.map_cons, hr, hb.id hd hyx]
      rfl

/-- **The blocks of a branch that is not the chain**, and the last common block. -/
theorem OnChain.getBlockIdsOnFork {m : Node} (h : OnChain m A)
    (ha : HasBranch m.forkDb A d A.length a) (hb : HasBranch m.forkDb B d x b) (hd : d < x)
    (hxA : x ≤ A.length) (hB : x ≤ B.length) (hcommon : blockAt A d = blockAt B d)
    (hapart : ∀ num, d < num → num ≤ A.length → blockAt A num ≠ blockAt B num) :
    m.getBlockIdsOnFork (blockAt B x) = .ok ((stretch B d x).reverse ++ [blockAt B d]) := by
  have hfuel := ha.length_le
  have hdown : ∃ l, m.forkDb.climb x (m.forkDb.index.length + 2) (a A.length) [] =
      .ok (a x, [] ++ l) := ha.climb hd hxA le_rfl (by omega) []
  obtain ⟨l, hl⟩ := hdown
  have hstay : m.forkDb.climb x (m.forkDb.index.length + 2) (b x) [] = .ok (b x, []) := by
    unfold ForkDb.climb
    rw [hb.num x hd le_rfl, if_neg (Nat.lt_irrefl x)]
  obtain ⟨first, r, hrun, hr⟩ := ha.climbBoth hb hd le_rfl hxA hB hcommon hapart
    (m.forkDb.index.length + 2) (by omega) ([] ++ l) []
  have hfetch : m.forkDb.fetchBranchFrom m.headBlockId (blockAt B x) =
      .ok (first ++ [a (d + 1)], [] ++ r) := by
    unfold ForkDb.fetchBranchFrom
    rw [h.head, ha.found _ (by omega) le_rfl, hb.found x hd le_rfl]
    show (m.forkDb.climb (b x).num (m.forkDb.index.length + 2) (a A.length) [] >>= fun p =>
      m.forkDb.climb p.1.num (m.forkDb.index.length + 2) (b x) [] >>= fun q =>
        m.forkDb.climbBoth (m.forkDb.index.length + 2) p.1 q.1 p.2 q.2) = _
    rw [hb.num x hd le_rfl, hl]
    show (m.forkDb.climb (a x).num (m.forkDb.index.length + 2) (b x) [] >>= fun p =>
      m.forkDb.climbBoth (m.forkDb.index.length + 2) (a x) p.1 ([] ++ l) p.2) = _
    rw [ha.num x hd hxA, hstay]
    exact hrun
  unfold Node.getBlockIdsOnFork
  rw [hfetch]
  simp only [bind, Except.bind, List.getLast?_concat]
  rw [List.nil_append, hr, ha.previous _ (by omega) (by omega), Nat.add_sub_cancel, hcommon]

end

/-! ## 5. Two nodes whose chains part -/

section

variable [Fc]

/-- Our node `us` with the chain `A` meets a peer with the chain `B`. The first `d` blocks are
common.
Of the peer's branch we have the blocks up to `c` in the fork database, and nothing that follows.
Unless we have no block, one of the common blocks can not be undone; and by our clock the peer can
have as many blocks as it says. -/
structure Meeting (us peer : Node) (A B : List BlockId) (d c now : Nat) : Prop where
  ours : OnChain us A
  theirs : OnChain peer B
  leA : d ≤ A.length
  le : d ≤ c
  leB : c ≤ B.length
  common : ∀ num ≤ d, blockAt A num = blockAt B num
  apart : ∀ num, d < num → num ≤ A.length → blockAt A num ≠ blockAt B num
  branches : d < c → ∃ a b,
    HasBranch us.forkDb A d A.length a ∧ HasBranch us.forkDb B d c b
  unknown : ∀ num, c < num → num ≤ B.length → us.isKnownBlock (blockAt B num) = false
  undoable : A = [] ∨ max us.lastNonUndoableBlockNum 1 ≤ d
  clock : now + netFutureSyncBlocksGracePeriodSec < 2 ^ 32
  times : ∀ num ≤ c, us.getBlockTime (blockAt B num) + (B.length - num) * blockInterval ≤
    now + netFutureSyncBlocksGracePeriodSec

/-- Of the peer's chain we have noted the first `y` blocks: the last one that we have, and the ids
that follow. -/
structure Upto (us : Node) (B : List BlockId) (c y : Nat) (p : PeerConnection) : Prop where
  le : y ≤ B.length
  last : p.lastBlockDelegateHasSeen = blockAt B (min c y)
  time : p.lastBlockTimeDelegateHasSeen = us.getBlockTime (blockAt B (min c y))
  ids : p.idsOfItemsToGet = stretch B c y

/-- The request for what follows block `y` is on its way. -/
structure Asked (us : Node) (B : List BlockId) (c y : Nat) (p : PeerConnection) : Prop
    extends Upto us B c y p where
  pos : 0 < y
  number : p.numberOfUnfetchedItemIds = B.length - y
  more : c < y → y < B.length
  synopsis : ∃ low, 0 < low ∧ low ≤ y ∧
    p.itemIdsRequestedFromPeer = some ((Halving.rungs y low).map (blockAt B))

/-- The end: the node has all blocks of the peer, or it has noted what follows its own, all of it or
as many as it fetches first. -/
inductive Exchanged (B : List BlockId) (c : Nat) : SyncStep → Prop
  | inSync {p : PeerConnection} (all : c = B.length) (ids : p.idsOfItemsToGet = []) :
      Exchanged B c (.inSync p)
  | fetching {p : PeerConnection} {y : Nat} (new : c < y) (le : y ≤ B.length)
      (last : p.lastBlockDelegateHasSeen = blockAt B c) (ids : p.idsOfItemsToGet = stretch B c y)
      (number : p.numberOfUnfetchedItemIds = B.length - y)
      (enough : y = B.length ∨ netMinBlockIdsToPrefetch < y - c) : Exchanged B c (.fetching p)

section

variable {us peer : Node} {A B : List BlockId} {d c now y : Nat} {p : PeerConnection}

/-- We know the blocks of the peer up to `c`. -/
theorem Meeting.known (h : Meeting us peer A B d c now) {num : Nat} (h0 : 0 < num) (hn : num ≤ c) :
    us.isKnownBlock (blockAt B num) = true := by
  by_cases hd : num ≤ d
  · rw [← h.common num hd]
    exact h.ours.known (blockAt_mem h0 (hd.trans h.leA))
  · obtain ⟨a, b, _, hb⟩ := h.branches (by omega)
    unfold Node.isKnownBlock
    rw [hb.found num (by omega) hn]
    rfl

theorem Meeting.leA' (h : Meeting us peer A B d c now) : c ≤ A.length := by
  have hd := h.leA
  have hB := h.leB
  by_cases hc : d < c
  · have hbounds := h.ours.bounds (h.known (by omega) le_rfl)
    rw [h.theirs.num_blockAt (by omega) hB] at hbounds
    exact hbounds.2
  · omega

/-- Without blocks there is nothing in common. -/
theorem Meeting.zero (h : Meeting us peer A B d c now) (hA : A = []) : c = 0 := by
  have := h.leA'
  rw [hA] at this
  exact Nat.le_zero.mp this

/-- No block of our branch is on the peer's chain. -/
theorem Meeting.not_mem (h : Meeting us peer A B d c now) {num : Nat} (hd : d < num)
    (hn : num ≤ A.length) : blockAt A num ∉ B := by
  intro hmem
  obtain ⟨i, hi⟩ := List.getElem?_of_mem hmem
  have hnum := h.theirs.nums i _ hi
  rw [h.ours.num_blockAt (by omega) hn] at hnum
  have he := blockAt_succ hi
  rw [← hnum] at he
  exact h.apart num hd hn he.symm

/-! ## 6. The request -/

/-- The synopsis up to a block of the peer that we have. -/
theorem Meeting.synopsis (h : Meeting us peer A B d c now) (r after : Nat) (hA : A ≠ [])
    (h0 : 0 < r) (hr : r ≤ c) (hsmall : r + after + 2 < 2 ^ 32) :
    ∃ low, 0 < low ∧ low ≤ r ∧ us.getBlockchainSynopsis (blockAt B r) after =
      .ok (((Halving.rungs (r + after) low).filter fun x => decide (x ≤ r)).map (blockAt B)) := by
  have hB := h.leB
  have hund := h.undoable.resolve_left hA
  have hne : blockAt B r ≠ ⟨0, 0⟩ := h.theirs.ne_zero (blockAt_mem h0 (by omega))
  have hnum : (blockAt B r).num = r := h.theirs.num_blockAt h0 (by omega)
  have hincluded := h.ours.isIncludedBlock (h.known h0 hr)
  unfold Node.getBlockchainSynopsis
  rw [if_pos hne, hincluded]
  by_cases hd : r ≤ d
  · have hmem : blockAt B r ∈ A := by
      rw [← h.common r hd]
      exact blockAt_mem h0 (hd.trans h.leA)
    have hsum := h.ours.summarize B (min us.lastNonUndoableBlockNum r) r r after
      (fun num hn => h.common num (hn.trans hd)) (hd.trans h.leA) (by omega) (by omega) hsmall
    rw [stretch_eq_nil le_rfl] at hsum
    refine ⟨max (min us.lastNonUndoableBlockNum r) 1, by omega, by omega, ?_⟩
    rw [decide_eq_true hmem]
    show SyncError.lift (us.summarize (min us.lastNonUndoableBlockNum (blockAt B r).num)
      (blockAt B r).num (blockAt B r).num after []) = _
    rw [hnum, hsum]
    rfl
  · obtain ⟨a, b, ha, hb⟩ := h.branches (by omega)
    have hleA := h.leA'
    have hnot : blockAt B r ∉ A := by
      intro hmem
      rw [h.ours.mem_iff (by omega) (by omega), hnum] at hmem
      exact h.apart r (by omega) (by omega) hmem.symm
    have hb' : HasBranch us.forkDb B d r b :=
      ⟨fun n hn hle => hb.found n hn (by omega), fun n hn hle => hb.num n hn (by omega),
        fun n hn hle => hb.previous n hn (by omega), fun n hn hle => hb.linked n hn (by omega)⟩
    have hfork := h.ours.getBlockIdsOnFork ha hb' (by omega) (by omega) (by omega)
      (h.common d le_rfl) h.apart
    have hsum := h.ours.summarize B us.lastNonUndoableBlockNum d r after h.common h.leA (by omega)
      (by omega) hsmall
    refine ⟨max us.lastNonUndoableBlockNum 1, by omega, by omega, ?_⟩
    rw [decide_eq_false hnot, hfork]
    have hbase : ((stretch B d r).reverse ++ [blockAt B d]).getLastD ⟨0, 0⟩ = blockAt B d := by
      rw [List.getLastD_eq_getLast?, List.getLast?_concat]
      rfl
    have hrest : ((stretch B d r).reverse ++ [blockAt B d]).dropLast.reverse = stretch B d r := by
      rw [List.dropLast_concat, List.reverse_reverse]
    have hdnum : (blockAt B d).num = d := h.theirs.num_blockAt (by omega) (by omega)
    show (if (((stretch B d r).reverse ++ [blockAt B d]).getLastD ⟨0, 0⟩).num <
        us.lastNonUndoableBlockNum then throw .blockOlderThanUndoHistory
      else SyncError.lift (us.summarize us.lastNonUndoableBlockNum
        (((stretch B d r).reverse ++ [blockAt B d]).getLastD ⟨0, 0⟩).num
        (u32 ((((stretch B d r).reverse ++ [blockAt B d]).getLastD ⟨0, 0⟩).num +
          ((stretch B d r).reverse ++ [blockAt B d]).dropLast.reverse.length)) after
        ((stretch B d r).reverse ++ [blockAt B d]).dropLast.reverse)) = _
    rw [hbase, hrest, hdnum, if_neg (by omega), length_stretch (by omega),
      Nat.add_sub_cancel' (by omega), u32_of_lt (by omega), hsum]
    rfl

omit [Fc] in
theorem createSynopsis_nil {synopsis : List BlockId} (hids : p.idsOfItemsToGet = [])
    (hs : us.getBlockchainSynopsis p.lastBlockDelegateHasSeen 0 = .ok synopsis) :
    us.createBlockchainSynopsisForPeer p = .ok synopsis := by
  have hzero : u32 ([] : List BlockId).length = 0 := rfl
  unfold Node.createBlockchainSynopsisForPeer
  simp only [hids, hzero, hs]
  rfl

omit [Fc] in
theorem createSynopsis_cons {front : BlockId} {rest synopsis full : List BlockId} {h : Nat}
    (hids : p.idsOfItemsToGet = front :: rest)
    (hs : us.getBlockchainSynopsis p.lastBlockDelegateHasSeen (u32 (front :: rest).length) =
      .ok synopsis)
    (hhigh : u32 (front.num + (front :: rest).length - 1) = h)
    (hloop : halvingLoop (pushNoted (front :: rest) front.num) h h (2 ^ 32)
      (firstNumber synopsis) synopsis = .ok full) :
    us.createBlockchainSynopsisForPeer p = .ok full := by
  unfold Node.createBlockchainSynopsisForPeer
  simp only [hids, hs]
  show SyncError.lift (halvingLoop (pushNoted (front :: rest) front.num)
    (u32 (front.num + (front :: rest).length - 1)) (u32 (front.num + (front :: rest).length - 1))
    (2 ^ 32) (firstNumber synopsis) synopsis) = _
  rw [hhigh, hloop]
  rfl

omit [Fc] in
/-- The loop over the noted ids starts where the synopsis did. -/
theorem OnChain.firstNumber {m : Node} (h : OnChain m B) {low : Nat} (h0 : 0 < low) (hlow : low ≤ y)
    (hy : y ≤ B.length) (hstart : low = 1 ∨ low ≤ c) :
    firstNumber (((Halving.rungs y low).filter fun x => decide (x ≤ c)).map (blockAt B)) = low := by
  by_cases hc : low ≤ c
  · rw [Halving.rungs_of_le hlow, List.filter_cons_of_pos (by simpa using hc), List.map_cons]
    exact h.num_blockAt h0 (hlow.trans hy)
  · have hnone : ((Halving.rungs y low).filter fun x => decide (x ≤ c)) = [] := by
      refine List.filter_eq_nil_iff.mpr fun x hx => ?_
      have := (Halving.mem_rungs hx).1
      simp only [decide_eq_true_eq]
      omega
    rw [hnone]
    exact (hstart.resolve_right hc).symm

/-- What the database puts before the noted ids. -/
theorem Meeting.synopsisUpto (h : Meeting us peer A B d c now) (hy : y ≤ B.length) (h0 : 0 < y) :
    ∃ low, 0 < low ∧ low ≤ y ∧ (low = 1 ∨ low ≤ c) ∧
      us.getBlockchainSynopsis (blockAt B (min c y)) (y - c) =
        .ok (((Halving.rungs y low).filter fun x => decide (x ≤ c)).map (blockAt B)) := by
  have hcB := h.leB
  have hsmall := h.theirs.small
  by_cases hA : A = []
  · have hc := h.zero hA
    have hnone : ((Halving.rungs y 1).filter fun x => decide (x ≤ c)) = [] := by
      refine List.filter_eq_nil_iff.mpr fun x hx => ?_
      have := (Halving.mem_rungs hx).1
      simp only [decide_eq_true_eq]
      omega
    have hhead : us.headBlockNum = 0 := by rw [h.ours.number, hA]; rfl
    refine ⟨1, Nat.one_pos, h0, .inl rfl, ?_⟩
    unfold Node.getBlockchainSynopsis
    rw [hnone, hc, Nat.zero_min, if_neg (by simp [blockAt]), if_pos hhead]
    rfl
  · have hd := h.undoable.resolve_left hA
    have hle := h.le
    obtain ⟨low, hpos, hlow, hs⟩ := h.synopsis (min c y) (y - c) hA (by omega)
      (by omega) (by omega)
    have hsum : min c y + (y - c) = y := by omega
    have hfilter : ((Halving.rungs y low).filter fun x => decide (x ≤ min c y)) =
        (Halving.rungs y low).filter fun x => decide (x ≤ c) := by
      refine List.filter_congr fun x hx => ?_
      have := (Halving.mem_rungs hx).2
      rw [decide_eq_decide]
      omega
    rw [hsum, hfilter] at hs
    exact ⟨low, hpos, by omega, .inr (by omega), hs⟩

/-- **The next request names the noted blocks at the rungs.** -/
theorem Meeting.fetchNextBatch (h : Meeting us peer A B d c now) (hp : Upto us B c y p)
    (h0 : 0 < y) : ∃ low, 0 < low ∧ low ≤ y ∧ us.fetchNextBatch p = .asking
      { p with itemIdsRequestedFromPeer := some ((Halving.rungs y low).map (blockAt B)) } := by
  have hyB := hp.le
  have hcB := h.leB
  have hsmall := h.theirs.small
  obtain ⟨low, hpos, hlow, hstart, hs⟩ := h.synopsisUpto hyB h0
  rw [← hp.last] at hs
  have hcreate : us.createBlockchainSynopsisForPeer p =
      .ok ((Halving.rungs y low).map (blockAt B)) := by
    rcases Nat.lt_or_ge c y with hcy | hcy
    · have hlen : (stretch B c y).length = y - c := length_stretch hyB
      have hfront := h.theirs.firstNumber hpos hlow hyB hstart
      have hloop := listLoop_ok c (((Halving.rungs y low).filter
        fun x => decide (x ≤ c)).map (blockAt B)) hyB hlow hsmall
      rw [← List.map_append, Halving.filter_append_filter (Halving.pairwise_rungs y low)] at hloop
      have hget : (stretch B c y)[0]? = some (blockAt B (c + 1)) :=
        getElem?_stretch (by omega) hyB
      have hnum : (blockAt B (c + 1)).num = c + 1 := h.theirs.num_blockAt (by omega) (by omega)
      have hids := hp.ids
      cases hl : stretch B c y with
      | nil =>
        rw [hl] at hget
        cases hget
      | cons front rest =>
        rw [hl] at hget hids hloop hlen
        obtain rfl : front = blockAt B (c + 1) := Option.some.inj hget
        have hafter : u32 (blockAt B (c + 1) :: rest).length = y - c := by
          rw [hlen, u32_of_lt (by omega)]
        rw [← hafter] at hs
        refine createSynopsis_cons (h := y) hids hs ?_ ?_
        · rw [hlen, hnum, u32_of_lt (by omega)]
          omega
        · rw [hnum, hfront]
          exact hloop
    · have hall : ((Halving.rungs y low).filter fun x => decide (x ≤ c)) = Halving.rungs y low := by
        refine List.filter_eq_self.mpr fun x hx => decide_eq_true ?_
        exact (Halving.mem_rungs hx).2.trans hcy
      rw [hall, Nat.sub_eq_zero_of_le hcy] at hs
      exact createSynopsis_nil (hp.ids.trans (stretch_eq_nil hcy)) hs
  refine ⟨low, hpos, hlow, ?_⟩
  unfold Node.fetchNextBatch
  rw [hcreate]

/-! ## 7. The answer is taken -/

omit [Fc] in
theorem OnChain.checkInventory {m : Node} (h : OnChain m B) {synopsis : List BlockId} {s z : Nat}
    (hs : s < z) (hz : z ≤ B.length)
    (hstart : synopsis = [] ∧ s = 0 ∨ blockAt B (s + 1) ∈ synopsis) :
    checkInventory synopsis (stretch B s z) = .ok () := by
  have hsmall := h.small
  have hlen : (stretch B s z).length = z - s := length_stretch hz
  have hget : (stretch B s z)[0]? = some (blockAt B (s + 1)) := getElem?_stretch (by omega) hz
  have hnum : (blockAt B (s + 1)).num = s + 1 := h.num_blockAt (by omega) (by omega)
  cases hl : stretch B s z with
  | nil => rfl
  | cons front rest =>
    rw [hl] at hget hlen
    obtain rfl : front = blockAt B (s + 1) := Option.some.inj hget
    have hrest : ((rest.zipIdx 1).all fun r =>
        decide (r.1.num = u32 ((blockAt B (s + 1)).num + r.2))) = true := by
      refine List.all_eq_true.mpr fun r hr => decide_eq_true ?_
      obtain ⟨hlow, hhigh, hid⟩ := List.mem_zipIdx (x := r.1) (i := r.2) hr
      rw [List.length_cons] at hlen
      have hitem : (stretch B s z)[r.2]? = some r.1 := by
        obtain ⟨i, hi⟩ := Nat.exists_eq_add_of_le' hlow
        rw [hl, hid, ← List.getElem?_eq_getElem, hi, Nat.add_sub_cancel, List.getElem?_cons_succ]
      rw [getElem?_stretch (by omega) hz] at hitem
      rw [← Option.some.inj hitem, hnum, h.num_blockAt (by omega) (by omega), u32_of_lt (by omega)]
      omega
    unfold MuseChain.checkInventory
    simp only [if_pos hrest]
    rcases hstart with ⟨hnil, rfl⟩ | hmem
    · rw [if_pos hnil, if_pos hnum]
    · rw [if_neg (List.ne_nil_of_mem hmem), if_pos hmem]

theorem foldl_seen {l : List BlockId} {id : BlockId} (hl : l.getLast? = some id) :
    l.foldl us.seen p = us.seen p id := by
  induction l generalizing p with
  | nil => cases hl
  | cons front rest ih =>
    cases rest with
    | nil => rw [← Option.some.inj hl]; rfl
    | cons next rest => exact (ih (p := us.seen p front) hl).trans rfl

theorem flushKnown_append {l r : List BlockId} (hl : ∀ id ∈ l, us.isKnownBlock id = true)
    (hr : ∀ id ∈ r, us.isKnownBlock id = false) :
    us.flushKnown p (l ++ r) = (l.foldl us.seen p, r) := by
  induction l generalizing p with
  | nil =>
    cases r with
    | nil => rfl
    | cons id r =>
      show us.flushKnown p (id :: r) = _
      unfold Node.flushKnown
      rw [if_neg (by rw [hr id List.mem_cons_self]; exact Bool.false_ne_true)]
      rfl
  | cons id l ih =>
    show us.flushKnown p (id :: (l ++ r)) = _
    unfold Node.flushKnown
    rw [if_pos (hl id List.mem_cons_self), ih fun x hx => hl x (List.mem_cons_of_mem _ hx)]
    rfl

/-- No other peer is asked: what is known is dropped. -/
theorem takeInventory_flush {front : BlockId} {rest : List BlockId}
    (hids : p.idsOfItemsToGet = []) : us.takeInventory [] p (front :: rest) =
      { (us.flushKnown p (front :: rest)).1 with
        idsOfItemsToGet := (us.flushKnown p (front :: rest)).2 } := by
  unfold Node.takeInventory
  rw [hids]
  rfl

/-- The answer starts with the last id that was noted. -/
theorem takeInventory_extend {ids rest : List BlockId} {front : BlockId}
    (hids : p.idsOfItemsToGet = ids ++ [front]) : us.takeInventory [] p (front :: rest) =
      { p with idsOfItemsToGet := ids ++ front :: rest } := by
  have hdrop : (ids ++ [front]).reverse.dropWhile (fun id => decide (id ≠ front)) =
      front :: ids.reverse := by
    rw [List.reverse_concat, List.dropWhile_cons_of_neg (by simp)]
  unfold Node.takeInventory
  rw [hids]
  cases hl : ids ++ [front] with
  | nil => simp at hl
  | cons x l =>
    rw [hl] at hdrop
    simp only [hdrop, List.reverse_reverse]

/-- **An answer that follows what was noted is noted.** -/
theorem Meeting.takeInventory (h : Meeting us peer A B d c now) (hp : Upto us B c y p) {s z : Nat}
    (hs : s < z) (hz : z ≤ B.length)
    (hfrom : c < y ∧ s + 1 = y ∨ y ≤ c ∧ s < c ∨ y = 0 ∧ c = 0 ∧ s = 0) :
    Upto us B c z (us.takeInventory [] p (stretch B s z)) := by
  have hget : (stretch B s z)[0]? = some (blockAt B (s + 1)) := getElem?_stretch (by omega) hz
  have hcons : ∃ rest, stretch B s z = blockAt B (s + 1) :: rest := by
    cases hl : stretch B s z with
    | nil =>
      rw [hl] at hget
      cases hget
    | cons front rest =>
      rw [hl] at hget
      exact ⟨rest, congrArg (· :: rest) (Option.some.inj hget)⟩
  obtain ⟨rest, hcons⟩ := hcons
  rcases hfrom with ⟨hc, rfl⟩ | hfrom
  · have hids : p.idsOfItemsToGet = stretch B c s ++ [blockAt B (s + 1)] :=
      hp.ids.trans (stretch_succ (by omega) (by omega))
    have hlast := hp.last
    have htime := hp.time
    have hmin : min c (s + 1) = min c z := by omega
    rw [hmin] at hlast htime
    rw [hcons, takeInventory_extend hids, ← hcons]
    exact ⟨hz, hlast, htime, stretch_append (by omega) (by omega)⟩
  · have hids : p.idsOfItemsToGet = [] := hp.ids.trans (stretch_eq_nil (by omega))
    -- up to `c` the blocks are known, and those behind it are not
    have hsplit : stretch B s z = stretch B s (min c z) ++ stretch B c z := by
      by_cases hcz : c ≤ z
      · rw [Nat.min_eq_left hcz, stretch_append (by omega) hcz]
      · rw [Nat.min_eq_right (by omega), stretch_eq_nil (s := c) (by omega), List.append_nil]
    have hl : ∀ id ∈ stretch B s (min c z), us.isKnownBlock id = true := by
      intro id hid
      obtain ⟨num, h1, h2, rfl⟩ := mem_stretch (by omega) hid
      exact h.known (by omega) (by omega)
    have hr : ∀ id ∈ stretch B c z, us.isKnownBlock id = false := by
      intro id hid
      obtain ⟨num, h1, h2, rfl⟩ := mem_stretch hz hid
      exact h.unknown num h1 (by omega)
    have hflush := flushKnown_append (p := p) hl hr
    rw [← hsplit, hcons] at hflush
    rw [hcons, takeInventory_flush hids, hflush]
    rcases hfrom with ⟨hy, hsc⟩ | ⟨rfl, rfl, rfl⟩
    · rw [foldl_seen (getLast?_stretch (by omega) (by omega))]
      exact ⟨hz, rfl, rfl, rfl⟩
    · rw [Nat.zero_min, stretch_eq_nil le_rfl]
      exact ⟨hz, hp.last.trans (by rw [Nat.zero_min, Nat.zero_min]),
        hp.time.trans (by rw [Nat.zero_min, Nat.zero_min]), rfl⟩

/-- What is done with the list: it is fetched, or the node asks on. -/
theorem Meeting.afterInventory (h : Meeting us peer A B d c now) (hp : Upto us B c y p)
    (h0 : 0 < y) (hnumber : p.numberOfUnfetchedItemIds = B.length - y) :
    Exchanged B c (us.afterInventory now p) ∨
      ∃ q, us.afterInventory now p = .asking q ∧ Asked us B c y q := by
  have hyB := hp.le
  have hlen : p.idsOfItemsToGet.length = y - c := by rw [hp.ids, length_stretch hyB]
  have hclock := h.clock
  have hplausible : ¬ u32 (now + netFutureSyncBlocksGracePeriodSec) <
      u32 (p.lastBlockTimeDelegateHasSeen + u32 (p.numberOfUnfetchedItemIds * blockInterval)) := by
    have htimes := h.times (min c y) (by omega)
    have hmono : (B.length - y) * blockInterval ≤ (B.length - min c y) * blockInterval :=
      Nat.mul_le_mul_right _ (by omega)
    rw [hnumber, hp.time, u32_of_lt hclock, u32_of_lt (show (B.length - y) * blockInterval < 2 ^ 32
      by omega), u32_of_lt (by omega)]
    omega
  obtain ⟨low, hpos, hlow, hask⟩ := h.fetchNextBatch hp h0
  have hasked (hmore : c < y → y < B.length) : ∃ q, us.fetchNextBatch p = .asking q ∧
      Asked us B c y q := ⟨_, hask, ⟨hp.le, hp.last, hp.time, hp.ids⟩, h0, hnumber, hmore,
        ⟨low, hpos, hlow, rfl⟩⟩
  unfold Node.afterInventory
  rw [if_neg hplausible]
  by_cases hremaining : p.numberOfUnfetchedItemIds ≠ 0
  · rw [if_pos hremaining]
    by_cases henough : netMinBlockIdsToPrefetch < p.idsOfItemsToGet.length
    · rw [if_pos henough]
      have hcy : c < y := by omega
      have hlast := hp.last
      rw [Nat.min_eq_left hcy.le] at hlast
      exact .inl (.fetching hcy hyB hlast hp.ids hnumber (.inr (hlen ▸ henough)))
    · rw [if_neg henough]
      exact .inr (hasked fun _ => by omega)
  · rw [if_neg hremaining]
    by_cases hids : p.idsOfItemsToGet ≠ []
    · rw [if_pos hids]
      have hcy : c < y := Nat.lt_of_not_le fun hle => hids (hp.ids.trans (stretch_eq_nil hle))
      have hlast := hp.last
      rw [Nat.min_eq_left hcy.le] at hlast
      exact .inl (.fetching hcy hyB hlast hp.ids hnumber (.inl (by omega)))
    · rw [if_neg hids]
      refine .inr (hasked fun hcy => ?_)
      rw [Decidable.not_not.mp hids, List.length_nil] at hlen
      omega

/-! ## 8. Round after round -/

omit [Fc] in
theorem known_of_hasNothingNew {l : List BlockId} {id : BlockId} (h : us.hasNothingNew l = true)
    (hl : l.getLast? = some id) : us.isKnownBlock id = true := by
  cases l with
  | nil => cases hl
  | cons front rest =>
    cases rest with
    | nil => exact Option.some.inj hl ▸ h
    | cons next rest => cases h

/-- **An answer leads on, or the exchange is over.** -/
theorem Meeting.receive (h : Meeting us peer A B d c now) (hp : Upto us B c y p)
    {synopsis : List BlockId} {s z : Nat} {r : SyncStep}
    (hreq : p.itemIdsRequestedFromPeer = some synopsis) (hs : s < z) (hz : z ≤ B.length)
    (hstart : synopsis = [] ∧ s = 0 ∨ blockAt B (s + 1) ∈ synopsis)
    (hfrom : c < y ∧ s + 1 = y ∨ y ≤ c ∧ s < c ∨ y = 0 ∧ c = 0 ∧ s = 0)
    (hr : us.onBlockchainItemIdsInventory now [] ⟨B.length - z, stretch B s z⟩ p = r) :
    Exchanged B c r ∨ ¬(z = B.length ∧ z = s + 1 ∧ z ≤ c ∧ y ≤ c ∧
      p.numberOfUnfetchedItemIds = 0) ∧ ∃ q, r = .asking q ∧ Asked us B c z q := by
  have hlast := getLast?_stretch hs hz
  unfold Node.onBlockchainItemIdsInventory at hr
  simp only [hreq, h.theirs.checkInventory hs hz hstart] at hr
  split at hr
  next hdone =>
    obtain ⟨hremaining, hnothing, hids, _⟩ := hdone
    have hknown := known_of_hasNothingNew hnothing hlast
    have hall : c = B.length := by
      have hle := h.leB
      refine Classical.byContradiction fun hne => ?_
      rw [h.unknown z (by omega) hz] at hknown
      cases hknown
    exact .inl (hr ▸ .inSync hall hids)
  next hdone =>
    have hp' : Upto us B c y { p with itemIdsRequestedFromPeer := none } :=
      ⟨hp.le, hp.last, hp.time, hp.ids⟩
    have htaken := h.takeInventory hp' hs hz hfrom
    have hafter := h.afterInventory (p := { us.takeInventory []
      { p with itemIdsRequestedFromPeer := none } (stretch B s z) with
        numberOfUnfetchedItemIds := B.length - z })
      ⟨htaken.le, htaken.last, htaken.time, htaken.ids⟩ (by omega) rfl
    rw [hr] at hafter
    refine hafter.imp id fun hask => ⟨?_, hask⟩
    rintro ⟨hend, hone, hc, hy, hzero⟩
    have hknown := h.known (show 0 < z by omega) hc
    have hsingle : stretch B s z = [blockAt B z] := by
      rw [hone, stretch_succ le_rfl (by omega), stretch_eq_nil le_rfl, List.nil_append]
    refine hdone ⟨by omega, ?_, hp.ids.trans (stretch_eq_nil hy), hzero⟩
    rw [hsingle]
    exact hknown

omit [Fc] in
theorem reply_of_getBlockIds {synopsis ids : List BlockId} {remaining : Nat}
    (h : peer.getBlockIds synopsis blockIdsLimit = .ok (ids, remaining)) :
    peer.onFetchBlockchainItemIds synopsis = .ok ⟨remaining, ids⟩ := by
  unfold Node.onFetchBlockchainItemIds
  rw [h]

theorem syncRound_asking (us : Node) (now : Nat) {synopsis ids : List BlockId} {remaining : Nat}
    (hreq : p.itemIdsRequestedFromPeer = some synopsis)
    (hreply : peer.getBlockIds synopsis blockIdsLimit = .ok (ids, remaining)) :
    syncRound us peer now (.asking p) =
      us.onBlockchainItemIdsInventory now [] ⟨remaining, ids⟩ p := by
  unfold syncRound
  simp only [hreq, Option.getD_some, reply_of_getBlockIds hreply]

/-- **One round.** -/
theorem Meeting.round (h : Meeting us peer A B d c now) (hp : Asked us B c y p) :
    Exchanged B c (syncRound us peer now (.asking p)) ∨ y < B.length ∧
      ∃ q, syncRound us peer now (.asking p) = .asking q ∧
        Asked us B c (min B.length (y + 1999)) q := by
  obtain ⟨low, hpos, hlow, hreq⟩ := hp.synopsis
  have hyB := hp.le
  have h0 := hp.pos
  -- the last rung is the block `y`
  have hlast := Halving.getLast?_rungs hlow
  obtain ⟨l, hl⟩ : ∃ l, Halving.rungs y low = l ++ [y] :=
    ⟨_, (List.dropLast_append_getLast? y hlast).symm⟩
  have hmap : (Halving.rungs y low).map (blockAt B) = l.map (blockAt B) ++ blockAt B y :: [] := by
    rw [hl, List.map_append, List.map_singleton]
  have hne : ∀ x ∈ l.map (blockAt B) ++ blockAt B y :: [], x ≠ ⟨0, 0⟩ := by
    intro x hx
    rw [← hmap] at hx
    obtain ⟨num, hnum, rfl⟩ := List.mem_map.mp hx
    obtain ⟨h1, h2⟩ := Halving.mem_rungs hnum
    exact h.theirs.ne_zero (blockAt_mem (by omega) (by omega))
  have hreply := h.theirs.getBlockIds (show 0 < blockIdsLimit by decide) hne
    (getElem?_blockAt h0 hyB) fun x hx => (List.not_mem_nil hx).elim
  rw [← hmap] at hreply
  have hz : answered B (y - 1) blockIdsLimit = min B.length (y + 1999) := by
    unfold answered blockIdsLimit
    omega
  rw [hz] at hreply
  have hrun := syncRound_asking us now hreq hreply
  have hmem : blockAt B (y - 1 + 1) ∈ (Halving.rungs y low).map (blockAt B) := by
    rw [hmap, Nat.sub_add_cancel h0]
    simp
  have hfrom : c < y ∧ y - 1 + 1 = y ∨ y ≤ c ∧ y - 1 < c ∨ y = 0 ∧ c = 0 ∧ y - 1 = 0 := by
    omega
  rcases h.receive hp.toUpto hreq (by omega) (Nat.min_le_left _ _) (.inr hmem) hfrom hrun.symm
    with hdone | ⟨hnot, hask⟩
  · exact .inl hdone
  · refine .inr ⟨Nat.lt_of_not_le fun hend => hnot ?_, hask⟩
    have hnumber := hp.number
    have hmore := hp.more
    have hle := h.leB
    refine ⟨?_, ?_, ?_, ?_, ?_⟩
    all_goals omega

/-- The rounds from a request on. -/
theorem Meeting.rounds (h : Meeting us peer A B d c now) {k : Nat}
    (hstep : syncRounds us peer now k = .asking p) (hp : Asked us B c y p) :
    ∃ n, n ≤ (B.length - y) / 1999 + 2 ∧ Exchanged B c (syncRounds us peer now (k + n)) := by
  generalize hleft : B.length - y = left
  induction left using Nat.strong_induction_on generalizing k y p with
  | _ left ih =>
    have hround := h.round hp
    rw [← hstep] at hround
    rcases hround with hdone | ⟨hlt, q, hq, hasked⟩
    · exact ⟨1, by omega, hdone⟩
    · rcases Nat.lt_or_ge B.length (y + 1999) with hend | hfar
      · -- at most one more round
        rw [Nat.min_eq_left (by omega)] at hasked
        have hlast := h.round hasked
        rw [← hq] at hlast
        rcases hlast with hdone | ⟨hlt', _⟩
        · exact ⟨2, by omega, hdone⟩
        · exact absurd hlt' (Nat.lt_irrefl _)
      · rw [Nat.min_eq_right hfar] at hasked
        obtain ⟨n, hn, hdone⟩ := ih (B.length - (y + 1999)) (by omega)
          (k := k + 1) hq hasked rfl
        refine ⟨n + 1, by omega, ?_⟩
        rw [Nat.add_right_comm] at hdone
        exact hdone

/-- The connection when the first synopsis is on its way. -/
def opened (us : Node) (synopsis : List BlockId) : PeerConnection where
  lastBlockTimeDelegateHasSeen := us.getBlockTime ⟨0, 0⟩
  weNeedSyncItemsFromPeer := true
  itemIdsRequestedFromPeer := some synopsis

theorem upto_opened (synopsis : List BlockId) : Upto us B c 0 (opened us synopsis) where
  le := Nat.zero_le _
  last := by rw [Nat.min_zero]; rfl
  time := by rw [Nat.min_zero]; rfl
  ids := (stretch_eq_nil (Nat.zero_le _)).symm

theorem start_of_synopsis {synopsis : List BlockId}
    (h : us.getBlockchainSynopsis ⟨0, 0⟩ 0 = .ok synopsis) :
    us.startSynchronizingWithPeer {} = .asking (opened us synopsis) := by
  unfold Node.startSynchronizingWithPeer Node.fetchNextBatch
  rw [createSynopsis_nil rfl h]
  rfl

/-- A node without blocks asks for all. -/
theorem Meeting.start_nil (h : Meeting us peer A B d c now) (hA : A = []) :
    us.startSynchronizingWithPeer {} = .asking (opened us []) := by
  have hhead : us.headBlockNum = 0 := by rw [h.ours.number, hA]; rfl
  refine start_of_synopsis ?_
  unfold Node.getBlockchainSynopsis
  rw [if_neg (by simp), if_pos hhead]
  rfl

/-- Our first request names the blocks of our chain at the rungs. -/
theorem Meeting.start (h : Meeting us peer A B d c now) (hA : A ≠ []) :
    us.startSynchronizingWithPeer {} = .asking (opened us
      ((Halving.rungs A.length (max us.lastNonUndoableBlockNum 1)).map (blockAt A))) := by
  exact start_of_synopsis (h.ours.synopsis ((h.undoable.resolve_left hA).trans h.leA))

/-- The first round, when we have no block. -/
theorem Meeting.firstRound_nil (h : Meeting us peer A B d c now) (hA : A = []) :
    Exchanged B c (syncRounds us peer now 1) ∨ ∃ y q, min B.length 2000 ≤ y ∧
      syncRounds us peer now 1 = .asking q ∧ Asked us B c y q := by
  have hc := h.zero hA
  have hlimit : 0 < blockIdsLimit := by decide
  have hround := syncRound_asking us now (show (opened us []).itemIdsRequestedFromPeer = _ from rfl)
    (h.theirs.getBlockIds_nil hlimit)
  rw [← h.start_nil hA] at hround
  by_cases hnone : B.length = 0
  · -- the peer has no block either
    have hz : answered B 0 blockIdsLimit = 0 := by
      unfold answered
      omega
    rw [hnone, hz, stretch_eq_nil le_rfl] at hround
    refine .inl ?_
    show Exchanged B c (syncRound us peer now (us.startSynchronizingWithPeer {}))
    rw [hround]
    exact .inSync (by omega) rfl
  · have hlt := lt_answered (Nat.pos_of_ne_zero hnone) hlimit
    refine (h.receive (upto_opened []) rfl hlt answered_le (.inl ⟨rfl, rfl⟩)
      (.inr (.inr ⟨rfl, hc, rfl⟩)) hround.symm).imp id ?_
    rintro ⟨_, q, hq, hasked⟩
    refine ⟨_, q, ?_, hq, hasked⟩
    unfold answered blockIdsLimit
    omega

/-- **The first round.** -/
theorem Meeting.firstRound (h : Meeting us peer A B d c now) (hA : A ≠ []) :
    Exchanged B c (syncRounds us peer now 1) ∨ ∃ y q, min B.length 2000 ≤ y ∧
      syncRounds us peer now 1 = .asking q ∧ Asked us B c y q := by
  have hB := h.leB
  have hd := h.le
  have hund := h.undoable.resolve_left hA
  have hlimit : 0 < blockIdsLimit := by decide
  -- the last block that we name and the peer has
  obtain ⟨l, r, x, he, hx, hr, _⟩ := Halving.exists_rung_le hund h.leA
  have hmap : (Halving.rungs A.length (max us.lastNonUndoableBlockNum 1)).map (blockAt A) =
      l.map (blockAt A) ++ blockAt B x :: r.map (blockAt A) := by
    rw [he, List.map_append, List.map_cons, h.common x hx]
  have hrung : ∀ num ∈ l ++ x :: r, 0 < num ∧ num ≤ A.length := by
    intro num hnum
    rw [← he] at hnum
    have := Halving.mem_rungs hnum
    omega
  have h0 := (hrung x (by simp)).1
  have hne : ∀ id ∈ l.map (blockAt A) ++ blockAt B x :: r.map (blockAt A), id ≠ ⟨0, 0⟩ := by
    intro id hid
    rw [← hmap, he] at hid
    obtain ⟨num, hnum, rfl⟩ := List.mem_map.mp hid
    obtain ⟨h1, h2⟩ := hrung num hnum
    exact h.ours.ne_zero (blockAt_mem h1 h2)
  have hbehind : ∀ id ∈ r.map (blockAt A), id ∉ B := by
    intro id hid
    obtain ⟨num, hnum, rfl⟩ := List.mem_map.mp hid
    exact h.not_mem (hr num hnum) (hrung num (by simp [hnum])).2
  have hreply := h.theirs.getBlockIds hlimit hne (getElem?_blockAt h0 (by omega)) hbehind
  have hmem : blockAt B (x - 1 + 1) ∈ l.map (blockAt A) ++ blockAt B x :: r.map (blockAt A) := by
    rw [Nat.sub_add_cancel h0]
    simp
  rw [← hmap] at hreply hmem
  have hround := syncRound_asking us now (show (opened us _).itemIdsRequestedFromPeer = _ from rfl)
    hreply
  rw [← h.start hA] at hround
  refine (h.receive (upto_opened _) rfl (lt_answered (by omega) hlimit) answered_le (.inr hmem)
    (.inr (.inl ⟨Nat.zero_le _, by omega⟩)) hround.symm).imp id ?_
  rintro ⟨_, q, hq, hasked⟩
  refine ⟨_, q, ?_, hq, hasked⟩
  unfold answered blockIdsLimit
  omega

/-- **The exchange of block ids ends**, and the node has noted exactly the blocks of the peer's
chain
that it lacks, or the first 10000 of them. -/
theorem block_ids_exchanged (h : Meeting us peer A B d c now) :
    ∃ k, k ≤ B.length / 1999 + 3 ∧ Exchanged B c (syncRounds us peer now k) := by
  have hfirst : Exchanged B c (syncRounds us peer now 1) ∨ ∃ y q, min B.length 2000 ≤ y ∧
      syncRounds us peer now 1 = .asking q ∧ Asked us B c y q := by
    by_cases hA : A = []
    · exact h.firstRound_nil hA
    · exact h.firstRound hA
  rcases hfirst with hdone | ⟨y, q, hy, hq, hasked⟩
  · exact ⟨1, by omega, hdone⟩
  · obtain ⟨n, hn, hdone⟩ := h.rounds hq hasked
    exact ⟨1 + n, by omega, hdone⟩

end

/-! ## 9. Nodes that applied and stored their blocks -/

/-- Blocks that are applied and stored one after the other. -/
inductive Node.Stored (m : Node) : List SignedBlock → Node → Prop
  | nil : Stored m [] m
  | snoc {bs : List SignedBlock} {m₁ m₂ m₃ : Node} {b : SignedBlock} (clock depth : Nat) :
      Stored m bs m₁ → m₂.db.store = m₁.db.store → m₂.log = m₁.log → m₂.checkpoints = [] →
      Node.applyInSession clock depth {} m₂ b b.toSignedBlockHeader.id = .ok () m₃ →
      Stored m (bs ++ [b]) m₃

def idsOf (bs : List SignedBlock) : List BlockId := bs.map fun b => b.toSignedBlockHeader.id

theorem Node.Stored.chain {m m' : Node} {bs : List SignedBlock} (h : Node.Stored m bs m') :
    Node.Chain m bs m' := by
  induction h with
  | nil => exact .nil
  | snoc clock depth _ hstore _ hcp happly ih => exact .snoc clock depth ih hstore hcp happly

theorem applyInSession_log {clock depth : Nat} {m m' : Node} {b : SignedBlock} {id : BlockId}
    {u : Unit} (h : Node.applyInSession clock depth {} m b id = .ok u m') :
    m'.log = m.log.store id b := by
  obtain ⟨_, _, _, _, _, _, _, rfl⟩ := Node.applyInSession_ok h
  rfl

/-- The log has the blocks under their numbers. -/
theorem Node.Stored.log {g : GenesisState} {bs : List SignedBlock} {m : Node}
    (h : Node.Stored (Node.genesis g) bs m) (hb : ∀ b ∈ bs, b.timestamp < 2 ^ 32) (num : Nat) :
    m.log.get num = if num = 0 then none
      else bs[num - 1]?.map fun b => (b.toSignedBlockHeader.id, b) := by
  induction h with
  | nil =>
    rw [List.getElem?_nil, Option.map_none, ite_self]
    exact FMap.get_empty num
  | @snoc bs m₁ m₂ m₃ b clock depth hprev hstore hlog hcp happly ih =>
    have ih := ih fun c hc => hb c (List.mem_append_left _ hc)
    have hindexed := (Node.Stored.snoc clock depth hprev hstore hlog hcp happly).chain.indexed hb
    have hnum : b.toSignedBlockHeader.id.num = bs.length + 1 :=
      hindexed.inOrder bs.length b List.getElem?_concat_length
    have hne : b.toSignedBlockHeader.id ≠ ⟨0, 0⟩ := by
      intro he
      rw [he] at hnum
      cases hnum
    have hput : m₃.log = FMap.put m₁.log (bs.length + 1) (some (b.toSignedBlockHeader.id, b)) := by
      rw [applyInSession_log happly, hlog]
      unfold BlockLog.store
      simp only [if_neg hne, hnum]
    rw [hput]
    refine (FMap.get_put _ _ _ _).trans ?_
    rw [ih]
    by_cases hat : num = bs.length + 1
    · rw [if_pos hat, hat, if_neg (Nat.succ_ne_zero _), Nat.add_sub_cancel,
        List.getElem?_concat_length]
      rfl
    · rw [if_neg hat]
      by_cases hzero : num = 0
      · rw [if_pos hzero, if_pos hzero]
      · rw [if_neg hzero, if_neg hzero, List.getElem?_append]
        split
        · rfl
        · rw [List.getElem?_eq_none (by omega), List.getElem?_eq_none (by simp; omega)]

/-- **A node that applied and stored its blocks holds their chain**, if the fork database has no
block above the head. -/
theorem Node.Stored.onChain {g : GenesisState} {bs : List SignedBlock} {m : Node}
    (h : Node.Stored (Node.genesis g) bs m) (hb : ∀ b ∈ bs, b.timestamp < 2 ^ 32)
    (hsmall : bs.length + 2 < 2 ^ 32)
    (hforks : ∀ item ∈ m.forkDb.index, 0 < item.id.num ∧ item.id.num ≤ bs.length) :
    OnChain m (idsOf bs) := by
  have hindexed := h.chain.indexed hb
  have hlen : (idsOf bs).length = bs.length := List.length_map _
  have hget : ∀ (i : Nat) (id : BlockId), (idsOf bs)[i]? = some id →
      ∃ b : SignedBlock, bs[i]? = some b ∧ b.toSignedBlockHeader.id = id := by
    intro i id hi
    unfold idsOf at hi
    rw [List.getElem?_map] at hi
    exact Option.map_eq_some_iff.mp hi
  refine ⟨hindexed.number.trans hlen.symm, ?_, by rwa [hlen], fun i id hi => ?_, fun i id hi => ?_,
    fun num hnum => ?_, ?_, by rwa [hlen]⟩
  · refine hindexed.head.trans ?_
    unfold HashChains.lastId blockAt headersOf
    cases hl : bs.getLast? with
    | none =>
      rw [List.getLast?_eq_none_iff.mp hl]
      rfl
    | some b =>
      have hne : bs.length ≠ 0 := by
        intro hzero
        rw [List.length_eq_zero_iff.mp hzero] at hl
        cases hl
      rw [List.getLast?_eq_getElem?] at hl
      rw [hlen, if_neg hne, List.getD_eq_getElem?_getD, List.getLast?_map,
        List.getLast?_eq_getElem?, hl]
      unfold idsOf
      rw [List.getElem?_map, hl]
      rfl
  · obtain ⟨b, hbi, rfl⟩ := hget i id hi
    exact hindexed.inOrder i b hbi
  · obtain ⟨b, hbi, rfl⟩ := hget i id hi
    refine ⟨b, ?_⟩
    rw [h.log hb, if_neg (Nat.succ_ne_zero i), Nat.add_sub_cancel, hbi]
    rfl
  · rw [hlen] at hnum
    rw [h.log hb, if_neg (by omega), List.getElem?_eq_none (by omega)]
    rfl
  · rw [h.log hb, if_pos rfl]

end

section

attribute [local instance] sampleFc

/-- The peer's branch: the right one of the fork, and a block more. -/
def rightBlocks : List SignedBlock :=
  [forkedBlocks.1, forkedBlocks.2.2, transferBlock forkedBlocks.2.2.toSignedBlockHeader.id 4 []]

def leftBlocks : List SignedBlock := [forkedBlocks.1, forkedBlocks.2.1]

/-- The fork database after both branches of the fork were pushed. -/
def forkDbOfBoth : ForkDb :=
  [forkedBlocks.1, forkedBlocks.2.2, forkedBlocks.2.1].foldl
    (fun f b => (f.pushBlock b).toOption.getD f) ForkDb.empty

/-- Blocks that are applied and stored; `f` is the fork database of the node. -/
def storedNode (f : ForkDb) (bs : List SignedBlock) : Node :=
  bs.foldl (fun m b =>
    (Node.applyInSession 0 0 {} { m with forkDb := f, checkpoints := [] } b
      b.toSignedBlockHeader.id).node) (Node.genesis sampleGenesis)

def runsIn (f : ForkDb) (bs : List SignedBlock) (b : SignedBlock) : Bool :=
  (Node.applyInSession 0 0 {} { storedNode f bs with forkDb := f, checkpoints := [] } b
    b.toSignedBlockHeader.id).isOk

/-- The item of a block, if the fork database has it and it follows the block `previous`. -/
def hasItem (f : ForkDb) (id : BlockId) (num : Nat) (previous : BlockId) : Bool :=
  (f.find id).any fun item => decide (item.num = num ∧ item.data.previous = previous)

theorem forked_nodes_run :
    runsIn forkDbOfBoth [] forkedBlocks.1 = true ∧
    runsIn forkDbOfBoth [forkedBlocks.1] forkedBlocks.2.1 = true ∧
    runsIn ForkDb.empty [] forkedBlocks.1 = true ∧
    runsIn ForkDb.empty [forkedBlocks.1] forkedBlocks.2.2 = true ∧
    runsIn ForkDb.empty [forkedBlocks.1, forkedBlocks.2.2]
      (transferBlock forkedBlocks.2.2.toSignedBlockHeader.id 4 []) = true ∧
    (storedNode forkDbOfBoth leftBlocks).forkDb.index.all
      (fun item => decide (0 < item.id.num ∧ item.id.num ≤ 2)) = true ∧
    (storedNode ForkDb.empty rightBlocks).forkDb.index.all (fun _ => false) = true ∧
    hasItem (storedNode forkDbOfBoth leftBlocks).forkDb (blockAt (idsOf leftBlocks) 2) 2
      (blockAt (idsOf leftBlocks) 1) = true ∧
    hasItem (storedNode forkDbOfBoth leftBlocks).forkDb (blockAt (idsOf rightBlocks) 2) 2
      (blockAt (idsOf rightBlocks) 1) = true ∧
    (storedNode forkDbOfBoth leftBlocks).isKnownBlock (blockAt (idsOf rightBlocks) 3) = false ∧
    (storedNode forkDbOfBoth leftBlocks).lastNonUndoableBlockNum ≤ 1 ∧
    (storedNode ForkDb.empty rightBlocks).lastNonUndoableBlockNum ≤ 1 ∧
    ∀ num < 3, (storedNode forkDbOfBoth leftBlocks).getBlockTime
      (blockAt (idsOf rightBlocks) num) + (3 - num) * blockInterval ≤ genesisTime + 60 := by
  decide +kernel

theorem hasBranch_of_hasItem {f : ForkDb} {chain : List BlockId}
    (h : hasItem f (blockAt chain 2) 2 (blockAt chain 1) = true) :
    ∃ item, HasBranch f chain 1 2 item := by
  obtain ⟨item, hfound, hitem⟩ := (Option.any_eq_true _ _).mp h
  obtain ⟨hnum, hprevious⟩ := of_decide_eq_true hitem
  refine ⟨fun _ => item, fun num h1 h2 => ?_, fun num h1 h2 => ?_, fun num h1 h2 => ?_,
    fun num h1 h2 => absurd (Nat.lt_of_lt_of_le h1 h2) (Nat.lt_irrefl 2)⟩
  all_goals obtain rfl : num = 2 := by omega
  · exact hfound
  · exact hnum
  · exact hprevious

theorem Node.Stored.run {f : ForkDb} {bs : List SignedBlock} {b : SignedBlock}
    (h : Node.Stored (Node.genesis sampleGenesis) bs (storedNode f bs))
    (hrun : runsIn f bs b = true) :
    Node.Stored (Node.genesis sampleGenesis) (bs ++ [b]) (storedNode f (bs ++ [b])) := by
  obtain ⟨m, hm⟩ := Reply.exists_of_isOk hrun
  have hnode : storedNode f (bs ++ [b]) = m := by
    unfold storedNode
    rw [List.foldl_append]
    exact congrArg Reply.node hm
  rw [hnode]
  exact @Node.Stored.snoc _ _ _ _ { storedNode f bs with forkDb := f, checkpoints := [] } _ _ 0 0 h rfl
    rfl rfl hm

theorem meeting_forked : Meeting (storedNode forkDbOfBoth leftBlocks)
    (storedNode ForkDb.empty rightBlocks) (idsOf leftBlocks) (idsOf rightBlocks) 1 2
    (genesisTime + 60) := by
  obtain ⟨hrun1, hrun2, hrun3, hrun4, hrun5, hforks, hempty, hleft, hright, hunknown, hund,
    _, htimes⟩ := forked_nodes_run
  have hours : OnChain (storedNode forkDbOfBoth leftBlocks) (idsOf leftBlocks) := by
    have hstored : Node.Stored (Node.genesis sampleGenesis) ([] ++ [forkedBlocks.1] ++
        [forkedBlocks.2.1]) (storedNode forkDbOfBoth leftBlocks) :=
      (Node.Stored.nil.run hrun1).run hrun2
    refine hstored.onChain (by decide) (by decide) fun item hitem => ?_
    exact of_decide_eq_true (List.all_eq_true.mp hforks item hitem)
  have htheirs : OnChain (storedNode ForkDb.empty rightBlocks) (idsOf rightBlocks) := by
    have hstored : Node.Stored (Node.genesis sampleGenesis) ([] ++ [forkedBlocks.1] ++
        [forkedBlocks.2.2] ++ [transferBlock forkedBlocks.2.2.toSignedBlockHeader.id 4 []])
        (storedNode ForkDb.empty rightBlocks) :=
      ((Node.Stored.nil.run hrun3).run hrun4).run hrun5
    refine hstored.onChain (by decide) (by decide) fun item hitem => ?_
    cases List.all_eq_true.mp hempty item hitem
  refine ⟨hours, htheirs, by decide, by decide, by decide, fun num hn => ?_, fun num h1 h2 => ?_,
    fun _ => ?_, fun num h1 h2 => ?_, .inr (by omega), by decide, fun num hn => ?_⟩
  · revert num
    decide
  · have h2 : num ≤ 2 := h2
    obtain rfl : num = 2 := by omega
    decide
  · obtain ⟨a, ha⟩ := hasBranch_of_hasItem hleft
    obtain ⟨b, hb⟩ := hasBranch_of_hasItem hright
    exact ⟨a, b, ha, hb⟩
  · have h2 : num ≤ 3 := h2
    obtain rfl : num = 3 := by omega
    exact hunknown
  · have hlen : (idsOf rightBlocks).length = 3 := rfl
    rw [hlen]
    exact (htimes num (Nat.lt_succ_of_le hn)).trans (Nat.le_add_right _ _)

theorem synopsis_reaches_back_forked : ∃ nums : List Nat,
    (storedNode ForkDb.empty rightBlocks).getBlockchainSynopsis ⟨0, 0⟩ 0 =
      .ok (nums.map (blockAt (idsOf rightBlocks))) ∧
    nums.Pairwise (· < ·) ∧
    nums.head? = some (max (storedNode ForkDb.empty rightBlocks).lastNonUndoableBlockNum 1) ∧
    nums.getLast? = some (idsOf rightBlocks).length ∧
    2 ^ nums.length ≤ 2 * ((idsOf rightBlocks).length -
      max (storedNode ForkDb.empty rightBlocks).lastNonUndoableBlockNum 1 + 1) ∧
    ∀ c, max (storedNode ForkDb.empty rightBlocks).lastNonUndoableBlockNum 1 ≤ c →
      c ≤ (idsOf rightBlocks).length → ∃ x ∈ nums, x ≤ c ∧ (∀ y ∈ nums, y ≤ c → y ≤ x) ∧
        c - x ≤ (idsOf rightBlocks).length - c :=
  synopsis_reaches_back meeting_forked.theirs
    (max_le (forked_nodes_run.2.2.2.2.2.2.2.2.2.2.2.1.trans (by decide)) (by decide))

/-- A node on the left branch that has seen block 2 of the right one asks for block 3. -/
theorem block_ids_exchanged_forked : ∃ k, k ≤ (idsOf rightBlocks).length / 1999 + 3 ∧
    Exchanged (idsOf rightBlocks) 2 (syncRounds (storedNode forkDbOfBoth leftBlocks)
      (storedNode ForkDb.empty rightBlocks) (genesisTime + 60) k) :=
  block_ids_exchanged meeting_forked

end

end MuseChain
