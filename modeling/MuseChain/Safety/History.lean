/-
  File:      MuseChain/Safety/History.lean
  Subject:   The chain that a node holds, and its undo stack block by block.

  * `Stage`: a block with the objects before it. `Lined stages s`: the objects `s` are those after
    the blocks of the stages, from the genesis on.
  * `Idle stages k d`: no session is open, and the undo stack leads back over the newest `k` blocks,
    one state for each. `BusyOn`: the session of the pending transactions is open on top of them.
  * Transactions that are pushed keep this, as long as no `modify` broke an object
    (`Standing.pushTransactionOnly`, `Standing.restorePending`). A block, while its session is open,
    keeps what is below (`applyBlock_applied`).
-/
import MuseChain.Db.Snapshots
import MuseChain.Safety.FailedTransaction
import MuseChain.Safety.Heads

namespace MuseChain

section

variable [Fc]

/-! ## 1. Chains -/

/-- A block of the chain, with the objects before it. -/
structure Stage where
  block : SignedBlock
  before : Store chainSchema

/-- `s` are the objects after the blocks of the stages, the newest first. -/
inductive Lined : List Stage → Store chainSchema → Prop
  | genesis {s : Store chainSchema} : Numbered s → s.props.head = ⟨0, ⟨0, 0⟩, 0⟩ → s.Fresh →
      Lined [] s
  | block {b : SignedBlock} {s t : Store chainSchema} {stages : List Stage} : Lined stages s →
      Extends b s t → t.Fresh → Lined (⟨b, s⟩ :: stages) t

section

variable {stages : List Stage} {s : Store chainSchema}

theorem Lined.numbered (h : Lined stages s) : Numbered s := by
  cases h with
  | genesis hn _ _ => exact hn
  | block _ he _ => exact he.numbered

theorem Lined.fresh (h : Lined stages s) : s.Fresh := by
  cases h with
  | genesis _ _ hf => exact hf
  | block _ _ hf => exact hf

/-- The number of the head is the number of blocks. -/
theorem Lined.number (h : Lined stages s) : s.props.headBlockNumber = stages.length := by
  induction h with
  | genesis _ hhead _ => exact congrArg Head.number hhead
  | block _ he _ ih => rw [he.headNumber, he.number, ih, List.length_cons]

end

/-! ## 2. The undo stack of a chain -/

/-- The objects before each of the newest `k` blocks. -/
def snapshots (stages : List Stage) (k : Nat) : List (Store chainSchema) :=
  (stages.map Stage.before).take k

omit [Fc] in
theorem snapshots_take (stages : List Stage) (k m : Nat) :
    (snapshots stages k).take m = snapshots stages (min m k) := by
  unfold snapshots
  rw [List.take_take]

omit [Fc] in
theorem snapshots_length {stages : List Stage} {k : Nat} (h : k ≤ stages.length) :
    (snapshots stages k).length = k := by
  unfold snapshots
  rw [List.length_take, List.length_map]
  omega

/-- No session is open, and the newest `k` blocks can be undone. -/
structure Idle (stages : List Stage) (k : Nat) (d : Database chainSchema) : Prop where
  enabled : d.disabled = false
  whole : d.broken = false
  sessions : d.activeSessions = 0
  room : 2 ≤ d.maxSize
  lined : Lined stages d.store
  le : k ≤ stages.length
  exact : Exactly d (snapshots stages k)

/-- The session of the pending transactions is open on the objects `base`. -/
structure BusyOn (base : Store chainSchema) (stages : List Stage) (k : Nat)
    (d : Database chainSchema) : Prop where
  enabled : d.disabled = false
  whole : d.broken = false
  sessions : d.activeSessions = 1
  room : 2 ≤ d.maxSize
  lined : Lined stages base
  le : k ≤ stages.length
  head : SameHead base d.store
  exact : Exactly d (base :: snapshots stages k)

/-- The state of a node between two steps. -/
inductive Standing (stages : List Stage) (k : Nat) (m : Node) : Prop
  | idle : m.pendingSession = none → Idle stages k m.db → Standing stages k m
  | busy (base : Store chainSchema) : m.pendingSession = some false →
      BusyOn base stages k m.db → Standing stages k m

section

variable {stages : List Stage} {k : Nat} {m : Node}

/-- The head is the one of the chain, whether transactions are pending or not. -/
theorem Standing.anchor (h : Standing stages k m) :
    ∃ base, Lined stages base ∧ m.props.anchor = base.props.anchor := by
  cases h with
  | idle _ h => exact ⟨m.db.store, h.lined, rfl⟩
  | busy base _ h => exact ⟨base, h.lined, h.head.props.symm⟩

theorem Standing.le (h : Standing stages k m) : k ≤ stages.length := by
  cases h with
  | idle _ h => exact h.le
  | busy base _ h => exact h.le

theorem Standing.room (h : Standing stages k m) : 2 ≤ m.db.maxSize := by
  cases h with
  | idle _ h => exact h.room
  | busy base _ h => exact h.room

omit [Fc] in
theorem resetPending_broken (m : Node) : m.resetPending.db.broken = m.db.broken := by
  unfold Node.resetPending
  split
  · rfl
  · exact Action.dropSession_broken _ _

omit [Fc] in
/-- Only the objects and the session change. -/
theorem resetPending_eq (m : Node) :
    m.resetPending = { m with db := m.resetPending.db, pendingSession := none } := by
  obtain ⟨db, f, log, pending, popped, session, checkpoints⟩ := m
  cases session with
  | none => rfl
  | some exit => rfl

/-- **Dropping the pending session goes back to the chain.** -/
theorem Standing.resetPending (h : Standing stages k m) :
    Idle stages k m.resetPending.db ∧ m.resetPending.db.maxSize = m.db.maxSize := by
  unfold Node.resetPending
  cases h with
  | idle hp h =>
    rw [hp]
    exact ⟨h, rfl⟩
  | busy base hp h =>
    obtain ⟨hdrop, hexact⟩ := h.exact.dropped h.enabled (by rw [h.sessions]; exact Nat.zero_lt_one)
    rw [hp]
    simp only
    rw [hdrop] at hexact ⊢
    exact ⟨⟨h.enabled, h.whole, by simp only [h.sessions], h.room, h.lined, h.le, hexact⟩, rfl⟩

/-! ## 3. Pending transactions -/

/-- The session of the pending transactions is opened. -/
theorem Standing.openPending (h : Standing stages k m) :
    ∃ base k', min k m.db.maxSize ≤ k' ∧ k' ≤ k ∧ m.openPending.pendingSession = some false ∧
      BusyOn base stages k' m.openPending.db ∧ m.openPending.db.maxSize = m.db.maxSize := by
  cases h with
  | busy base hp h =>
    have he : m.openPending = m := by
      unfold Node.openPending
      rw [hp]
    rw [he]
    exact ⟨base, k, by omega, Nat.le_refl k, hp, h, rfl⟩
  | idle hp h =>
    have hexact := h.exact.start h.enabled h.lined.fresh
    rw [snapshots_take] at hexact
    have he : m.openPending = { m with
        db := (m.db.startUndoSession false).2, pendingSession := some false } := by
      unfold Node.openPending
      rw [hp, startUndoSession_eq false h.enabled]
    rw [he]
    refine ⟨m.db.store, min m.db.maxSize k, by omega, by omega, rfl, ?_⟩
    rw [startUndoSession_eq false h.enabled] at hexact ⊢
    exact ⟨⟨h.enabled, h.whole, by simp only [h.sessions], h.room, h.lined,
      (Nat.min_le_right _ _).trans h.le, SameHead.refl _, hexact⟩, rfl⟩

/-- A program runs in a session of its own on top of the pending ones. -/
theorem BusyOn.session {base : Store chainSchema} {d : Database chainSchema} {n : Nat} {α : Type}
    {x : Act n α} (h : BusyOn base stages k d) (hn : n + 1 ≤ d.maxSize)
    (hb : (x.run (d.startUndoSession false).2).db.broken = false) :
    ∃ k', min k (d.maxSize - (n + 1)) ≤ k' ∧ k' ≤ k ∧
      (x.run (d.startUndoSession false).2).db.disabled = false ∧
      (x.run (d.startUndoSession false).2).db.activeSessions = 2 ∧
      (x.run (d.startUndoSession false).2).db.maxSize = d.maxSize ∧
      Exactly (x.run (d.startUndoSession false).2).db
        (d.store :: base :: snapshots stages k') := by
  obtain ⟨_, _, hd0, ha0, hm0⟩ := startUndoSession_flags h.enabled
  have hstart := h.exact.start h.enabled h.exact.fresh
  obtain ⟨ho, j, hj, hexact⟩ := hstart.run hd0 (by omega) hb
  obtain ⟨_, hmax, hdis, hact, _⟩ := ho
  have hlen : (base :: snapshots stages k).length = k + 1 := by
    rw [List.length_cons, snapshots_length h.le]
  rw [List.length_take, hlen, hm0] at hj
  -- the snapshot of the pending session is not trimmed
  obtain ⟨i, hi⟩ : ∃ i, min j d.maxSize = i + 1 := ⟨min j d.maxSize - 1, by omega⟩
  rw [List.take_take, hi, List.take_succ_cons, snapshots_take] at hexact
  exact ⟨min i k, by omega, by omega, hdis.trans hd0, by rw [hact, ha0, h.sessions],
    hmax.trans hm0, hexact⟩

/-- The end of that session: its program returned, and it is merged. -/
theorem BusyOn.merged {base mid : Store chainSchema} {d : Database chainSchema}
    (hl : Lined stages base) (hle : k ≤ stages.length) (hd : d.disabled = false)
    (hb : d.broken = false) (ha : d.activeSessions = 2) (hm : 2 ≤ d.maxSize)
    (hh : SameHead base d.store) (h : Exactly d (mid :: base :: snapshots stages k)) :
    ∃ d', d.merge = .ok () d' ∧ BusyOn base stages k d' ∧ d'.maxSize = d.maxSize := by
  obtain ⟨us, hmerge, hexact⟩ := h.merged (by omega)
  exact ⟨_, hmerge, ⟨hd, hb, by simp only [ha], hm, hl, hle, hh, hexact⟩, rfl⟩

/-- Or it threw, and the session is dropped. -/
theorem BusyOn.dropped {base mid : Store chainSchema} {d : Database chainSchema}
    (hl : Lined stages base) (hle : k ≤ stages.length) (hd : d.disabled = false)
    (hb : d.broken = false) (ha : d.activeSessions = 2) (hm : 2 ≤ d.maxSize)
    (hh : SameHead base mid) (h : Exactly d (mid :: base :: snapshots stages k)) :
    BusyOn base stages k (d.dropSession false) ∧ (d.dropSession false).maxSize = d.maxSize := by
  obtain ⟨hdrop, hexact⟩ := h.dropped hd (by omega)
  rw [hdrop] at hexact ⊢
  exact ⟨⟨hd, hb, by simp only [ha], hm, hl, hle, hh, hexact⟩, rfl⟩

/-- **A transaction in a session of its own: what it did is kept, or nothing.** -/
theorem BusyOn.applyTransaction {base : Store chainSchema} {d : Database chainSchema}
    {clock depth : Nat} {skip : Skip} {trx : Transaction} (h : BusyOn base stages k d)
    (hn : depth + 1 ≤ d.maxSize)
    (hb : ((MuseChain.applyTransaction clock skip depth trx).run
      (d.startUndoSession false).2).db.broken = false) :
    ∃ k', min k (d.maxSize - (depth + 1)) ≤ k' ∧ k' ≤ k ∧
      match (MuseChain.applyTransaction clock skip depth trx).run (d.startUndoSession false).2 with
      | .thrown _ d₁ => BusyOn base stages k' (d₁.dropSession (d.startUndoSession false).1) ∧
          (d₁.dropSession (d.startUndoSession false).1).maxSize = d.maxSize
      | .ok _ d₁ => ∃ d', d₁.merge = .ok () d' ∧ BusyOn base stages k' d' ∧
          d'.maxSize = d.maxSize := by
  obtain ⟨k', hk, hk', hd1, ha1, hm1, hexact⟩ := h.session hn hb
  obtain ⟨hexit, hs0, _, _, _⟩ := startUndoSession_flags h.enabled
  have hhead : SameHead base
      ((MuseChain.applyTransaction clock skip depth trx).run (d.startUndoSession false).2).db.store :=
    h.head.trans (hs0 ▸ (within_head_applyTransaction clock skip trx).sameHead _)
  have hroom : 2 ≤ ((MuseChain.applyTransaction clock skip depth trx).run
      (d.startUndoSession false).2).db.maxSize := by rw [hm1]; exact h.room
  refine ⟨k', hk, hk', ?_⟩
  rw [hexit]
  cases hr : (MuseChain.applyTransaction clock skip depth trx).run (d.startUndoSession false).2 with
  | thrown e d₁ =>
    rw [hr] at hb hd1 ha1 hm1 hexact hroom
    obtain ⟨hbusy, hmax⟩ := BusyOn.dropped h.lined (hk'.trans h.le) hd1 hb ha1 hroom h.head hexact
    exact ⟨hbusy, hmax.trans hm1⟩
  | ok u d₁ =>
    rw [hr] at hb hd1 ha1 hm1 hexact hroom hhead
    obtain ⟨d', hmerge, hbusy, hmax⟩ :=
      BusyOn.merged h.lined (hk'.trans h.le) hd1 hb ha1 hroom hhead hexact
    exact ⟨d', hmerge, hbusy, hmax.trans hm1⟩

/-- What stays when transactions are pushed or taken back. -/
structure Beside (m m' : Node) : Prop where
  forkDb : m'.forkDb = m.forkDb
  log : m'.log = m.log
  poppedTx : m'.poppedTx = m.poppedTx
  maxSize : m'.db.maxSize = m.db.maxSize

omit [Fc] in
theorem Beside.refl (m : Node) : Beside m m := ⟨rfl, rfl, rfl, rfl⟩

omit [Fc] in
theorem Beside.trans {m m' m'' : Node} (h : Beside m m') (h' : Beside m' m'') : Beside m m'' :=
  ⟨h'.forkDb.trans h.forkDb, h'.log.trans h.log, h'.poppedTx.trans h.poppedTx,
    h'.maxSize.trans h.maxSize⟩

omit [Fc] in
theorem openPending_beside (m : Node) : m.openPending.forkDb = m.forkDb ∧
    m.openPending.log = m.log ∧ m.openPending.poppedTx = m.poppedTx ∧
    m.openPending.db.broken = m.db.broken := by
  unfold Node.openPending
  split
  · exact ⟨rfl, rfl, rfl, rfl⟩
  · exact ⟨rfl, rfl, rfl, Action.startUndoSession_broken _ _⟩

/-- An object that was dropped stays dropped. -/
theorem pushTransactionOnly_broken {clock depth : Nat} {skip : Skip} {trx : Transaction}
    (h : (Node.pushTransactionOnly clock depth skip m trx).node.db.broken = false) :
    ((applyTransaction clock skip depth trx).run
      (m.openPending.db.startUndoSession false).2).db.broken = false ∧ m.db.broken = false := by
  rw [Node.pushTransactionOnly_eq] at h
  have hrun : ((applyTransaction clock skip depth trx).run
      (m.openPending.db.startUndoSession false).2).db.broken = false := by
    cases hr : (applyTransaction clock skip depth trx).run
        (m.openPending.db.startUndoSession false).2 with
    | thrown e d =>
      simp only [hr, Reply.node_thrown, Action.dropSession_broken] at h
      exact h
    | ok u d =>
      have hm := Action.merge_broken d
      simp only [hr] at h
      cases hmerge : d.merge with
      | thrown e d' =>
        rw [hmerge] at hm
        simp only [hmerge, Reply.node_thrown, Action.dropSession_broken] at h
        exact hm.symm.trans h
      | ok _ d' =>
        rw [hmerge] at hm
        simp only [hmerge, Reply.node_ok] at h
        exact hm.symm.trans h
  refine ⟨hrun, ?_⟩
  have h0 := ((applyTransaction clock skip depth trx).holds _ hrun).1
  rw [Action.startUndoSession_broken] at h0
  exact (openPending_beside m).2.2.2 ▸ h0

/-- **A transaction that is pushed leaves the chain, whether it is applied or not.** -/
theorem Standing.pushTransactionOnly {clock depth : Nat} {skip : Skip} {trx : Transaction}
    (h : Standing stages k m) (hn : depth + 1 ≤ m.db.maxSize)
    (hb : (Node.pushTransactionOnly clock depth skip m trx).node.db.broken = false) :
    ∃ k', min k (m.db.maxSize - (depth + 1)) ≤ k' ∧ k' ≤ k ∧
      Standing stages k' (Node.pushTransactionOnly clock depth skip m trx).node ∧
      Beside m (Node.pushTransactionOnly clock depth skip m trx).node := by
  obtain ⟨base, k₁, hk1, hk1', hp, hbusy, hmax⟩ := h.openPending
  obtain ⟨hf, hlog, hpop, _⟩ := openPending_beside m
  obtain ⟨hrun, _⟩ := pushTransactionOnly_broken hb
  obtain ⟨k₂, hk2, hk2', hout⟩ := hbusy.applyTransaction (by omega) hrun
  refine ⟨k₂, by omega, by omega, ?_⟩
  rw [Node.pushTransactionOnly_eq]
  cases hr : (applyTransaction clock skip depth trx).run
      (m.openPending.db.startUndoSession false).2 with
  | thrown e d =>
    rw [hr] at hout
    exact ⟨.busy base hp hout.1, hf, hlog, hpop, hout.2.trans hmax⟩
  | ok u d =>
    rw [hr] at hout
    obtain ⟨d', hmerge, hbusy', hmax'⟩ := hout
    simp only [hmerge, Reply.node_ok]
    exact ⟨.busy base hp hbusy', hf, hlog, hpop, hmax'.trans hmax⟩

theorem restorePending_broken {clock depth : Nat} {skip : Skip} {l : List Transaction}
    (h : (Node.restorePending clock depth skip l m).db.broken = false) : m.db.broken = false := by
  induction l generalizing m with
  | nil => exact h
  | cons trx l ih =>
    unfold Node.restorePending at h
    split at h
    · exact ih h
    · exact (pushTransactionOnly_broken (ih h)).2

/-- **So do those that are put back.** -/
theorem Standing.restorePending {clock depth : Nat} {skip : Skip} {l : List Transaction}
    (h : Standing stages k m) (hn : depth + 1 ≤ m.db.maxSize)
    (hb : (Node.restorePending clock depth skip l m).db.broken = false) :
    ∃ k', min k (m.db.maxSize - (depth + 1)) ≤ k' ∧ k' ≤ k ∧
      Standing stages k' (Node.restorePending clock depth skip l m) ∧
      Beside m (Node.restorePending clock depth skip l m) := by
  induction l generalizing m k with
  | nil => exact ⟨k, Nat.min_le_left _ _, Nat.le_refl k, h, Beside.refl m⟩
  | cons trx l ih =>
    unfold Node.restorePending at hb ⊢
    split
    · rename_i hknown
      rw [if_pos hknown] at hb
      exact ih h hn hb
    · rename_i hknown
      rw [if_neg hknown] at hb
      obtain ⟨k₁, hk1, hk1', h1, hbeside⟩ := h.pushTransactionOnly hn (restorePending_broken hb)
      have hmax := hbeside.maxSize
      obtain ⟨k₂, hk2, hk2', h2, hbeside'⟩ := ih h1 (by omega) hb
      exact ⟨k₂, by omega, by omega, h2, hbeside.trans hbeside'⟩

/-! ## 4. Blocks -/

omit [Fc] in
/-- The max size that a block sets: one more than there are blocks above the irreversible one. -/
theorem maxSize_eq {number lib : Nat} (hlib : lib ≤ number) (hn : number + genesisTime < 2 ^ 32) :
    u32 (sub32 (number + 1) lib + 1) = number + 2 - lib := by
  have hg := (show genesisTime = 1458835200 from rfl)
  simp only [sub32, u32]
  omega

/-- What is between the start and the end of a block's session. -/
structure InSession (base : Store chainSchema) (stages : List Stage) (k : Nat)
    (d : Database chainSchema) : Prop where
  enabled : d.disabled = false
  whole : d.broken = false
  sessions : d.activeSessions = 1
  room : 2 ≤ d.maxSize
  exact : Exactly d (base :: snapshots stages k)

theorem Idle.start {d : Database chainSchema} (h : Idle stages k d) :
    InSession d.store stages (min d.maxSize k) (d.startUndoSession false).2 := by
  obtain ⟨_, _, hd0, ha0, hm0⟩ := startUndoSession_flags h.enabled
  have hexact := h.exact.start h.enabled h.lined.fresh
  rw [snapshots_take] at hexact
  exact ⟨hd0, (Action.startUndoSession_broken _ _).trans h.whole, by rw [ha0, h.sessions],
    hm0.symm ▸ h.room, hexact⟩

omit [Fc] in
/-- A program in the session of a block. -/
theorem InSession.run {base : Store chainSchema} {d : Database chainSchema} {n : Nat} {α : Type}
    {x : Act n α} (h : InSession base stages k d) (hk : k ≤ stages.length) (hn : n ≤ 2)
    (hb : (x.run d).db.broken = false) :
    ∃ k', min k (d.maxSize - n) ≤ k' ∧ k' ≤ k ∧ InSession base stages k' (x.run d).db ∧
      (x.run d).db.maxSize = d.maxSize ∧ (x.run d).db.store.Fresh := by
  have hroom := h.room
  obtain ⟨ho, j, hj, hexact⟩ := h.exact.run h.enabled (by omega) hb
  rw [snapshots_length hk] at hj
  rw [snapshots_take] at hexact
  exact ⟨min j k, by omega, by omega, ⟨ho.disabled.trans h.enabled, hb,
    ho.activeSessions.trans h.sessions, ho.maxSize.symm ▸ hroom, hexact⟩, ho.maxSize, ho.fresh⟩

/-- How `apply_block` ends: with some snapshots fewer, and when it returns with one block more. -/
structure Applied (base : Store chainSchema) (stages : List Stage) (b : SignedBlock) (m : Node)
    (k : Nat) (r : Reply Unit) : Prop where
  session : InSession base stages k r.node.db
  log : r.node.log = m.log
  pendingSession : r.node.pendingSession = m.pendingSession
  poppedTx : r.node.poppedTx = m.poppedTx
  forkDb : r.node.forkDb = m.forkDb ∨ r.node.forkDb = m.forkDb.setMaxSize r.node.db.maxSize
  maxSize : r.node.db.maxSize = m.db.maxSize ∨
    r.node.db.maxSize = stages.length + 2 - base.props.lastIrreversibleBlockNum
  returned : r.isOk = true → Extends b base r.node.db.store ∧ r.node.db.store.Fresh ∧
    r.node.db.maxSize = stages.length + 2 - base.props.lastIrreversibleBlockNum

theorem applyBlock_broken {clock depth : Nat} {skip : Skip} {b : SignedBlock}
    (h : (Node.applyBlock clock depth skip m b).node.db.broken = false) : m.db.broken = false := by
  unfold Node.applyBlock at h
  cases hskip : m.checkpointSkip skip b with
  | error e =>
    rw [hskip] at h
    exact h
  | ok skip' =>
    rw [hskip] at h
    refine ((applyBlockFirst clock skip' depth b).holds m.db ?_).1
    cases hr : (applyBlockFirst clock skip' depth b).run m.db with
    | thrown e d =>
      simp only [hr] at h
      exact h
    | ok wit d =>
      simp only [hr] at h
      refine ((applyBlockRest clock depth wit b).holds (Node.setMaxSizes { m with db := d }).db ?_).1
      cases hr' : (applyBlockRest clock depth wit b).run (Node.setMaxSizes { m with db := d }).db with
      | thrown e d' =>
        simp only [hr'] at h
        exact h
      | ok u d' =>
        simp only [hr'] at h
        exact h

/-- **A block in its session: the snapshots stay, and one that is applied extends the chain.** -/
theorem applyBlock_applied {clock depth : Nat} {skip : Skip} {b : SignedBlock}
    {base : Store chainSchema} (h : InSession base stages k m.db) (hbase : m.db.store = base)
    (hl : Lined stages base) (hk : k ≤ stages.length) (hn : depth ≤ 2) (hts : b.timestamp < 2 ^ 32)
    (hb : (Node.applyBlock clock depth skip m b).node.db.broken = false) :
    ∃ k', min k (min (m.db.maxSize - depth)
        (stages.length + 2 - base.props.lastIrreversibleBlockNum - depth)) ≤ k' ∧ k' ≤ k ∧
      Applied base stages b m k' (Node.applyBlock clock depth skip m b) := by
  unfold Node.applyBlock at hb ⊢
  cases hskip : m.checkpointSkip skip b with
  | error e =>
    exact ⟨k, by omega, Nat.le_refl k, h, rfl, rfl, rfl, .inl rfl, .inl rfl, fun hok => nomatch hok⟩
  | ok skip' =>
    rw [hskip] at hb
    cases hr : (applyBlockFirst clock skip' depth b).run m.db with
    | thrown e d =>
      simp only [hr] at hb ⊢
      obtain ⟨k', hk1, hk2, hs, hmax, _⟩ := h.run (x := applyBlockFirst clock skip' depth b) hk hn
        (by rw [hr]; exact hb)
      rw [hr] at hs hmax
      exact ⟨k', by omega, hk2, hs, rfl, rfl, rfl, .inl rfl, .inl hmax, fun hok => nomatch hok⟩
    | ok wit d =>
      simp only [hr] at hb ⊢
      have hwhole : d.broken = false := by
        have hrest : ((applyBlockRest clock depth wit b).run
            (Node.setMaxSizes { m with db := d }).db).db.broken = false := by
          cases hr' : (applyBlockRest clock depth wit b).run
              (Node.setMaxSizes { m with db := d }).db with
          | thrown e d' =>
            simp only [hr'] at hb
            exact hb
          | ok u d' =>
            simp only [hr'] at hb
            exact hb
        exact ((applyBlockRest clock depth wit b).holds _ hrest).1
      obtain ⟨k₁, hk1, hk1', hs1, hmax1, _⟩ := h.run (x := applyBlockFirst clock skip' depth b) hk hn
        (by rw [hr]; exact hwhole)
      rw [hr] at hs1 hmax1
      -- the new max size
      have hnumbered : Numbered m.db.store := hbase ▸ hl.numbered
      obtain ⟨hblock, htime, hanchor⟩ := applyBlockFirst_numbers hr hnumbered hts
      rw [hbase] at hblock hanchor
      rw [hl.number] at hblock
      have hlib := hl.numbered.irreversible
      rw [hl.number] at hlib
      have hsize : (Node.setMaxSizes { m with db := d }).db.maxSize =
          stages.length + 2 - base.props.lastIrreversibleBlockNum := by
        have h1 : d.store.props.headBlockNumber = stages.length + 1 :=
          (congrArg (fun a : Anchor => a.head.number) hanchor).trans hblock
        have h2 : d.store.props.lastIrreversibleBlockNum = base.props.lastIrreversibleBlockNum :=
          congrArg (fun a : Anchor => a.head.lastIrreversible) hanchor
        show u32 (sub32 d.store.props.headBlockNumber d.store.props.lastIrreversibleBlockNum + 1) = _
        rw [h1, h2]
        exact maxSize_eq hlib (by omega)
      have hs2 : InSession base stages k₁ (Node.setMaxSizes { m with db := d }).db :=
        ⟨hs1.enabled, hs1.whole, hs1.sessions, by omega, hs1.exact.rewinds, hs1.exact.length⟩
      have hrun := @InSession.run stages k₁ base _ depth Unit (applyBlockRest clock depth wit b) hs2
        (by omega) hn
      cases hr' : (applyBlockRest clock depth wit b).run (Node.setMaxSizes { m with db := d }).db with
      | thrown e d' =>
        simp only [hr'] at hb ⊢
        rw [hr'] at hrun
        obtain ⟨k₂, hk2, hk2', hs3, hmax2, _⟩ := hrun hb
        refine ⟨k₂, by omega, by omega, hs3, rfl, rfl, rfl, .inr ?_, .inr (hmax2.trans hsize),
          fun hok => nomatch hok⟩
        show (Node.setMaxSizes { m with db := d }).forkDb = m.forkDb.setMaxSize d'.maxSize
        rw [show d'.maxSize = _ from hmax2]
        rfl
      | ok u d' =>
        simp only [hr'] at hb ⊢
        rw [hr'] at hrun
        obtain ⟨k₂, hk2, hk2', hs3, hmax2, hfresh⟩ := hrun hb
        refine ⟨k₂, by omega, by omega, hs3, rfl, rfl, rfl, .inr ?_, .inr (hmax2.trans hsize),
          fun _ => ⟨?_, hfresh, hmax2.trans hsize⟩⟩
        · show (Node.setMaxSizes { m with db := d }).forkDb = m.forkDb.setMaxSize d'.maxSize
          rw [show d'.maxSize = _ from hmax2]
          rfl
        · have hext : Extends b m.db.store d'.store := extends_of_halves hr
            (show (Node.setMaxSizes { m with db := d }).db.store = d.store from rfl) hr' hnumbered hts
          exact hbase ▸ hext

end

end

end MuseChain
