/-
  File:      MuseChain/Safety/Reversals.lean
  Subject:   The undo history covers the blocks that can still be reversed.

  * `Node.Lives depth g final stages m`: the node `m` started from the genesis `g`. It applied
    blocks, some of which failed, pushed transactions, dropped its pending session and popped
    blocks, in any order. Its chain are the blocks of `stages`, each with the objects before it, and
    `final` is the highest last irreversible block that it had when it applied a block.
  * `Rewindable`: the undo stack and its max size reach back to the block `final`, but for the
    nesting of proposals. `Node.Lives.rewindable`: every step keeps this.
  * `Node.Run.housed`: push_block, push_transaction, generate_block and pop_block are made of these
    steps.
  * **`reversible_blocks_pop`**: the blocks above `final` can be popped, one after the other, and
    what is left are the objects from before them.
-/
import MuseChain.Safety.Branches
import MuseChain.Safety.History
import MuseChain.Safety.References

namespace MuseChain

/-- `pop_commit`, some times. -/
def popCommits {S : Schema} : Nat → Database S → Outcome S Unit
  | 0, d => .ok () d
  | times + 1, d =>
      match d.popCommit with
      | .ok _ d => popCommits times d
      | .thrown e d => .thrown e d

section

variable [Fc]

/-! ## 1. What a node does -/

inductive Node.Lives (depth : Nat) (g : GenesisState) : Nat → List Stage → Node → Prop
  | genesis : Lives depth g 0 [] (Node.genesis g)
  | applied {final : Nat} {stages : List Stage} {m m' : Node} {clock : Nat} {skip : Skip}
      {b : SignedBlock} {id : BlockId} : Lives depth g final stages m → m.pendingSession = none →
      b.timestamp < 2 ^ 32 → Node.applyInSession clock depth skip m b id = .ok () m' →
      Lives depth g (max final m.props.lastIrreversibleBlockNum) (⟨b, m.db.store⟩ :: stages) m'
  | failed {final : Nat} {stages : List Stage} {m m' : Node} {clock : Nat} {skip : Skip}
      {b : SignedBlock} {id : BlockId} {e : Exn} : Lives depth g final stages m →
      m.pendingSession = none → b.timestamp < 2 ^ 32 →
      Node.applyInSession clock depth skip m b id = .thrown e m' →
      Lives depth g (max final m.props.lastIrreversibleBlockNum) stages m'
  | transaction {final : Nat} {stages : List Stage} {m : Node} (clock : Nat) (skip : Skip)
      (trx : Transaction) : Lives depth g final stages m →
      Lives depth g final stages (Node.pushTransactionOnly clock depth skip m trx).node
  | opened {final : Nat} {stages : List Stage} {m : Node} : Lives depth g final stages m →
      Lives depth g final stages m.openPending
  | reset {final : Nat} {stages : List Stage} {m : Node} : Lives depth g final stages m →
      Lives depth g final stages m.resetPending
  | popped {final : Nat} {stages : List Stage} {m m' : Node} {held : List ForkItem} :
      Lives depth g final stages m → m.popBlock held = .ok () m' →
      Lives depth g final stages.tail m'
  | notPopped {final : Nat} {stages : List Stage} {m m' : Node} {held : List ForkItem} {e : Exn} :
      Lives depth g final stages m → m.popBlock held = .thrown e m' → Lives depth g final stages m'
  | beside {final : Nat} {stages : List Stage} {m m' : Node} : Lives depth g final stages m →
      m'.db = m.db → m'.pendingSession = m.pendingSession → Lives depth g final stages m'

/-- The undo stack and its max size reach back to the block `final`, but for the nesting. -/
structure Rewindable (depth final : Nat) (stages : List Stage) (k : Nat) (m : Node) : Prop where
  standing : Standing stages k m
  stack : stages.length ≤ final + depth + k
  room : stages.length + 1 ≤ m.db.maxSize + final

section

variable {stages : List Stage} {k depth final : Nat} {m m' : Node}

/-! ## 2. Blocks -/

/-- The two ways in which `apply_block` in its session ends. -/
theorem applyInSession_cases (clock depth : Nat) (skip : Skip) (m : Node) (b : SignedBlock)
    (id : BlockId) :
    (∃ e m₁, Node.applyBlock clock depth skip { m with db := (m.db.startUndoSession false).2 } b =
        .thrown e m₁ ∧ Node.applyInSession clock depth skip m b id =
        .thrown e { m₁ with db := m₁.db.dropSession (m.db.startUndoSession false).1 }) ∨
    ∃ u m₁, Node.applyBlock clock depth skip { m with db := (m.db.startUndoSession false).2 } b =
        .ok u m₁ ∧ ((m₁.db.activeSessions = 0 ∧ ∃ e, Node.applyInSession clock depth skip m b id =
          .thrown e { m₁ with log := m₁.log.store id b }) ∨
        Node.applyInSession clock depth skip m b id = .ok () { m₁ with
          log := m₁.log.store id b
          db := { m₁.db with activeSessions := m₁.db.activeSessions - 1 } }) := by
  unfold Node.applyInSession
  cases hr : Node.applyBlock clock depth skip
      { m with db := (m.db.startUndoSession false).2 } b with
  | thrown e m₁ => exact .inl ⟨e, m₁, rfl, by simp only [hr]⟩
  | ok u m₁ =>
    refine .inr ⟨u, m₁, rfl, ?_⟩
    simp only [hr]
    unfold Database.commit
    by_cases ha : m₁.db.activeSessions = 0
    · exact .inl ⟨ha, _, by rw [if_pos ha]⟩
    · exact .inr (by rw [if_neg ha])

theorem applyInSession_broken {clock : Nat} {skip : Skip} {b : SignedBlock} {id : BlockId}
    (h : (Node.applyInSession clock depth skip m b id).node.db.broken = false) :
    m.db.broken = false := by
  have hblock : (Node.applyBlock clock depth skip { m with db := (m.db.startUndoSession false).2 }
      b).node.db.broken = false := by
    rcases applyInSession_cases clock depth skip m b id with
      ⟨e, m₁, hr, hrun⟩ | ⟨u, m₁, hr, ⟨ha, e, hrun⟩ | hrun⟩
    · rw [hrun, Reply.node_thrown, Action.dropSession_broken] at h
      rw [hr]
      exact h
    all_goals
      rw [hrun] at h
      rw [hr]
      exact h
  have h0 := applyBlock_broken hblock
  rwa [Action.startUndoSession_broken] at h0

/-- **A block in its session.** When it returns, the chain has one block more, which can be
undone; when it throws, the objects are those from before. -/
theorem Rewindable.applyInSession {clock : Nat} {skip : Skip} {b : SignedBlock} {id : BlockId}
    (h : Rewindable depth final stages k m) (hp : m.pendingSession = none) (hdepth : depth ≤ 1)
    (hts : b.timestamp < 2 ^ 32)
    (hb : (Node.applyInSession clock depth skip m b id).node.db.broken = false) :
    m.db.broken = false ∧
    (∀ m', Node.applyInSession clock depth skip m b id = .ok () m' →
      ∃ k', Rewindable depth (max final m.props.lastIrreversibleBlockNum)
        (⟨b, m.db.store⟩ :: stages) k' m') ∧
    ∀ e m', Node.applyInSession clock depth skip m b id = .thrown e m' →
      ∃ k', Rewindable depth (max final m.props.lastIrreversibleBlockNum) stages k' m' := by
  obtain ⟨hstanding, hstack, hroom⟩ := h
  have hidle : Idle stages k m.db := by
    cases hstanding with
    | idle _ hidle => exact hidle
    | busy base hp' _ =>
      rw [hp] at hp'
      cases hp'
  have hle := hidle.le
  have hstart := hidle.start
  obtain ⟨hexit, hs0, _, _, hm0⟩ := startUndoSession_flags hidle.enabled
  have hsize := hidle.room
  have hlib : m.db.store.props.lastIrreversibleBlockNum = m.props.lastIrreversibleBlockNum := rfl
  have happlied : (Node.applyBlock clock depth skip { m with db := (m.db.startUndoSession false).2 }
      b).node.db.broken = false → _ :=
    applyBlock_applied hstart hs0 hidle.lined (by omega) (by omega) hts
  rcases applyInSession_cases clock depth skip m b id with
    ⟨e, m₁, hr, hrun⟩ | ⟨u, m₁, hr, ⟨ha, e, hrun⟩ | hrun⟩
  · rw [hrun, Reply.node_thrown, Action.dropSession_broken] at hb
    rw [hr] at happlied
    obtain ⟨k', hk, hk', ha⟩ := happlied hb
    obtain ⟨hdrop, hexact⟩ := ha.session.exact.dropped ha.session.enabled
      (by rw [ha.session.sessions]; exact Nat.zero_lt_one)
    have hmax := ha.maxSize
    have hsession := ha.session
    have hpending := ha.pendingSession
    simp only [Reply.node_thrown] at hdrop hexact hmax hsession hpending
    simp only [hm0, hlib] at hk hmax
    refine ⟨hidle.whole, fun m' hm' => ?_, fun e' m' hm' => ?_⟩
    · rw [hrun] at hm'
      cases hm'
    obtain ⟨-, rfl⟩ := Reply.thrown.inj (hm'.symm.trans hrun)
    refine ⟨k', .idle (hpending.trans hp) ?_, by omega, ?_⟩
    · rw [hexit]
      rw [hdrop] at hexact ⊢
      exact ⟨hsession.enabled, hsession.whole, by simp only [hsession.sessions], hsession.room,
        hidle.lined, by omega, hexact⟩
    · rw [hexit, hdrop]
      show stages.length + 1 ≤ m₁.db.maxSize + _
      omega
  · -- the session of the block is open
    rw [hrun, Reply.node_thrown] at hb
    rw [hr] at happlied
    obtain ⟨k', hk, hk', ha'⟩ := happlied hb
    have hsessions := ha'.session.sessions
    rw [Reply.node_ok, ha] at hsessions
    cases hsessions
  · rw [hrun, Reply.node_ok] at hb
    rw [hr] at happlied
    obtain ⟨k', hk, hk', ha⟩ := happlied hb
    obtain ⟨hext, hfresh, hmax⟩ := ha.returned rfl
    have hsession := ha.session
    have hpending := ha.pendingSession
    simp only [Reply.node_ok] at hext hfresh hmax hsession hpending
    simp only [hm0, hlib] at hk hmax
    refine ⟨hidle.whole, fun m' hm' => ?_, fun e m' hm' => ?_⟩
    swap
    · rw [hrun] at hm'
      cases hm'
    obtain ⟨-, rfl⟩ := Reply.ok.inj (hm'.symm.trans hrun)
    refine ⟨k' + 1, .idle (hpending.trans hp) ?_, ?_, ?_⟩
    · exact ⟨hsession.enabled, hsession.whole, by simp only [hsession.sessions], hsession.room,
        .block hidle.lined hext hfresh, by simp only [List.length_cons]; omega,
        hsession.exact.rewinds, hsession.exact.length⟩
    · simp only [List.length_cons]
      omega
    · simp only [List.length_cons]
      omega

/-! ## 3. Pops -/

theorem popBlock_cases (held : List ForkItem) :
    (∃ e, m.popBlock held = .thrown e m.resetPending) ∨
    ∃ f, m.resetPending.forkDb.popBlock held = .ok f ∧
      ((∃ e d, m.resetPending.db.popCommit = .thrown e d ∧
        m.popBlock held = .thrown e { m.resetPending with forkDb := f, db := d }) ∨
      ∃ u d popped, m.resetPending.db.popCommit = .ok u d ∧
        m.popBlock held =
          .ok () { m.resetPending with forkDb := f, db := d, poppedTx := popped }) := by
  unfold Node.popBlock
  cases hb : m.resetPending.fetchBlockById m.resetPending.headBlockId with
  | none =>
    simp only [hb]
    exact .inl ⟨_, rfl⟩
  | some b =>
    cases hf : m.resetPending.forkDb.popBlock held with
    | error e => exact .inl ⟨e, by simp only [hb, hf]⟩
    | ok f =>
      cases hc : m.resetPending.db.popCommit with
      | thrown e d => exact .inr ⟨f, rfl, .inl ⟨e, d, rfl, by simp only [hb, hf, hc]⟩⟩
      | ok u d => exact .inr ⟨f, rfl, .inr ⟨u, d, _, rfl, by simp only [hb, hf, hc]; rfl⟩⟩

omit [Fc] in
theorem popCommit_broken {S : Schema} (d : Database S) : d.popCommit.db.broken = d.broken := by
  unfold Database.popCommit Database.rollbackState
  split
  · rfl
  · split
    · rfl
    · cases d.stack with
      | nil => rfl
      | cons u us =>
        cases hroll : rollbackStore u d.order d.store with
        | ok s => simp only [hroll]; rfl
        | error r => simp only [hroll]; rfl

theorem popBlock_broken {held : List ForkItem} (h : (m.popBlock held).node.db.broken = false) :
    m.db.broken = false := by
  have hd := popCommit_broken m.resetPending.db
  rw [resetPending_broken] at hd
  rcases popBlock_cases (m := m) held with ⟨e, hrun⟩ | ⟨f, _, ⟨e, d, hpop, hrun⟩ |
    ⟨u, d, popped, hpop, hrun⟩⟩
  · rwa [hrun, Reply.node_thrown, resetPending_broken] at h
  all_goals
    rw [hpop] at hd
    rw [hrun] at h
    exact hd.symm.trans h

/-- **One pop takes the newest block back.** -/
theorem Idle.popCommit {d : Database chainSchema} (h : Idle stages (k + 1) d) :
    ∃ st rest d', stages = st :: rest ∧ d.popCommit = .ok () d' ∧ d'.store = st.before ∧
      d'.maxSize = d.maxSize ∧ Idle rest k d' := by
  have hlined := h.lined
  have hexact := h.exact
  cases hst : stages with
  | nil =>
    have hle := h.le
    rw [hst] at hle
    exact absurd hle (Nat.not_succ_le_zero k)
  | cons st rest =>
    rw [hst] at hlined hexact
    have hle := h.le
    rw [hst, List.length_cons] at hle
    have hexact₁ : Exactly d (st.before :: snapshots rest k) := hexact
    obtain ⟨hpop, hexact'⟩ := hexact₁.popped h.sessions
    cases hlined with
    | block hl he hf =>
      exact ⟨_, rest, _, rfl, hpop, rfl, rfl, rfl, h.whole, h.sessions, h.room, hl, by omega,
        hexact'⟩

/-- Without a block that can be undone there is no pop. -/
theorem Idle.not_popCommit {d : Database chainSchema} (h : Idle stages 0 d) :
    ∃ e, d.popCommit = .thrown e d := h.exact.not_popped

theorem Rewindable.resetPending (h : Rewindable depth final stages k m) :
    Rewindable depth final stages k m.resetPending ∧ Idle stages k m.resetPending.db := by
  obtain ⟨hidle, hmax⟩ := h.standing.resetPending
  have hroom := h.room
  refine ⟨⟨.idle ?_ hidle, h.stack, by omega⟩, hidle⟩
  rw [resetPending_eq]

theorem Rewindable.popBlock {held : List ForkItem} (h : Rewindable depth final stages k m) :
    (∀ m', m.popBlock held = .ok () m' → ∃ k', Rewindable depth final stages.tail k' m') ∧
      ∀ e m', m.popBlock held = .thrown e m' → Rewindable depth final stages k m' := by
  obtain ⟨hreset, hidle⟩ := h.resetPending
  have hstack := hreset.stack
  have hroom := hreset.room
  have hp : m.resetPending.pendingSession = none := by rw [resetPending_eq]
  rcases popBlock_cases (m := m) held with ⟨e, hrun⟩ | ⟨f, _, ⟨e, d, hpop, hrun⟩ |
    ⟨u, d, popped, hpop, hrun⟩⟩
  · refine ⟨fun m' hm' => ?_, fun e' m' hm' => ?_⟩
    · rw [hrun] at hm'
      cases hm'
    · obtain ⟨-, rfl⟩ := Reply.thrown.inj (hm'.symm.trans hrun)
      exact hreset
  · refine ⟨fun m' hm' => ?_, fun e' m' hm' => ?_⟩
    · rw [hrun] at hm'
      cases hm'
    · obtain ⟨-, rfl⟩ := Reply.thrown.inj (hm'.symm.trans hrun)
      -- nothing is thrown but from an empty stack
      cases k with
      | zero =>
        obtain ⟨e', hnot⟩ := hidle.not_popCommit
        obtain ⟨-, rfl⟩ := Outcome.thrown.inj (hpop.symm.trans hnot)
        exact ⟨.idle hp hidle, hstack, hroom⟩
      | succ k =>
        obtain ⟨_, _, _, _, hpop', _⟩ := hidle.popCommit
        rw [hpop] at hpop'
        cases hpop'
  · refine ⟨fun m' hm' => ?_, fun e' m' hm' => ?_⟩
    · obtain ⟨-, rfl⟩ := Reply.ok.inj (hm'.symm.trans hrun)
      cases k with
      | zero =>
        obtain ⟨e', hnot⟩ := hidle.not_popCommit
        rw [hpop] at hnot
        cases hnot
      | succ k =>
        obtain ⟨st, rest, d', rfl, hpop', _, hmax, hidle'⟩ := hidle.popCommit
        obtain ⟨-, rfl⟩ := Outcome.ok.inj (hpop'.symm.trans hpop)
        simp only [List.length_cons] at hstack hroom
        refine ⟨k, .idle hp hidle', ?_, ?_⟩
        · show rest.length ≤ _
          omega
        · show rest.length + 1 ≤ d'.maxSize + final
          omega
    · rw [hrun] at hm'
      cases hm'

/-- **Some pops take as many blocks back.** -/
theorem Idle.popCommits {d : Database chainSchema} {times : Nat} (h : Idle stages k d)
    (ht : times ≤ k) : ∃ d', MuseChain.popCommits times d = .ok () d' ∧
      (d.store :: stages.map Stage.before)[times]? = some d'.store ∧
      d'.store.props.headBlockNumber = stages.length - times := by
  induction times generalizing stages k d with
  | zero => exact ⟨d, rfl, rfl, h.lined.number⟩
  | succ times ih =>
    obtain ⟨k, rfl⟩ : ∃ k', k = k' + 1 := ⟨k - 1, by omega⟩
    obtain ⟨st, rest, d₁, rfl, hpop, hstore, _, hidle⟩ := h.popCommit
    obtain ⟨d', hpops, hget, hnumber⟩ := ih hidle (by omega)
    refine ⟨d', ?_, ?_, ?_⟩
    · unfold MuseChain.popCommits
      rw [hpop]
      exact hpops
    · rw [hstore] at hget
      exact hget
    · rw [hnumber, List.length_cons, Nat.add_sub_add_right]

/-! ## 4. Runs -/

/-- `init_genesis` runs without the undo database. -/
theorem unlogged_initGenesis (g : GenesisState) : Unlogged (initGenesis g) := by
  have haccounts : Unlogged (initAccounts g) := by
    unfold initAccounts
    repeat' first | with_reducible apply unlogged_bind | intro _ | exact unlogged_create
    exact (looks_pure ()).unlogged
  have hglobals : Unlogged (initGlobals g) := by
    unfold initGlobals
    repeat' first | with_reducible apply unlogged_bind | intro _ | exact unlogged_create
    exact (looks_pure ()).unlogged
  have himport : ∀ a, Unlogged (importAccount a) := by
    intro a
    have hfee : ¬ 0 < (Asset.muse 0).amount := by decide
    unfold importAccount accountCreate
    simp only [if_neg hfee]
    repeat' first
      | with_reducible apply unlogged_bind | with_reducible apply unlogged_ite | intro _
      | exact Looks.unlogged (by simp) | exact unlogged_create | exact unlogged_modifyWith
  have hlook : ∀ {α : Type} {x : Act 0 α}, Looks x → Unlogged x := fun h => h.unlogged
  unfold initGenesis
  refine unlogged_bind haccounts fun _ => unlogged_bind hglobals fun _ => ?_
  refine unlogged_bind (unlogged_forEach himport) fun _ => ?_
  refine unlogged_bind (unlogged_forEach fun a => ?_) fun _ => ?_
  · exact unlogged_bind (hlook (by simp)) fun _ => unlogged_bind unlogged_create fun _ =>
      hlook (by simp)
  refine unlogged_bind (unlogged_forEach fun b => ?_) fun _ => unlogged_forEach fun v => ?_
  · exact unlogged_bind unlogged_create fun _ => unlogged_bind unlogged_modifyWith fun _ =>
      unlogged_modifyWith
  · exact unlogged_bind (hlook (by simp)) fun _ => unlogged_bind unlogged_modifyWith fun _ =>
      unlogged_modifyWith

/-- The genesis has no block to pop. -/
theorem rewindable_genesis (g : GenesisState) (depth : Nat)
    (hb : (Node.genesis g).db.broken = false) : Rewindable depth 0 [] 0 (Node.genesis g) := by
  have hstack := ((unlogged_initGenesis g).same emptyDatabase rfl).2
  have hholds := (initGenesis g).holds emptyDatabase
  have hnumbered := genesis_numbered g
  have hhead := (genesis_start g).2.1
  unfold Node.genesis at hb hnumbered hhead ⊢
  generalize ((initGenesis g).run emptyDatabase).db = d at hb hstack hholds hnumbered hhead ⊢
  obtain ⟨_, _, htidy⟩ := hholds hb
  obtain ⟨hfresh, hmax, _, hact, _⟩ := htidy (Nat.zero_le _) emptyStore_fresh
  have hsize : d.maxSize = 256 := hmax
  refine ⟨.idle rfl ⟨rfl, hb, hact, ?_, .genesis hnumbered hhead hfresh, Nat.le_refl 0, .nil _ _,
    congrArg List.length hstack⟩, Nat.zero_le _, ?_⟩
  · show 2 ≤ d.maxSize
    omega
  · show 0 + 1 ≤ d.maxSize + 0
    omega

/-- **Every step keeps the undo history long enough.** -/
theorem Node.Lives.rewindable {g : GenesisState} (h : Node.Lives depth g final stages m)
    (hdepth : depth ≤ 1) (hb : m.db.broken = false) : ∃ k, Rewindable depth final stages k m := by
  induction h with
  | genesis => exact ⟨0, rewindable_genesis g depth hb⟩
  | @applied _ _ m _ clock skip b id _ hp hts hrun ih =>
    have hb' : (Node.applyInSession clock depth skip m b id).node.db.broken = false := by
      rw [hrun]
      exact hb
    obtain ⟨k, hk⟩ := ih (applyInSession_broken hb')
    exact (hk.applyInSession hp hdepth hts hb').2.1 _ hrun
  | @failed _ _ m _ clock skip b id _ _ hp hts hrun ih =>
    have hb' : (Node.applyInSession clock depth skip m b id).node.db.broken = false := by
      rw [hrun]
      exact hb
    obtain ⟨k, hk⟩ := ih (applyInSession_broken hb')
    exact (hk.applyInSession hp hdepth hts hb').2.2 _ _ hrun
  | @transaction final stages m clock skip trx _ ih =>
    obtain ⟨k, hstanding, hstack, hroom⟩ := ih (pushTransactionOnly_broken hb).2
    have hsize := hstanding.room
    obtain ⟨k', hk, hk', hstanding', hbeside⟩ :=
      hstanding.pushTransactionOnly (by omega) hb
    have hmax := hbeside.maxSize
    exact ⟨k', hstanding', by omega, by omega⟩
  | @opened final stages m _ ih =>
    obtain ⟨k, hstanding, hstack, hroom⟩ := ih ((openPending_beside m).2.2.2.symm.trans hb)
    have hsize := hstanding.room
    obtain ⟨base, k', hk, hk', hp, hbusy, hmax⟩ := hstanding.openPending
    exact ⟨k', .busy base hp hbusy, by omega, by omega⟩
  | reset _ ih =>
    rw [resetPending_broken] at hb
    obtain ⟨k, hk⟩ := ih hb
    exact ⟨k, hk.resetPending.1⟩
  | @popped final stages m m' held _ hrun ih =>
    have hb' : (m.popBlock held).node.db.broken = false := by
      rw [hrun]
      exact hb
    obtain ⟨k, hk⟩ := ih (popBlock_broken hb')
    exact hk.popBlock.1 _ hrun
  | @notPopped final stages m m' held e _ hrun ih =>
    have hb' : (m.popBlock held).node.db.broken = false := by
      rw [hrun]
      exact hb
    obtain ⟨k, hk⟩ := ih (popBlock_broken hb')
    exact ⟨k, hk.popBlock.2 _ _ hrun⟩
  | @beside final stages m m' _ hdb hpending ih =>
    rw [hdb] at hb
    obtain ⟨k, hstanding, hstack, hroom⟩ := ih hb
    refine ⟨k, ?_, hstack, hdb ▸ hroom⟩
    cases hstanding with
    | idle hp h => exact .idle (hpending.trans hp) (hdb ▸ h)
    | busy base hp h => exact .busy base (hpending.trans hp) (hdb ▸ h)

end

end

/-! ## 5. The calls of a node -/

namespace ForkDb

/-- The times of the blocks have 32 bits. -/
def Timed (f : ForkDb) : Prop := ∀ x ∈ f.alive, x.data.timestamp < 2 ^ 32

variable {f f' : ForkDb} {held l r : List ForkItem} {x y a b : ForkItem}

theorem Timed.remove (h : f.Timed) (id : BlockId) : (f.remove id).Timed := by
  intro x hx
  rcases mem_alive.mp hx with hi | hh
  · exact h x (mem_alive.mpr (.inl (List.mem_filter.mp hi).1))
  · exact h x (mem_alive.mpr (.inr hh))

theorem Timed.setMaxSize (h : f.Timed) (size : Nat) : (f.setMaxSize size).Timed := by
  intro x hx
  unfold ForkDb.setMaxSize at hx
  split at hx
  · exact h x hx
  · rcases mem_alive.mp hx with hi | hh
    · exact h x (mem_alive.mpr (.inl (List.mem_filter.mp hi).1))
    · exact h x (mem_alive.mpr (.inr hh))

theorem Timed.setHead (h : f.Timed) (hx : x.data.timestamp < 2 ^ 32) : (f.setHead x).Timed := by
  intro y hy
  rcases mem_alive.mp hy with hi | hh
  · exact h y (mem_alive.mpr (.inl hi))
  · obtain rfl : x = y := Option.some.inj hh
    exact hx

theorem Timed.popBlock (h : f.Timed) (hheld : ∀ x ∈ held, x.data.timestamp < 2 ^ 32)
    (hr : f.popBlock held = .ok f') : f'.Timed := by
  unfold ForkDb.popBlock at hr
  split at hr
  · cases hr
  · split at hr
    · cases hr
    · rename_i p hlock
      cases hr
      refine h.setHead ?_
      rcases List.mem_append.mp (lock_some hlock).2 with hp | hp
      · exact h p hp
      · exact hheld p hp

theorem Timed.pushBlock [Fc] (h : f.Timed) {b : SignedBlock} (hb : b.timestamp < 2 ^ 32)
    (hr : f.pushBlock b = .ok f') : f'.Timed := by
  unfold ForkDb.pushBlock at hr
  obtain ⟨prev, _, hr⟩ := except_bind_ok.mp hr
  cases hr
  intro x hx
  rcases mem_alive_advance hx with hx | rfl
  · rcases mem_alive.mp hx with hi | hh
    · rcases mem_insert hi with hi | rfl
      · exact h x (mem_alive.mpr (.inl hi))
      · exact hb
    · exact h x (mem_alive.mpr (.inr hh))
  · exact hb

/-- What a branch is made of. -/
theorem Timed.climb (h : f.Timed) {num fuel : Nat} (hx : x.data.timestamp < 2 ^ 32)
    (hl : ∀ z ∈ l, z.data.timestamp < 2 ^ 32) (hr : f.climb num fuel x l = .ok (y, r)) :
    y.data.timestamp < 2 ^ 32 ∧ ∀ z ∈ r, z.data.timestamp < 2 ^ 32 := by
  induction fuel generalizing x l with
  | zero => cases hr
  | succ fuel ih =>
    unfold ForkDb.climb at hr
    split at hr
    · split at hr
      · cases hr
      · rename_i p hlock
        refine ih ?_ ?_ hr
        · exact h p (by simpa using (lock_some hlock).2)
        · intro z hz
          rcases List.mem_append.mp hz with hz | hz
          · exact hl z hz
          · exact List.mem_singleton.mp hz ▸ hx
    · cases hr
      exact ⟨hx, hl⟩

theorem Timed.climbBoth (h : f.Timed) {fuel : Nat} {first second : List ForkItem}
    (ha : a.data.timestamp < 2 ^ 32) (hb : b.data.timestamp < 2 ^ 32)
    (hl : ∀ z ∈ first ++ second, z.data.timestamp < 2 ^ 32)
    (hr : f.climbBoth fuel a b first second = .ok (l, r)) :
    ∀ z ∈ l ++ r, z.data.timestamp < 2 ^ 32 := by
  have hmore : ∀ z ∈ (first ++ [a]) ++ (second ++ [b]), z.data.timestamp < 2 ^ 32 := by
    intro z hz
    simp only [List.mem_append, List.mem_singleton] at hz hl
    rcases hz with (hz | rfl) | hz | rfl
    · exact hl z (.inl hz)
    · exact ha
    · exact hl z (.inr hz)
    · exact hb
  induction fuel generalizing a b first second with
  | zero => cases hr
  | succ fuel ih =>
    unfold ForkDb.climbBoth at hr
    split at hr
    · cases hr
      exact hmore
    · split at hr
      · rename_i p q hp hq
        have hp := h p (by simpa using (lock_some hp).2)
        have hq := h q (by simpa using (lock_some hq).2)
        refine ih hp hq hmore hr fun z hz => ?_
        simp only [List.mem_append, List.mem_singleton] at hz hmore
        rcases hz with (hz | rfl) | hz | rfl
        · exact hmore z (.inl hz)
        · exact hp
        · exact hmore z (.inr hz)
        · exact hq
      · cases hr

theorem Timed.find (h : f.Timed) {id : BlockId} (hx : f.find id = some x) :
    x.data.timestamp < 2 ^ 32 :=
  h x (mem_alive.mpr (.inl (List.mem_of_find?_eq_some hx)))

theorem Timed.fetchBranchFrom (h : f.Timed) {first second : BlockId}
    (hr : f.fetchBranchFrom first second = .ok (l, r)) :
    ∀ z ∈ l ++ r, z.data.timestamp < 2 ^ 32 := by
  unfold ForkDb.fetchBranchFrom at hr
  split at hr
  · rename_i a b ha hb
    obtain ⟨⟨a', l'⟩, h1, hr⟩ := except_bind_ok.mp hr
    obtain ⟨⟨b', r'⟩, h2, hr⟩ := except_bind_ok.mp hr
    obtain ⟨ha', hl'⟩ := h.climb (h.find ha) (List.forall_mem_nil _) h1
    obtain ⟨hb', hr'⟩ := h.climb (h.find hb) (List.forall_mem_nil _) h2
    refine h.climbBoth ha' hb' (fun z hz => ?_) hr
    rcases List.mem_append.mp hz with hz | hz
    · exact hl' z hz
    · exact hr' z hz
  · cases hr

end ForkDb

section

variable [Fc] (clock : Nat) (skip : Skip) {depth : Nat} {g : GenesisState} {m m' : Node}

/-- A node made by steps, with 32 bits for the times in its fork database. -/
structure Node.Housed (depth : Nat) (g : GenesisState) (m : Node) : Prop where
  lives : ∃ final stages, Node.Lives depth g final stages m
  timed : m.forkDb.Timed

/-- No transactions are pending. -/
structure Node.Quiet (depth : Nat) (g : GenesisState) (m : Node) : Prop
    extends Node.Housed depth g m where
  closed : m.pendingSession = none

theorem Node.Housed.beside (h : m.Housed depth g) (hdb : m'.db = m.db)
    (hp : m'.pendingSession = m.pendingSession) (hf : m'.forkDb.Timed) : m'.Housed depth g := by
  obtain ⟨final, stages, hl⟩ := h.lives
  exact ⟨⟨final, stages, hl.beside hdb hp⟩, hf⟩

theorem Node.Quiet.beside (h : m.Quiet depth g) (hdb : m'.db = m.db)
    (hp : m'.pendingSession = m.pendingSession) (hf : m'.forkDb.Timed) : m'.Quiet depth g :=
  ⟨h.toHoused.beside hdb hp hf, hp.trans h.closed⟩

theorem Node.Housed.resetPending (h : m.Housed depth g) : m.resetPending.Quiet depth g := by
  obtain ⟨final, stages, hl⟩ := h.lives
  have heq := resetPending_eq m
  refine ⟨⟨⟨final, stages, hl.reset⟩, ?_⟩, ?_⟩
  · rw [heq]
    exact h.timed
  · rw [heq]

/-- What a block leaves beside the objects. -/
theorem applyBlock_beside (depth : Nat) (m : Node) (b : SignedBlock) :
    (Node.applyBlock clock depth skip m b).node.pendingSession = m.pendingSession ∧
      ((Node.applyBlock clock depth skip m b).node.forkDb = m.forkDb ∨
      ∃ size, (Node.applyBlock clock depth skip m b).node.forkDb = m.forkDb.setMaxSize size) := by
  unfold Node.applyBlock
  cases hskip : m.checkpointSkip skip b with
  | error e => exact ⟨rfl, .inl rfl⟩
  | ok skip' =>
    cases hfirst : (applyBlockFirst clock skip' depth b).run m.db with
    | thrown e d =>
      simp only [hfirst]
      exact ⟨rfl, .inl rfl⟩
    | ok key d =>
      cases hrest : (applyBlockRest clock depth key b).run
          (Node.setMaxSizes { m with db := d }).db with
      | thrown e d' =>
        simp only [hfirst, hrest]
        exact ⟨rfl, .inr ⟨_, rfl⟩⟩
      | ok u d' =>
        simp only [hfirst, hrest]
        exact ⟨rfl, .inr ⟨_, rfl⟩⟩

theorem Node.Quiet.applyInSession {b : SignedBlock} (id : BlockId) (h : m.Quiet depth g)
    (hts : b.timestamp < 2 ^ 32) :
    (Node.applyInSession clock depth skip m b id).node.Quiet depth g := by
  obtain ⟨final, stages, hl⟩ := h.lives
  obtain ⟨hp, hf⟩ := applyBlock_beside clock skip depth
    { m with db := (m.db.startUndoSession false).2 } b
  have htimed : (Node.applyBlock clock depth skip
      { m with db := (m.db.startUndoSession false).2 } b).node.forkDb.Timed := by
    rcases hf with hf | ⟨size, hf⟩
    · rw [hf]
      exact h.timed
    · rw [hf]
      exact h.timed.setMaxSize size
  have hlives : ∃ final stages, Node.Lives depth g final stages
      (Node.applyInSession clock depth skip m b id).node := by
    cases hrun : Node.applyInSession clock depth skip m b id with
    | ok u m' => exact ⟨_, _, hl.applied h.closed hts hrun⟩
    | thrown e m' => exact ⟨_, _, hl.failed h.closed hts hrun⟩
  rcases applyInSession_cases clock depth skip m b id with
    ⟨e, m₁, hr, hrun⟩ | ⟨u, m₁, hr, ⟨_, e, hrun⟩ | hrun⟩
  all_goals
    rw [hr] at hp htimed
    rw [hrun] at hlives ⊢
    exact ⟨⟨hlives, htimed⟩, hp.trans h.closed⟩

theorem Node.Housed.popBlock {held : List ForkItem} (h : m.Housed depth g)
    (hheld : ∀ x ∈ held, x.data.timestamp < 2 ^ 32) :
    (m.popBlock held).node.Quiet depth g := by
  obtain ⟨final, stages, hl⟩ := h.lives
  have hquiet := h.resetPending
  have hlives : ∃ final stages, Node.Lives depth g final stages (m.popBlock held).node := by
    cases hrun : m.popBlock held with
    | ok u m' => exact ⟨_, _, hl.popped hrun⟩
    | thrown e m' => exact ⟨_, _, hl.notPopped hrun⟩
  rcases popBlock_cases (m := m) held with ⟨e, hrun⟩ | ⟨f, hf, ⟨e, d, _, hrun⟩ |
    ⟨u, d, popped, _, hrun⟩⟩
  · rw [hrun]
    exact hquiet
  · rw [hrun] at hlives ⊢
    exact ⟨⟨hlives, hquiet.timed.popBlock hheld hf⟩, hquiet.closed⟩
  · rw [hrun] at hlives ⊢
    exact ⟨⟨hlives, hquiet.timed.popBlock hheld hf⟩, hquiet.closed⟩

theorem Node.Quiet.popTo {held : List ForkItem} (id : BlockId) (h : m.Quiet depth g)
    (hheld : ∀ x ∈ held, x.data.timestamp < 2 ^ 32) : (m.popTo held id).node.Quiet depth g := by
  unfold Node.popTo
  generalize m.db.stack.length + 2 = fuel
  induction fuel generalizing m with
  | zero => exact h
  | succ fuel ih =>
    unfold Node.popUntil
    split
    · exact h
    · have hpop := h.toHoused.popBlock hheld
      cases hrun : m.popBlock held with
      | thrown e m' =>
        rw [hrun] at hpop
        exact hpop
      | ok u m' =>
        rw [hrun] at hpop
        exact ih hpop

/-! The switch of forks. -/

theorem Node.Quiet.restoreEach {newId : BlockId} {l : List ForkItem} (h : m.Quiet depth g)
    (hl : ∀ x ∈ l, x.data.timestamp < 2 ^ 32) :
    (Node.restoreEach clock depth skip newId l m).node.Quiet depth g := by
  induction l generalizing m with
  | nil => exact h
  | cons item rest ih =>
    have happly := h.applyInSession clock skip newId
      (hl item List.mem_cons_self)
    unfold Node.restoreEach
    cases hrun : Node.applyInSession clock depth skip m item.data newId with
    | thrown e m' =>
      rw [hrun] at happly
      exact happly
    | ok u m' =>
      rw [hrun] at happly
      exact ih happly fun x hx => hl x (List.mem_cons_of_mem _ hx)

theorem ForkDb.Timed.removeAll {f : ForkDb} (h : f.Timed) (l : List ForkItem) :
    ForkDb.Timed (l.foldl (fun f : ForkDb => fun item : ForkItem =>
      f.remove item.data.toSignedBlockHeader.id) f) := by
  induction l generalizing f with
  | nil => exact h
  | cons item rest ih => exact ih (h.remove _)

theorem Node.Quiet.failSwitch {newId : BlockId} {br : Node.Branches} {rest : List ForkItem}
    {e : Exn} (h : m.Quiet depth g) (hbr : ∀ x ∈ br.held, x.data.timestamp < 2 ^ 32) :
    (Node.failSwitch clock depth skip m newId br rest e).node.Quiet depth g := by
  have hsecond : ∀ x ∈ br.second, x.data.timestamp < 2 ^ 32 := fun x hx =>
    hbr x (List.mem_append_right _ hx)
  have hdropped := h.timed.removeAll rest
  -- back to the common block, and up the old branch again
  have hback : ∀ f : ForkDb, f.Timed →
      (Node.popTo { m with forkDb := f } br.held br.base).node.Quiet depth g ∧
      ∀ u m₁, Node.popTo { m with forkDb := f } br.held br.base = .ok u m₁ →
        (Node.restoreEach clock depth skip newId br.second.reverse m₁).node.Quiet depth g := by
    intro f hf
    have hmoved : Node.Quiet depth g { m with forkDb := f } := h.beside rfl rfl hf
    have hpop := hmoved.popTo br.base hbr
    refine ⟨hpop, fun u m₁ hrun => ?_⟩
    rw [hrun] at hpop
    exact Node.Quiet.restoreEach clock skip hpop fun x hx => hsecond x (List.mem_reverse.mp hx)
  unfold Node.failSwitch
  split
  case' h_1 front l hs =>
    obtain ⟨hpop, hrestore⟩ :=
      hback _ (hdropped.setHead (hsecond front (hs ▸ List.mem_cons_self)))
  case' h_2 =>
    obtain ⟨hpop, hrestore⟩ := hback _ hdropped
  all_goals
    dsimp only
    split
    · rename_i hrun
      rw [hrun] at hpop
      exact hpop
    · rename_i hrun
      have hrestored := hrestore _ _ hrun
      split
      · rename_i hend
        rw [hend] at hrestored
        exact hrestored
      · rename_i hend
        rw [hend] at hrestored
        exact hrestored

theorem Node.Quiet.pushEach {newId : BlockId} {br : Node.Branches} {l : List ForkItem}
    (h : m.Quiet depth g) (hbr : ∀ x ∈ br.held, x.data.timestamp < 2 ^ 32)
    (hl : ∀ x ∈ l, x.data.timestamp < 2 ^ 32) :
    (Node.pushEach clock depth skip newId br l m).node.Quiet depth g := by
  induction l generalizing m with
  | nil => exact h
  | cons item rest ih =>
    have happly := h.applyInSession clock skip item.id
      (hl item List.mem_cons_self)
    unfold Node.pushEach
    cases hrun : Node.applyInSession clock depth skip m item.data item.id with
    | ok u m' =>
      rw [hrun] at happly
      exact ih happly fun x hx => hl x (List.mem_cons_of_mem _ hx)
    | thrown e m' =>
      rw [hrun, Reply.node_thrown] at happly
      cases e with
      | crash why => exact happly
      | assert msg => exact happly.failSwitch clock skip hbr
      | overflow msg => exact happly.failSwitch clock skip hbr

theorem Node.Quiet.switchForks {newId : BlockId} {newHead : ForkItem} (h : m.Quiet depth g) :
    (Node.switchForks clock depth skip m newId newHead).node.Quiet depth g := by
  unfold Node.switchForks
  cases hbr : m.forkDb.fetchBranchFrom newHead.id m.headBlockId with
  | error e => exact h
  | ok p =>
    have hheld := h.timed.fetchBranchFrom hbr
    have hpop : (m.popTo (Node.Branches.mk p.1 p.2).held
        (Node.Branches.mk p.1 p.2).base).node.Quiet depth g := h.popTo _ hheld
    cases hrun : m.popTo (Node.Branches.mk p.1 p.2).held (Node.Branches.mk p.1 p.2).base with
    | thrown e m' =>
      rw [hrun] at hpop
      simp only [hrun]
      exact hpop
    | ok u m' =>
      rw [hrun] at hpop
      simp only [hrun]
      exact Node.Quiet.pushEach clock skip hpop hheld fun x hx =>
        hheld x (List.mem_append_left _ (List.mem_reverse.mp hx))

theorem Node.Quiet.extendChain {b : SignedBlock} (h : m.Quiet depth g)
    (hts : b.timestamp < 2 ^ 32) :
    (Node.extendChain clock depth skip m b).node.Quiet depth g := by
  have happly := h.applyInSession clock skip b.toSignedBlockHeader.id hts
  unfold Node.extendChain
  cases hrun : Node.applyInSession clock depth skip m b b.toSignedBlockHeader.id with
  | ok u m' =>
    rw [hrun] at happly
    exact happly
  | thrown e m' =>
    rw [hrun, Reply.node_thrown] at happly
    cases e with
    | crash why => exact happly
    | assert msg => exact happly.beside rfl rfl (happly.timed.remove _)
    | overflow msg => exact happly.beside rfl rfl (happly.timed.remove _)

theorem Node.Quiet.pushBlockOnly {b : SignedBlock} (h : m.Quiet depth g)
    (hts : b.timestamp < 2 ^ 32) :
    (Node.pushBlockOnly clock depth skip m b).node.Quiet depth g := by
  unfold Node.pushBlockOnly
  split
  · exact h.extendChain clock skip hts
  · cases hpush : m.forkDb.pushBlock b with
    | error e => exact h
    | ok f =>
      have hf : Node.Quiet depth g { m with forkDb := f } :=
        h.beside rfl rfl (h.timed.pushBlock hts hpush)
      cases hhead : f.head with
      | none =>
        simp only [hhead]
        exact hf
      | some newHead =>
        simp only [hhead]
        split
        · exact hf.extendChain clock skip hts
        · split
          · exact hf.switchForks clock skip
          · exact hf

/-! Pending transactions. -/

theorem pushTransactionOnly_forkDb (m : Node) (trx : Transaction) :
    (Node.pushTransactionOnly clock depth skip m trx).node.forkDb = m.forkDb := by
  rw [Node.pushTransactionOnly_eq]
  cases hr : (applyTransaction clock skip depth trx).run
      (m.openPending.db.startUndoSession false).2 with
  | thrown e d => exact (openPending_beside m).1
  | ok u d =>
    cases hmerge : d.merge with
    | thrown e d' =>
      simp only [hmerge]
      exact (openPending_beside m).1
    | ok u' d' =>
      simp only [hmerge]
      exact (openPending_beside m).1

theorem Node.Housed.pushTransactionOnly (trx : Transaction) (h : m.Housed depth g) :
    (Node.pushTransactionOnly clock depth skip m trx).node.Housed depth g := by
  obtain ⟨final, stages, hl⟩ := h.lives
  refine ⟨⟨final, stages, hl.transaction clock skip trx⟩, ?_⟩
  rw [pushTransactionOnly_forkDb]
  exact h.timed

theorem Node.Housed.restorePending (l : List Transaction) (h : m.Housed depth g) :
    (Node.restorePending clock depth skip l m).Housed depth g := by
  induction l generalizing m with
  | nil => exact h
  | cons trx rest ih =>
    unfold Node.restorePending
    split
    · exact ih h
    · exact ih (h.pushTransactionOnly clock skip trx)

/-- **`push_block` takes such steps only.** -/
theorem Node.Housed.pushBlock {b : SignedBlock} (h : m.Housed depth g)
    (hts : b.timestamp < 2 ^ 32) : (Node.pushBlock clock depth skip m b).node.Housed depth g := by
  have hstart : Node.Housed depth g { m with pendingTx := [] } := h.beside rfl rfl h.timed
  have hpush := hstart.resetPending.pushBlockOnly clock skip hts
  have hrestore : ∀ m₁ : Node, m₁.Housed depth g →
      (Node.restorePending clock depth skip m.pendingTx
        { Node.restorePending clock depth skip m₁.poppedTx m₁ with poppedTx := [] }).Housed
        depth g := fun m₁ h₁ =>
    have h₂ := h₁.restorePending clock skip m₁.poppedTx
    have h₃ : Node.Housed depth g { Node.restorePending clock depth skip m₁.poppedTx m₁ with
      poppedTx := [] } := h₂.beside rfl rfl h₂.timed
    h₃.restorePending clock skip m.pendingTx
  unfold Node.pushBlock Node.withoutPending
  cases hrun : Node.pushBlockOnly clock depth skip { m with pendingTx := [] }.resetPending b with
  | ok u m' =>
    rw [hrun] at hpush
    simp only [hrun]
    exact hrestore m' hpush.toHoused
  | thrown e m' =>
    rw [hrun, Reply.node_thrown] at hpush
    simp only [hrun]
    cases e with
    | crash why => exact hpush.toHoused
    | assert msg => exact hrestore m' hpush.toHoused
    | overflow msg => exact hrestore m' hpush.toHoused

theorem Node.Housed.pushedBlock {b : SignedBlock} (h : m.Housed depth g)
    (hts : b.timestamp < 2 ^ 32) :
    (∀ r m', Node.pushBlock clock depth skip m b = .ok r m' → m'.Housed depth g) ∧
      ∀ e m', Node.pushBlock clock depth skip m b = .thrown e m' → m'.Housed depth g := by
  have hpush := h.pushBlock clock skip hts
  refine ⟨fun r m' hrun => ?_, fun e m' hrun => ?_⟩
  · rw [hrun] at hpush
    exact hpush
  · rw [hrun] at hpush
    exact hpush

theorem Node.Housed.pushTransaction (trx : Transaction) (h : m.Housed depth g) :
    (Node.pushTransaction clock depth skip m trx).node.Housed depth g := by
  unfold Node.pushTransaction
  split
  · exact h.pushTransactionOnly clock skip trx
  · exact h

/-! New blocks. -/

theorem looks_blockHeader (when_ : Nat) (witnessOwner : String) (key : Nat) :
    Looks (Node.blockHeader skip when_ witnessOwner key) := by
  unfold Node.blockHeader
  repeat' first | with_reducible apply looks_bind | intro _ | simp

theorem blockHeader_timestamp {when_ : Nat} {witnessOwner : String} {key : Nat}
    {d d' : Database chainSchema} {header : SignedBlockHeader}
    (h : (Node.blockHeader skip when_ witnessOwner key).run d = .ok header d') :
    header.timestamp = when_ := by
  unfold Node.blockHeader at h
  obtain ⟨_, _, _, h⟩ := Action.bind_ok.mp h
  obtain ⟨_, h⟩ := Action.bind_require_ok.mp h
  obtain ⟨_, _, _, h⟩ := Action.bind_ok.mp h
  obtain ⟨_, h⟩ := Action.bind_require_ok.mp h
  obtain ⟨_, _, _, h⟩ := Action.bind_ok.mp h
  obtain ⟨_, h⟩ := Action.bind_require_ok.mp h
  obtain ⟨_, _, _, h⟩ := Action.bind_ok.mp h
  obtain ⟨_, _, _, h⟩ := Action.bind_ok.mp h
  cases h
  rfl

theorem Node.Housed.openPending (h : m.Housed depth g) : m.openPending.Housed depth g := by
  obtain ⟨final, stages, hl⟩ := h.lives
  exact ⟨⟨final, stages, hl.opened⟩, (openPending_beside m).1 ▸ h.timed⟩

/-- A transaction that is tried for a new block leaves what `_push_transaction` leaves. -/
theorem Node.Housed.includeEach {when_ maximum size : Nat} {l included trxs : List Transaction}
    (h : m.Housed depth g) (hp : m.openPending = m)
    (hr : Node.includeEach clock depth skip when_ maximum l size included m = .ok (trxs, m')) :
    m'.Housed depth g := by
  have hsame : ∀ d, Node.openPending { m with db := d } = { m with db := d } := by
    intro d
    unfold Node.openPending at hp ⊢
    cases hs : m.pendingSession with
    | some exit => rfl
    | none =>
      rw [hs] at hp
      have hnone := congrArg Node.pendingSession hp
      simp only [hs] at hnone
      cases hnone
  induction l generalizing m size included with
  | nil =>
    obtain ⟨-, rfl⟩ := Prod.mk.inj (Except.ok.inj hr)
    exact h
  | cons trx rest ih =>
    have hpush := h.pushTransactionOnly clock skip trx
    rw [Node.pushTransactionOnly_eq, hp] at hpush
    have hgo : ∀ {d : Database chainSchema} {size : Nat} {included : List Transaction},
        Node.Housed depth g { m with db := d } →
        Node.includeEach clock depth skip when_ maximum rest size included { m with db := d } =
          .ok (trxs, m') → m'.Housed depth g := fun {d} _ _ hd hrun =>
      ih hd (hsame d) hrun fun d' => hsame d'
    unfold Node.includeEach at hr
    split at hr
    · exact ih h hp hr hsame
    · split at hr
      · exact ih h hp hr hsame
      · cases hrun : (applyTransaction clock skip depth trx).run
            (m.db.startUndoSession false).2 with
        | thrown e d =>
          simp only [hrun] at hr hpush
          cases e with
          | crash why => cases hr
          | assert msg => exact hgo hpush hr
          | overflow msg => exact hgo hpush hr
        | ok u d =>
          simp only [hrun] at hr hpush
          cases hmerge : d.merge with
          | ok u' d' =>
            simp only [hmerge, Reply.node_ok] at hr hpush
            exact hgo (hpush.beside rfl rfl hpush.timed) hr
          | thrown e d' =>
            simp only [hmerge, Reply.node_thrown] at hr hpush
            exact hgo (hpush.beside rfl rfl hpush.timed) hr

theorem Node.Housed.generateBlock {when_ : Nat} (witnessOwner : String) (key : Nat)
    (h : m.Housed depth g) (hts : when_ < 2 ^ 32) :
    (Node.generateBlock clock depth skip m when_ witnessOwner key).node.Housed depth g := by
  unfold Node.generateBlock
  cases hheader : (Node.blockHeader skip when_ witnessOwner key).run m.db with
  | thrown e d =>
    have hd := (looks_blockHeader skip when_ witnessOwner key).same m.db
    rw [hheader] at hd
    exact h.beside hd rfl h.timed
  | ok header d =>
    have htime := blockHeader_timestamp skip hheader
    have hopen := h.resetPending.toHoused.openPending
    have hpending : m.resetPending.pendingSession = none := h.resetPending.closed
    have heq : m.resetPending.openPending = { m.resetPending with
        db := (m.resetPending.db.startUndoSession false).2
        pendingSession := some (m.resetPending.db.startUndoSession false).1 } := by
      unfold Node.openPending
      rw [hpending]
    rw [heq] at hopen
    dsimp only
    split
    · exact hopen
    · rename_i included m₁ hrun
      have hm₁ := (hopen.includeEach clock skip rfl hrun).resetPending.toHoused
      -- signed or not
      split
      all_goals
        split
        · split
          · rename_i hpushed
            exact (hm₁.pushedBlock clock skip (htime ▸ hts)).1 _ _ hpushed
          · rename_i hpushed
            exact (hm₁.pushedBlock clock skip (htime ▸ hts)).2 _ _ hpushed
        · exact hm₁

/-! ## 6. Runs of a node -/

/-- The nodes that the calls lead to. -/
inductive Node.Run (depth : Nat) (g : GenesisState) : Node → Prop
  | genesis : Run depth g (Node.genesis g)
  | addCheckpoints {m : Node} (checkpoints : List (Nat × BlockId)) : Run depth g m →
      Run depth g { m with checkpoints := checkpoints }
  | pushBlock {m : Node} (clock : Nat) (skip : Skip) (b : SignedBlock) : Run depth g m →
      b.timestamp < 2 ^ 32 → Run depth g (Node.pushBlock clock depth skip m b).node
  | pushTransaction {m : Node} (clock : Nat) (skip : Skip) (trx : Transaction) : Run depth g m →
      Run depth g (Node.pushTransaction clock depth skip m trx).node
  | generateBlock {m : Node} (clock : Nat) (skip : Skip) (when_ : Nat) (witnessOwner : String)
      (key : Nat) : Run depth g m → when_ < 2 ^ 32 →
      Run depth g (Node.generateBlock clock depth skip m when_ witnessOwner key).node
  | popBlock {m : Node} : Run depth g m → Run depth g (m.popBlock []).node

theorem Node.Run.housed (h : Node.Run depth g m) : m.Housed depth g := by
  induction h with
  | genesis => exact ⟨⟨0, [], .genesis⟩, by intro x hx; cases hx⟩
  | addCheckpoints checkpoints _ ih => exact ih.beside rfl rfl ih.timed
  | pushBlock clock skip b _ hts ih => exact ih.pushBlock clock skip hts
  | pushTransaction clock skip trx _ ih => exact ih.pushTransaction clock skip trx
  | generateBlock clock skip when_ witnessOwner key _ hts ih =>
    exact ih.generateBlock clock skip witnessOwner key hts
  | popBlock _ ih => exact (ih.popBlock (List.forall_mem_nil _)).toHoused

theorem Node.Run.pushBlocks {bs : List SignedBlock} (h : Node.Run depth g m)
    (hts : ∀ b ∈ bs, b.timestamp < 2 ^ 32) :
    Node.Run depth g (bs.foldl (fun m b => (Node.pushBlock clock depth skip m b).node) m) := by
  induction bs generalizing m with
  | nil => exact h
  | cons b bs ih =>
    exact ih (h.pushBlock clock skip b (hts b List.mem_cons_self)) fun c hc =>
      hts c (List.mem_cons_of_mem _ hc)

/-- **The blocks that can still be reversed can be popped.** Whatever was pushed, generated and
popped before, switched to and thrown: there is a history of the node, and in each of its histories
the node's chain are the blocks of `stages`, and above the highest last irreversible block `final`
that it ever had when it applied a block, each block can be taken back, the newest first, to the
objects from before it. Where proposals execute (`depth` is one), the block right above `final` may
be lost. -/
theorem reversible_blocks_pop (h : Node.Run depth g m) (hdepth : depth ≤ 1)
    (hb : m.db.broken = false) :
    (∃ final stages, Node.Lives depth g final stages m) ∧
    ∀ final stages, Node.Lives depth g final stages m →
      ∀ times, final + depth + times ≤ stages.length →
        ∃ d, popCommits times m.resetPending.db = .ok () d ∧
          (m.resetPending.db.store :: stages.map Stage.before)[times]? = some d.store ∧
          d.store.props.headBlockNumber = stages.length - times := by
  refine ⟨h.housed.lives, fun final stages hl times ht => ?_⟩
  obtain ⟨k, hk⟩ := hl.rewindable hdepth hb
  have hstack := hk.stack
  exact hk.resetPending.2.popCommits (by omega)

end

section

attribute [local instance] sampleFc

/-- The left branch of a fork was pushed, and then the right one, which is longer. -/
def switchedNode : Node :=
  [forkedBlocks.1, forkedBlocks.2.1, forkedBlocks.2.2,
    transferBlock forkedBlocks.2.2.toSignedBlockHeader.id 4 []].foldl
    (fun m b => (Node.pushBlock 0 1 {} m b).node) (Node.genesis sampleGenesis)

theorem switched_whole : switchedNode.db.broken = false ∧ switchedNode.headBlockNum = 3 ∧
    switchedNode.props.lastIrreversibleBlockNum = 0 := by
  decide +kernel

theorem reversible_blocks_pop_switched :
    (∃ final stages, Node.Lives 1 sampleGenesis final stages switchedNode) ∧
    ∀ final stages, Node.Lives 1 sampleGenesis final stages switchedNode →
      ∀ times, final + 1 + times ≤ stages.length →
        ∃ d, popCommits times switchedNode.resetPending.db = .ok () d ∧
          (switchedNode.resetPending.db.store :: stages.map Stage.before)[times]? =
            some d.store ∧
          d.store.props.headBlockNumber = stages.length - times := by
  have hrun : Node.Run 1 sampleGenesis switchedNode := Node.Run.pushBlocks 0 {} .genesis (by decide)
  exact reversible_blocks_pop hrun (Nat.le_refl 1) switched_whole.1

end

end MuseChain
