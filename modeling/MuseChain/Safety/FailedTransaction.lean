/-
  File:      MuseChain/Safety/FailedTransaction.lean
  Subject:   What _push_transaction leaves behind when _apply_transaction throws.

  * `Node.openPending`: the session of the pending transactions, which the first one opens.
  * `sessionDropped`: a session around a program that threw, without a container that dropped an
    object, is taken back to the last bit of the database.
  * `failed_transaction_unchanged`: the node is the one right after the pending session was opened.
  * `failed_transaction_traces`: that session stays; and when a callback of `modify` throws, the
    container drops the object, the rollback does not find it, and undo stays disabled.
-/
import MuseChain.Db.Runs
import MuseChain.Chain.Genesis

namespace MuseChain

namespace Node

/-- `if( !_pending_tx_session.valid() ) _pending_tx_session = _undo_db.start_undo_session();` -/
def openPending (m : Node) : Node :=
  match m.pendingSession with
  | some _ => m
  | none =>
      let start := m.db.startUndoSession false
      { m with db := start.2, pendingSession := some start.1 }

theorem pushTransactionOnly_eq [Fc] (clock depth : Nat) (skip : Skip) (m : Node)
    (trx : Transaction) :
    pushTransactionOnly clock depth skip m trx =
      match (applyTransaction clock skip depth trx).run (m.openPending.db.startUndoSession false).2
      with
      | .thrown e d => .thrown e
          { m.openPending with
            db := d.dropSession (m.openPending.db.startUndoSession false).1 }
      | .ok _ d =>
          match d.merge with
          | .ok _ d =>
              .ok () { m.openPending with pendingTx := m.openPending.pendingTx ++ [trx], db := d }
          | .thrown e d => .thrown e
              { m.openPending with
                pendingTx := m.openPending.pendingTx ++ [trx]
                db := d.dropSession (m.openPending.db.startUndoSession false).1 } := rfl

/-- Opening the pending session touches no object. -/
theorem openPending_same (m : Node) (hd : m.db.disabled = false) :
    m.openPending.db.store = m.db.store ∧ m.openPending.db.disabled = false ∧
      m.openPending.db.maxSize = m.db.maxSize ∧ m.openPending.pendingTx = m.pendingTx := by
  unfold openPending
  split
  · exact ⟨rfl, hd, rfl, rfl⟩
  · rw [startUndoSession_eq false hd]
    exact ⟨rfl, hd, rfl, rfl⟩

end Node

section

variable {S : Schema} {n : Nat} {α : Type}

/-- **A session around a program that threw is taken back to the last bit**, but for the oldest
undo states, which make room for the sessions. -/
theorem sessionDropped {x : Action S n α} {d d₁ : Database S} {e : Exn}
    (hd : d.disabled = false) (hf : d.store.Fresh) (hn : n ≤ d.maxSize)
    (h : x.run (d.startUndoSession false).2 = .thrown e d₁) (hb : d₁.broken = false) :
    ∃ k, min d.stack.length (d.maxSize - n) ≤ k ∧
      d₁.dropSession (d.startUndoSession false).1 = { d with stack := d.stack.take k } := by
  have hx := x.holds (d.startUndoSession false).2
  rw [h, Outcome.db_thrown] at hx
  obtain ⟨hb0, hk, ht⟩ := hx hb
  rw [startUndoSession_eq false hd] at hb0 hk ht ⊢
  have ho := ht hn hf
  have hr : Rewinds Steady (UndoState.empty :: d.stack.take d.maxSize) d.store [d.store] :=
    Rewinds.cons (Sound.empty hf) (steady_tracked.refl _) (Rewinds.nil _ _)
  obtain ⟨_, _, _, m, hm, hr1⟩ := hk hd hn [d.store] (by simp) hr
  obtain ⟨m', rfl⟩ : ∃ m', m = m' + 1 := by
    simp only [List.length_cons, List.length_nil] at hm
    exact ⟨m - 1, by omega⟩
  rw [List.take_succ_cons, List.take_nil] at hr1
  have hact : d₁.activeSessions = d.activeSessions + 1 := ho.activeSessions
  have hdis : d₁.disabled = false := ho.disabled.trans hd
  obtain ⟨v, k, hlen, hstack⟩ := ho.stack _ _ rfl
  simp only [List.length_take, List.take_take] at hlen hstack
  refine ⟨min k d.maxSize, by omega, ?_⟩
  rw [Action.dropped false hdis (by omega) hr1, hact, hstack]
  obtain ⟨_, hmax, _, _, hord, _⟩ := ho
  obtain ⟨s₁, st₁, a₁, dis₁, max₁, b₁, o₁⟩ := d₁
  simp only at hmax hord hb hb0 ⊢
  simp only [hmax, hord, hb, hb0, hd, List.tail_cons, Nat.add_sub_cancel]

end

/-- **A failed transaction leaves the node as it was with the pending session open**: no object,
no next id, no flag and no pending transaction is another; of the undo stack at most the oldest
states are gone, and none when it has room for the sessions. -/
theorem failed_transaction_unchanged [Fc] (clock depth : Nat) (skip : Skip) (m : Node)
    (trx : Transaction) (e : Exn) (d₁ : Database chainSchema) (hd : m.db.disabled = false)
    (hf : m.db.store.Fresh) (hn : depth ≤ m.db.maxSize)
    (h : (applyTransaction clock skip depth trx).run
      (m.openPending.db.startUndoSession false).2 = .thrown e d₁)
    (hb : d₁.broken = false) :
    ∃ m', Node.pushTransactionOnly clock depth skip m trx = .thrown e m' ∧
      m'.db.store = m.db.store ∧ m'.db.disabled = m.db.disabled ∧ m'.pendingTx = m.pendingTx ∧
      (∃ k, min m.openPending.db.stack.length (m.db.maxSize - depth) ≤ k ∧
        m' = { m.openPending with
          db := { m.openPending.db with stack := m.openPending.db.stack.take k } }) ∧
      (m.openPending.db.stack.length + depth ≤ m.db.maxSize → m' = m.openPending) := by
  obtain ⟨hs, hd1, hm1, hp⟩ := Node.openPending_same m hd
  obtain ⟨k, hk, hdrop⟩ := sessionDropped hd1 (hs ▸ hf) (hm1 ▸ hn) h hb
  rw [hm1] at hk
  refine ⟨_, by rw [Node.pushTransactionOnly_eq, h], ?_⟩
  rw [hdrop]
  refine ⟨hs, hd1.trans hd.symm, hp, ⟨k, hk, rfl⟩, fun hroom => ?_⟩
  rw [List.take_of_length_le (by omega)]

section

attribute [local instance] sampleFc

/-- A transaction without operations, which does not pass `validate()`. -/
def emptyTransaction : Transaction := ⟨0, 0, genesisTime + 60, [], []⟩

/-- A transaction of the init miner, signed. -/
def minerTransaction : Transaction := ⟨0, 0, genesisTime + 60, [.custom [initMinerName]], [7]⟩

/-- A genesis in which somebody else holds all vesting shares. -/
def vestedGenesis : GenesisState :=
  { sampleGenesis with initialVestingBalances := [⟨0, 1000⟩] }

/-- **Traces of a failed transaction.** The pending session that it opened stays on the undo stack;
and when the bandwidth check in a callback of `modify` threw, the account is gone and undo stays
disabled. -/
theorem failed_transaction_traces :
    (∃ e m', Node.pushTransactionOnly 0 0 {} (Node.genesis sampleGenesis) emptyTransaction =
        .thrown e m' ∧ (Node.genesis sampleGenesis).db.stack.length = 0 ∧
        m'.db.stack.length = 1) ∧
      ∃ e m', Node.pushTransactionOnly 0 0 {} (Node.genesis vestedGenesis) minerTransaction =
        .thrown e m' ∧ ((Node.genesis vestedGenesis).db.store.get Kind.account 3).isSome = true ∧
        (m'.db.store.get Kind.account 3).isSome = false ∧
        (Node.genesis vestedGenesis).db.disabled = false ∧ m'.db.disabled = true := by
  constructor
  · obtain ⟨e, h⟩ := Reply.exists_of_thrown (r := Node.pushTransactionOnly 0 0 {}
      (Node.genesis sampleGenesis) emptyTransaction) (by decide +kernel)
    exact ⟨e, _, h, by decide +kernel, by decide +kernel⟩
  · obtain ⟨e, h⟩ := Reply.exists_of_thrown (r := Node.pushTransactionOnly 0 0 {}
      (Node.genesis vestedGenesis) minerTransaction) (by decide +kernel)
    exact ⟨e, _, h, by decide +kernel, by decide +kernel, by decide +kernel, by decide +kernel⟩

/-- The init miner pays 3, proposes two payments of which only the first can be made, has both
executed in sessions of their own, and then pays an account that is not there. -/
def failingTransaction : Transaction :=
  let pay (receiver : String) (x : Int) : Operation :=
    .transfer initMinerName receiver (Asset.muse x) ""
  let propose (ops : List Operation) : Operation := .proposalCreate ops (genesisTime + 3600) none
  let approve (i : Nat) : Operation := .proposalUpdate ⟨i, [initMinerName], [], [], [], [], []⟩
  ⟨0, 0, genesisTime + 60,
    [pay minerAccount 3, propose [pay nullAccount 5], approve 0,
      propose [pay nullAccount 7, pay "nobody" 7], approve 1, pay "nobody" 1], [7]⟩

/-- What it has done when it throws: 8 are paid, the proposal of the first 5 is gone. -/
def failingRun : Outcome chainSchema Unit :=
  (applyTransaction 0 {} 1 failingTransaction).run
    ((Node.genesis sampleGenesis).openPending.db.startUndoSession false).2

/-- All of it is taken back. -/
theorem failed_transaction_unchanged_paid :
    (failingRun.isOk = false ∧
      (failingRun.db.store.rows Kind.account).map (fun r : Nat × Account => r.2.balance.amount) =
        [3, 5, 0, 999992] ∧
      (failingRun.db.store.rows Kind.proposal).map (fun r : Nat × Proposal => r.1) = [1]) ∧
    ∃ e m', Node.pushTransactionOnly 0 1 {} (Node.genesis sampleGenesis) failingTransaction =
        .thrown e m' ∧
      m'.db.store = (Node.genesis sampleGenesis).db.store ∧ m'.db.disabled = false ∧
      m'.pendingTx = [] ∧ m' = (Node.genesis sampleGenesis).openPending := by
  have hrun : failingRun.isOk = false ∧
      (failingRun.db.store.rows Kind.account).map (fun r : Nat × Account => r.2.balance.amount) =
        [3, 5, 0, 999992] ∧
      (failingRun.db.store.rows Kind.proposal).map (fun r : Nat × Proposal => r.1) = [1] := by
    decide +kernel
  obtain ⟨e, h⟩ := Outcome.exists_of_thrown hrun.1
  obtain ⟨m', hpush, hs, hd, hp, -, hroom⟩ := failed_transaction_unchanged 0 1 {}
    (Node.genesis sampleGenesis) failingTransaction e _ rfl (Node.genesis_fresh (by decide +kernel))
    (by decide +kernel) h (by decide +kernel)
  exact ⟨hrun, e, m', hpush, hs, hd, hp, hroom (by decide +kernel)⟩

end

end MuseChain
