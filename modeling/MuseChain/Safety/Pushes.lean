/-
  File:      MuseChain/Safety/Pushes.lean
  Subject:   Calls of push_block in a row.

  * `Node.pushRun`: a run of `push_block` calls, with what each of them returned.
  * `Traceless`: without the calls that threw, the others return the same and the run ends in the
    same state.
  * `Harmless m c`: what the state before a call must be for the call to leave no trace when it
    throws, kind by kind: a block that the fork database turns away, one that `apply_block` refuses
    or applies, one beside the chain, and one that switches forks.
-/
import MuseChain.Safety.ForkLabels
import MuseChain.Safety.NodePairs

namespace MuseChain

/-! ## 1. Runs -/

/-- A call of `push_block`. -/
structure Push where
  clock : Nat := 0
  depth : Nat := 0
  skip : Skip := {}
  block : SignedBlock

section

variable [Fc]

def Push.id (c : Push) : BlockId := c.block.toSignedBlockHeader.id

def Node.push (m : Node) (c : Push) : Reply Bool :=
  Node.pushBlock c.clock c.depth c.skip m c.block

/-- What the calls of a run returned (`none`: it threw), and the last state. -/
def Node.pushRun : List Push → Node → List (Option Bool) × Node
  | [], m => ([], m)
  | c :: cs, m =>
      match m.push c with
      | .ok r m => (some r :: (Node.pushRun cs m).1, (Node.pushRun cs m).2)
      | .thrown _ m => (none :: (Node.pushRun cs m).1, (Node.pushRun cs m).2)

/-- The calls of a run that returned. -/
def Node.returning : List Push → Node → List Push
  | [], _ => []
  | c :: cs, m =>
      match m.push c with
      | .ok _ m => c :: Node.returning cs m
      | .thrown _ m => Node.returning cs m

/-- Deleting the calls that threw changes neither what the others return nor the state. -/
def Traceless (cs : List Push) (m : Node) : Prop :=
  (Node.pushRun (Node.returning cs m) m).1 = (Node.pushRun cs m).1.filter Option.isSome ∧
    (Node.pushRun (Node.returning cs m) m).2.headBlockId = (Node.pushRun cs m).2.headBlockId ∧
    (Node.pushRun (Node.returning cs m) m).2.db.store = (Node.pushRun cs m).2.db.store

/-- What a run does when its first call returns. -/
theorem pushRun_ok {m m' : Node} {c : Push} (cs : List Push) {r : Bool}
    (h : m.push c = .ok r m') :
    Node.pushRun (c :: cs) m = (some r :: (Node.pushRun cs m').1, (Node.pushRun cs m').2) ∧
      Node.returning (c :: cs) m = c :: Node.returning cs m' := by
  simp [Node.pushRun, Node.returning, h]

theorem pushRun_thrown {m m' : Node} {c : Push} (cs : List Push) {e : Exn}
    (h : m.push c = .thrown e m') :
    Node.pushRun (c :: cs) m = (none :: (Node.pushRun cs m').1, (Node.pushRun cs m').2) ∧
      Node.returning (c :: cs) m = Node.returning cs m' := by
  simp [Node.pushRun, Node.returning, h]

/-! ## 2. The pending transactions -/

omit [Fc] in
/-- The node in which `_push_block` starts: the pending transactions are out. -/
def Node.emptied (m : Node) : Node := Node.resetPending { m with pendingTx := [] }

/-- `~pending_transactions_restorer`: the transactions of popped blocks and those that were pending
are put back. -/
def Node.putBack (m : Node) (c : Push) (pending : List Transaction) : Node :=
  Node.restorePending c.clock c.depth c.skip pending
    { Node.restorePending c.clock c.depth c.skip m.poppedTx m with poppedTx := [] }

section

variable {m n : Node} {c : Push}

/-- `_push_block` returned. -/
theorem push_of_ok {r : Bool}
    (h : Node.pushBlockOnly c.clock c.depth c.skip m.emptied c.block = .ok r n) :
    m.push c = .ok r (n.putBack c m.pendingTx) := by
  have h' : Node.pushBlockOnly c.clock c.depth c.skip
      (Node.resetPending { m with pendingTx := [] }) c.block = .ok r n := h
  unfold Node.push Node.pushBlock Node.withoutPending
  simp only [h', Node.putBack]

/-- `_push_block` threw. -/
theorem push_of_thrown {e : Exn}
    (h : Node.pushBlockOnly c.clock c.depth c.skip m.emptied c.block = .thrown e n)
    (he : ∀ why, e ≠ .crash why) : m.push c = .thrown e (n.putBack c m.pendingTx) := by
  have h' : Node.pushBlockOnly c.clock c.depth c.skip
      (Node.resetPending { m with pendingTx := [] }) c.block = .thrown e n := h
  unfold Node.push Node.pushBlock Node.withoutPending
  simp only [h']
  cases e with
  | crash why => exact absurd rfl (he why)
  | assert msg => simp only [Node.putBack]
  | overflow msg => simp only [Node.putBack]

theorem push_isOk
    (h : (Node.pushBlockOnly c.clock c.depth c.skip m.emptied c.block).isOk = false) :
    (m.push c).isOk = false := by
  obtain ⟨e, he⟩ := Reply.exists_of_thrown h
  have h' : Node.pushBlockOnly c.clock c.depth c.skip
      (Node.resetPending { m with pendingTx := [] }) c.block = .thrown e _ := he
  unfold Node.push Node.pushBlock Node.withoutPending
  simp only [h']
  cases e with
  | crash why => rfl
  | assert msg => rfl
  | overflow msg => rfl

end

/-- The pending transactions are put back as they were. -/
def PutsBack (m : Node) (c : Push) : Prop := m.emptied.putBack c m.pendingTx = m

omit [Fc] in
/-- Nothing is pending, so nothing is taken out. -/
theorem Node.emptied_of_nil {m : Node} (hpending : m.pendingTx = [])
    (hsession : m.pendingSession = none) : m.emptied = m := by
  obtain ⟨db, f, log, pending, popped, session, checkpoints⟩ := m
  simp only at hpending hsession
  subst hpending hsession
  rfl

/-- Nothing is pending, so nothing is put back. -/
theorem PutsBack.of_nil {m : Node} (c : Push) (hpending : m.pendingTx = [])
    (hpopped : m.poppedTx = []) (hsession : m.pendingSession = none) : PutsBack m c := by
  obtain ⟨db, f, log, pending, popped, session, checkpoints⟩ := m
  simp only at hpending hpopped hsession
  subst hpending hpopped hsession
  rfl

/-! ## 3. The two halves of `apply_block` -/

/-- What `apply_block` does before `set_max_size`. -/
def Node.firstHalf (k : Node) (c : Push) : Act c.depth Nat :=
  match k.checkpointSkip c.skip c.block with
  | .error e => Action.throw e
  | .ok skip => applyBlockFirst c.clock skip c.depth c.block

/-- How it ends in a session of its own. -/
def Node.tested (k : Node) (c : Push) : Outcome chainSchema Nat :=
  (k.firstHalf c).run (k.db.startUndoSession false).2

/-- What follows on `set_max_size`. -/
def Node.finished (k : Node) (c : Push) (wit : Nat) (d : Database chainSchema) :
    Outcome chainSchema Unit :=
  (applyBlockRest c.clock c.depth wit c.block).run (Node.setMaxSizes { k with db := d }).db

/-! ## 4. The condition -/

/-- The head of the fork database is a block that was removed from it, and builds on the head of
the chain. -/
def Node.Ghostly (k : Node) : Prop :=
  ∃ ghost, k.forkDb.head = some ghost ∧ k.forkDb.find ghost.id = none ∧
    ghost.data.previous = k.headBlockId

instance (k : Node) : Decidable k.Ghostly :=
  decidable_of_iff (k.forkDb.head.any fun ghost =>
      (k.forkDb.find ghost.id).isNone && decide (ghost.data.previous = k.headBlockId)) (by
    unfold Node.Ghostly
    simp [Option.any_eq_true])

/-- The block is given to `apply_block` on the head of the chain. -/
inductive Node.Offers (k : Node) (c : Push) : Prop
  | skipping : c.skip.forkDb = true → Offers k c
  | onHead (g : ForkDb) (top : ForkItem) : c.skip.forkDb = false →
      c.block.previous = k.headBlockId → k.forkDb.pushBlock c.block = .ok g → g.head = some top →
      top.data.previous = k.headBlockId → Offers k c

/-- There is room to take a refused block back, and the fork database does not know it. -/
structure Node.Roomy (k : Node) (c : Push) : Prop where
  enabled : k.db.disabled = false
  sessions : k.db.activeSessions = 0
  fresh : k.db.store.Fresh
  depth : c.depth ≤ k.db.maxSize
  unknown : k.forkDb.find c.id = none
  room : 0 < k.forkDb.maxSize

/-- The kinds of calls that leave no trace when they throw, in the state `m` before the call. -/
inductive Spotless (m : Node) (c : Push) : Prop
  | turnedAway (e : Exn) : c.skip.forkDb = false → m.emptied.forkDb.linkOf c.block = .error e →
      (m.emptied.Ghostly → m.emptied.headBlockId.num < c.block.previous.num ∧
        m.emptied.headBlockNum < c.block.blockNum) → PutsBack m c → Spotless m c
  | refused (e : Exn) (d : Database chainSchema) : m.emptied.Offers c →
      m.emptied.tested c = .thrown e d → (∀ why, e ≠ .crash why) → d.broken = false →
      m.emptied.Roomy c → PutsBack m c → Spotless m c
  | applied (wit : Nat) (d d' : Database chainSchema) : m.emptied.Offers c →
      (m.emptied.Ghostly → c.skip.forkDb = false) → m.emptied.db.disabled = false →
      m.emptied.tested c = .ok wit d → m.emptied.finished c wit d = .ok () d' → Spotless m c
  | beside (g : ForkDb) (top : ForkItem) : c.skip.forkDb = false → ¬m.emptied.Ghostly →
      m.emptied.forkDb.pushBlock c.block = .ok g → g.head = some top →
      top.data.previous ≠ m.emptied.headBlockId → top.num ≤ m.emptied.headBlockNum → Spotless m c
  | switches (g : ForkDb) (top : ForkItem) (br : Node.Branches) (n : Node) :
      c.skip.forkDb = false → ¬m.emptied.Ghostly → m.emptied.forkDb.pushBlock c.block = .ok g →
      g.head = some top → top.data.previous ≠ m.emptied.headBlockId →
      m.emptied.headBlockNum < top.num →
      g.fetchBranchFrom top.id m.emptied.headBlockId = .ok (br.first, br.second) →
      Node.popTo { m.emptied with forkDb := g } br.held br.base = .ok () n →
      n.AppliesAll c.clock c.depth c.skip br.first.reverse → Spotless m c

/-- The number of the block is one more than that of the block before it, in 32 bits too. -/
structure Harmless (m : Node) (c : Push) : Prop where
  number : c.block.blockNum = c.block.previous.num + 1
  kind : Spotless m c

/-- Every call of the run finds the state in which it is harmless. -/
def AllHarmless : List Push → Node → Prop
  | [], _ => True
  | c :: cs, m => Harmless m c ∧ AllHarmless cs (m.push c).node

/-! ## 5. A block on the head -/

section

variable {k n : Node} {c : Push}

/-- A block that is refused leaves the objects as they were. -/
theorem applyInSession_refused {e : Exn} {d : Database chainSchema} (id : BlockId)
    (hdb : n.db = k.db) (hcp : n.checkpoints = k.checkpoints) (htest : k.tested c = .thrown e d)
    (hbroken : d.broken = false) (hroom : k.Roomy c) :
    ∃ j, Node.applyInSession c.clock c.depth c.skip n c.block id =
      .thrown e { n with db := { k.db with stack := k.db.stack.take j } } := by
  obtain ⟨j, _, hdrop⟩ := sessionDropped hroom.enabled hroom.fresh hroom.depth htest hbroken
  refine ⟨j, ?_⟩
  have hskip : ∀ d, Node.checkpointSkip c.skip { n with db := d } c.block =
      Node.checkpointSkip c.skip k c.block := fun d => Node.checkpointSkip_congr c.skip c.block hcp
  unfold Node.tested Node.firstHalf at htest
  unfold Node.applyInSession Node.applyBlock
  simp only [hskip, hdb]
  cases hs : Node.checkpointSkip c.skip k c.block with
  | error e' =>
    simp only [hs] at htest
    cases htest
    simp only [hdrop]
  | ok skip =>
    simp only [hs] at htest
    simp only [htest, hdrop]

/-- A block that passes both halves is applied. -/
theorem applyInSession_applied {wit : Nat} {d d' : Database chainSchema} (id : BlockId)
    (hdb : n.db = k.db) (hcp : n.checkpoints = k.checkpoints) (henabled : k.db.disabled = false)
    (htest : k.tested c = .ok wit d) (hfinish : k.finished c wit d = .ok () d') :
    ∃ n', Node.applyInSession c.clock c.depth c.skip n c.block id = .ok () n' := by
  have hskip : ∀ d, Node.checkpointSkip c.skip { n with db := d } c.block =
      Node.checkpointSkip c.skip k c.block := fun d => Node.checkpointSkip_congr c.skip c.block hcp
  have hsessions : d'.activeSessions ≠ 0 := by
    have h1 := (k.firstHalf c).blind.sessions (k.db.startUndoSession false).2
    have h2 := (applyBlockRest c.clock c.depth wit c.block).blind.sessions
      (Node.setMaxSizes { k with db := d }).db
    rw [show (k.firstHalf c).run _ = _ from htest, startUndoSession_eq false henabled] at h1
    rw [show (applyBlockRest c.clock c.depth wit c.block).run _ = _ from hfinish] at h2
    have h3 : d.activeSessions ≤ d'.activeSessions := h2
    have h4 : k.db.activeSessions + 1 ≤ d.activeSessions := h1
    omega
  have hfinish : (applyBlockRest c.clock c.depth wit c.block).run
      (Node.setMaxSizes { n with db := d }).db = .ok () d' := hfinish
  unfold Node.tested Node.firstHalf at htest
  unfold Node.applyInSession Node.applyBlock
  simp only [hskip, hdb]
  cases hs : Node.checkpointSkip c.skip k c.block with
  | error e =>
    simp only [hs] at htest
    cases htest
  | ok skip =>
    simp only [hs] at htest
    simp only [htest, hfinish, Database.commit, if_neg hsessions]
    exact ⟨_, rfl⟩

end

/-- What a block that is applied does to the head and to the rest of the node. -/
structure Node.Moved (b : SignedBlock) (m m' : Node) : Prop where
  previous : m.headBlockId = b.previous
  headId : m'.headBlockId = b.toSignedBlockHeader.id
  headNum : m'.headBlockNum = b.blockNum
  session : m'.pendingSession = m.pendingSession
  popped : m'.poppedTx = m.poppedTx

theorem applyInSession_moved {clock depth : Nat} {skip : Skip} {m m' : Node} {b : SignedBlock}
    {id : BlockId} {u : Unit}
    (h : Node.applyInSession clock depth skip m b id = .ok u m') : m.Moved b m' := by
  obtain ⟨skip', wit, d, d', _, hfirst, hrest, rfl⟩ := Node.applyInSession_ok h
  obtain ⟨⟨⟨p, q, hp, hq, hqe⟩, _⟩, p', hp', hprev, _⟩ := applyBlockFirst_moved hfirst
  obtain rfl : p' = p := Option.some.inj (hp'.symm.trans hp)
  obtain ⟨t, hprops, _, ⟨r, v, hr, hv, hve, _⟩, _⟩ := applyBlockRest_moved hrest
  have hq' : (Node.setMaxSizes { m with db := d }).db.store.get Kind.dynamicGlobalProperty 0 =
      some q := hq
  obtain rfl : r = q := Option.some.inj (hr.symm.trans (hprops.trans hq'))
  have q1 : r.headBlockNumber = b.blockNum := congrArg (fun a : Anchor => a.head.number) hqe
  have q2 : r.headBlockId = b.toSignedBlockHeader.id := congrArg (fun a : Anchor => a.head.id) hqe
  have v1 : v.headBlockNumber = r.headBlockNumber := congrArg (fun a : Anchor => a.head.number) hve
  have v2 : v.headBlockId = r.headBlockId := congrArg (fun a : Anchor => a.head.id) hve
  rw [startUndoSession_store] at hp
  refine ⟨?_, ?_, ?_, rfl, rfl⟩
  · exact (congrArg DynamicGlobalProperty.headBlockId (Store.props_of_get hp)).trans hprev
  · exact (congrArg DynamicGlobalProperty.headBlockId (Store.props_of_get hv)).trans (v2.trans q2)
  · exact (congrArg DynamicGlobalProperty.headBlockNumber (Store.props_of_get hv)).trans
      (v1.trans q1)

/-! ## 6. The steps of `_push_block` -/

section

variable {k n : Node} {c : Push} {g : ForkDb} {top : ForkItem}

theorem pushBlockOnly_skipping (h : c.skip.forkDb = true) :
    Node.pushBlockOnly c.clock c.depth c.skip k c.block =
      Node.extendChain c.clock c.depth c.skip k c.block := by
  unfold Node.pushBlockOnly
  rw [if_pos h]

theorem pushBlockOnly_away {e : Exn} (h : c.skip.forkDb = false)
    (hlink : k.forkDb.linkOf c.block = .error e) :
    Node.pushBlockOnly c.clock c.depth c.skip k c.block = .thrown e k := by
  have hpush : k.forkDb.pushBlock c.block = .error e := by
    unfold ForkDb.pushBlock
    rw [hlink]
    rfl
  unfold Node.pushBlockOnly
  simp only [h, hpush, Bool.false_eq_true, if_false]

/-- The fork database takes the block. -/
theorem pushBlockOnly_taken (h : c.skip.forkDb = false) (hpush : k.forkDb.pushBlock c.block = .ok g)
    (hg : g.head = some top) :
    Node.pushBlockOnly c.clock c.depth c.skip k c.block =
      if top.data.previous = k.headBlockId then
        Node.extendChain c.clock c.depth c.skip { k with forkDb := g } c.block
      else if k.headBlockNum < top.num then
        Node.switchForks c.clock c.depth c.skip { k with forkDb := g } c.id top
      else .ok false { k with forkDb := g } := by
  unfold Node.pushBlockOnly
  simp only [h, hpush, hg, Bool.false_eq_true, if_false]
  rfl

theorem extendChain_isOk {clock depth : Nat} {skip : Skip} {b : SignedBlock} :
    (Node.extendChain clock depth skip k b).isOk =
      (Node.applyInSession clock depth skip k b b.toSignedBlockHeader.id).isOk := by
  unfold Node.extendChain
  cases Node.applyInSession clock depth skip k b b.toSignedBlockHeader.id with
  | ok u n => rfl
  | thrown e n =>
    cases e with
    | crash why => rfl
    | assert msg => rfl
    | overflow msg => rfl

theorem extendChain_ok {clock depth : Nat} {skip : Skip} {b : SignedBlock} {u : Unit}
    (h : Node.applyInSession clock depth skip k b b.toSignedBlockHeader.id = .ok u n) :
    Node.extendChain clock depth skip k b = .ok false n := by
  unfold Node.extendChain
  rw [h]

theorem extendChain_thrown {clock depth : Nat} {skip : Skip} {b : SignedBlock} {e : Exn}
    (h : Node.applyInSession clock depth skip k b b.toSignedBlockHeader.id = .thrown e n)
    (he : ∀ why, e ≠ .crash why) :
    Node.extendChain clock depth skip k b =
      .thrown e { n with forkDb := n.forkDb.remove b.toSignedBlockHeader.id } := by
  unfold Node.extendChain
  rw [h]
  cases e with
  | crash why => exact absurd rfl (he why)
  | assert msg => rfl
  | overflow msg => rfl

theorem applyInSession_of_extendChain {clock depth : Nat} {skip : Skip} {b : SignedBlock} {r : Bool}
    (h : Node.extendChain clock depth skip k b = .ok r n) :
    Node.applyInSession clock depth skip k b b.toSignedBlockHeader.id = .ok () n := by
  unfold Node.extendChain at h
  split at h
  · rename_i happly
    cases h
    exact happly
  · cases h
  · cases h

/-- A loop over the new branch that returns has applied every block. -/
theorem appliesAll_of_pushEach {clock depth : Nat} {skip : Skip} {newId : BlockId}
    {br : Node.Branches} {l : List ForkItem} {r : Bool}
    (h : Node.pushEach clock depth skip newId br l k = .ok r n) :
    r = true ∧ k.AppliesAll clock depth skip l := by
  induction l generalizing k with
  | nil =>
    cases h
    exact ⟨rfl, trivial⟩
  | cons item rest ih =>
    unfold Node.pushEach at h
    split at h
    · rename_i k₁ happly
      obtain ⟨hr, hrest⟩ := ih h
      exact ⟨hr, k₁, happly, hrest⟩
    · cases h
    · unfold Node.failSwitch at h
      simp only at h
      split at h
      · cases h
      · split at h
        · cases h
        · cases h

/-- A block that is applied passes both halves. -/
theorem halves_of_applied {id : BlockId} {n' : Node} (hdb : n.db = k.db)
    (hcp : n.checkpoints = k.checkpoints)
    (h : Node.applyInSession c.clock c.depth c.skip n c.block id = .ok () n') :
    ∃ wit d d', k.tested c = .ok wit d ∧ k.finished c wit d = .ok () d' := by
  obtain ⟨skip, wit, d, d', hskip, hfirst, hrest, _⟩ := Node.applyInSession_ok h
  rw [Node.checkpointSkip_congr c.skip c.block hcp] at hskip
  refine ⟨wit, d, d', ?_, hrest⟩
  unfold Node.tested Node.firstHalf
  rw [hskip, ← hdb]
  exact hfirst

/-- A call that returns, in terms of `_push_block`. -/
theorem returns_of_isOk {m : Node} (h : (m.push c).isOk = true) :
    ∃ r n, Node.pushBlockOnly c.clock c.depth c.skip m.emptied c.block = .ok r n := by
  cases hp : Node.pushBlockOnly c.clock c.depth c.skip m.emptied c.block with
  | ok r n => exact ⟨r, n, rfl⟩
  | thrown e n =>
    rw [push_isOk (by rw [hp]; rfl)] at h
    cases h

/-- How `_push_block` returns: with the block on the head, beside the chain, or after a switch. -/
inductive Node.Returned (k : Node) (c : Push) : Bool → Node → Prop
  | skipping {n : Node} : c.skip.forkDb = true →
      Node.applyInSession c.clock c.depth c.skip k c.block c.id = .ok () n → Returned k c false n
  | onHead {n : Node} (g : ForkDb) (top : ForkItem) : c.skip.forkDb = false →
      k.forkDb.pushBlock c.block = .ok g → g.head = some top → top.data.previous = k.headBlockId →
      Node.applyInSession c.clock c.depth c.skip { k with forkDb := g } c.block c.id = .ok () n →
      Returned k c false n
  | beside (g : ForkDb) (top : ForkItem) : c.skip.forkDb = false →
      k.forkDb.pushBlock c.block = .ok g → g.head = some top → top.data.previous ≠ k.headBlockId →
      (top.data = c.block ∨ k.forkDb.head = some top) → top.num ≤ k.headBlockNum →
      Returned k c false { k with forkDb := g }
  | switched {n n' : Node} (g : ForkDb) (top : ForkItem) (br : Node.Branches) :
      c.skip.forkDb = false → k.forkDb.pushBlock c.block = .ok g → g.head = some top →
      top.data.previous ≠ k.headBlockId → (top.data = c.block ∨ k.forkDb.head = some top) →
      k.headBlockNum < top.num →
      g.fetchBranchFrom top.id k.headBlockId = .ok (br.first, br.second) →
      Node.popTo { k with forkDb := g } br.held br.base = .ok () n →
      n.AppliesAll c.clock c.depth c.skip br.first.reverse → Returned k c true n'

theorem pushBlockOnly_returned {r : Bool}
    (h : Node.pushBlockOnly c.clock c.depth c.skip k c.block = .ok r n) : k.Returned c r n := by
  cases hskip : c.skip.forkDb with
  | true =>
    rw [pushBlockOnly_skipping hskip] at h
    have happly := applyInSession_of_extendChain h
    obtain ⟨rfl, _⟩ := Reply.ok.inj (h.symm.trans (extendChain_ok happly))
    exact .skipping hskip happly
  | false =>
    cases hlink : k.forkDb.linkOf c.block with
    | error e =>
      rw [pushBlockOnly_away hskip hlink] at h
      cases h
    | ok prev =>
      obtain ⟨g, hpush, _, _, hpushed⟩ := ForkDb.pushBlock_ok hlink
      obtain ⟨top, hg⟩ := Option.ne_none_iff_exists'.mp hpushed.head
      have htop : top.data = c.block ∨ k.forkDb.head = some top :=
        (hpushed.newHead hg).imp_left fun e => by rw [e]; rfl
      rw [pushBlockOnly_taken hskip hpush hg] at h
      split at h
      · rename_i hprev
        have happly := applyInSession_of_extendChain h
        obtain ⟨rfl, _⟩ := Reply.ok.inj (h.symm.trans (extendChain_ok happly))
        exact .onHead g top hskip hpush hg hprev happly
      · rename_i hne
        split at h
        · rename_i hhigh
          unfold Node.switchForks at h
          split at h
          · cases h
          · rename_i first second hbranch
            simp only at h
            split at h
            · cases h
            · rename_i k₁ hpop
              obtain ⟨rfl, happlies⟩ := appliesAll_of_pushEach h
              exact .switched g top ⟨first, second⟩ hskip hpush hg hne htop hhigh hbranch hpop
                happlies
        · rename_i hlow
          cases h
          exact .beside g top hskip hpush hg hne htop (Nat.not_lt.mp hlow)

/-- **A call that returns is harmless**: with undo enabled, it applied the block to the head, left
it beside the chain, or switched. While a refused block is the head of the fork database, the block
has to build on the head of the chain. -/
theorem Spotless.of_returns {m : Node} {r : Bool} (henabled : m.emptied.db.disabled = false)
    (hghost : m.emptied.Ghostly → c.skip.forkDb = false ∧ c.block.previous = m.emptied.headBlockId)
    (h : Node.pushBlockOnly c.clock c.depth c.skip m.emptied c.block = .ok r n) : Spotless m c := by
  -- beside a refused head, the new head builds on the chain's
  have hclear : ∀ {top : ForkItem}, top.data.previous ≠ m.emptied.headBlockId →
      (top.data = c.block ∨ m.emptied.forkDb.head = some top) → ¬m.emptied.Ghostly := by
    intro top hne htop hghostly
    rcases htop with hnew | hold
    · exact hne (hnew ▸ (hghost hghostly).2)
    · obtain ⟨ghost, hhead, _, hprev⟩ := hghostly
      obtain rfl : ghost = top := Option.some.inj (hhead.symm.trans hold)
      exact hne hprev
  cases pushBlockOnly_returned h with
  | skipping hskip happly =>
    obtain ⟨wit, d, d', htest, hfinish⟩ := halves_of_applied (k := m.emptied) rfl rfl happly
    exact .applied wit d d' (.skipping hskip) (fun hg => (hghost hg).1) henabled htest hfinish
  | onHead g top hskip hpush hg hprev happly =>
    obtain ⟨wit, d, d', htest, hfinish⟩ := halves_of_applied (k := m.emptied)
      (n := { m.emptied with forkDb := g }) rfl rfl happly
    have hmoved := (applyInSession_moved happly).previous
    exact .applied wit d d' (.onHead g top hskip hmoved.symm hpush hg hprev) (fun _ => hskip)
      henabled htest hfinish
  | beside g top hskip hpush hg hne htop hlow =>
    exact .beside g top hskip (hclear hne htop) hpush hg hne hlow
  | switched g top br hskip hpush hg hne htop hhigh hbranch hpop happlies =>
    exact .switches g top br _ hskip (hclear hne htop) hpush hg hne hhigh hbranch hpop happlies

end

end

end MuseChain
