/-
  File:      MuseChain/Safety/NodePairs.lean
  Subject:   Two nodes that differ in the bottom of their undo stacks and in their fork databases.

  * `Node.Below F m m'`: `m'` has more undo states at the bottom than `m`, the fork databases are in
    the relation `F`, and the rest is the same.
  * Blocks and transactions end the same way in both and keep the relation
    (`Node.Below.applyInSession`, `Node.Below.pushTransactionOnly`).
  * Where blocks are popped and a branch is applied in `m`, so they are in `m'`
    (`Node.Below.popUntil`, `Node.Below.pushEach`).
  * `Node.Rooted`: the pending transactions lie in a session of their own, so that the head of the
    chain is the same with and without them.
-/
import MuseChain.Safety.FailedTransaction
import MuseChain.Safety.Heads

namespace MuseChain

variable {F G : ForkDb → ForkDb → Prop} {m m' : Node}

/-! ## 1. Pairs of nodes -/

structure Node.Below (F : ForkDb → ForkDb → Prop) (m m' : Node) : Prop where
  db : ∃ t, m'.db = m.db.under t ∧ Above m.db t
  forkDb : F m.forkDb m'.forkDb
  log : m'.log = m.log
  pendingTx : m'.pendingTx = m.pendingTx
  poppedTx : m'.poppedTx = m.poppedTx
  pendingSession : m'.pendingSession = m.pendingSession
  checkpoints : m'.checkpoints = m.checkpoints

/-- The two calls end the same way. -/
inductive Reply.Below {α : Type} (F : ForkDb → ForkDb → Prop) : Reply α → Reply α → Prop
  | ok (a : α) {m m' : Node} : Node.Below F m m' → Below F (.ok a m) (.ok a m')
  | thrown (e : Exn) {m m' : Node} : Node.Below F m m' → Below F (.thrown e m) (.thrown e m')

theorem Reply.Below.node {α : Type} {r r' : Reply α} (h : Reply.Below F r r') :
    Node.Below F r.node r'.node := by
  cases h with
  | ok a hm => exact hm
  | thrown e hm => exact hm

theorem Reply.Below.isOk {α : Type} {r r' : Reply α} (h : Reply.Below F r r') :
    r'.isOk = r.isOk := by
  cases h with
  | ok a hm => rfl
  | thrown e hm => rfl

theorem Reply.Below.of_ok {α : Type} {r' : Reply α} {a : α} (h : Reply.Below F (.ok a m) r') :
    ∃ m', r' = .ok a m' ∧ Node.Below F m m' := by
  cases h with
  | ok a hm => exact ⟨_, rfl, hm⟩

/-- The relation stays when both histories are cut to one size. -/
def Resized (F : ForkDb → ForkDb → Prop) : Prop :=
  ∀ size f f', F f f' → F (f.setMaxSize size) (f'.setMaxSize size)

namespace Node.Below

theorem store (h : m.Below F m') : m'.db.store = m.db.store := by
  obtain ⟨t, ht, _⟩ := h.db
  rw [ht, under_store]

theorem props (h : m.Below F m') : m'.props = m.props := by
  unfold Node.props
  rw [h.store]

theorem headBlockId (h : m.Below F m') : m'.headBlockId = m.headBlockId :=
  congrArg DynamicGlobalProperty.headBlockId h.props

theorem headBlockNum (h : m.Below F m') : m'.headBlockNum = m.headBlockNum :=
  congrArg DynamicGlobalProperty.headBlockNumber h.props

/-- Other databases, with the same difference. -/
theorem withDb (h : m.Below F m') {d : Database chainSchema} {t : List (UndoState chainSchema)}
    (ht : Above d t) : Node.Below F { m with db := d } { m' with db := d.under t } :=
  ⟨⟨t, rfl, ht⟩, h.forkDb, h.log, h.pendingTx, h.poppedTx, h.pendingSession, h.checkpoints⟩

theorem withForkDb (h : m.Below F m') {f f' : ForkDb} (hf : G f f') :
    Node.Below G { m with forkDb := f } { m' with forkDb := f' } :=
  ⟨h.db, hf, h.log, h.pendingTx, h.poppedTx, h.pendingSession, h.checkpoints⟩

theorem mono (h : m.Below F m') (hFG : G m.forkDb m'.forkDb) : m.Below G m' :=
  ⟨h.db, hFG, h.log, h.pendingTx, h.poppedTx, h.pendingSession, h.checkpoints⟩

theorem resetPending (h : m.Below F m') : m.resetPending.Below F m'.resetPending := by
  obtain ⟨t, ht, habove⟩ := h.db
  unfold Node.resetPending
  rw [h.pendingSession]
  cases m.pendingSession with
  | none => exact h
  | some exit =>
    obtain ⟨hdrop, hless⟩ := dropSession_under exit habove
    refine ⟨⟨t, ?_, habove.imp_right hless.above⟩, h.forkDb, h.log, h.pendingTx, h.poppedTx, rfl,
      h.checkpoints⟩
    simp only [ht, hdrop]

theorem setMaxSizes (hF : Resized F) (h : m.Below F m') : m.setMaxSizes.Below F m'.setMaxSizes := by
  obtain ⟨t, ht, habove⟩ := h.db
  unfold Node.setMaxSizes
  rw [h.props]
  exact ⟨⟨t, by rw [ht]; rfl, habove⟩, hF _ _ _ h.forkDb, h.log, h.pendingTx, h.poppedTx,
    h.pendingSession, h.checkpoints⟩

end Node.Below

/-- A session that is not forced leaves undo as it is when it ends. -/
theorem startUndoSession_exit {S : Schema} (d : Database S) :
    (d.startUndoSession false).1 = false := by
  unfold Database.startUndoSession
  split
  · rfl
  · exact Bool.and_false _

/-- In the session that is started a program may run. -/
theorem ready_start {S : Schema} {d : Database S} {t : List (UndoState S)} (h : Above d t) :
    ∃ t', ((d.under t).startUndoSession false).2 = (d.startUndoSession false).2.under t' ∧
      Ready (d.startUndoSession false).2 t' := by
  obtain ⟨t', hstart, _, habove, _⟩ := startUndoSession_under false h
  refine ⟨t', by rw [hstart], habove.imp_right fun hle => ⟨hle, ?_⟩⟩
  unfold Database.startUndoSession
  by_cases hd : d.disabled = true
  · simp [hd]
  · simp [hd]

theorem Node.Below.openPending (h : m.Below F m') : m.openPending.Below F m'.openPending := by
  obtain ⟨t, ht, habove⟩ := h.db
  unfold Node.openPending
  rw [h.pendingSession]
  cases m.pendingSession with
  | some exit => exact h
  | none =>
    obtain ⟨t₁, hstart, hready⟩ := ready_start habove
    refine ⟨⟨t₁, ?_, hready.above⟩, h.forkDb, h.log, h.pendingTx, h.poppedTx, ?_, h.checkpoints⟩
    · simp only [ht, hstart]
    · simp only [startUndoSession_exit]

/-! ## 2. Blocks and transactions -/

section

variable [Fc] (clock depth : Nat) (skip : Skip)

namespace Node.Below

/-- `apply_block`, where programs may run. -/
theorem applyBlock (hF : Resized F) (h : m.Below F m') (b : SignedBlock)
    {t : List (UndoState chainSchema)} (ht : m'.db = m.db.under t) (hready : Ready m.db t) :
    Reply.Below F (Node.applyBlock clock depth skip m b)
      (Node.applyBlock clock depth skip m' b) := by
  unfold Node.applyBlock
  rw [Node.checkpointSkip_congr skip b h.checkpoints]
  cases Node.checkpointSkip skip m b with
  | error e => exact .thrown e h
  | ok skip' =>
    simp only
    obtain ⟨t₁, hfirst, hnil, hstays⟩ :=
      (applyBlockFirst clock skip' depth b).blind.under m.db t hready
    have hdis := (applyBlockFirst clock skip' depth b).blind.disabled m.db
    rw [ht, hfirst]
    cases hr : (applyBlockFirst clock skip' depth b).run m.db with
    | thrown e d =>
      rw [hr] at hstays
      exact .thrown e (h.withDb hstays.above)
    | ok wit d =>
      rw [hr, Outcome.db_ok] at hstays hdis
      have hmid := (h.withDb hstays.above).setMaxSizes hF
      have hready₁ : Ready (Node.setMaxSizes { m with db := d }).db t₁ :=
        hstays.ready hready hnil hdis
      obtain ⟨t₂, hrest, _, hstays₂⟩ := (applyBlockRest clock depth wit b).blind.under _ t₁ hready₁
      have hdb : (Node.setMaxSizes { m' with db := d.under t₁ }).db =
          (Node.setMaxSizes { m with db := d }).db.under t₁ := rfl
      simp only [Outcome.under_ok, hdb, hrest]
      cases hr₂ : (applyBlockRest clock depth wit b).run
          (Node.setMaxSizes { m with db := d }).db with
      | thrown e d₂ =>
        rw [hr₂] at hstays₂
        exact .thrown e (hmid.withDb hstays₂.above)
      | ok u d₂ =>
        rw [hr₂] at hstays₂
        exact .ok () (hmid.withDb hstays₂.above)

/-- **A block ends the same way in both.** -/
theorem applyInSession (hF : Resized F) (h : m.Below F m') (b : SignedBlock) (id : BlockId) :
    Reply.Below F (Node.applyInSession clock depth skip m b id)
      (Node.applyInSession clock depth skip m' b id) := by
  obtain ⟨t, ht, habove⟩ := h.db
  obtain ⟨t₁, hstart, hready⟩ := ready_start habove
  have hblock := (h.withDb hready.above).applyBlock clock depth skip hF b rfl hready
  unfold Node.applyInSession
  simp only [startUndoSession_exit]
  rw [ht, hstart]
  generalize Node.applyBlock clock depth skip { m with db := (m.db.startUndoSession false).2 } b = r
    at hblock ⊢
  generalize Node.applyBlock clock depth skip
    { m' with db := (m.db.startUndoSession false).2.under t₁ } b = r' at hblock ⊢
  cases hblock with
  | thrown e hm =>
    obtain ⟨t₂, ht₂, habove₂⟩ := hm.db
    obtain ⟨hdrop, hless⟩ := dropSession_under false habove₂
    simp only [ht₂, hdrop]
    exact .thrown e (hm.withDb (habove₂.imp_right hless.above))
  | @ok _ m₁ m₁' hm =>
    obtain ⟨t₂, ht₂, habove₂⟩ := hm.db
    obtain ⟨hcommit, habove₃⟩ := commit_under habove₂
    have hlog : Node.Below F { m₁ with log := m₁.log.store id b }
        { m₁' with log := m₁'.log.store id b } :=
      ⟨hm.db, hm.forkDb, by rw [hm.log], hm.pendingTx, hm.poppedTx, hm.pendingSession,
        hm.checkpoints⟩
    simp only [ht₂, hcommit]
    cases hc : m₁.db.commit with
    | ok u d =>
      rw [hc] at habove₃
      exact .ok () (hlog.withDb habove₃)
    | thrown e d =>
      rw [hc] at habove₃
      exact .thrown e (hlog.withDb habove₃)

/-- **A transaction ends the same way in both.** -/
theorem pushTransactionOnly (h : m.Below F m') (trx : Transaction) :
    Reply.Below F (Node.pushTransactionOnly clock depth skip m trx)
      (Node.pushTransactionOnly clock depth skip m' trx) := by
  have hopen := h.openPending
  rw [Node.pushTransactionOnly_eq, Node.pushTransactionOnly_eq]
  generalize m.openPending = m₁ at hopen ⊢
  generalize m'.openPending = m₁' at hopen ⊢
  obtain ⟨t, ht, habove⟩ := hopen.db
  obtain ⟨t₁, hstart, hready⟩ := ready_start habove
  obtain ⟨t₂, hrun, _, hstays⟩ := (applyTransaction clock skip depth trx).blind.under _ t₁ hready
  simp only [startUndoSession_exit, ht, hstart, hrun]
  cases hr : (applyTransaction clock skip depth trx).run (m₁.db.startUndoSession false).2 with
  | thrown e d =>
    rw [hr, Outcome.db_thrown] at hstays
    obtain ⟨hdrop, hless⟩ := dropSession_under false hstays.above
    simp only [Outcome.under_thrown, hdrop]
    exact .thrown e (hopen.withDb (hstays.above.imp_right hless.above))
  | ok u d =>
    rw [hr, Outcome.db_ok] at hstays
    obtain ⟨t₃, hmerge, hnil, hless⟩ := merge_under hstays.above
    simp only [Outcome.under_ok, hmerge]
    have habove₃ : Above d.merge.db t₃ := by
      rcases hstays.above with e | hle
      · exact .inl (hnil e)
      · exact .inr (hless.above hle)
    have hpending : Node.Below F { m₁ with pendingTx := m₁.pendingTx ++ [trx] }
        { m₁' with pendingTx := m₁'.pendingTx ++ [trx] } :=
      ⟨hopen.db, hopen.forkDb, hopen.log, by rw [hopen.pendingTx], hopen.poppedTx,
        hopen.pendingSession, hopen.checkpoints⟩
    cases hm : d.merge with
    | ok u d₂ =>
      rw [hm] at habove₃
      exact .ok () (hpending.withDb habove₃)
    | thrown e d₂ =>
      rw [hm] at habove₃
      obtain ⟨hdrop, hless₂⟩ := dropSession_under false habove₃
      rw [Outcome.db_thrown] at hdrop
      simp only [Outcome.under_thrown, hdrop]
      exact .thrown e (hpending.withDb (habove₃.imp_right hless₂.above))

/-- What is put back is the same. -/
theorem restorePending (h : m.Below F m') (l : List Transaction) :
    (Node.restorePending clock depth skip l m).Below F
      (Node.restorePending clock depth skip l m') := by
  induction l generalizing m m' with
  | nil => exact h
  | cons trx l ih =>
    simp only [Node.restorePending, h.store]
    split
    · exact ih h
    · exact ih (h.pushTransactionOnly clock depth skip trx).node

end Node.Below

end

/-! ## 3. Popping and switching -/

/-- The fork databases find the same blocks, and what one of them pops the other pops too. -/
structure Pops (F : ForkDb → ForkDb → Prop) (held held' : List ForkItem) : Prop where
  find : ∀ f f' id, F f f' → (f'.find id).map ForkItem.data = (f.find id).map ForkItem.data
  pop : ∀ f f' g, F f f' → f.popBlock held = .ok g → ∃ g', f'.popBlock held' = .ok g' ∧ F g g'

section

variable [Fc] {clock depth : Nat} {skip : Skip} {held held' : List ForkItem} {m₁ : Node}

namespace Node.Below

theorem fetchBlockById (hpops : Pops F held held') (h : m.Below F m') (id : BlockId) :
    m'.fetchBlockById id = m.fetchBlockById id := by
  have hfind := hpops.find _ _ id h.forkDb
  unfold Node.fetchBlockById
  rw [h.log]
  cases hf : m.forkDb.find id with
  | none =>
    rw [hf] at hfind
    rw [Option.map_eq_none_iff.mp hfind]
  | some item =>
    rw [hf] at hfind
    obtain ⟨item', hf', hdata⟩ := Option.map_eq_some_iff.mp hfind
    rw [hf']
    exact congrArg some hdata

theorem popBlock (hpops : Pops F held held') (h : m.Below F m')
    (hp : m.popBlock held = .ok () m₁) :
    ∃ m₁', m'.popBlock held' = .ok () m₁' ∧ m₁.Below F m₁' := by
  have hreset := h.resetPending
  unfold Node.popBlock at hp ⊢
  generalize m.resetPending = n at hp hreset
  generalize m'.resetPending = n' at hreset ⊢
  simp only at hp ⊢
  rw [hreset.headBlockId, hreset.fetchBlockById hpops]
  cases hb : n.fetchBlockById n.headBlockId with
  | none =>
    simp only [hb] at hp
    cases hp
  | some b =>
    simp only [hb] at hp
    cases hf : n.forkDb.popBlock held with
    | error e =>
      simp only [hf] at hp
      cases hp
    | ok f =>
      simp only [hf] at hp
      obtain ⟨f', hf', hF⟩ := hpops.pop _ _ _ hreset.forkDb hf
      cases hc : n.db.popCommit with
      | thrown e d =>
        simp only [hc] at hp
        cases hp
      | ok u d =>
        simp only [hc] at hp
        cases hp
        obtain ⟨t, ht, habove⟩ := hreset.db
        obtain ⟨hcommit, hact⟩ := popCommit_under (t := t) hc
        simp only [hf', ht, hcommit]
        refine ⟨_, rfl, ⟨t, rfl, .inr ?_⟩, hF, hreset.log, hreset.pendingTx, ?_,
          hreset.pendingSession, hreset.checkpoints⟩
        · simp only [hact]
          exact Nat.zero_le _
        · simp only [hreset.poppedTx]

/-- The blocks that are popped; more undo states allow more turns. -/
theorem popUntil (hpops : Pops F held held') {id : BlockId} {fuel fuel' : Nat}
    (hfuel : fuel ≤ fuel') (h : m.Below F m') (hp : Node.popUntil held id fuel m = .ok () m₁) :
    ∃ m₁', Node.popUntil held' id fuel' m' = .ok () m₁' ∧ m₁.Below F m₁' := by
  induction fuel generalizing m m' fuel' with
  | zero => cases hp
  | succ fuel ih =>
    obtain ⟨k, rfl⟩ : ∃ k, fuel' = k + 1 := ⟨fuel' - 1, by omega⟩
    simp only [Node.popUntil, h.headBlockId] at hp ⊢
    split at hp
    · rename_i hid
      cases hp
      rw [if_pos hid]
      exact ⟨m', rfl, h⟩
    · rename_i hid
      rw [if_neg hid]
      cases hb : m.popBlock held with
      | thrown e m₂ =>
        simp only [hb] at hp
        cases hp
      | ok u m₂ =>
        simp only [hb] at hp
        obtain ⟨m₂', hb', h₂⟩ := h.popBlock hpops hb
        simp only [hb']
        exact ih (Nat.le_of_succ_le_succ hfuel) h₂ hp

theorem popTo (hpops : Pops F held held') {id : BlockId} (h : m.Below F m')
    (hp : m.popTo held id = .ok () m₁) :
    ∃ m₁', m'.popTo held' id = .ok () m₁' ∧ m₁.Below F m₁' := by
  obtain ⟨t, ht, _⟩ := h.db
  refine h.popUntil hpops ?_ hp
  rw [ht, under_stack, List.length_append]
  omega

end Node.Below

/-- Every block of the branch is applied, one after the other. -/
def Node.AppliesAll (clock depth : Nat) (skip : Skip) : List ForkItem → Node → Prop
  | [], _ => True
  | item :: rest, m => ∃ m₁, Node.applyInSession clock depth skip m item.data item.id = .ok () m₁ ∧
      Node.AppliesAll clock depth skip rest m₁

/-- A branch that is applied in one node is applied in the other. -/
theorem Node.Below.pushEach (hF : Resized F) (newId newId' : BlockId) (br br' : Node.Branches)
    {l l' : List ForkItem}
    (hl : l'.map (fun i => (i.id, i.data)) = l.map fun i => (i.id, i.data)) (h : m.Below F m')
    (happlies : m.AppliesAll clock depth skip l) :
    ∃ m₁ m₁', Node.pushEach clock depth skip newId br l m = .ok true m₁ ∧
      Node.pushEach clock depth skip newId' br' l' m' = .ok true m₁' ∧ m₁.Below F m₁' := by
  induction l generalizing m m' l' with
  | nil =>
    rw [List.map_nil, List.map_eq_nil_iff] at hl
    subst hl
    exact ⟨m, m', rfl, rfl, h⟩
  | cons item rest ih =>
    obtain ⟨m₁, hone, hrest⟩ := happlies
    obtain ⟨item', rest', rfl, hitem, hl'⟩ := List.map_eq_cons_iff.mp hl
    obtain ⟨hid, hdata⟩ := Prod.mk.inj hitem
    have hpair := h.applyInSession clock depth skip hF item.data item.id
    rw [hone] at hpair
    obtain ⟨m₁', hone', h₁⟩ := hpair.of_ok
    obtain ⟨m₂, m₂', hend, hend', h₂⟩ := ih hl' h₁ hrest
    refine ⟨m₂, m₂', ?_, ?_, h₂⟩
    · simp only [Node.pushEach, hone, hend]
    · simp only [Node.pushEach, hid, hdata, hone', hend']

end

/-! ## 4. The head under pending transactions -/

/-- What would undo the pending transactions does not touch the head. -/
def Node.Rooted (m : Node) : Prop :=
  m.pendingSession.isSome = true → m.db.disabled = true ∨ Backed anchorLaw.idLaw 1 m.db

section

variable {m : Node}

theorem Node.Rooted.of_none (h : m.pendingSession = none) : m.Rooted := by
  intro hs
  rw [h] at hs
  cases hs

/-- Two stores in which the global properties have one anchor. -/
def Anchored (s t : Store chainSchema) : Prop := anchorLaw.idLaw.Kept s t

theorem Anchored.props {s t : Store chainSchema} (h : Anchored s t) :
    s.props.anchor = t.props.anchor := props_anchor (h Kind.dynamicGlobalProperty 0)

/-- A disabled undo database leaves the session as it is. -/
theorem dropSession_of_disabled {S : Schema} {d : Database S} (exit : Bool)
    (h : d.disabled = true) : d.dropSession exit = d := by
  unfold Database.dropSession Database.undo
  rw [if_pos h]

theorem backed_start {d : Database chainSchema} {k : Nat} (h : Backed anchorLaw.idLaw k d) :
    Backed anchorLaw.idLaw (k + 1) (d.startUndoSession true).2 := by
  have hs : (d.startUndoSession true).2.store = d.store := startUndoSession_store d true
  exact Fenced.start Back.empty (Fenced.mono h rfl fun _ hu => hs ▸ hu)

/-- **Dropping the pending session does not move the head.** -/
theorem Node.Rooted.resetPending (h : m.Rooted) : Anchored m.db.store m.resetPending.db.store := by
  unfold Node.resetPending
  cases hp : m.pendingSession with
  | none => exact IdLaw.Kept.refl _
  | some exit =>
    rcases h (by rw [hp]; rfl) with hd | hb
    · simp only [dropSession_of_disabled exit hd]
      exact IdLaw.Kept.refl _
    · obtain ⟨_, hback⟩ := Fenced.dropSession hb exit
      rcases hback with e | ⟨u, hu, e⟩
      · simp only [e]
        exact IdLaw.Kept.refl _
      · simp only [e]
        exact rollbackStore_kept (anchorLaw_reversible _) hu _

theorem Node.Rooted.openPending (h : m.Rooted) :
    m.openPending.db.store = m.db.store ∧
      (m.openPending.db.disabled = true ∨ Backed anchorLaw.idLaw 1 m.openPending.db) := by
  unfold Node.openPending
  cases hp : m.pendingSession with
  | some exit => exact ⟨rfl, h (by rw [hp]; rfl)⟩
  | none =>
    by_cases hd : m.db.disabled = true
    · have hstart : m.db.startUndoSession false = (false, m.db) := by
        unfold Database.startUndoSession
        simp [hd]
      rw [hstart]
      exact ⟨rfl, .inl hd⟩
    · have hd : m.db.disabled = false := Bool.eq_false_iff.mpr hd
      have hb := backed_start (Fenced.zero (fun u => Back anchorLaw.idLaw u m.db.store) m.db)
      rw [startUndoSession_eq true hd] at hb
      rw [startUndoSession_eq false hd]
      exact ⟨rfl, .inr hb⟩

end

section

variable [Fc] {m : Node} (clock depth : Nat) (skip : Skip)

/-- **A pending transaction does not move the head.** -/
theorem Node.Rooted.pushTransactionOnly (h : m.Rooted) (trx : Transaction) :
    (Node.pushTransactionOnly clock depth skip m trx).node.Rooted ∧
      Anchored m.db.store (Node.pushTransactionOnly clock depth skip m trx).node.db.store := by
  obtain ⟨hstore, hroot⟩ := h.openPending
  rw [Node.pushTransactionOnly_eq]
  rw [← hstore]
  generalize m.openPending = n at hroot ⊢
  have hin := within_head_applyTransaction (n := depth) clock skip trx
  by_cases hd : n.db.disabled = true
  · -- without undo there is no session: only the objects change
    have hstart : n.db.startUndoSession false = (false, n.db) := by
      unfold Database.startUndoSession
      simp [hd]
    have hdis := (applyTransaction clock skip depth trx).blind.disabled n.db hd
    have hkept : Anchored n.db.store ((applyTransaction clock skip depth trx).run n.db).db.store :=
      hin.kept headLicence_anchor (anchorLaw_reversible _)
    rw [hstart]
    cases hr : (applyTransaction clock skip depth trx).run n.db with
    | thrown e d =>
      rw [hr, Outcome.db_thrown] at hdis hkept
      simp only [Reply.node_thrown, dropSession_of_disabled false hdis]
      exact ⟨fun _ => .inl hdis, hkept⟩
    | ok u d =>
      rw [hr, Outcome.db_ok] at hdis hkept
      cases hm : d.merge with
      | ok u' d₂ =>
        obtain ⟨hsame, _⟩ := Action.merge_same hm
        simp only [Reply.node_ok, hm]
        refine ⟨fun _ => .inl ((Action.merge_disabled hm).trans hdis), ?_⟩
        rw [hsame]
        exact hkept
      | thrown e d₂ =>
        obtain rfl := Action.merge_thrown hm
        simp only [hm, Reply.node_thrown, dropSession_of_disabled false hdis]
        exact ⟨fun _ => .inl hdis, hkept⟩
  · -- a session of its own, merged or dropped
    have hb := hroot.resolve_left hd
    have hd : n.db.disabled = false := Bool.eq_false_iff.mpr hd
    have hstart : n.db.startUndoSession false = n.db.startUndoSession true := by
      rw [startUndoSession_eq false hd, startUndoSession_eq true hd]
    have hacts := hin.acts (n.db.startUndoSession true).2
    have hend : ∀ d, Acts headLicence n.db d →
        (d.disabled = true ∨ Backed anchorLaw.idLaw 1 d) ∧ Anchored n.db.store d.store := by
      intro d hacts
      obtain ⟨hb', hkept⟩ := hacts.kept headLicence_anchor (anchorLaw_reversible _) hb
      exact ⟨.inr hb', hkept⟩
    rw [hstart]
    cases hr : (applyTransaction clock skip depth trx).run (n.db.startUndoSession true).2 with
    | thrown e d =>
      rw [hr, Outcome.db_thrown] at hacts
      obtain ⟨hroot, hkept⟩ := hend _ (.dropped (n.db.startUndoSession true).1 hacts)
      exact ⟨fun _ => hroot, hkept⟩
    | ok u d =>
      rw [hr, Outcome.db_ok] at hacts
      cases hm : d.merge with
      | ok u' d₂ =>
        obtain ⟨hroot, hkept⟩ := hend _ (.merged false hacts hm)
        simp only [hm, Reply.node_ok]
        exact ⟨fun _ => hroot, hkept⟩
      | thrown e d₂ =>
        obtain rfl := Action.merge_thrown hm
        obtain ⟨hroot, hkept⟩ := hend _ (.dropped (n.db.startUndoSession true).1 hacts)
        simp only [hm, Reply.node_thrown]
        exact ⟨fun _ => hroot, hkept⟩

/-- What is put back does not move the head either. -/
theorem Node.Rooted.restorePending (h : m.Rooted) (l : List Transaction) :
    (Node.restorePending clock depth skip l m).Rooted ∧
      Anchored m.db.store (Node.restorePending clock depth skip l m).db.store := by
  induction l generalizing m with
  | nil => exact ⟨h, IdLaw.Kept.refl _⟩
  | cons trx l ih =>
    simp only [Node.restorePending]
    split
    · exact ih h
    · obtain ⟨hroot, hkept⟩ := h.pushTransactionOnly clock depth skip trx
      obtain ⟨hroot₂, hkept₂⟩ := ih hroot
      exact ⟨hroot₂, hkept.trans hkept₂⟩

end

end MuseChain
