/-
  File:      MuseChain/Safety/Attempts.lean
  Subject:   The runs of the database, with the attempts in them that failed.

  `ChainStep` speaks of what was evaluated with success. A proposal that cannot be executed, a
  transaction and a block that are refused have run in part, in a session that is dropped then.
  Dropping it need not take them back: when a callback of `modify` threw, the object is gone and
  the rollback stops where it misses it.

  * `Advance ok safe`: a step of the database with its undo stack: an operation, a routine, what
    becomes of sessions, or an attempt that failed; `safe` is on these.
  * `Attained ok safe g d`: the databases that steps lead to from a genesis. (To undo a session or to
    pop a block is no step: it leads back, see `History`.)
  * `Unspoilt`: undo was enabled, its stack had room for the nested sessions, and no callback threw.
    Such an attempt leaves the objects as they were, so that **what is attained over unspoilt
    attempts is reached without them** (`Attained.reached`).
-/
import MuseChain.Safety.ChainRuns
import MuseChain.Db.Snapshots

namespace MuseChain

variable {n : Nat}

/-! ## 1. Steps -/

/-- One step of the database. -/
inductive Advance [Fc] (ok : Store chainSchema → Operation → Prop)
    (safe : Nat → Database chainSchema → Database chainSchema → Prop) :
    Database chainSchema → Database chainSchema → Prop
  | operation {d d' : Database chainSchema} {u : Unit} (clock n : Nat) (push : Nat → Act n Unit)
      (op : Operation) : op.validate = .ok () → op.approves = false → ok d.store op →
      (evaluate clock push op).run d = .ok u d' → Advance ok safe d d'
  | routine {d d' : Database chainSchema} {u : Unit} (n : Nat) (r : Routine) :
      (r.act : Act n Unit).run d = .ok u d' → Advance ok safe d d'
  | opened (d : Database chainSchema) (force : Bool) :
      Advance ok safe d (d.startUndoSession force).2
  | merged {d d' : Database chainSchema} {u : Unit} : d.merge = .ok u d' → Advance ok safe d d'
  | committed {d d' : Database chainSchema} {u : Unit} :
      d.commit = .ok u d' → Advance ok safe d d'
  | disabled (d : Database chainSchema) : Advance ok safe d { d with disabled := true }
  | resized (d : Database chainSchema) (size : Nat) : Advance ok safe d { d with maxSize := size }
  /-- The session of an execution enables undo. -/
  | unexecuted {d d' : Database chainSchema} {e : Exn} (clock n i : Nat) :
      (pushProposal clock (n + 1) i).run d = .thrown e d' → (∀ why, e ≠ .crash why) →
      safe n { d with disabled := false } d' → Advance ok safe d d'
  | refusedTransaction {d d' : Database chainSchema} {e : Exn} (clock n : Nat) (skip : Skip)
      (trx : Transaction) :
      (applyTransaction clock skip n trx).run (d.startUndoSession false).2 = .thrown e d' →
      (∀ why, e ≠ .crash why) → safe n d d' →
      Advance ok safe d (d'.dropSession (d.startUndoSession false).1)
  | refusedBlock {d d' : Database chainSchema} {e : Exn} (clock n : Nat) (skip : Skip)
      (b : SignedBlock) :
      (applyBlockFirst clock skip n b).run (d.startUndoSession false).2 = .thrown e d' →
      (∀ why, e ≠ .crash why) → safe n d d' →
      Advance ok safe d (d'.dropSession (d.startUndoSession false).1)
  /-- The block was refused after the max size was set. -/
  | refusedLater {d d₁ d' : Database chainSchema} {e : Exn} (clock n wit size : Nat) (skip : Skip)
      (b : SignedBlock) :
      (applyBlockFirst clock skip n b).run (d.startUndoSession false).2 = .ok wit d₁ →
      (applyBlockRest clock n wit b).run { d₁ with maxSize := size } = .thrown e d' →
      (∀ why, e ≠ .crash why) → safe n d d₁ → safe n { d₁ with maxSize := size } d' →
      Advance ok safe d (d'.dropSession (d.startUndoSession false).1)

/-- The databases that steps lead to from a genesis. -/
def Attained [Fc] (ok : Store chainSchema → Operation → Prop)
    (safe : Nat → Database chainSchema → Database chainSchema → Prop) (g : GenesisState)
    (d : Database chainSchema) : Prop :=
  ∃ u d₀, (initGenesis g).run emptyDatabase = .ok u d₀ ∧
    Relation.ReflTransGen (Advance ok safe) { d₀ with disabled := false } d

/-- What a failed attempt needs to leave no trace: undo is enabled when it starts in `d`, its stack
has room for `n` nested sessions, and no callback threw up to where it stops in `d'`. -/
structure Unspoilt (n : Nat) (d d' : Database chainSchema) : Prop where
  enabled : d.disabled = false
  room : n ≤ d.maxSize
  whole : d'.broken = false

/-! ## 2. A session and what it saved -/

/-- The database in a session that saved the objects `base`. -/
structure Saving (base : Store chainSchema) (d : Database chainSchema) : Prop where
  enabled : d.disabled = false
  counted : 0 < d.activeSessions
  rewinds : Rewinds Steady d.stack d.store [base]

section

variable {base : Store chainSchema} {d d' : Database chainSchema}

theorem Saving.start (hd : d.disabled = false) (hf : d.store.Fresh) :
    Saving d.store (d.startUndoSession false).2 := by
  rw [startUndoSession_eq false hd]
  exact ⟨hd, Nat.succ_pos _, .cons (Sound.empty hf) (steady_tracked.refl _) (.nil _ _)⟩

/-- No program loses what its session saved. -/
theorem Saving.run {α : Type} {x : Act n α} {o : Outcome chainSchema α}
    (h : Saving base d) (hr : x.run d = o) (hn : n ≤ d.maxSize) (hb : o.db.broken = false) :
    Saving base o.db := by
  subst hr
  obtain ⟨_, hkeeps, _⟩ := x.holds d hb
  obtain ⟨hd, ha, _, m, hm, hrw⟩ :=
    hkeeps h.enabled hn [base] (List.cons_ne_nil _ _) h.rewinds
  obtain ⟨k, rfl⟩ : ∃ k, m = k + 1 := by
    simp only [List.length_cons, List.length_nil] at hm
    exact ⟨m - 1, by omega⟩
  rw [List.take_succ_cons, List.take_nil] at hrw
  exact ⟨hd, ha ▸ h.counted, hrw⟩

/-- A session that is dropped gives back what it saved. -/
theorem Saving.dropped (h : Saving base d) (exit : Bool) :
    (d.dropSession exit).store = base := by
  rw [Action.dropped (d := { d with store := base }) exit h.enabled h.counted h.rewinds]

/-! ## 3. Unspoilt attempts -/

/-- What is refused in a session of its own has changed nothing. -/
theorem refused_store {α : Type} {x : Act n α} {e : Exn} (hf : d.store.Fresh)
    (hr : x.run (d.startUndoSession false).2 = .thrown e d') (h : Unspoilt n d d') :
    (d'.dropSession (d.startUndoSession false).1).store = d.store := by
  have hroom : n ≤ (d.startUndoSession false).2.maxSize := by
    rw [startUndoSession_eq false h.enabled]
    exact h.room
  exact ((Saving.start h.enabled hf).run hr hroom h.whole).dropped _

variable [Fc]

/-- **A proposal whose execution failed has changed nothing.** -/
theorem unexecuted_store {clock i : Nat} {e : Exn} (hf : d.store.Fresh)
    (hr : (pushProposal clock (n + 1) i).run d = .thrown e d')
    (h : Unspoilt n { d with disabled := false } d') : d'.store = d.store :=
  Action.nested_thrown hr h.whole h.room hf

/-- **Nor has a block that is refused after the max size was set.** -/
theorem refusedLater_store {clock wit size : Nat} {skip : Skip} {b : SignedBlock} {e : Exn}
    {d₁ : Database chainSchema} (hf : d.store.Fresh)
    (hfirst : (applyBlockFirst clock skip n b).run (d.startUndoSession false).2 = .ok wit d₁)
    (hrest : (applyBlockRest clock n wit b).run { d₁ with maxSize := size } = .thrown e d')
    (h : Unspoilt n d d₁) (h' : Unspoilt n { d₁ with maxSize := size } d') :
    (d'.dropSession (d.startUndoSession false).1).store = d.store := by
  have hroom : n ≤ (d.startUndoSession false).2.maxSize := by
    rw [startUndoSession_eq false h.enabled]
    exact h.room
  have hin : Saving d.store d₁ := (Saving.start h.enabled hf).run hfirst hroom h.whole
  have hsized : Saving d.store { d₁ with maxSize := size } :=
    ⟨hin.enabled, hin.counted, hin.rewinds⟩
  exact (hsized.run hrest h'.room h'.whole).dropped _

/-! ## 4. What is attained is reached -/

/-- Ids in use stay below the next ids. -/
abbrev Freshens (s t : Store chainSchema) : Prop := s.Fresh → t.Fresh

instance : IsPreorder (Store chainSchema) Freshens where
  refl _ h := h
  trans _ _ _ h h' hs := h' (h hs)

omit [Fc] in
theorem freshens_create {k : Kind} {a : k.Object} :
    Steps Freshens (Action.create (S := chainSchema) k a : Act n Nat) := by
  refine ⟨fun {d i d'} hr hf => ?_⟩
  obtain ⟨_, _, hfree, e⟩ := create_store hr
  rw [e]
  exact hf.create hfree

omit [Fc] in
theorem freshens_write {s : Store chainSchema} {k : Kind} {i : Nat} {a b : k.Object}
    (hfree : s.free k i b = true) (hg : s.get k i = some a) (hf : s.Fresh) :
    (s.write k i b hfree).Fresh := hf.write hfree (hf k i a hg)

omit [Fc] in
theorem Composed.fresh {l : List Part} {α : Type} {x : Act n α} (h : Composed l x) :
    Steps Freshens x := by
  induction h with
  | looks h => exact h.steps
  | bind _ _ ihx ihf => exact steps_bind ihx ihf
  | modifyWith h =>
    refine ⟨fun {d _ d'} hr hf => ?_⟩
    obtain ⟨a, b, hg, _, hfree, e⟩ := modifyWith_store hr
    rw [e]
    exact freshens_write hfree hg hf
  | modifyNested _ _ ih =>
    refine ⟨fun {d _ d'} hr hf => ?_⟩
    obtain ⟨a, b, d₀, d₁, a', _, e0, hr1, hg, hfree, e⟩ := modifyNested_store hr
    rw [e]
    exact freshens_write hfree hg ((ih a).step hr1 (e0 ▸ hf))
  | create _ _ => exact freshens_create
  | remove _ =>
    refine ⟨fun {d _ d'} hr hf => ?_⟩
    obtain ⟨a, _, e⟩ := remove_store hr
    rw [e]
    exact hf.erase _ _

theorem freshens_initGenesis (g : GenesisState) : Steps Freshens (initGenesis g) := by
  rw [initGenesis_eq]
  refine steps_bind ?_ fun _ => steps_bind (composed_initGlobals g).fresh fun _ => ?_
  · unfold initAccounts
    refine steps_bind freshens_create fun _ => steps_bind freshens_create fun _ => ?_
    refine steps_bind freshens_create fun _ => steps_bind freshens_create fun _ => ?_
    exact steps_bind freshens_create fun _ => (looks_pure ()).steps
  · exact (composed_importGenesis g).fresh

variable {ok : Store chainSchema → Operation → Prop} {g : GenesisState}

theorem ChainStep.fresh {s t : Store chainSchema} (h : ChainStep ok s t) : Freshens s t := by
  cases h with
  | operation clock n push op _ ha _ hr => exact (composed_evaluate clock push ha).fresh.step hr
  | routine n r hr => exact r.composed_act.fresh.step hr

theorem Chained.fresh {s t : Store chainSchema} (h : Chained ok s t) : Freshens s t := by
  induction h with
  | refl => exact fun hf => hf
  | tail _ hs ih => exact fun hf => hs.fresh (ih hf)

/-- **A step without spoilt attempts is one of the chain, or changes no object.** -/
theorem Advance.chained (h : Advance ok Unspoilt d d') (hf : d.store.Fresh) :
    Chained ok d.store d'.store := by
  have hsame : ∀ {s t : Store chainSchema}, t = s → Chained ok s t := fun e => e ▸ .refl
  cases h with
  | operation clock n push op hv ha hop hr => exact .single (.operation clock n push op hv ha hop hr)
  | routine n r hr => exact .single (.routine n r hr)
  | opened force =>
    refine hsame ?_
    unfold Database.startUndoSession
    split <;> rfl
  | merged hm => exact hsame (Action.merge_same hm).1
  | committed hm =>
    unfold Database.commit at hm
    split at hm <;> cases hm
    exact .refl
  | disabled | resized => exact .refl
  | unexecuted clock n i hr _ h => exact hsame (unexecuted_store hf hr h)
  | refusedTransaction clock n skip trx hr _ h => exact hsame (refused_store hf hr h)
  | refusedBlock clock n skip b hr _ h => exact hsame (refused_store hf hr h)
  | refusedLater clock n wit size skip b hfirst hrest _ h h' =>
    exact hsame (refusedLater_store hf hfirst hrest h h')

theorem genesis_fresh {u : Unit} (hg : (initGenesis g).run emptyDatabase = .ok u d) :
    d.store.Fresh := (freshens_initGenesis g).step hg emptyStore_fresh

theorem Reached.fresh {s : Store chainSchema} (h : Reached ok g s) : s.Fresh := by
  obtain ⟨u, d₀, hg, hrun⟩ := h
  exact hrun.fresh (genesis_fresh hg)

/-- **What is attained over unspoilt attempts is reached without them.** -/
theorem Attained.reached (h : Attained ok Unspoilt g d) : Reached ok g d.store := by
  obtain ⟨u, d₀, hg, hrun⟩ := h
  have hf₀ : d₀.store.Fresh := genesis_fresh hg
  have hchain : Chained ok d₀.store d.store := by
    induction hrun with
    | refl => exact .refl
    | tail _ hs ih => exact ih.trans (hs.chained (ih.fresh hf₀))
  exact ⟨u, d₀, hg, hchain⟩

/-! ## 5. proposal_update -/

/-- **What becomes of an approval that is accepted**: the proposal is not executed yet, it is
executed, or its execution failed. -/
theorem proposalUpdate_cases {clock : Nat} {o : ProposalUpdateOp} {u : Unit}
    (hr : (proposalUpdate (pushProposal clock n) o).run d = .ok u d') :
    ∃ d₁, ((Routine.approveProposal o).act : Act n Unit).run d = .ok () d₁ ∧
      (d' = d₁ ∨ (pushProposal clock n o.proposal).run d₁ = .ok () d' ∨
        ∃ e, (pushProposal clock n o.proposal).run d₁ = .thrown e d' ∧ ∀ why, e ≠ .crash why) := by
  unfold proposalUpdate at hr
  obtain ⟨p, _, hr⟩ := bind_getObject_ok.mp hr
  obtain ⟨hf3, d₂, hhf, hr₂⟩ := Action.bind_ok.mp hr
  obtain rfl := (looks_hasHardfork _).of_ok hhf
  obtain ⟨now, d₃, hnow, hr₃⟩ := Action.bind_ok.mp hr₂
  obtain rfl := looks_headBlockTime.of_ok hnow
  obtain ⟨_, _, hr₄⟩ := Action.bind_lift_ok.mp hr₃
  obtain ⟨_, d₁, happrove, hr₅⟩ := Action.bind_ok.mp hr₄
  refine ⟨d₁, happrove, ?_⟩
  obtain ⟨q, _, hr₆⟩ := bind_getObject_ok.mp hr₅
  split at hr₆
  · cases hr₆
    exact .inl rfl
  · obtain ⟨authorized, d₄, hauth, hr₇⟩ := Action.bind_ok.mp hr₆
    obtain rfl := (looks_isAuthorizedToExecute q).of_ok hauth
    split at hr₇
    · simp only [Action.catching] at hr₇
      split at hr₇
      · rename_i hpush
        cases hr₇
        exact .inr (.inl hpush)
      · cases hr₇
      · rename_i e d₅ hcrash hpush
        cases hr₇
        exact .inr (.inr ⟨e, hpush, hcrash⟩)
    · cases hr₇
      exact .inl rfl

/-! ## 6. Single steps -/

def evaluated (op : Operation) (d : Database chainSchema) : Database chainSchema :=
  ((evaluate 0 (fun _ => pure ()) op : Act 0 Unit).run d).db

/-- Somebody proposes the operations. -/
def proposed (ops : List Operation) (d : Database chainSchema) : Database chainSchema :=
  evaluated (.proposalCreate ops (genesisTime + 3600) none) d

/-- The accounts approve the first proposal. -/
def approving (who : List String) : ProposalUpdateOp := ⟨0, who, [], [], [], [], []⟩

/-- And nobody else has to, so that it is executed, or not. -/
def approved (who : List String) (d : Database chainSchema) : Database chainSchema :=
  ((applyOperation 0 1 (.proposalUpdate (approving who))).run d).db

/-- The proposal can be created and approved, but not executed. -/
def unexecutable (ops : List Operation) (who : List String) (d : Database chainSchema) : Bool :=
  ((evaluate 0 (fun _ => pure ()) (.proposalCreate ops (genesisTime + 3600) none) :
      Act 0 Unit).run d).isOk &&
    ((applyOperation 0 1 (.proposalUpdate (approving who))).run (proposed ops d)).isOk &&
    !((pushProposal 0 1 0).run
      (((Routine.approveProposal (approving who)).act : Act 1 Unit).run (proposed ops d)).db).isOk

variable {safe : Nat → Database chainSchema → Database chainSchema → Prop}

theorem Attained.genesis (hg : ((initGenesis g).run emptyDatabase).isOk = true) :
    Attained ok safe g (Node.genesis g).db := by
  obtain ⟨u, hu⟩ := Outcome.exists_of_isOk hg
  exact ⟨u, _, hu, .refl⟩

theorem Attained.evaluated (h : Attained ok safe g d) (op : Operation)
    (hv : op.validate = .ok ()) (ha : op.approves = false) (hop : ok d.store op)
    (hr : ((evaluate 0 (fun _ => pure ()) op : Act 0 Unit).run d).isOk = true) :
    Attained ok safe g (evaluated op d) := by
  obtain ⟨u, d₀, hg, hrun⟩ := h
  obtain ⟨_, hr⟩ := Outcome.exists_of_isOk hr
  exact ⟨u, d₀, hg, hrun.tail (.operation 0 0 _ op hv ha hop hr)⟩

/-- A proposal that is approved and cannot be executed. -/
theorem Attained.attempted {ops : List Operation} {who : List String} (h : Attained ok safe g d)
    (hv : (Operation.proposalCreate ops (genesisTime + 3600) none).validate = .ok ())
    (hop : ok d.store (.proposalCreate ops (genesisTime + 3600) none))
    (hun : unexecutable ops who d = true)
    (hsafe : ∀ d₁ : Database chainSchema,
      safe 0 { d₁ with disabled := false } (approved who (proposed ops d))) :
    Attained ok safe g (approved who (proposed ops d)) := by
  unfold unexecutable at hun
  simp only [Bool.and_eq_true, Bool.not_eq_true'] at hun
  obtain ⟨⟨hcreate, hupdate⟩, hfail⟩ := hun
  obtain ⟨u, d₀, hg, hrun⟩ := h.evaluated _ hv rfl hop hcreate
  obtain ⟨_, hr⟩ := Outcome.exists_of_isOk hupdate
  obtain ⟨d₁, happrove, hcases⟩ := proposalUpdate_cases hr
  rw [happrove, Outcome.db_ok] at hfail
  have hrun₁ := hrun.tail (.routine 1 (.approveProposal (approving who)) happrove)
  refine ⟨u, d₀, hg, ?_⟩
  obtain hsame | hpush | ⟨e, hpush, hcrash⟩ := hcases
  · unfold approved
    rw [hsame]
    exact hrun₁
  · rw [show (approving who).proposal = 0 from rfl] at hpush
    rw [hpush] at hfail
    cases hfail
  · exact hrun₁.tail (.unexecuted 0 0 0 hpush hcrash (hsafe d₁))

omit [Fc] in
/-- Undo is enabled by the session of an execution, and the object is still there. -/
theorem unspoilt_of_whole {d d' : Database chainSchema} (h : d'.broken = false) :
    Unspoilt 0 { d with disabled := false } d' := ⟨rfl, Nat.zero_le _, h⟩

end

end MuseChain
