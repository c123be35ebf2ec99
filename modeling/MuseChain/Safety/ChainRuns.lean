/-
  File:      MuseChain/Safety/ChainRuns.lean
  Subject:   The runs of the chain as sequences of small steps.

  * `Routine`: what transactions and blocks do besides evaluating operations.
  * `ChainStep ok`: one operation is evaluated, of a transaction or of a proposal that executes, or
    one routine runs. The condition `ok` is on the operation and the objects it meets.
  * `Reached`: the objects that are reached from a genesis. What every step preserves holds in all
    of them (`Reached.invariant`).
  * `Conveys R`: what transactions and expired proposals do is in `R`, when their small steps are
    (`Conveys.applyTransaction`, `Conveys.clearExpiredProposals`). `Carries R` is for relations that
    allow every approval, `Bears fine R` for those that only speak of operations that are `fine`.

  A proposal that fails to execute is no step here, nor is a transaction or a block that is refused:
  the session is dropped. What such an attempt may leave behind is in Attempts.lean.
-/
import MuseChain.Safety.Programs
import MuseChain.Chain.Genesis
import Mathlib.Logic.Relation

namespace MuseChain

variable {n : Nat}

/-! ## 1. Steps -/

/-- What transactions and blocks do besides evaluating operations. -/
inductive Routine where
  | chargeBandwidth (trx : Transaction)
  | rememberTransaction (t : TransactionObject)
  | approveProposal (o : ProposalUpdateOp)
  | removeProposal (i : Nat)
  | currentWitness (b : SignedBlock)
  | headerExtensions (b : SignedBlock)
  | globalDynamicData (skip : Skip) (b : SignedBlock)
  | signingWitness (wit : Nat) (b : SignedBlock)
  | lastIrreversibleBlock
  | blockSummary (b : SignedBlock)
  | expiredTransactions
  | expiredOrders
  | witnessSchedule
  | medianFeed
  | virtualSupply
  | pay
  | accountRecovery
  | hardforks

namespace Routine

def act [Fc] : Routine → Act n Unit
  | chargeBandwidth trx => MuseChain.chargeBandwidth trx
  | rememberTransaction t => do
      let _ ← Action.create (S := chainSchema) Kind.transaction t
      pure ()
  | approveProposal o =>
      Action.modify (S := chainSchema) Kind.proposal o.proposal fun p : Proposal => o.approve p
  | removeProposal i => Action.remove (S := chainSchema) Kind.proposal i
  | currentWitness b =>
      modifyDgp (fun _ => .ok ()) fun p _ => { p with currentWitness := b.witness }
  | headerExtensions b => processHeaderExtensions b
  | globalDynamicData skip b => updateGlobalDynamicData skip b
  | signingWitness wit b => updateSigningWitness wit b
  | lastIrreversibleBlock => updateLastIrreversibleBlock
  | blockSummary b => createBlockSummary b
  | expiredTransactions => clearExpiredTransactions
  | expiredOrders => clearExpiredOrders
  | witnessSchedule => updateWitnessSchedule
  | medianFeed => updateMedianFeed
  | virtualSupply => updateVirtualSupply
  | pay => payBlock
  | accountRecovery => accountRecoveryProcessing
  | hardforks => processHardforks

/-- What a routine writes to. -/
def parts : Routine → List Part
  | chargeBandwidth _ => [.account .bandwidth]
  | rememberTransaction _ => [.made .transaction]
  | approveProposal _ => [.whole .proposal]
  | removeProposal _ => [.gone .proposal]
  | currentWitness _ => [.props .witness]
  | headerExtensions _ => [.witness .version, .witness .hardforkVote]
  | globalDynamicData _ _ => headParts
  | signingWitness _ _ => [.witness .aslot, .witness .confirmed]
  | lastIrreversibleBlock => [.props .irreversible]
  | blockSummary _ => [.whole .blockSummary]
  | expiredTransactions => [.gone .transaction]
  | expiredOrders => cancelParts
  | witnessSchedule => scheduleParts
  | medianFeed => [.whole .feedHistory]
  | virtualSupply => [.props .supply]
  | pay => payBlockParts
  | accountRecovery =>
      [.gone .accountRecoveryRequest, .gone .ownerAuthorityHistory,
        .gone .changeRecoveryAccountRequest, .account .recovery]
  | hardforks => hardforkParts

theorem composed_act [Fc] (r : Routine) : Composed r.parts (r.act : Act n Unit) := by
  cases r with
  | rememberTransaction t =>
    exact composed_bind (.create List.mem_cons_self trivial) fun _ =>
      composed_of_looks (looks_pure ())
  | approveProposal o => exact composed_modify fun _ => .inl List.mem_cons_self
  | removeProposal i => exact .remove List.mem_cons_self
  | currentWitness b =>
    unfold act modifyDgp
    exact composed_modifyWith fun _ _ f => by cases f <;> simp +decide [parts]
  | _ => simp +decide [act, parts]

end Routine

/-- One step of the chain. -/
inductive ChainStep [Fc] (ok : Store chainSchema → Operation → Prop) :
    Store chainSchema → Store chainSchema → Prop
  | operation {d d' : Database chainSchema} {u : Unit} (clock n : Nat) (push : Nat → Act n Unit)
      (op : Operation) : op.validate = .ok () → op.approves = false → ok d.store op →
      (evaluate clock push op).run d = .ok u d' → ChainStep ok d.store d'.store
  | routine {d d' : Database chainSchema} {u : Unit} (n : Nat) (r : Routine) :
      (r.act : Act n Unit).run d = .ok u d' → ChainStep ok d.store d'.store

/-- Any number of steps. -/
def Chained [Fc] (ok : Store chainSchema → Operation → Prop) :
    Store chainSchema → Store chainSchema → Prop :=
  Relation.ReflTransGen (ChainStep ok)

/-- The objects that are reached from a genesis. -/
def Reached [Fc] (ok : Store chainSchema → Operation → Prop) (g : GenesisState)
    (s : Store chainSchema) : Prop :=
  ∃ u d, (initGenesis g).run emptyDatabase = .ok u d ∧
    Chained ok d.store s

section

variable [Fc] {ok : Store chainSchema → Operation → Prop}

instance : IsPreorder (Store chainSchema) (Chained ok) where
  refl _ := .refl
  trans _ _ _ := Relation.ReflTransGen.trans

/-- **What the genesis has and every step preserves is true in all states reached.** -/
theorem Reached.invariant {Inv : Store chainSchema → Prop} {g : GenesisState}
    (h0 : ∀ {u d}, (initGenesis g).run emptyDatabase = .ok u d →
      Inv d.store)
    (hstep : ∀ {s t}, ChainStep ok s t → Inv s → Inv t) {s : Store chainSchema}
    (h : Reached ok g s) : Inv s := by
  obtain ⟨u, d, hg, hrun⟩ := h
  induction hrun with
  | refl => exact h0 hg
  | tail _ hs ih => exact hstep hs ih

end

/-! ## 2. The genesis -/

/-- The parts of the first objects. -/
abbrev genesisParts : List Part :=
  [.made .account, .account .muse, .made .witness, .made .asset, .made .feedHistory,
    .made .hardforkProperty, .made .witnessSchedule, .made .balance, .props .supply,
    .asset .supply]

/-- The init miner has a balance from the first. -/
theorem made_initMiner (g : GenesisState) :
    Steps (Obeys (changes [.made .account, .account .muse]))
      (Action.create (S := chainSchema) Kind.account
        { name := initMinerName, owner := keyAuthorityOf g.initPublicKey,
          active := keyAuthorityOf g.initPublicKey, basic := keyAuthorityOf g.initPublicKey,
          memoKey := g.initPublicKey, balance := Asset.muse g.initSupply : Account } :
        Act 0 Nat) := by
  refine steps_create ⟨by decide, .inr ⟨{
    name := initMinerName, owner := keyAuthorityOf g.initPublicKey,
    active := keyAuthorityOf g.initPublicKey, basic := keyAuthorityOf g.initPublicKey,
    memoKey := g.initPublicKey : Account }, by simp [Blank], fun f => ?_⟩⟩
  cases f <;> simp +decide

theorem made_initAccounts (g : GenesisState) :
    Steps (Obeys (changes genesisParts)) (initAccounts g) := by
  unfold initAccounts
  have hblank : ∀ {k : Kind} {a : k.Object}, Part.made k ∈ genesisParts → Blank k a →
      Steps (Obeys (changes genesisParts)) (Action.create (S := chainSchema) k a : Act 0 Nat) :=
    fun hm hb => (Composed.create hm hb).steps
  refine steps_bind (hblank (k := .account) (by decide) (by simp [Blank])) fun _ => ?_
  refine steps_bind (hblank (k := .account) (by decide) (by simp [Blank])) fun _ => ?_
  refine steps_bind (hblank (k := .account) (by decide) (by simp [Blank])) fun _ => ?_
  refine steps_bind ((made_initMiner g).mono fun _ _ h k i =>
    changes_mono (by decide) (h k i)) fun _ => ?_
  refine steps_bind (hblank (k := .witness) (by decide) (by simp [Blank])) fun _ => ?_
  exact (looks_pure ()).steps

theorem composed_initGlobals (g : GenesisState) :
    Composed (.made .dynamicGlobalProperty :: genesisParts) (initGlobals g) := by
  unfold initGlobals
  refine .bind (.create (by decide) trivial) fun _ => ?_
  refine .bind (.create (by decide) (by simp [Blank, coreAsset])) fun _ => ?_
  refine .bind (.create (by decide) (by simp [Blank, coreAsset])) fun _ => ?_
  refine .bind (.create (by decide) (by simp [Blank, coreAsset])) fun _ => ?_
  refine .bind (.create (by decide) trivial) fun _ => ?_
  refine .bind (.create (by decide) trivial) fun _ => ?_
  exact .bind (.create (by decide) trivial) fun _ => .looks (looks_pure ())

/-- The parts that the genesis writes to after the first objects are there. -/
abbrev importParts : List Part :=
  accountCreateParts ++ [.made .asset, .made .balance, .props .supply, .props .shares,
    .asset .supply]

/-- What a genesis makes besides its first objects. -/
def importGenesis [Fc] (g : GenesisState) : Act 0 Unit := do
  Action.forEach g.initialAccounts importAccount
  Action.forEach g.initialAssets fun a => do
    let issuer ← getAccountId a.issuerName
    let _ ← Action.create (S := chainSchema) Kind.asset
      { currentSupply := 0, symbolString := a.symbol, precision := 6, issuer := issuer,
        options := { maxSupply := a.maxSupply, flags := 0x40, description := a.description } :
          AssetObject }
    pure ()
  Action.forEach g.initialBalances importBalance
  Action.forEach g.initialVestingBalances importVesting

theorem composed_importGenesis [Fc] (g : GenesisState) :
    Composed importParts (importGenesis g) := by
  have haccount : ∀ a, Composed importParts (importAccount a) := fun a => by
    unfold importAccount
    exact composed_accountCreate _ (by decide)
  have hbalance : ∀ b, Composed importParts (importBalance b) := fun b => by
    unfold importBalance
    refine .bind (.create (by decide) trivial) fun _ => ?_
    refine .bind (composed_modifyWith fun _ _ f => by cases f <;> simp +decide) fun _ => ?_
    exact composed_changeAssetSupply _ _ (by decide)
  have hvesting : ∀ v, Composed importParts (importVesting v) := fun v => by
    unfold importVesting modifyDgp
    refine .bind (by simp) fun _ => ?_
    refine .bind (composed_modifyWith fun _ _ f => by cases f <;> simp +decide) fun _ => ?_
    exact composed_modifyWith fun _ _ f => by cases f <;> simp +decide
  unfold importGenesis
  refine .bind (composed_forEach haccount) fun _ => .bind (composed_forEach fun a => ?_) fun _ => ?_
  · refine .bind (by simp) fun issuer => ?_
    exact .bind (.create (by decide) (by simp [Blank])) fun _ => .looks (looks_pure ())
  · exact .bind (composed_forEach hbalance) fun _ => composed_forEach hvesting

theorem initGenesis_eq [Fc] (g : GenesisState) :
    initGenesis g = (do initAccounts g; initGlobals g; importGenesis g : Act 0 Unit) := rfl

/-- **The genesis makes blank objects**, but for the balances and shares it gives. -/
theorem made_initGenesis [Fc] (g : GenesisState) :
    Steps (Obeys (changes (.made .dynamicGlobalProperty :: genesisParts ++ importParts)))
      (initGenesis g) := by
  have hmono : ∀ {l l' : List Part} {s t : Store chainSchema}, l ⊆ l' →
      Obeys (changes l) s t → Obeys (changes l') s t := fun hl h k i => changes_mono hl (h k i)
  rw [initGenesis_eq]
  refine steps_bind ((made_initAccounts g).mono fun _ _ h => hmono (by decide) h) fun _ => ?_
  refine steps_bind ((composed_initGlobals g).mono (by decide)).steps fun _ => ?_
  exact ((composed_importGenesis g).mono (by decide)).steps

/-! ## 3. Stored proposals hold valid operations -/

section

variable [Fc] {ok : Store chainSchema → Operation → Prop}

/-- The operations of a proposal pass validation. -/
def Proposal.Valid (p : Proposal) : Prop :=
  ∀ op ∈ p.proposedTransaction.operations, op.validate = .ok ()

def Proper (s : Store chainSchema) : Prop :=
  ∀ i (p : Proposal), s.get Kind.proposal i = some p → p.Valid

theorem validateOps_ok {ops : List Operation} {u : Unit} (h : validateOps ops = .ok u) :
    ∀ op ∈ ops, op.validate = .ok () := by
  induction ops with
  | nil => simp
  | cons op ops ih =>
    simp only [validateOps] at h
    cases hv : op.validate with
    | error e =>
      rw [hv] at h
      cases h
    | ok u =>
      rw [hv] at h
      intro op' hmem
      rcases List.mem_cons.mp hmem with rfl | hmem
      · exact hv
      · exact ih h op' hmem

/-- Every proposal was there with its operations, or they are valid. -/
def proposing : Law chainSchema where
  rel
    | .proposal => fun o p => ∀ b : Proposal, p = some b →
        b.Valid ∨ ∃ a : Proposal, o = some a ∧
          a.proposedTransaction.operations = b.proposedTransaction.operations
    | _ => fun _ _ => True
  refl k o := by
    cases k with
    | proposal => exact fun b hb => .inr ⟨b, hb, rfl⟩
    | _ => trivial
  trans k o p q h h' := by
    cases k with
    | proposal =>
      intro c hc
      obtain hv | ⟨b, hb, e⟩ := h' c hc
      · exact .inl hv
      · obtain hv | ⟨a, ha, e'⟩ := h b hb
        · exact .inl fun op hop => hv op (e ▸ hop)
        · exact .inr ⟨a, ha, e'.trans e⟩
    | _ => trivial

theorem Proper.of_proposing {s t : Store chainSchema} (hs : Proper s) (h : Obeys proposing s t) :
    Proper t := by
  intro i p hp
  obtain hv | ⟨a, ha, e⟩ := h Kind.proposal i p hp
  · exact hv
  · exact fun op hop => hs i a ha op (e ▸ hop)

/-- A program that writes to no proposal makes none. -/
theorem proposing_of_changes {l : List Part} {s t : Store chainSchema} (h : Obeys (changes l) s t)
    (hm : .made .proposal ∉ l) (hw : .whole .proposal ∉ l) : Obeys proposing s t := by
  intro k i
  cases k with
  | proposal =>
    intro b hb
    have hi := h Kind.proposal i
    rw [hb] at hi
    cases ha : s.get Kind.proposal i with
    | none =>
      rw [ha] at hi
      exact absurd hi.1 hm
    | some a =>
      rw [ha] at hi
      rcases hi with hl | hab
      · exact absurd hl.1 hm
      · exact .inr ⟨a, rfl, by rw [Or.resolve_left hab hw]⟩
  | _ => trivial

theorem proposing_proposalCreate {proposedOps : List Operation} {expirationTime : Nat}
    {reviewPeriodSeconds : Option Nat} (h : ∀ op ∈ proposedOps, op.validate = .ok ()) :
    Steps (Obeys proposing)
      (proposalCreate proposedOps expirationTime reviewPeriodSeconds : Act n Unit) := by
  unfold proposalCreate
  repeat' first
    | with_reducible apply steps_bind | with_reducible apply steps_ite | intro _
    | (simp; done) | split
    | exact steps_create fun b hb => .inl (by cases hb; exact h)

/-- **Every step keeps the stored proposals valid.** -/
theorem ChainStep.proper {s t : Store chainSchema} (h : ChainStep ok s t) (hs : Proper s) :
    Proper t := by
  cases h with
  | @operation d d' u clock n push op hv ha _ hr =>
    refine hs.of_proposing ?_
    cases op with
    | proposalCreate ops expiration review =>
      have hops : validateOps ops = .ok () := by
        simp only [Operation.validate] at hv
        exact (check_bind_ok.mp hv).2
      exact (proposing_proposalCreate (validateOps_ok hops)).step hr
    | proposalUpdate o => cases ha
    | _ =>
      exact proposing_of_changes ((composed_evaluate clock push ha).steps.step hr)
        (by simp +decide [Operation.parts]) (by simp +decide [Operation.parts])
  | @routine d d' u n r hr =>
    refine hs.of_proposing ?_
    cases r with
    | approveProposal o =>
      refine (steps_modify (L := proposing) fun a b hb => .inr ⟨a, rfl, ?_⟩).step hr
      cases hb
      rfl
    | _ =>
      exact proposing_of_changes ((Routine.composed_act _).steps.step hr)
        (by simp +decide [Routine.parts]) (by simp +decide [Routine.parts])

theorem Chained.proper {s t : Store chainSchema} (h : Chained ok s t) (hs : Proper s) :
    Proper t := by
  induction h with
  | refl => exact hs
  | tail _ hst ih => exact hst.proper ih

/-! ## 4. Relations that every small step of a transaction is in -/

/-- What transactions and proposals do, and a block before it is the head. -/
def Routine.loose : Routine → Bool
  | chargeBandwidth _ | rememberTransaction _ | approveProposal _ | removeProposal _
  | currentWitness _ | headerExtensions _ => true
  | _ => false

/-- What changes the approvals of a proposal. -/
def Routine.approves : Routine → Bool
  | approveProposal _ => true
  | _ => false

/-- `proposal_update` up to where it may execute the proposal. -/
def updateApprovals (o : ProposalUpdateOp) : Act n Unit := do
  let p ← getObject .proposal o.proposal
  let hf3 ← hasHardfork hardfork03
  let now ← headBlockTime
  Action.lift (checkApprovals o p hf3 now)
  Action.modify (S := chainSchema) Kind.proposal o.proposal fun p : Proposal => o.approve p

omit [Fc] in
theorem proposalUpdate_eq (push : Nat → Act n Unit) (o : ProposalUpdateOp) :
    proposalUpdate push o = (do
      updateApprovals o
      let p ← getObject .proposal o.proposal
      if p.reviewPeriodTime.isSome then pure ()
      else do
        let authorized ← p.isAuthorizedToExecute
        if authorized then Action.catching (push o.proposal) fun _ => pure () : Act n Unit) := by
  unfold proposalUpdate updateApprovals
  simp only [Action.bind_assoc]

/-- Operations, loose routines and checked approvals are steps of `R`, which is about stored
proposals that are valid. -/
structure Conveys (R : Store chainSchema → Store chainSchema → Prop) : Prop where
  operation : ∀ {n : Nat} (clock : Nat) (push : Nat → Act n Unit) {op : Operation},
    op.validate = .ok () → op.approves = false → Steps R (evaluate clock push op)
  routine : ∀ {n : Nat} {r : Routine}, r.loose = true → r.approves = false →
    Steps R (r.act : Act n Unit)
  approval : ∀ {n : Nat} {o : ProposalUpdateOp}, o.validate = .ok () →
    Steps R (updateApprovals o : Act n Unit)
  proper : ∀ {s t}, (Proper s → R s t) → R s t

/-- The same, when every approval is a step, checked or not. -/
structure Carries (R : Store chainSchema → Store chainSchema → Prop) : Prop where
  operation : ∀ {n : Nat} (clock : Nat) (push : Nat → Act n Unit) {op : Operation},
    op.validate = .ok () → op.approves = false → Steps R (evaluate clock push op)
  routine : ∀ {n : Nat} {r : Routine}, r.loose = true → Steps R (r.act : Act n Unit)
  proper : ∀ {s t}, (Proper s → R s t) → R s t

/-- The same, when only operations that are fine are spoken of, in the stored proposals too. -/
structure Bears (fine : Operation → Prop) (R : Store chainSchema → Store chainSchema → Prop) :
    Prop where
  operation : ∀ {n : Nat} (clock : Nat) (push : Nat → Act n Unit) {op : Operation},
    op.validate = .ok () → fine op → op.approves = false → Steps R (evaluate clock push op)
  routine : ∀ {n : Nat} {r : Routine}, r.loose = true → r.approves = false →
    Steps R (r.act : Act n Unit)
  approval : ∀ {n : Nat} {o : ProposalUpdateOp}, o.validate = .ok () →
    Steps R (updateApprovals o : Act n Unit)
  proper : ∀ {s t}, ((∀ i (p : Proposal), s.get Kind.proposal i = some p →
    ∀ op ∈ p.proposedTransaction.operations, op.validate = .ok () ∧ fine op) → R s t) → R s t

/-- `push_proposal` as the evaluators may call it. -/
structure Pushes (R : Store chainSchema → Store chainSchema → Prop) (push : Nat → Act n Unit) :
    Prop where
  carried : ∀ i, Runs R (push i)
  fails : ∀ i, Fails (push i)

section

variable {R : Store chainSchema → Store chainSchema → Prop} [IsPreorder (Store chainSchema) R]
  {fine : Operation → Prop}

omit [IsPreorder (Store chainSchema) R] in
theorem Bears.remember (hR : Bears fine R) (t : TransactionObject) :
    Steps R (Action.create (S := chainSchema) Kind.transaction t : Act n Nat) := by
  refine ⟨fun {d i d'} hr => ?_⟩
  have hact : ((Routine.rememberTransaction t).act : Act n Unit).run d = .ok () d' :=
    Action.bind_ok.mpr ⟨i, d', hr, rfl⟩
  exact (hR.routine rfl rfl).step hact

/-- Approving a proposal, which may execute it. -/
theorem Bears.proposalUpdate (hR : Bears fine R) {push : Nat → Act n Unit} (hpush : Pushes R push)
    {o : ProposalUpdateOp} (hv : o.validate = .ok ()) : Runs R (proposalUpdate push o) := by
  have happrove : Steps R (updateApprovals o : Act n Unit) := hR.approval hv
  rw [proposalUpdate_eq]
  refine .bind happrove.runs fun _ => ?_
  refine .bind (looks_get _ _).steps.runs fun q => ?_
  refine .ite (fun _ => (looks_pure ()).steps.runs) fun _ => ?_
  refine .bind (steps_of_looks (by simp)).runs fun authorized => ?_
  refine .ite (fun _ => ?_) fun _ => (looks_pure ()).steps.runs
  exact (hpush.carried _).catching (hpush.fails _) fun _ => (looks_pure ()).steps.runs

theorem Bears.evaluate (hR : Bears fine R) (clock : Nat) {push : Nat → Act n Unit}
    (hpush : Pushes R push) {op : Operation} (hv : op.validate = .ok ()) (hop : fine op) :
    Runs R (evaluate clock push op) := by
  cases ha : op.approves with
  | false => exact (hR.operation clock push hv hop ha).runs
  | true =>
    cases op with
    | proposalUpdate o => exact hR.proposalUpdate hpush hv
    | _ => cases ha

/-- The body of an execution: the operations, then the proposal is removed. -/
theorem Bears.execution (hR : Bears fine R) (clock : Nat) {push : Nat → Act n Unit}
    (hpush : Pushes R push) (i : Nat) :
    Runs R (do
      let p ← getObject .proposal i
      Action.forEach p.proposedTransaction.operations fun op => MuseChain.evaluate clock push op
      Action.remove (S := chainSchema) Kind.proposal i : Act n Unit) := by
  refine ⟨fun {d _ d'} hr hb hn hf => hR.proper fun hs => ?_⟩
  obtain ⟨p, hp, hr⟩ := bind_getObject_ok.mp hr
  have hremove : Steps R (Routine.act (.removeProposal i) : Act n Unit) := hR.routine rfl rfl
  have hops : Runs R (Action.forEach p.proposedTransaction.operations fun op =>
      MuseChain.evaluate clock push op) :=
    .forEach fun op hop => hR.evaluate clock hpush (hs i p hp op hop).1 (hs i p hp op hop).2
  exact (hops.bind fun _ => hremove.runs).step hr hb hn hf

theorem Bears.pushProposal (hR : Bears fine R) (clock n : Nat) :
    Pushes R (pushProposal clock n) := by
  induction n with
  | zero => exact ⟨fun i => (steps_throw _).runs, fun i => (looks_throw _).fails⟩
  | succ n ih => exact ⟨fun i => (hR.execution clock ih i).nested, fun i => fails_nested _⟩

theorem Bears.applyOperation (hR : Bears fine R) (clock n : Nat) {op : Operation}
    (hv : op.validate = .ok ()) (hop : fine op) : Runs R (applyOperation clock n op) :=
  hR.evaluate clock (hR.pushProposal clock n) hv hop

/-- **A transaction that passes validation is a sequence of steps**, when its operations are fine. -/
theorem Bears.applyTransaction (hR : Bears fine R) (clock n : Nat) {skip : Skip}
    (hskip : skip.validate = false) {trx : Transaction} (htrx : ∀ op ∈ trx.operations, fine op) :
    Runs R (applyTransaction clock skip n trx) := by
  refine ⟨fun {d _ d'} hr hb hn hf => ?_⟩
  unfold MuseChain.applyTransaction at hr
  rw [hskip] at hr
  obtain ⟨_, hvalid, hr⟩ := Action.bind_lift_ok.mp hr
  have hops : ∀ op ∈ trx.operations, op.validate = .ok () :=
    validateOps_ok (check_bind_ok.mp hvalid).2
  have hcharge : Steps R (Routine.act (.chargeBandwidth trx) : Act n Unit) := hR.routine rfl rfl
  refine Runs.step (R := R) ?_ hr hb hn hf
  refine .bind (looks_read _).steps.runs fun known => ?_
  refine .bind (looks_require _ _).steps.runs fun _ => ?_
  dsimp only
  refine .ite (fun _ => ?_) fun _ => .bind (steps_of_looks (by simp)).runs fun _ => ?_
  all_goals
    refine .bind hcharge.runs fun _ => ?_
    refine .bind (steps_of_looks (by simp)).runs fun _ => ?_
    have hlast : Runs R (Action.forEach trx.operations fun op =>
        MuseChain.applyOperation clock n op) :=
      .forEach fun op hop => hR.applyOperation clock n (hops op hop) (htrx op hop)
    exact .ite (fun _ => hlast) fun _ => .bind (hR.remember _).runs fun _ => hlast

/-- One turn of the loop over the expired proposals executes a proposal or does nothing. -/
theorem Bears.expire (hR : Bears fine R) (clock n i : Nat) :
    Runs R (Action.catching
      (do
        let p ← getObject .proposal i
        let authorized ← p.isAuthorizedToExecute
        if authorized then do
          MuseChain.pushProposal clock n i
          pure true
        else pure false)
      fun _ => pure false : Act n Bool) := by
  have hpush := hR.pushProposal clock n
  refine Runs.catching ?_ ?_ fun _ => (looks_pure false).steps.runs
  · refine .bind (looks_get _ _).steps.runs fun p => ?_
    refine .bind (steps_of_looks (by simp)).runs fun authorized => ?_
    refine .ite (fun _ => ?_) fun _ => (looks_pure false).steps.runs
    exact (hpush.carried i).bind fun _ => (looks_pure true).steps.runs
  · refine (looks_get _ _).fails_bind fun p => ?_
    refine Looks.fails_bind (by simp) fun authorized => ?_
    refine .ite (fun _ => ?_) fun _ => (looks_pure false).fails
    exact (hpush.fails i).bind_pure fun _ => true

theorem Bears.expireEach (hR : Bears fine R) (clock n turns : Nat) :
    Runs R (expireEach clock n turns) := by
  induction turns with
  | zero => exact (steps_throw _).runs
  | succ turns ih =>
    unfold MuseChain.expireEach
    refine .bind (steps_of_looks (by simp)).runs fun first => ?_
    cases first with
    | none => exact (looks_pure ()).steps.runs
    | some i =>
      refine (hR.expire clock n i).bind fun executed => ?_
      dsimp only
      refine .ite (fun _ => ih) fun _ => ?_
      have hremove : Steps R (Routine.act (.removeProposal i) : Act n Unit) := hR.routine rfl rfl
      exact hremove.runs.bind fun _ => ih

theorem Bears.clearExpiredProposals (hR : Bears fine R) (clock n : Nat) :
    Runs R (clearExpiredProposals clock n) := by
  unfold MuseChain.clearExpiredProposals
  refine .bind (steps_of_looks (by simp)).runs fun hf3 => ?_
  refine .ite (fun _ => ?_) fun _ => (looks_pure ()).steps.runs
  exact .bind (looks_rows _).steps.runs fun _ => hR.expireEach clock n _

omit [IsPreorder (Store chainSchema) R] in
theorem Conveys.bears (hR : Conveys R) : Bears (fun _ => True) R where
  operation clock push _ hv _ ha := hR.operation clock push hv ha
  routine := hR.routine
  approval := hR.approval
  proper h := hR.proper fun hs => h fun i p hp op hop => ⟨hs i p hp op hop, trivial⟩

/-- **A transaction that passes validation is a sequence of steps.** -/
theorem Conveys.applyTransaction (hR : Conveys R) (clock n : Nat) {skip : Skip}
    (hskip : skip.validate = false) (trx : Transaction) :
    Runs R (applyTransaction clock skip n trx) :=
  hR.bears.applyTransaction clock n hskip fun _ _ => trivial

theorem Conveys.clearExpiredProposals (hR : Conveys R) (clock n : Nat) :
    Runs R (clearExpiredProposals clock n) :=
  hR.bears.clearExpiredProposals clock n

theorem Carries.conveys (hR : Carries R) : Conveys R where
  operation := hR.operation
  routine h _ := hR.routine h
  approval := by
    intro n o _
    have happrove : Steps R (Routine.act (.approveProposal o) : Act n Unit) := hR.routine rfl
    unfold updateApprovals
    refine steps_bind (looks_get _ _).steps fun p => steps_bind (by simp) fun hf3 => ?_
    exact steps_bind (by simp) fun now => steps_bind (by simp) fun _ => happrove
  proper := hR.proper

theorem Carries.applyTransaction (hR : Carries R) (clock n : Nat) {skip : Skip}
    (hskip : skip.validate = false) (trx : Transaction) :
    Runs R (applyTransaction clock skip n trx) :=
  hR.conveys.applyTransaction clock n hskip trx

theorem Carries.clearExpiredProposals (hR : Carries R) (clock n : Nat) :
    Runs R (clearExpiredProposals clock n) :=
  hR.conveys.clearExpiredProposals clock n

end

end

end MuseChain
