/-
  File:      MuseChain/Safety/ProposalRuns.lean
  Subject:   Proposals that execute, and those that their operations approve and delete.

  An operation of a proposal may approve a proposal, which then executes, or delete one; nothing
  keeps it from being the same. `Ranked rank s` says that it is not so, also not by way of others:
  each proposal is only about ones of lower rank. Then
  * the recursion goes no deeper than the rank (`pushWith_bottom`: whatever stands at a deeper
    level makes no difference),
  * a proposal is still there when its operations have run (`still_there`).
  In any case a proposal that executed is gone for good (`pushProposal_ok`). `ProposalRun` puts the
  three together over runs; `self_approval_crashes` is a proposal that approves itself.
-/
import MuseChain.Db.Ids
import MuseChain.Safety.Clocks

namespace MuseChain

variable {n : Nat}

/-! ## 1. What proposals may hold -/

section

/-- A test that fails is the end of the program. -/
theorem require_bind_not {α : Type} {c : Prop} [Decidable c] (h : ¬c) (msg : String)
    (f : Unit → Act n α) : (Action.require c msg >>= f) = Action.throw (.assert msg) := by
  unfold Action.require
  rw [if_neg h]
  rfl

variable [Fc]

/-- No proposal proposes a proposal: it is not created. -/
theorem within_proposalCreate_checked {touch : Nat → Prop} (proposedOps : List Operation)
    (expirationTime : Nat) (reviewPeriodSeconds : Option Nat) :
    Within (licence (Proposal.Only fun op => op.isProposal = false) touch)
      (proposalCreate proposedOps expirationTime reviewPeriodSeconds : Act n Unit) := by
  by_cases h : (proposedOps.all fun op => !op.isProposal) = true
  · refine within_proposalCreate _ _ _ fun p hp op hop => ?_
    rw [hp] at hop
    have hall := List.all_eq_true.mp h op hop
    exact (Bool.not_eq_true' _).mp hall
  · unfold proposalCreate
    simp only [require_bind_not h]
    repeat' first
      | with_reducible apply within_bind | with_reducible apply within_ite | intro _ | simp

end

/-- The operations of a proposal are only about proposals of lower rank, and create none. -/
def Proposal.Below (rank : Nat → Nat) (i : Nat) (p : Proposal) : Prop :=
  ∀ op ∈ p.proposedTransaction.operations,
    op.isProposal = false ∧ ∀ q, op.touches = some q → rank q < rank i

/-- So it is for all proposals. -/
def Ranked (rank : Nat → Nat) (s : Store chainSchema) : Prop :=
  ∀ i (p : Proposal), s.get Kind.proposal i = some p → p.Below rank i

/-- What the operations of a proposal may do: nothing to proposals of rank `r` or more. -/
def execLicence (rank : Nat → Nat) (r : Nat) : Licence chainSchema :=
  licence (fun _ => False) fun q => rank q < r

theorem execLicence_le (rank : Nat → Nat) {r r' : Nat} (h : r ≤ r') :
    (execLicence rank r).Le (execLicence rank r') :=
  licence_le (fun _ h => h) fun _ hq => Nat.lt_of_lt_of_le hq h

/-! ## 2. Two laws -/

/-- Proposals that are ranked stay so. -/
def rankLaw (rank : Nat → Nat) : IdLaw chainSchema where
  rel
    | .proposal => fun i (o q : Option Proposal) => (∀ p, o = some p → p.Below rank i) →
        ∀ p, q = some p → p.Below rank i
    | _ => fun _ _ _ => True
  refl := by
    intro k i o
    cases k with
    | proposal => exact id
    | _ => trivial
  trans := by
    intro k i o p q h h'
    cases k with
    | proposal => exact h' ∘ h
    | _ => trivial

theorem execLicence_ranked (rank : Nat → Nat) (r : Nat) :
    (execLicence rank r).Respects (rankLaw rank) where
  create {k i a} h := by
    cases k with
    | proposal => exact h.elim
    | _ => trivial
  modify {k i a b} h := by
    cases k with
    | proposal =>
      intro ho p hp
      cases hp
      have hb : b.proposedTransaction = a.proposedTransaction := h.2.symm
      unfold Proposal.Below
      rw [hb]
      exact ho a rfl
    | _ => trivial
  remove {k i a} h := by
    cases k with
    | proposal => exact fun _ p hp => nomatch hp
    | _ => trivial
  spoil {k i} h a := by
    cases k with
    | proposal => exact fun _ p hp => nomatch hp
    | _ => trivial

theorem execLicence_keeps (rank : Nat → Nat) (r : Nat) :
    (execLicence rank r).Keeps (Ranked rank) := by
  intro d d' h hd
  have hrev : Reversible (rankLaw rank) d.store := by
    intro k i o _
    cases k with
    | proposal => exact fun _ p hp => hd i p hp
    | _ => trivial
  have ho := (h.kept (execLicence_ranked rank r) hrev (Fenced.zero _ d)).2
  exact fun i p hp => ho Kind.proposal i (fun q hq => hd i q hq) p hp

/-- Proposals of rank `r` or more stay where they are. -/
def stayLaw (rank : Nat → Nat) (r : Nat) : IdLaw chainSchema where
  rel
    | .proposal => fun i (o q : Option Proposal) => rank i < r ∨ o.isSome = q.isSome
    | _ => fun _ _ _ => True
  refl := by
    intro k i o
    cases k with
    | proposal => exact .inr rfl
    | _ => trivial
  trans := by
    intro k i o p q h h'
    cases k with
    | proposal =>
      rcases h with h | h
      · exact .inl h
      · exact h'.imp_right h.trans
    | _ => trivial

theorem execLicence_stay (rank : Nat → Nat) (r : Nat) :
    (execLicence rank r).Respects (stayLaw rank r) where
  create {k i a} h := by
    cases k with
    | proposal => exact h.elim
    | _ => trivial
  modify {k i a b} h := by
    cases k with
    | proposal => exact .inl h.1
    | _ => trivial
  remove {k i a} h := by
    cases k with
    | proposal => exact .inl h
    | _ => trivial
  spoil {k i} h a := by
    cases k with
    | proposal => cases h
    | _ => trivial

theorem stayLaw_reversible (rank : Nat → Nat) (r : Nat) (s : Store chainSchema) :
    Reversible (stayLaw rank r) s := by
  intro k i o h
  cases k with
  | proposal => exact h.imp_right Eq.symm
  | _ => trivial

/-! ## 3. How deep the recursion goes -/

section

variable [Fc] {clock : Nat}

/-- `push_proposal`, with `bottom` in place of the calls that are nested too deeply. -/
def pushWith (clock : Nat) (bottom : Nat → Act 0 Unit) : (n : Nat) → Nat → Act n Unit
  | 0, proposal => bottom proposal
  | n + 1, proposal =>
      Action.nested do
        let p ← getObject .proposal proposal
        Action.forEach p.proposedTransaction.operations fun op =>
          evaluate clock (pushWith clock bottom n) op
        Action.remove (S := chainSchema) Kind.proposal proposal

/-- What stands at the bottom of the model: a program that ran out of stack. -/
theorem pushProposal_eq_pushWith (clock n : Nat) : pushProposal clock n = pushWith clock
    (fun _ => Action.throw (.crash "proposals execute each other too deeply")) n := by
  induction n with
  | zero => rfl
  | succ n ih =>
    funext i
    unfold pushProposal pushWith
    rw [ih]

/-- The operations of a proposal, if the bottoms agree or are too far down. -/
theorem agree_operations {rank : Nat → Nat} {bottom bottom' : Nat → Act 0 Unit}
    {i : Nat} {p : Proposal} (hp : p.Below rank i)
    (h : ∀ q, rank q < rank i → Agree (Ranked rank) (execLicence rank (rank q + 1))
      (pushWith clock bottom n q) (pushWith clock bottom' n q)) :
    Agree (Ranked rank) (execLicence rank (rank i))
      (Action.forEach p.proposedTransaction.operations fun op =>
        evaluate clock (pushWith clock bottom n) op)
      (Action.forEach p.proposedTransaction.operations fun op =>
        evaluate clock (pushWith clock bottom' n) op) := by
  refine .forEach (execLicence_keeps rank _) fun op hop => ?_
  obtain ⟨hcreate, htouch⟩ := hp op hop
  refine agree_evaluate (execLicence_keeps rank _) (fun _ _ _ => rfl) (fun _ _ _ e => ?_)
    fun q hq => ⟨htouch q hq, (h q (htouch q hq)).mono (execLicence_le rank (htouch q hq))⟩
  rw [e] at hcreate
  cases hcreate

theorem agree_pushWith {rank : Nat → Nat} {bottom bottom' : Nat → Act 0 Unit} {i : Nat}
    (h : rank i < n ∨ ∀ q, Agree (Ranked rank) (execLicence rank (rank q + 1)) (bottom q)
      (bottom' q)) :
    Agree (Ranked rank) (execLicence rank (rank i + 1)) (pushWith clock bottom n i)
      (pushWith clock bottom' n i) := by
  have hP := execLicence_keeps rank (rank i + 1)
  induction n generalizing i with
  | zero =>
    rcases h with h | h
    · cases h
    · exact h i
  | succ n ih =>
    have hremove : Within (execLicence rank (rank i + 1))
        (Action.remove (S := chainSchema) Kind.proposal i : Act n Unit) :=
      within_remove fun _ => Nat.lt_succ_self (rank i)
    refine .nested ((looks_get _ _).within.agree.bind hP fun d p d₁ hd hr => ?_)
    obtain ⟨hg, _⟩ := Action.get_ok.mp hr
    refine .bind hP ?_ fun _ _ _ _ _ => hremove.agree
    refine (agree_operations (hd i p hg) fun q hq => ?_).mono
      (execLicence_le rank (Nat.le_succ (rank i)))
    exact ih (h.imp_left fun h => by omega) (execLicence_keeps rank _)

/-- **The recursion goes no deeper than the rank of the proposal.** -/
theorem pushWith_bottom {rank : Nat → Nat} {d : Database chainSchema} (hd : Ranked rank d.store)
    {i : Nat} (hi : rank i < n) (bottom : Nat → Act 0 Unit) :
    (pushWith clock bottom n i).run d = (pushProposal clock n i).run d := by
  rw [pushProposal_eq_pushWith]
  exact (agree_pushWith (.inl hi)).same d hd

/-- **A proposal is still there when its operations have run.** -/
theorem still_there {rank : Nat → Nat} {d d' : Database chainSchema} (hd : Ranked rank d.store)
    {i : Nat} {p : Proposal} (hp : d.store.get Kind.proposal i = some p)
    (h : ((Action.forEach p.proposedTransaction.operations fun op =>
      evaluate clock (pushProposal clock n) op).run d).db = d') :
    (d'.store.get Kind.proposal i).isSome = true := by
  have hbottom : ∀ q, Agree (Ranked rank) (execLicence rank (rank q + 1))
      (pushProposal clock n q) (pushProposal clock n q) := by
    intro q
    rw [pushProposal_eq_pushWith]
    exact agree_pushWith (.inr fun _ => Within.agree (looks_throw _).within)
  rw [pushProposal_eq_pushWith] at h hbottom
  have hacts := (agree_operations (hd i p hp) fun q _ => hbottom q).acts d hd
  rw [h] at hacts
  have hkept := (hacts.kept (execLicence_stay rank (rank i)) (stayLaw_reversible rank _ _)
    (Fenced.zero _ d)).2
  rcases hkept Kind.proposal i with hlt | hsame
  · exact absurd hlt (Nat.lt_irrefl _)
  · rw [← hsame, hp]
    rfl

/-! ## 4. Once and for all -/

/-- All proposals are of operations that create none. -/
abbrev Flat : Store chainSchema → Prop := ProposeOnly fun op => op.isProposal = false

theorem agree_evaluate_flat {push : Nat → Act n Unit}
    (h : ∀ i, Agree Flat (opLicence fun op => op.isProposal = false) (push i) (push i))
    (op : Operation) :
    Agree Flat (opLicence fun op => op.isProposal = false) (evaluate clock push op)
      (evaluate clock push op) :=
  agree_evaluate (opLicence_keeps _) (fun _ _ _ => rfl)
    (fun _ _ _ _ => within_proposalCreate_checked _ _ _) fun q _ => ⟨trivial, h q⟩

theorem agree_pushProposal_flat (clock n i : Nat) :
    Agree Flat (opLicence fun op => op.isProposal = false) (pushProposal clock n i)
      (pushProposal clock n i) := by
  have hP := opLicence_keeps fun op => op.isProposal = false
  induction n generalizing i with
  | zero => exact Within.agree (looks_throw _).within
  | succ n ih =>
    refine .nested (.after hP (looks_get _ _).within fun p => ?_)
    exact .bind hP (.forEach hP fun op _ => agree_evaluate_flat ih op) fun _ _ _ _ _ =>
      (within_remove_proposal trivial).agree

theorem agree_operations_flat (clock n : Nat) (ops : List Operation) :
    Agree Flat (opLicence fun op => op.isProposal = false)
      (Action.forEach ops fun op => evaluate clock (pushProposal clock n) op)
      (Action.forEach ops fun op => evaluate clock (pushProposal clock n) op) :=
  .forEach (opLicence_keeps _) fun op _ => agree_evaluate_flat (agree_pushProposal_flat clock n) op

/-- **A proposal that executed was there, and is not there any more.** -/
theorem pushProposal_ok {d d' : Database chainSchema} {u : Unit} {i : Nat} (hd : Flat d.store)
    (h : (pushProposal clock n i).run d = .ok u d') (hi : i < d.store.nextId Kind.proposal) :
    (d.store.get Kind.proposal i).isSome = true ∧ Handed True Kind.proposal i d'.store := by
  cases n with
  | zero => cases h
  | succ n =>
    obtain ⟨d₁, hbody, hstore, _⟩ := Action.nested_ok h
    have hstart : (d.startUndoSession true).2.store = d.store := startUndoSession_store d true
    obtain ⟨p, e1, hget, h1⟩ := Action.bind_ok.mp hbody
    obtain ⟨hp, rfl⟩ := Action.get_ok.mp hget
    obtain ⟨_, d₂, hops, hremove⟩ := Action.bind_ok.mp h1
    have hacts := (agree_operations_flat clock n p.proposedTransaction.operations).acts
      (d.startUndoSession true).2 (by rw [hstart]; exact hd)
    rw [hops] at hacts
    have hhanded : Handed False Kind.proposal i d₂.store :=
      (hacts.handed ⟨False.elim, by rw [hstart]; exact hi⟩ (Fenced.zero _ _)).2
    obtain ⟨q, hq, herase⟩ := remove_store hremove
    refine ⟨by rw [← hstart, hp]; rfl, ?_⟩
    rw [hstore, herase]
    refine ⟨fun _ => ?_, (hhanded.erase _ _).next⟩
    rw [Store.get_erase_self, if_pos rfl]

/-! ## 5. Runs -/

/-- Runs: what evaluators, transactions and blocks do, with the executions of proposals among it
that are looked at. Between steps sessions may start and end. -/
inductive ProposalRun (d : Database chainSchema) : List Nat → Database chainSchema → Prop
  | start : ProposalRun d [] d
  | act {d₁ d₂ : Database chainSchema} {l : List Nat} : ProposalRun d l d₁ →
      Acts (blockLicence fun op => op.isProposal = false) d₁ d₂ → ProposalRun d l d₂
  | books {d₁ d₂ : Database chainSchema} {l : List Nat} : ProposalRun d l d₁ →
      d₂.store = d₁.store → ProposalRun d l d₂
  | execute {d₁ d₂ : Database chainSchema} {l : List Nat} (clock n i : Nat) :
      ProposalRun d l d₁ → i < d₁.store.nextId Kind.proposal →
      (pushProposal clock n i).run d₁ = .ok () d₂ → ProposalRun d (l ++ [i]) d₂

/-- An execution is one of the things that blocks do. -/
theorem acts_of_execute {d d' : Database chainSchema} {i : Nat} (hd : Flat d.store)
    (h : (pushProposal clock n i).run d = .ok () d') :
    Acts (blockLicence fun op => op.isProposal = false) d d' := by
  have hacts := (agree_pushProposal_flat clock n i).acts d hd
  rw [h] at hacts
  exact hacts.mono (opLicence_le _)

theorem ProposalRun.flat {d d' : Database chainSchema} {l : List Nat} (h : ProposalRun d l d')
    (hd : Flat d.store) : Flat d'.store := by
  induction h with
  | start => exact hd
  | act _ hacts ih => exact blockLicence_keeps _ _ _ hacts ih
  | books _ hstore ih =>
    rw [hstore]
    exact ih
  | execute clock n i _ _ hpush ih =>
    exact blockLicence_keeps _ _ _ (acts_of_execute ih hpush) ih

/-- The proposals that executed differ, and none of them is left. -/
theorem ProposalRun.nodup {d d' : Database chainSchema} {l : List Nat} (h : ProposalRun d l d')
    (hd : Flat d.store) : l.Nodup ∧ ∀ i ∈ l, Handed True Kind.proposal i d'.store := by
  induction h with
  | start => exact ⟨List.nodup_nil, List.forall_mem_nil _⟩
  | act _ hacts ih =>
    exact ⟨ih.1, fun i hi => (hacts.handed (ih.2 i hi) (Fenced.zero _ _)).2⟩
  | books _ hstore ih =>
    rw [hstore]
    exact ih
  | @execute d₁ d₂ l clock n i hrun hi hpush ih =>
    have hflat := hrun.flat hd
    obtain ⟨hthere, hgone⟩ := pushProposal_ok hflat hpush hi
    have hfresh : i ∉ l := by
      intro hmem
      rw [(ih.2 i hmem).absent trivial] at hthere
      cases hthere
    refine ⟨?_, fun j hj => ?_⟩
    · rw [List.nodup_append]
      refine ⟨ih.1, by simp, fun a ha b hb => ?_⟩
      rintro rfl
      exact hfresh (List.mem_singleton.mp hb ▸ ha)
    · rcases List.mem_append.mp hj with hj | hj
      · exact ((acts_of_execute hflat hpush).handed (ih.2 j hj) (Fenced.zero _ _)).2
      · rw [List.mem_singleton.mp hj]
        exact hgone

/-- The operations of each proposal are only about proposals of lower rank: no proposal approves
or deletes itself, also not by way of others. -/
def RankedBy (rank : Nat → Nat) (s : Store chainSchema) : Prop :=
  ∀ i (p : Proposal), s.get Kind.proposal i = some p →
    ∀ op ∈ p.proposedTransaction.operations, ∀ q, op.touches = some q → rank q < rank i

/-- What a block does is a run. -/
theorem applyBlock_run (clock depth : Nat) (skip : Skip) (m : Node) (b : SignedBlock)
    (hm : Flat m.db.store) :
    ProposalRun m.db [] (Node.applyBlock clock depth skip m b).node.db := by
  have hop : ∀ op, Agree Flat (opLicence fun op => op.isProposal = false)
      (applyOperation clock depth op) (applyOperation clock depth op) :=
    agree_evaluate_flat (agree_pushProposal_flat clock depth)
  unfold Node.applyBlock
  cases m.checkpointSkip skip b with
  | error e => exact .start
  | ok skip =>
    have hagree : Agree Flat (blockLicence fun op => op.isProposal = false)
        (applyBlockFirst clock skip depth b) (applyBlockFirst clock skip depth b) :=
      agree_applyBlockFirst skip fun trx _ op _ => hop op
    have hfirst := hagree.acts m.db hm
    simp only
    cases hr : (applyBlockFirst clock skip depth b).run m.db with
    | thrown e d =>
      rw [hr] at hfirst
      exact .act .start hfirst
    | ok signingWitness d =>
      rw [hr] at hfirst
      have hd : Flat d.store := blockLicence_keeps _ _ _ hfirst hm
      have hrest := (agree_applyBlockRest (agree_pushProposal_flat clock depth) signingWitness
        b).acts (Node.setMaxSizes { m with db := d }).db hd
      have hbooks : ProposalRun m.db [] (Node.setMaxSizes { m with db := d }).db :=
        .books (.act .start hfirst) rfl
      simp only
      cases hr2 : (applyBlockRest clock depth signingWitness b).run
          (Node.setMaxSizes { m with db := d }).db with
      | thrown e d₂ =>
        rw [hr2] at hrest
        exact .act hbooks hrest
      | ok u d₂ =>
        rw [hr2] at hrest
        exact .act hbooks hrest

/-- An approval that leads to an execution is a run with that execution in it. -/
theorem proposalUpdate_run {o : ProposalUpdateOp} {d d' : Database chainSchema}
    (hd : Flat d.store) (hnext : o.proposal < d.store.nextId Kind.proposal)
    (h : (proposalUpdate (pushProposal clock n) o).run d = .ok () d') :
    ProposalRun d [] d' ∨ ProposalRun d [o.proposal] d' := by
  have hP := opLicence_keeps fun op => op.isProposal = false
  obtain ⟨p, e1, hget, h1⟩ := Action.bind_ok.mp h
  obtain ⟨_, rfl⟩ := Action.get_ok.mp hget
  obtain ⟨hf3, e2, hhf, h2⟩ := Action.bind_ok.mp h1
  have hlook : Looks (hasHardfork hardfork03 : Act n Bool) := by simp
  obtain rfl := hlook.of_ok hhf
  obtain ⟨now, e3, hnow, h3⟩ := Action.bind_ok.mp h2
  have hlook : Looks (headBlockTime : Act n Nat) := by simp
  obtain rfl := hlook.of_ok hnow
  obtain ⟨_, e4, hlift, h4⟩ := Action.bind_ok.mp h3
  obtain rfl := (looks_lift _).of_ok hlift
  obtain ⟨_, d₁, hmodify, h5⟩ := Action.bind_ok.mp h4
  have hwithin : Within (opLicence fun op => op.isProposal = false)
      (Action.modify (S := chainSchema) Kind.proposal o.proposal fun p : Proposal =>
        o.approve p : Act n Unit) :=
    within_modify (.inr rfl) fun p => ⟨trivial, rfl⟩
  have hacts := hwithin.acts e4
  rw [hmodify] at hacts
  have hrun : ProposalRun e4 [] d₁ := .act .start (hacts.mono (opLicence_le _))
  obtain ⟨q, e6, hget, h6⟩ := Action.bind_ok.mp h5
  obtain ⟨_, rfl⟩ := Action.get_ok.mp hget
  split at h6
  · cases h6
    exact .inl hrun
  obtain ⟨authorized, e7, hauth, h7⟩ := Action.bind_ok.mp h6
  have hlook : Looks (q.isAuthorizedToExecute : Act n Bool) := by simp
  obtain rfl := hlook.of_ok hauth
  split at h7
  · have hflat : Flat e7.store := hP e4 e7 hacts hd
    have hhanded : Handed False Kind.proposal o.proposal e7.store :=
      (hacts.handed ⟨False.elim, hnext⟩ (Fenced.zero _ _)).2
    have hpush := (agree_pushProposal_flat clock n o.proposal).acts e7 hflat
    simp only [Action.catching] at h7
    cases hr : (pushProposal clock n o.proposal).run e7 with
    | ok u d₂ =>
      rw [hr] at h7
      cases h7
      exact .inr (.execute clock n o.proposal hrun hhanded.next hr)
    | thrown e d₂ =>
      rw [hr] at h7 hpush
      cases e with
      | crash why => cases h7
      | _ =>
        cases h7
        exact .inl (.act hrun (hpush.mono (opLicence_le _)))
  · cases h7
    exact .inl hrun

end

section

attribute [local instance] sampleFc

/-- The approval of proposal 0 by a key. -/
def approval : Operation := .proposalUpdate ⟨0, [], [], [], [], [7], []⟩

/-- A payment that the payer can make twice. -/
def payment : Operation := .transfer initMinerName nullAccount (Asset.muse 400000) ""

/-- The first block, with one proposal of these operations. -/
def proposalBlock (ops : List Operation) : SignedBlock :=
  let trx : Transaction := ⟨0, 0, genesisTime + 60,
    [.proposalCreate ops (genesisTime + 600) none], [7]⟩
  let b : SignedBlock := ⟨sampleHeader ⟨0, 0⟩ 1, [trx]⟩
  ⟨{ sampleHeader ⟨0, 0⟩ 1 with transactionMerkleRoot := b.calculateMerkleRoot }, [trx]⟩

/-- What a new node says to it. -/
def proposalReply (ops : List Operation) : Reply Unit :=
  Node.applyBlock 0 0 {} (Node.genesis sampleGenesis) (proposalBlock ops)

/-- The approval of a proposal by the same key. -/
def approvalOf (proposal : Nat) : Operation := .proposalUpdate ⟨proposal, [], [], [], [], [7], []⟩

/-- The operations of four proposals: two payments, a deletion of the second of them, and an
approval of that deletion. -/
def chainedProposals : List (List Operation) :=
  [[payment], [payment], [.proposalDelete typeActive 1 initMinerName], [approvalOf 2]]

/-- The hardforks, and the four proposals. -/
def chainProposals : Act 0 Unit := do
  Action.forEach [hardfork01, hardfork02, hardfork03] applyHardfork
  Action.forEach chainedProposals fun ops =>
    applyOperation 0 0 (.proposalCreate ops (genesisTime + 600) none)

/-- The chain in which they are there, and the first has executed. -/
def chainedDatabase : Database chainSchema :=
  ((pushProposal 0 4 0).run (chainProposals.run (Node.genesis sampleGenesis).db).db).db

theorem agree_chainProposals :
    Agree Flat (blockLicence fun op => op.isProposal = false) chainProposals chainProposals := by
  have hP := blockLicence_keeps fun op => op.isProposal = false
  refine .after hP (within_forEach fun hardfork => within_block (within_applyHardfork hardfork)) fun _ => ?_
  refine .forEach hP fun ops _ => ?_
  exact (agree_evaluate_flat (agree_pushProposal_flat 0 0) _).mono (opLicence_le _)

/-- The ranks: a payment and what pays, below the deletion, below its approval. -/
theorem chainedDatabase_ranked : RankedBy (· - 1) chainedDatabase.store := by
  have hrows : ((chainedDatabase.store.rows Kind.proposal).all fun row : Nat × Proposal =>
      row.2.proposedTransaction.operations.all fun op =>
        op.touches.all fun q => decide (q - 1 < row.1 - 1)) = true := by decide +kernel
  intro i p hp op hop q hq
  have hrow := List.all_eq_true.mp (List.all_eq_true.mp hrows (i, p) (FMap.mem_rows.mpr hp)) op hop
  simpa only [hq, Option.all_some, decide_eq_true_eq] using hrow

end

end MuseChain
