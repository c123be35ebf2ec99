/-
  File:      MuseChain/Safety/Reviews.lean
  Subject:   Proposals under review.

  * `ReviewStep ok`: a step of the chain, in which a proposal is approved only by what the evaluator
    of `proposal_update` lets through. `Conveys.reviews`: what transactions and expired proposals do
    are such steps.
  * `approval_noGain_iff`: an update gives a proposal under review no approval, just when it adds no
    key that has not approved before. The evaluator does not look at the keys.
  * `pushIf may`: `push_proposal`, which crashes where `may` does not hold. With it transactions and
    expired proposals do what they do without (`applyOperation_unreviewed`, `clearExpired_expired`).
  * **`review_respected`**: runs in which no update adds such a key.
-/
import MuseChain.Safety.Votes

namespace MuseChain

variable {n : Nat}

/-! ## 1. Steps -/

/-- One step of the chain. -/
inductive ReviewStep [Fc] (ok : Store chainSchema → ProposalUpdateOp → Prop) :
    Store chainSchema → Store chainSchema → Prop
  | operation {d d' : Database chainSchema} {u : Unit} (clock n : Nat) (push : Nat → Act n Unit)
      (op : Operation) : op.validate = .ok () → op.approves = false →
      (evaluate clock push op).run d = .ok u d' → ReviewStep ok d.store d'.store
  | routine {d d' : Database chainSchema} {u : Unit} (n : Nat) (r : Routine) :
      r.approves = false → (r.act : Act n Unit).run d = .ok u d' → ReviewStep ok d.store d'.store
  | approval {d d' : Database chainSchema} {u : Unit} (n : Nat) (o : ProposalUpdateOp) :
      o.validate = .ok () → ok d.store o → (updateApprovals o : Act n Unit).run d = .ok u d' →
      ReviewStep ok d.store d'.store

/-- What lets an update of the proposal `p` through. -/
theorem updateApprovals_ok {o : ProposalUpdateOp} {d d' : Database chainSchema} {u : Unit}
    (h : (updateApprovals o : Act n Unit).run d = .ok u d') :
    ∃ (p : Proposal) (hf3 : Bool) (u : Unit), d.store.get Kind.proposal o.proposal = some p ∧
      checkApprovals o p hf3 d.store.props.time = .ok u ∧
      ((Action.modify (S := chainSchema) Kind.proposal o.proposal fun p : Proposal =>
        o.approve p : Act n Unit).run d = .ok u d') := by
  obtain ⟨p, hp, h⟩ := bind_getObject_ok.mp h
  have h := bind_hasHardfork_ok h
  obtain ⟨props, hprops, h⟩ := bind_headBlockTime_ok h
  obtain ⟨_, hchecks, h⟩ := Action.bind_lift_ok.mp h
  rw [← Store.props_of_get hprops] at hchecks
  exact ⟨p, _, _, hp, hchecks, h⟩

section

variable [Fc] {ok : Store chainSchema → ProposalUpdateOp → Prop} {s t : Store chainSchema}

theorem ReviewStep.chainStep (h : ReviewStep ok s t) : ChainStep (fun _ _ => True) s t := by
  cases h with
  | operation clock n push op hv ha hr => exact .operation clock n push op hv ha trivial hr
  | routine n r _ hr => exact .routine n r hr
  | approval n o _ _ hr =>
    obtain ⟨_, _, _, _, _, hr⟩ := updateApprovals_ok hr
    exact .routine n (.approveProposal o) hr

/-- Any number of steps from stored proposals that are valid. -/
def Reviews (s t : Store chainSchema) : Prop :=
  Proper s → Relation.ReflTransGen (ReviewStep fun _ _ => True) s t ∧ Proper t

instance : IsPreorder (Store chainSchema) Reviews where
  refl _ hs := ⟨.refl, hs⟩
  trans _ _ _ h h' hs := by
    obtain ⟨hst, ht⟩ := h hs
    obtain ⟨htu, hu⟩ := h' ht
    exact ⟨hst.trans htu, hu⟩

theorem ReviewStep.reviews (h : ReviewStep (fun _ _ => True) s t) : Reviews s t :=
  fun hs => ⟨.single h, h.chainStep.proper hs⟩

/-- **Transactions and expired proposals are made of such steps.** -/
theorem conveys_reviews : Conveys Reviews where
  operation clock push _ hv ha := ⟨fun hr => (ReviewStep.operation clock _ push _ hv ha hr).reviews⟩
  routine {n r} _ ha := ⟨fun hr => (ReviewStep.routine n r ha hr).reviews⟩
  approval {n o} hv := ⟨fun hr => (ReviewStep.approval n o hv trivial hr).reviews⟩
  proper h hs := h hs hs

end

/-! ## 2. Approvals under review -/

/-- The proposal `i` is under review until `R`, and that time has not passed. -/
def UnderReview (i R : Nat) (s : Store chainSchema) : Prop :=
  ∃ p : Proposal, s.get Kind.proposal i = some p ∧ p.reviewPeriodTime = some R ∧
    s.props.time ≤ R

/-- Every approval of `q` is one of `p`. -/
structure Proposal.ApprovedAs (q p : Proposal) : Prop where
  active : q.availableActiveApprovals ⊆ p.availableActiveApprovals
  owner : q.availableOwnerApprovals ⊆ p.availableOwnerApprovals
  key : q.availableKeyApprovals ⊆ p.availableKeyApprovals

theorem Proposal.ApprovedAs.refl (p : Proposal) : p.ApprovedAs p :=
  ⟨List.Subset.refl _, List.Subset.refl _, List.Subset.refl _⟩

theorem Proposal.ApprovedAs.trans {r q p : Proposal} (h : r.ApprovedAs q) (h' : q.ApprovedAs p) :
    r.ApprovedAs p :=
  ⟨List.Subset.trans h.active h'.active, List.Subset.trans h.owner h'.owner,
    List.Subset.trans h.key h'.key⟩

/-- The proposal `i` has no approval that it had not. -/
def NoGain (i : Nat) (s t : Store chainSchema) : Prop :=
  ∀ p q : Proposal, s.get Kind.proposal i = some p → t.get Kind.proposal i = some q →
    q.ApprovedAs p

/-- No key is added that has not approved before. -/
def KeysHeld (s : Store chainSchema) (o : ProposalUpdateOp) : Prop :=
  ∀ (p : Proposal) (R : Nat), s.get Kind.proposal o.proposal = some p →
    p.reviewPeriodTime = some R → s.props.time ≤ R → o.keyApprovalsToAdd ⊆ p.availableKeyApprovals

theorem noGain_of_changes {l : List Part} {s t : Store chainSchema} (h : Obeys (changes l) s t)
    (hm : Part.made .proposal ∉ l ∨ Part.gone .proposal ∉ l) (hw : Part.whole .proposal ∉ l)
    (i : Nat) : NoGain i s t := by
  intro p q hp hq
  have hi := h Kind.proposal i
  rw [hp, hq] at hi
  obtain rfl : p = q := by
    rcases hi with ⟨hmade, hgone⟩ | hpq
    · rcases hm with hm | hg
      · exact absurd hmade hm
      · exact absurd hgone hg
    · exact Or.resolve_left hpq hw
  exact .refl p

theorem checkEach_ok {α : Type} {f : α → Except Exn Unit} {l : List α} {u : Unit}
    (h : checkEach f l = .ok u) {a : α} (ha : a ∈ l) : ∃ u, f a = .ok u := by
  induction l with
  | nil => cases ha
  | cons b l ih =>
    obtain ⟨u, hb, h⟩ := except_bind_ok.mp h
    rcases List.mem_cons.mp ha with rfl | ha
    · exact ⟨u, hb⟩
    · exact ih h ha

theorem ProposalUpdateOp.validate_keys {o : ProposalUpdateOp} {u : Unit}
    (h : o.validate = .ok u) {k : PublicKey} (hk : k ∈ o.keyApprovalsToAdd) :
    k ∉ o.keyApprovalsToRemove := by
  obtain ⟨_, h⟩ := check_bind_ok.mp h
  obtain ⟨_, _, h⟩ := except_bind_ok.mp h
  obtain ⟨_, _, h⟩ := except_bind_ok.mp h
  obtain ⟨_, hk⟩ := checkEach_ok h hk
  exact check_ok.mp hk

/-- Names are not added under review. -/
theorem checkApprovals_review {o : ProposalUpdateOp} {p : Proposal} {hf3 : Bool} {now R : Nat}
    {u : Unit} (h : checkApprovals o p hf3 now = .ok u) (hR : p.reviewPeriodTime = some R)
    (hnow : now ≤ R) : o.activeApprovalsToAdd = [] ∧ o.ownerApprovalsToAdd = [] := by
  unfold checkApprovals at h
  rw [hR] at h
  exact (check_bind_ok.mp h).1 hnow

/-- **An update under review adds no approval, just when it adds no new key.** -/
theorem approval_noGain_iff {o : ProposalUpdateOp} {R : Nat} {d d' : Database chainSchema}
    {u : Unit} (hv : o.validate = .ok ())
    (h : (updateApprovals o : Act n Unit).run d = .ok u d')
    (hr : UnderReview o.proposal R d.store) :
    NoGain o.proposal d.store d'.store ↔ KeysHeld d.store o := by
  obtain ⟨p, hf3, _, hp, hchecks, h⟩ := updateApprovals_ok h
  obtain ⟨p', hp', hR, hnow⟩ := hr
  obtain rfl : p = p' := Option.some.inj (hp.symm.trans hp')
  obtain ⟨hactive, howner⟩ := checkApprovals_review hchecks hR hnow
  obtain ⟨a, ha, hf, e⟩ := modify_store h
  obtain rfl : p = a := Option.some.inj (hp.symm.trans ha)
  have hq : d'.store.get Kind.proposal o.proposal = some (o.approve p) := by
    rw [e, Store.get_write_self, if_pos rfl]
  have hkeys : ∀ k, k ∈ (o.approve p).availableKeyApprovals ↔
      (k ∈ p.availableKeyApprovals ∨ k ∈ o.keyApprovalsToAdd) ∧ k ∉ o.keyApprovalsToRemove := by
    intro k
    simp only [ProposalUpdateOp.approve, List.mem_dedup, List.mem_filter, List.mem_append,
      decide_eq_true_eq]
  constructor
  · intro hgain q R' hq' _ _ k hk
    obtain rfl : p = q := Option.some.inj (hp.symm.trans hq')
    exact (hgain p _ hp hq).key ((hkeys k).mpr ⟨.inr hk, ProposalUpdateOp.validate_keys hv hk⟩)
  · intro hheld q r hq' hr
    obtain rfl : p = q := Option.some.inj (hp.symm.trans hq')
    obtain rfl : o.approve p = r := Option.some.inj (hq.symm.trans hr)
    refine ⟨fun a ha => ?_, fun a ha => ?_, fun k hk => ?_⟩
    · have hmem := (List.mem_filter.mp ha).1
      rw [hactive, List.append_nil] at hmem
      exact hmem
    · have hmem := (List.mem_filter.mp ha).1
      rw [howner, List.append_nil] at hmem
      exact hmem
    · obtain ⟨hk | hk, _⟩ := (hkeys k).mp hk
      · exact hk
      · exact hheld p R hp hR hnow hk

/-- An update of another proposal. -/
theorem approval_noGain_of_ne {o : ProposalUpdateOp} {i : Nat} {d d' : Database chainSchema}
    {u : Unit} (hi : i ≠ o.proposal) (h : (updateApprovals o : Act n Unit).run d = .ok u d') :
    NoGain i d.store d'.store := by
  obtain ⟨_, _, _, _, _, h⟩ := updateApprovals_ok h
  obtain ⟨a, ha, hf, e⟩ := modify_store h
  intro p q hp hq
  rw [e, Store.get_write_self, if_neg hi] at hq
  obtain rfl : p = q := Option.some.inj (hp.symm.trans hq)
  exact .refl p

section

variable [Fc] {s t : Store chainSchema} {i R : Nat}

/-- **A step adds no approval under review**, when an update adds no new key. -/
theorem ReviewStep.noGain (h : ReviewStep KeysHeld s t) (hr : UnderReview i R s) :
    NoGain i s t := by
  cases h with
  | operation clock n push op hv ha hrun =>
    refine noGain_of_changes ((composed_evaluate clock push ha).steps.step hrun) ?_ ?_ i
    · cases op <;> simp +decide [Operation.parts]
    · cases op <;> simp +decide [Operation.parts]
  | routine n r ha hrun =>
    refine noGain_of_changes ((Routine.composed_act r).steps.step hrun) ?_ ?_ i
    · cases r <;> simp +decide [Routine.parts]
    · cases r with
      | approveProposal o => cases ha
      | _ => simp +decide [Routine.parts]
  | approval n o hv hheld hrun =>
    by_cases hi : i = o.proposal
    · subst hi
      exact (approval_noGain_iff hv hrun hr).mpr hheld
    · exact approval_noGain_of_ne hi hrun

/-- A run of which every step begins while the proposal `i` is under review until `R`. -/
def ReviewRun (ok : Store chainSchema → ProposalUpdateOp → Prop) (i R : Nat) :
    Store chainSchema → Store chainSchema → Prop :=
  Relation.ReflTransGen fun s t => UnderReview i R s ∧ ReviewStep ok s t

theorem ReviewRun.noGain (h : ReviewRun KeysHeld i R s t) : NoGain i s t := by
  induction h with
  | refl =>
    intro p q hp hq
    obtain rfl : p = q := Option.some.inj (hp.symm.trans hq)
    exact .refl p
  | @tail b c _ hstep ih =>
    intro p r hp hr
    obtain ⟨q, hq, _⟩ := hstep.1
    exact (hstep.2.noGain hstep.1 q r hq hr).trans (ih p q hp hq)

end

/-! ## 3. Executions -/

section

variable [Fc] (clock : Nat)

/-- The proposal has no review period. -/
def unreviewed (_ : Store chainSchema) (p : Proposal) : Bool := p.reviewPeriodTime.isNone

/-- The proposal is at its expiration, or past it. -/
def atExpiration (s : Store chainSchema) (p : Proposal) : Bool :=
  decide (p.expirationTime ≤ s.props.time)

/-- `push_proposal`, which crashes where `may` does not hold; no handler catches a crash. What the
operations execute has no review period. -/
def pushIf (may : Store chainSchema → Proposal → Bool) : (n : Nat) → Nat → Act n Unit
  | 0, _ => Action.throw (.crash "proposals execute each other too deeply")
  | n + 1, proposal =>
      Action.nested do
        let p ← getObject .proposal proposal
        let allowed ← Action.read fun s => may s p
        if allowed then do
          Action.forEach p.proposedTransaction.operations fun op =>
            evaluate clock (pushIf unreviewed n) op
          Action.remove (S := chainSchema) Kind.proposal proposal
        else Action.throw (.crash "the proposal may not be executed")

/-- The loop of `clear_expired_proposals`, with `push_proposal` as an argument. -/
def expireEachWith (push : Nat → Act n Unit) : Nat → Act n Unit
  | 0 => Action.throw (.crash "more expired proposals than there are proposals")
  | turns + 1 => do
      let first ← firstExpiredProposal
      match first with
      | none => pure ()
      | some i => do
          let executed ← Action.catching
            (do
              let p ← getObject .proposal i
              let authorized ← p.isAuthorizedToExecute
              if authorized then do
                push i
                pure true
              else pure false)
            fun _ => pure false
          if executed then pure () else Action.remove (S := chainSchema) Kind.proposal i
          expireEachWith push turns

def clearExpiredWith (push : Nat → Act n Unit) : Act n Unit := do
  let hf3 ← hasHardfork hardfork03
  if hf3 then do
    let proposals ← Action.rows (S := chainSchema) Kind.proposal
    expireEachWith push (proposals.length + 1)

/-- Two ways to execute do the same where `may` holds. -/
def SameWhere (may : Store chainSchema → Proposal → Bool) (push push' : Nat → Act n Unit) : Prop :=
  ∀ (i : Nat) (d : Database chainSchema) (p : Proposal), d.store.get Kind.proposal i = some p →
    may d.store p = true → (push i).run d = (push' i).run d

variable {push push' : Nat → Act n Unit}

omit [Fc] in
theorem bind_run_congr {α β : Type} {x : Act n α} {f g : α → Act n β} {d : Database chainSchema}
    (h : ∀ a d', x.run d = .ok a d' → (f a).run d' = (g a).run d') :
    (x >>= f).run d = (x >>= g).run d := by
  show (Action.andThen x f).run d = (Action.andThen x g).run d
  simp only [Action.andThen]
  cases hx : x.run d with
  | ok a d₁ => exact h a d₁ hx
  | thrown e d₁ => rfl

omit [Fc] in
theorem Looks.bind_run_congr {α β : Type} {x : Act n α} (hx : Looks x) {f g : α → Act n β}
    {d : Database chainSchema} (h : ∀ a, (f a).run d = (g a).run d) :
    (x >>= f).run d = (x >>= g).run d :=
  MuseChain.bind_run_congr fun a d' hr => by
    obtain rfl := hx.of_ok hr
    exact h a

omit [Fc] in
theorem bind_run_congr_left {α β : Type} {x y : Act n α} {f : α → Act n β}
    {d : Database chainSchema} (h : x.run d = y.run d) : (x >>= f).run d = (y >>= f).run d := by
  show (Action.andThen x f).run d = (Action.andThen y f).run d
  simp only [Action.andThen, h]

omit [Fc] in
theorem catching_run_congr {α : Type} {x y : Act n α} {handler : Exn → Act n α}
    {d : Database chainSchema} (h : x.run d = y.run d) :
    (Action.catching x handler).run d = (Action.catching y handler).run d := by
  simp only [Action.catching, h]

omit [Fc] in
/-- An update executes its proposal only if that has no review period. -/
theorem proposalUpdate_unreviewed (h : SameWhere unreviewed push push') (o : ProposalUpdateOp) :
    proposalUpdate push o = proposalUpdate push' o := by
  refine Action.ext_run fun d => ?_
  rw [proposalUpdate_eq, proposalUpdate_eq]
  refine bind_run_congr fun _ d₁ _ => bind_run_congr fun p d₂ hp => ?_
  obtain ⟨hp, rfl⟩ := Action.get_ok.mp hp
  cases hr : p.reviewPeriodTime with
  | some R => rfl
  | none =>
    refine Looks.bind_run_congr (by simp) fun authorized => ?_
    cases authorized with
    | false => rfl
    | true =>
      refine catching_run_congr (h o.proposal _ p hp ?_)
      unfold unreviewed
      rw [hr]
      rfl

theorem evaluate_congr (h : SameWhere unreviewed push push') (op : Operation) :
    evaluate clock push op = evaluate clock push' op := by
  cases op with
  | proposalUpdate o => exact proposalUpdate_unreviewed h o
  | _ => rfl

/-- **Nothing is executed that may not be.** -/
theorem pushProposal_sameWhere (may : Store chainSchema → Proposal → Bool) (n : Nat) :
    SameWhere may (pushProposal clock n) (pushIf clock may n) := by
  induction n generalizing may with
  | zero => exact fun _ _ _ _ _ => rfl
  | succ n ih =>
    intro i d p hp hmay
    have hs : (d.startUndoSession true).2.store = d.store := startUndoSession_store d true
    have hops : (fun op => evaluate clock (pushProposal clock n) op) =
        fun op => evaluate clock (pushIf clock unreviewed n) op :=
      funext fun op => evaluate_congr clock (ih unreviewed) op
    unfold pushProposal pushIf
    show Action.closeSession _ _ = Action.closeSession _ _
    congr 1
    refine bind_run_congr fun q d₁ hq => ?_
    obtain ⟨hget, rfl⟩ := Action.get_ok.mp hq
    rw [hs] at hget
    obtain rfl : p = q := Option.some.inj (hp.symm.trans hget)
    rw [hops]
    have hmay' : may (d.startUndoSession true).2.store p = true := by
      rw [hs]
      exact hmay
    exact (congrArg (fun x : Act n Unit => x.run _) (if_pos hmay')).symm

/-- **No operation of a transaction or of a proposal executes a proposal with a review period.** -/
theorem applyOperation_unreviewed (n : Nat) (op : Operation) :
    applyOperation clock n op = evaluate clock (pushIf clock unreviewed n) op :=
  evaluate_congr clock (pushProposal_sameWhere clock unreviewed n) op

theorem expireEach_eq (n turns : Nat) :
    expireEach clock n turns = expireEachWith (pushProposal clock n) turns := by
  induction turns with
  | zero => rfl
  | succ turns ih =>
    unfold expireEach expireEachWith
    rewrite [ih]
    rfl

omit [Fc] in
/-- The proposal that the loop looks at has expired. -/
theorem firstExpiredProposal_ok {i : Nat} {d d' : Database chainSchema}
    (h : (firstExpiredProposal : Act n (Option Nat)).run d = .ok (some i) d') :
    ∃ p : Proposal, d.store.get Kind.proposal i = some p ∧ atExpiration d.store p = true := by
  obtain ⟨props, hprops, h⟩ := bind_headBlockTime_ok h
  have h := Action.bind_read_ok.mp h
  simp only [Action.pure_ok, Outcome.ok.injEq] at h
  obtain ⟨⟨j, p⟩, hhead, rfl⟩ := Option.map_eq_some_iff.mp h.1
  have hmem := (List.mem_insertionSort _).mp (List.mem_of_head? hhead)
  obtain ⟨hrow, hdue⟩ := List.mem_filter.mp hmem
  refine ⟨p, FMap.mem_rows.mp hrow, ?_⟩
  unfold atExpiration
  rw [Store.props_of_get hprops]
  exact hdue

omit [Fc] in
theorem expireEachWith_congr (h : SameWhere atExpiration push push') (turns : Nat) :
    expireEachWith push turns = expireEachWith push' turns := by
  induction turns with
  | zero => rfl
  | succ turns ih =>
    refine Action.ext_run fun d => ?_
    unfold expireEachWith
    refine bind_run_congr fun first d₁ hfirst => ?_
    cases first with
    | none => rfl
    | some i =>
      obtain ⟨p, hp, hdue⟩ := firstExpiredProposal_ok hfirst
      have hlooks : Looks (firstExpiredProposal : Act n (Option Nat)) := by simp
      obtain rfl := hlooks.of_ok hfirst
      dsimp only
      rw [ih]
      refine bind_run_congr_left (catching_run_congr (bind_run_congr fun q d₂ hq => ?_))
      obtain ⟨_, rfl⟩ := Action.get_ok.mp hq
      refine Looks.bind_run_congr (by simp) fun authorized => ?_
      cases authorized with
      | false => rfl
      | true => exact bind_run_congr_left (h i _ p hp hdue)

/-- **Only expired proposals are executed when the expired proposals are cleared.** -/
theorem clearExpired_expired (n : Nat) :
    clearExpiredProposals clock n = clearExpiredWith (pushIf clock atExpiration n) := by
  unfold clearExpiredProposals clearExpiredWith
  simp only [expireEach_eq]
  simp only [expireEachWith_congr (pushProposal_sameWhere clock atExpiration n)]

/-- **The review period is kept, but for keys.** An update under review adds no approval, just when
it adds no new key; so no run of such updates adds one. Operations execute no proposal with a review
period, and what is executed when the expired proposals are cleared has expired. -/
theorem review_respected :
    (∀ {n : Nat} {o : ProposalUpdateOp} {R : Nat} {d d' : Database chainSchema} {u : Unit},
      o.validate = .ok () → (updateApprovals o : Act n Unit).run d = .ok u d' →
      UnderReview o.proposal R d.store →
      (NoGain o.proposal d.store d'.store ↔ KeysHeld d.store o)) ∧
    (∀ {i R : Nat} {s t : Store chainSchema}, ReviewRun KeysHeld i R s t → NoGain i s t) ∧
    (∀ (clock n : Nat) (op : Operation),
      applyOperation clock n op = evaluate clock (pushIf clock unreviewed n) op) ∧
    ∀ clock n : Nat,
      clearExpiredProposals clock n = clearExpiredWith (pushIf clock atExpiration n) :=
  ⟨approval_noGain_iff, ReviewRun.noGain, applyOperation_unreviewed, clearExpired_expired⟩

end

section

attribute [local instance] sampleFc

/-- The minute after the genesis is for the review of it. -/
def reviewedProposal : Operation :=
  .proposalCreate [.transfer "alice" initMinerName (Asset.muse 1) ""] (genesisTime + 3600) (some 60)

def reviewStart : Database chainSchema := evaluated reviewedProposal aliceStart

def keyUpdate (toAdd toRemove : List PublicKey) : ProposalUpdateOp where
  proposal := 0
  activeApprovalsToAdd := []
  activeApprovalsToRemove := []
  ownerApprovalsToAdd := []
  ownerApprovalsToRemove := []
  keyApprovalsToAdd := toAdd
  keyApprovalsToRemove := toRemove

def updated (o : ProposalUpdateOp) : Database chainSchema :=
  ((updateApprovals o : Act 0 Unit).run reviewStart).db

theorem runs_reviewStart :
    ((evaluate 0 (fun _ => pure ()) reviewedProposal : Act 0 Unit).run aliceStart).isOk = true ∧
      reviewedProposal.validate = .ok () ∧
      ((updateApprovals (keyUpdate [7] []) : Act 0 Unit).run reviewStart).isOk = true ∧
      (reviewStart.store.get Kind.proposal 0).map (fun p : Proposal =>
        (p.reviewPeriodTime, p.availableKeyApprovals)) = some (some (genesisTime + 60), []) ∧
      ((updated (keyUpdate [7] [])).store.get Kind.proposal 0).map (fun p : Proposal =>
        p.availableKeyApprovals) = some [7] ∧
      reviewStart.store.props.time ≤ genesisTime + 60 := by
  decide +kernel

/-- A key approves the proposal at once. -/
theorem review_gains_key : ∃ (s t : Store chainSchema) (p q : Proposal),
    Reached (fun _ _ => True) aliceGenesis s ∧ UnderReview 0 (genesisTime + 60) s ∧
      ReviewStep (fun _ _ => True) s t ∧ s.get Kind.proposal 0 = some p ∧
      t.get Kind.proposal 0 = some q ∧ 7 ∈ q.availableKeyApprovals ∧
      7 ∉ p.availableKeyApprovals := by
  obtain ⟨hcreate, hvalid, hadd, hbefore, hafter, hnow⟩ := runs_reviewStart
  obtain ⟨p, hp, hreview⟩ := Option.map_eq_some_iff.mp hbefore
  obtain ⟨hR, hkeys⟩ := Prod.mk.inj hreview
  obtain ⟨q, hq, hkey⟩ := Option.map_eq_some_iff.mp hafter
  obtain ⟨_, hrun⟩ := Outcome.exists_of_isOk hadd
  have hstart : Reached (fun _ _ => True) aliceGenesis reviewStart.store :=
    (reached_aliceStart _).evaluated hvalid rfl trivial hcreate
  refine ⟨_, _, p, q, hstart, ⟨p, hp, hR, hnow⟩,
    .approval 0 (keyUpdate [7] []) (by decide) trivial hrun, hp, hq, ?_, ?_⟩
  · rw [hkey]
    decide
  · rw [hkeys]
    decide

/-- The key takes its approval back. -/
def withdrawn : Database chainSchema :=
  ((updateApprovals (keyUpdate [] [7]) : Act 0 Unit).run (updated (keyUpdate [7] []))).db

theorem runs_withdrawn :
    ((updateApprovals (keyUpdate [] [7]) : Act 0 Unit).run (updated (keyUpdate [7] []))).isOk =
        true ∧
      ((updated (keyUpdate [7] [])).store.get Kind.proposal 0).map (fun p : Proposal =>
        (p.reviewPeriodTime, p.availableKeyApprovals)) = some (some (genesisTime + 60), [7]) ∧
      (withdrawn.store.get Kind.proposal 0).map (fun p : Proposal => p.availableKeyApprovals) =
        some [] ∧
      (updated (keyUpdate [7] [])).store.props.time ≤ genesisTime + 60 := by
  decide +kernel

/-- An approval is withdrawn under review, and nothing is gained. -/
theorem review_respected_withdrawn :
    ReviewRun KeysHeld 0 (genesisTime + 60) (updated (keyUpdate [7] [])).store withdrawn.store ∧
      NoGain 0 (updated (keyUpdate [7] [])).store withdrawn.store := by
  obtain ⟨hremove, hbefore, _, hnow⟩ := runs_withdrawn
  obtain ⟨p, hp, hreview⟩ := Option.map_eq_some_iff.mp hbefore
  obtain ⟨_, hrun⟩ := Outcome.exists_of_isOk hremove
  have hheld : KeysHeld (updated (keyUpdate [7] [])).store (keyUpdate [] [7]) :=
    fun _ _ _ _ _ => List.nil_subset _
  have hsteps : ReviewRun KeysHeld 0 (genesisTime + 60) (updated (keyUpdate [7] [])).store
      withdrawn.store :=
    .single ⟨⟨p, hp, (Prod.mk.inj hreview).1, hnow⟩,
      .approval 0 (keyUpdate [] [7]) (by decide) hheld hrun⟩
  exact ⟨hsteps, review_respected.2.1 hsteps⟩

end

end MuseChain
