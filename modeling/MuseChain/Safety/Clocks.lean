/-
  File:      MuseChain/Safety/Clocks.lean
  Subject:   Two nodes that apply one block with different clocks.

  The only program that asks for the time is the evaluator of withdraw_vesting: a node whose clock
  is close to the head block rejects a negative amount, and one that replays the block later does
  not. Without such an operation, in the block or in a proposal that may execute in it, the clock
  makes no difference (`applyBlock_clock`).
-/
import MuseChain.Chain.Genesis
import MuseChain.Safety.Licences

namespace MuseChain

variable {n : Nat}

/-! ## 1. Operations that do not ask for the time -/

mutual

/-- No withdrawal of a negative amount, proposed ones included. -/
def Operation.clockFree : Operation → Bool
  | .withdrawVesting _ vestingShares => decide (0 ≤ vestingShares.amount)
  | .proposalCreate ops _ _ => clockFreeOps ops
  | _ => true

def clockFreeOps : List Operation → Bool
  | [] => true
  | op :: ops => op.clockFree && clockFreeOps ops

end

theorem clockFreeOps_iff {ops : List Operation} :
    clockFreeOps ops = true ↔ ∀ op ∈ ops, op.clockFree = true := by
  induction ops with
  | nil => simp [clockFreeOps]
  | cons op ops ih => simp [clockFreeOps, ih]

/-- A test that passes has no effect. -/
theorem require_bind {α : Type} {c : Prop} [Decidable c] (h : c) (msg : String)
    (f : Unit → Act n α) : (Action.require c msg >>= f) = f () := by
  unfold Action.require
  rw [if_pos h]
  rfl

/-- An amount that is not negative passes the soft fork on every node. -/
theorem withdrawVesting_clock {vestingShares : Asset} (account : String)
    (h : 0 ≤ vestingShares.amount) (clock clock' : Nat) :
    (withdrawVesting clock account vestingShares : Act n Unit) =
      withdrawVesting clock' account vestingShares := by
  unfold withdrawVesting
  simp only [require_bind h, ite_self]

/-- Operations like that do the same on every node. -/
theorem clockFree [Fc] (clock clock' : Nat) :
    ClockFree (fun op => op.clockFree = true) clock clock' where
  withdraw h _ := withdrawVesting_clock _ (of_decide_eq_true h) _ _
  proposed h := clockFreeOps_iff.mp h

/-! ## 2. The rest of a block -/

section

variable {ok : Operation → Prop}

theorem within_block {α : Type} {x : Act n α} (h : Within (opLicence ok) x) :
    Within (blockLicence ok) x := h.mono (opLicence_le ok)

theorem within_block_dgp {β : Type} {f : DynamicGlobalProperty → Except Exn β}
    {upd : DynamicGlobalProperty → β → DynamicGlobalProperty} :
    Within (blockLicence ok) (modifyDgp f upd : Act n Unit) :=
  within_modifyWith (.inl trivial) (.inl (.inl trivial)) fun _ _ _ => trivial

theorem within_updateGlobalDynamicData [Fc] (skip : Skip) (b : SignedBlock) :
    Within (blockLicence ok) (updateGlobalDynamicData skip b : Act n Unit) := by
  have hmissed : ∀ i, Within (blockLicence ok) (countMissed b i : Act n Unit) :=
    fun i => within_block (within_countMissed b i)
  unfold updateGlobalDynamicData
  repeat' first
    | with_reducible apply within_bind | with_reducible apply within_ite | intro _
    | simp [hmissed] | exact within_block_dgp

theorem within_createBlockSummary [Fc] (b : SignedBlock) :
    Within (blockLicence ok) (createBlockSummary b : Act n Unit) :=
  within_modify (.inl trivial) fun _ => trivial

theorem within_clearExpiredTransactions :
    Within (blockLicence ok) (clearExpiredTransactions : Act n Unit) := by
  unfold clearExpiredTransactions
  refine within_bind (by simp) fun now => within_bind (looks_read _).within fun due => ?_
  exact within_forEach fun t => within_remove fun _ => trivial

end

section

variable [Fc] {ok : Operation → Prop} {clock clock' : Nat} (skip : Skip)

theorem agree_applyTransaction {trx : Transaction}
    (h : ∀ op ∈ trx.operations, Agree (ProposeOnly ok) (opLicence ok) (applyOperation clock n op)
      (applyOperation clock' n op)) :
    Agree (ProposeOnly ok) (blockLicence ok) (applyTransaction clock skip n trx)
      (applyTransaction clock' skip n trx) := by
  have hP := blockLicence_keeps ok
  have hops : Agree (ProposeOnly ok) (blockLicence ok)
      (Action.forEach trx.operations fun op => applyOperation clock n op)
      (Action.forEach trx.operations fun op => applyOperation clock' n op) :=
    .forEach hP fun op hop => (h op hop).mono (opLicence_le ok)
  unfold applyTransaction
  refine .unless hP (by simp) (.after hP (by simp) fun known => .after hP (by simp) fun _ => ?_)
  refine .unless hP (by simp) (.after hP (within_block (within_chargeBandwidth trx)) fun _ => ?_)
  refine .after hP (by simp) fun _ => .ite (fun _ => hops) fun _ => ?_
  exact .after hP (within_create trivial) fun _ => hops

theorem agree_applyBlockFirst {b : SignedBlock}
    (h : ∀ trx ∈ b.transactions, ∀ op ∈ trx.operations, Agree (ProposeOnly ok) (opLicence ok)
      (applyOperation clock n op) (applyOperation clock' n op)) :
    Agree (ProposeOnly ok) (blockLicence ok) (applyBlockFirst clock skip n b)
      (applyBlockFirst clock' skip n b) := by
  have hP := blockLicence_keeps ok
  unfold applyBlockFirst
  refine .after hP (by simp) fun _ => .after hP (by simp) fun signingWitness => ?_
  refine .after hP (by simp) fun p => .after hP (by simp) fun _ => ?_
  refine .after hP within_block_dgp fun _ =>
    .after hP (within_block (within_processHeaderExtensions b)) fun _ => ?_
  refine .after hP (by simp) fun w => .after hP (by simp) fun hardfork => ?_
  refine .after hP (by simp) fun _ => ?_
  refine .bind hP (.forEach hP fun trx ht => agree_applyTransaction skip (h trx ht)) ?_
  intro _ _ _ _ _
  exact .after hP (within_updateGlobalDynamicData skip b) fun _ => Within.agree (by simp)

theorem agree_applyBlockRest (h : ∀ i, Agree (ProposeOnly ok) (opLicence ok)
      (pushProposal clock n i) (pushProposal clock' n i)) (signingWitness : Nat)
    (b : SignedBlock) :
    Agree (ProposeOnly ok) (blockLicence ok) (applyBlockRest clock n signingWitness b)
      (applyBlockRest clock' n signingWitness b) := by
  have hP := blockLicence_keeps ok
  have hend : ∀ {x : Act n Unit} {f : Unit → Act n Unit}, Within (opLicence ok) x →
      Within (blockLicence ok) (f ()) → Within (blockLicence ok) (x >>= f) :=
    fun hx hf => within_bind (within_block hx) fun _ => hf
  unfold applyBlockRest
  have hsigning : Within (blockLicence ok) (updateSigningWitness signingWitness b : Act n Unit) :=
    within_updateSigningWitness trivial (fun _ _ _ => trivial) _ b
  refine .after hP hsigning fun _ => ?_
  refine .after hP (within_updateLastIrreversibleBlock fun _ => within_block_dgp) fun _ => ?_
  refine .after hP (within_createBlockSummary b) fun _ => ?_
  refine .after hP within_clearExpiredTransactions fun _ => ?_
  refine .bind hP ((agree_clearExpiredProposals (opLicence_keeps ok) h).mono
    (opLicence_le ok)) fun _ _ _ _ _ => ?_
  refine Within.agree ?_
  refine hend within_clearExpiredOrders (hend within_updateWitnessSchedule ?_)
  refine hend within_updateMedianFeed (hend within_updateVirtualSupply (hend within_payBlock ?_))
  refine hend within_updateVirtualSupply (hend within_accountRecoveryProcessing ?_)
  exact within_block within_processHardforks

end

/-! ## 3. Blocks -/

section

variable [Fc]

/-- **The clock makes no difference to a block without withdrawals of negative amounts, where no
proposal has one either.** -/
theorem applyBlock_clock (clock clock' depth : Nat) (skip : Skip) (m : Node) (b : SignedBlock)
    (hb : ∀ trx ∈ b.transactions, ∀ op ∈ trx.operations, op.clockFree = true)
    (hm : ∀ i (p : Proposal), m.db.store.get Kind.proposal i = some p →
      ∀ op ∈ p.proposedTransaction.operations, op.clockFree = true) :
    Node.applyBlock clock depth skip m b = Node.applyBlock clock' depth skip m b := by
  have hc := clockFree clock clock'
  have hP := blockLicence_keeps fun op => op.clockFree = true
  unfold Node.applyBlock
  cases m.checkpointSkip skip b with
  | error e => rfl
  | ok skip =>
    have hfirst := agree_applyBlockFirst (n := depth) skip fun trx ht op hop =>
      agree_applyOperation hc (hb trx ht op hop)
    simp only [← hfirst.same m.db hm]
    have ha := hfirst.acts m.db hm
    cases hr : (applyBlockFirst clock skip depth b).run m.db with
    | thrown e d => rfl
    | ok signingWitness d =>
      rw [hr] at ha
      have hd : ProposeOnly (fun op => op.clockFree = true)
          (Node.setMaxSizes { m with db := d }).db.store := hP m.db d ha hm
      simp only
      rw [(agree_applyBlockRest (agree_pushProposal hc depth) signingWitness b).same _ hd]

end

section

attribute [local instance] sampleFc

/-- A block with one withdrawal by the init miner. -/
def withdrawalBlock (amount : Int) : SignedBlock :=
  let trx : Transaction := ⟨0, 0, genesisTime + 60,
    [.withdrawVesting initMinerName (Asset.vests amount)], [7]⟩
  let b : SignedBlock := ⟨sampleHeader ⟨0, 0⟩ 1, [trx]⟩
  ⟨{ sampleHeader ⟨0, 0⟩ 1 with transactionMerkleRoot := b.calculateMerkleRoot }, [trx]⟩

/-- **A node that receives a negative withdrawal live rejects the block; one that replays it an
hour later accepts it.** -/
theorem soft_fork_splits :
    (Node.applyBlock ((genesisTime + 3) * 1000000) 0 {} (Node.genesis sampleGenesis)
        (withdrawalBlock (-1))).isOk = false ∧
      (Node.applyBlock ((genesisTime + 3600) * 1000000) 0 {} (Node.genesis sampleGenesis)
        (withdrawalBlock (-1))).isOk = true := by
  constructor <;> decide +kernel

/-- A block in which the init miner vests 10 and withdraws one of the shares. -/
def vestingBlock : SignedBlock :=
  let trx : Transaction := ⟨0, 0, genesisTime + 60,
    [.transferToVesting initMinerName initMinerName (Asset.muse 10),
      .withdrawVesting initMinerName (Asset.vests 1)], [7]⟩
  let b : SignedBlock := ⟨sampleHeader ⟨0, 0⟩ 1, [trx]⟩
  ⟨{ sampleHeader ⟨0, 0⟩ 1 with transactionMerkleRoot := b.calculateMerkleRoot }, [trx]⟩

/-- Both nodes apply it. -/
theorem applyBlock_clock_withdrawal :
    (Node.applyBlock ((genesisTime + 3) * 1000000) 0 {} (Node.genesis sampleGenesis)
        vestingBlock).isOk = true ∧
      Node.applyBlock ((genesisTime + 3) * 1000000) 0 {} (Node.genesis sampleGenesis)
          vestingBlock =
        Node.applyBlock ((genesisTime + 3600) * 1000000) 0 {} (Node.genesis sampleGenesis)
          vestingBlock := by
  have hnone : (Node.genesis sampleGenesis).db.store.rows Kind.proposal = [] :=
    List.eq_nil_of_length_eq_zero (by decide +kernel)
  refine ⟨by decide +kernel, applyBlock_clock _ _ _ _ _ _ (by decide) fun i p hp => ?_⟩
  have hmem : (i, p) ∈ (Node.genesis sampleGenesis).db.store.rows Kind.proposal :=
    FMap.mem_rows.mpr hp
  rw [hnone] at hmem
  cases hmem

end

end MuseChain
