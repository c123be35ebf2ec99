/-
  File:      MuseChain/Safety/Restart.lean
  Subject:   What a node knows after it was closed and opened again.

  * `Unharmed s t`: the same next ids and the same objects, as far as anything reads them.
  * `reopened_unharmed_iff`: flushing and opening is without harm exactly when no content is
    disabled, no proposal can be vetoed and the proposal lifetime is the default: the members that
    the lists leave out.
-/
import MuseChain.Chain.Reflection
import MuseChain.Safety.RejectedBlocks

namespace MuseChain

/-! ## 1. What is read -/

/-- An object as evaluators, the steps of block processing and secondary indexes see it. The copy
of the title in a content is only a key of an index for queries. -/
def Kind.asRead : (k : Kind) → k.Object → k.Object
  | .content => fun c : Content => { c with trackTitle := "" }
  | _ => id

/-- The same next ids, and the same objects with the same values of what is read. -/
def Unharmed (s t : Store chainSchema) : Prop :=
  ∀ k : Kind, t.nextId k = s.nextId k ∧
    ∀ i, (t.get k i).map k.asRead = (s.get k i).map k.asRead

/-- The members that are read and that the lists leave out have their defaults. -/
def Kind.HasDefaults : (k : Kind) → k.Object → Prop
  | .content => fun c : Content => c.disabled = false
  | .proposal => fun p : Proposal => p.canVeto = []
  | .dynamicGlobalProperty => fun p : DynamicGlobalProperty => p.maximumProposalLifetime = 86400
  | _ => fun _ => True

/-! ## 2. Rereading one object -/

theorem Content.asRead_reread_iff (c : Content) :
    Kind.content.asRead (Kind.content.reread c) = Kind.content.asRead c ↔ c.disabled = false := by
  constructor
  · intro h
    exact (congrArg Content.disabled h).symm
  · intro h
    show ({ c with trackTitle := "", disabled := false } : Content) = { c with trackTitle := "" }
    rw [← h]

theorem Proposal.asRead_reread_iff (p : Proposal) :
    Kind.proposal.asRead (Kind.proposal.reread p) = Kind.proposal.asRead p ↔ p.canVeto = [] := by
  constructor
  · intro h
    exact (congrArg Proposal.canVeto h).symm
  · intro h
    show ({ p with canVeto := [] } : Proposal) = p
    rw [← h]

theorem DynamicGlobalProperty.asRead_reread_iff (p : DynamicGlobalProperty) :
    Kind.dynamicGlobalProperty.asRead (Kind.dynamicGlobalProperty.reread p) =
      Kind.dynamicGlobalProperty.asRead p ↔ p.maximumProposalLifetime = 86400 := by
  constructor
  · intro h
    exact (congrArg DynamicGlobalProperty.maximumProposalLifetime h).symm
  · intro h
    show ({ p with maximumProposalLifetime := 86400 } : DynamicGlobalProperty) = p
    rw [← h]

/-- **An object survives exactly when its unlisted members have their defaults.** -/
theorem Kind.asRead_reread_iff (k : Kind) (a : k.Object) :
    k.asRead (k.reread a) = k.asRead a ↔ k.HasDefaults a := by
  cases k with
  | content => exact Content.asRead_reread_iff a
  | proposal => exact Proposal.asRead_reread_iff a
  | dynamicGlobalProperty => exact DynamicGlobalProperty.asRead_reread_iff a
  | _ => exact ⟨fun _ => trivial, fun _ => rfl⟩

/-! ## 3. The whole database -/

/-- **A node that is closed and opened again knows what it knew exactly when no content is
disabled, nobody can veto a proposal and the proposal lifetime is the default.** -/
theorem reopened_unharmed_iff (s : Store chainSchema) : Unharmed s s.reopened ↔
    (∀ i (c : Content), s.get Kind.content i = some c → c.disabled = false) ∧
    (∀ i (p : Proposal), s.get Kind.proposal i = some p → p.canVeto = []) ∧
    ∀ i (p : DynamicGlobalProperty), s.get Kind.dynamicGlobalProperty i = some p →
      p.maximumProposalLifetime = 86400 := by
  have hall : Unharmed s s.reopened ↔ ∀ (k : Kind) i a, s.get k i = some a → k.HasDefaults a := by
    constructor
    · intro h k i a ha
      have hk := (h k).2 i
      rw [s.get_reopened, ha] at hk
      exact (k.asRead_reread_iff a).mp (Option.some.inj hk)
    · intro h k
      refine ⟨s.nextId_reopened k, fun i => ?_⟩
      rw [s.get_reopened]
      cases ha : s.get k i with
      | none => rfl
      | some a => exact congrArg some ((k.asRead_reread_iff a).mpr (h k i a ha))
  rw [hall]
  constructor
  · intro h
    exact ⟨h .content, h .proposal, h .dynamicGlobalProperty⟩
  · rintro ⟨hc, hp, hd⟩ k i a ha
    cases k with
    | content => exact hc i a ha
    | proposal => exact hp i a ha
    | dynamicGlobalProperty => exact hd i a ha
    | _ => trivial

section

attribute [local instance] sampleFc

/-- A block in which the init miner proposes a transfer of its own. -/
def sampleProposing : SignedBlock where
  toSignedBlockHeader := { sampleHeader ⟨0, 0⟩ 1 with transactionMerkleRoot := genesisTime + 61 }
  transactions := [
    { refBlockNum := 0
      refBlockPrefix := 0
      expiration := genesisTime + 60
      operations := [.proposalCreate
        [.transfer initMinerName initMinerName (Asset.muse 1) ""] (genesisTime + 600) none]
      signatures := [7] }]

/-- The proposal can be vetoed before the node is closed, and not after it was opened again. -/
theorem veto_forgotten : ∃ cs : List Push,
    (Node.pushRun cs (Node.genesis sampleGenesis)).1 = [some false] ∧
      ¬Unharmed (Node.pushRun cs (Node.genesis sampleGenesis)).2.db.store
        (Node.pushRun cs (Node.genesis sampleGenesis)).2.db.store.reopened := by
  refine ⟨[{ block := sampleProposing }], by decide +kernel, fun h => ?_⟩
  have hget : ((Node.pushRun [{ block := sampleProposing }]
      (Node.genesis sampleGenesis)).2.db.store.get Kind.proposal 0).map
        (fun p : Proposal => p.canVeto) = some [initMinerName] := by decide +kernel
  obtain ⟨p, hp, hv⟩ := Option.map_eq_some_iff.mp hget
  have hk := (h Kind.proposal).2 0
  rw [Store.get_reopened, hp] at hk
  have hnil := (Kind.proposal.asRead_reread_iff p).mp (Option.some.inj hk)
  have hnone : p.canVeto = [] := hnil
  rw [hnone] at hv
  cases hv

end

end MuseChain
