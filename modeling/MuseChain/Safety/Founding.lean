/-
  File:      MuseChain/Safety/Founding.lean
  Subject:   What the genesis leaves in the indexes of which it makes one object.

  * `Born k a s t`: of no object of a kind the first one, `a`, was made. What happens before and
    after it in other indexes does not matter (`born_after`, `born_then`).
  * `genesis_witness`, `genesis_properties`, `genesis_schedule`, `genesis_feedHistory`,
    `genesis_hardforks`: the init miner, the global properties, the schedule, the price history and
    the hardforks.
  * `produceBlock`: the scheduled witness makes a block of what it is given, and it is applied.
    `Timeline.founded`: blocks that are made from the genesis on are a timeline.
-/
import MuseChain.Safety.Votes
import MuseChain.Safety.Timelines
import MuseChain.Safety.Schedules

namespace MuseChain

variable {n : Nat} {α β : Type}

/-! ## 1. The first object of a kind -/

/-- An index is left alone, its next id too. -/
def Spared (k : Kind) (s t : Store chainSchema) : Prop :=
  t.get k = s.get k ∧ t.nextId k = s.nextId k

instance {k : Kind} : IsPreorder (Store chainSchema) (Spared k) where
  refl _ := ⟨rfl, rfl⟩
  trans _ _ _ h h' := ⟨h'.1.trans h.1, h'.2.trans h.2⟩

/-- Of no object the first one was made. -/
def Born (k : Kind) (a : k.Object) (s t : Store chainSchema) : Prop :=
  (∀ i, s.get k i = none) → s.nextId k = 0 →
    t.get k 0 = some a ∧ ∀ i, i ≠ 0 → t.get k i = none

section

variable {k k' : Kind} {a : k.Object}

theorem spared_create {b : k'.Object} (h : k ≠ k') :
    Steps (Spared k) (Action.create (S := chainSchema) k' b : Act n Nat) := by
  refine ⟨fun {d i d'} hr => ⟨(untouched_create h).step hr, ?_⟩⟩
  obtain ⟨_, _, hf, e⟩ := create_store hr
  rw [e, Store.nextId_setNextId, if_neg h, Store.nextId_write]

theorem born_create : Steps (Born k a) (Action.create (S := chainSchema) k a : Act n Nat) := by
  refine ⟨fun {d i d'} hr hnone hid => ?_⟩
  obtain ⟨_, _, hf, e⟩ := create_store hr
  rw [e]
  simp only [Store.get_setNextId]
  refine ⟨?_, fun j hj => ?_⟩
  · rw [Store.get_write_self, if_pos hid.symm]
  · rw [Store.get_write_self, if_neg (by omega)]
    exact hnone j

/-- What came before was about other indexes. -/
theorem born_after {x : Act n α} {f : α → Act n β} (hx : Steps (Spared k) x)
    (hf : ∀ c, Steps (Born k a) (f c)) : Steps (Born k a) (x >>= f) := by
  refine hx.comp hf fun s t u h h' hnone hid => h' (fun i => ?_) (h.2.trans hid)
  rw [h.1]
  exact hnone i

/-- So is what comes after. -/
theorem born_then {x : Act n α} {f : α → Act n β} (hx : Steps (Born k a) x)
    (hf : ∀ c, Steps (Untouched k) (f c)) : Steps (Born k a) (x >>= f) := by
  refine hx.comp hf fun s t u h h' hnone hid => ?_
  have hu : u.get k = t.get k := h'
  rw [hu]
  exact h hnone hid

end

/-! ## 2. The genesis -/

theorem untouched_of_composed {k : Kind} {l : List Part} {x : Act n α} (h : Composed l x)
    (hm : .made k ∉ l) (hg : .gone k ∉ l) (hsame : ∀ a b, Same l k a b → a = b) :
    Steps (Untouched k) x :=
  h.steps.mono fun _ _ hst => funext fun _ => get_of_unchanged hst hm hg hsame

section

variable [Fc] {g : GenesisState} {u : Unit} {d : Database chainSchema}
  (h : (initGenesis g).run emptyDatabase = .ok u d)

include h

/-- The init miner is the first witness, and only what the import writes to can have moved. -/
theorem genesis_initMiner :
    (∃ w : Witness, d.store.get Kind.witness 0 = some w ∧ Same importParts Kind.witness
      ({ owner := initMinerName, signingKey := g.initPublicKey } : Witness) w) ∧
    ∀ i, i ≠ 0 → d.store.get Kind.witness i = none := by
  have hborn : Steps (Born Kind.witness
      ({ owner := initMinerName, signingKey := g.initPublicKey } : Witness))
      (do initAccounts g; initGlobals g : Act 0 Unit) := by
    refine born_then ?_ fun _ => ?_
    · unfold initAccounts
      refine born_after (spared_create (by decide)) fun _ => ?_
      refine born_after (spared_create (by decide)) fun _ => ?_
      refine born_after (spared_create (by decide)) fun _ => ?_
      refine born_after (spared_create (by decide)) fun _ => ?_
      exact born_then born_create fun _ => (looks_pure ()).steps
    · unfold initGlobals
      repeat' first
        | with_reducible apply steps_bind | intro _ | exact untouched_create (by decide)
      exact (looks_pure ()).steps
  rw [initGenesis_eq] at h
  obtain ⟨_, d₁, h1, h2⟩ := Action.bind_ok.mp h
  obtain ⟨_, d₂, h3, h4⟩ := Action.bind_ok.mp h2
  obtain ⟨hfirst, hothers⟩ := hborn.step (Action.bind_ok.mpr ⟨_, d₁, h1, h3⟩) (fun _ => rfl) rfl
  have himport : Obeys (changes importParts) d₂.store d.store :=
    (composed_importGenesis g).steps.step h4
  refine ⟨?_, fun i hi => ?_⟩
  · obtain ⟨a, b, ha, hb, hab⟩ | ⟨hn, _⟩ | ⟨_, _, hn, _⟩ :=
      changes_cases (himport Kind.witness 0) (by decide)
    · rw [hfirst] at ha
      cases ha
      exact ⟨b, hb, hab⟩
    · exact nomatch hfirst.symm.trans hn
    · exact nomatch hfirst.symm.trans hn
  · obtain ⟨a, b, ha, _, _⟩ | ⟨_, hn⟩ | ⟨_, _, _, _, hmade⟩ :=
      changes_cases (himport Kind.witness i) (by decide)
    · exact nomatch (hothers i hi).symm.trans ha
    · exact hn
    · exact absurd hmade.1 (by decide)

/-- **The init miner is the only witness.** Only its votes and virtual times can have moved. -/
theorem genesis_witness :
    (∃ w : Witness, d.store.get Kind.witness 0 = some w ∧ w.owner = initMinerName ∧
      w.signingKey = g.initPublicKey ∧ w.lastConfirmedBlockNum = 0 ∧
      w.hardforkVersionVote = ⟨0, 0, 0⟩) ∧
    ∀ i, i ≠ 0 → d.store.get Kind.witness i = none := by
  obtain ⟨⟨w, hw, hsame⟩, hothers⟩ := genesis_initMiner h
  have hid := Or.resolve_left (hsame .identity) (by decide)
  have hkey := Or.resolve_left (hsame .signing) (by decide)
  have hconfirmed := Or.resolve_left (hsame .confirmed) (by decide)
  have hvote := Or.resolve_left (hsame .hardforkVote) (by decide)
  simp only [Witness.view, Prod.mk.injEq] at hid hkey hconfirmed hvote
  exact ⟨⟨w, hw, hid.1.symm, hkey.2.1.symm, hconfirmed.symm, hvote.1.symm⟩, hothers⟩

/-- **The properties of the genesis**, but for what the import writes to. -/
theorem genesis_properties :
    ∃ p : DynamicGlobalProperty, d.store.get Kind.dynamicGlobalProperty 0 = some p ∧
      Same importParts Kind.dynamicGlobalProperty
        ({ currentWitness := initMinerName
           time := genesisTime
           recentSlotsFilled := 2 ^ 128 - 1
           participationCount := 128
           currentSupply := Asset.muse g.initSupply
           virtualSupply := Asset.muse g.initSupply
           maximumBlockSize := maxBlockSize } : DynamicGlobalProperty) p := by
  have hborn : Steps (Born Kind.dynamicGlobalProperty
      ({ currentWitness := initMinerName
         time := genesisTime
         recentSlotsFilled := 2 ^ 128 - 1
         participationCount := 128
         currentSupply := Asset.muse g.initSupply
         virtualSupply := Asset.muse g.initSupply
         maximumBlockSize := maxBlockSize } : DynamicGlobalProperty))
      (do initAccounts g; initGlobals g : Act 0 Unit) := by
    refine born_after ?_ fun _ => ?_
    · unfold initAccounts
      repeat' first | with_reducible apply steps_bind | intro _ | exact spared_create (by decide)
      exact (looks_pure ()).steps
    · unfold initGlobals
      refine born_then born_create fun _ => ?_
      repeat' first
        | with_reducible apply steps_bind | intro _ | exact untouched_create (by decide)
      exact (looks_pure ()).steps
  rw [initGenesis_eq] at h
  obtain ⟨_, d₁, h1, h2⟩ := Action.bind_ok.mp h
  obtain ⟨_, d₂, h3, h4⟩ := Action.bind_ok.mp h2
  obtain ⟨hfirst, _⟩ := hborn.step (Action.bind_ok.mpr ⟨_, d₁, h1, h3⟩) (fun _ => rfl) rfl
  have himport : Obeys (changes importParts) d₂.store d.store :=
    (composed_importGenesis g).steps.step h4
  obtain ⟨a, b, ha, hb, hab⟩ | ⟨hn, _⟩ | ⟨_, _, hn, _⟩ :=
    changes_cases (himport Kind.dynamicGlobalProperty 0) (by decide)
  · rw [hfirst] at ha
    cases ha
    exact ⟨b, hb, hab⟩
  · exact nomatch hfirst.symm.trans hn
  · exact nomatch hfirst.symm.trans hn

/-- **The init miner is scheduled.** -/
theorem genesis_schedule :
    d.store.get Kind.witnessSchedule 0 =
      some ({ currentShuffledWitnesses := [initMinerName] } : WitnessSchedule) := by
  have hborn : Steps (Born Kind.witnessSchedule
      ({ currentShuffledWitnesses := [initMinerName] } : WitnessSchedule)) (initGenesis g) := by
    rw [initGenesis_eq]
    refine born_after ?_ fun _ => born_then ?_ fun _ => ?_
    · unfold initAccounts
      repeat' first | with_reducible apply steps_bind | intro _ | exact spared_create (by decide)
      exact (looks_pure ()).steps
    · unfold initGlobals
      iterate 6 refine born_after (spared_create (by decide)) fun _ => ?_
      exact born_then born_create fun _ => (looks_pure ()).steps
    · exact untouched_of_composed (composed_importGenesis g) (by decide) (by decide)
        fun _ _ hab => Or.resolve_left hab (by decide)
  exact (hborn.step h (fun _ => rfl) rfl).1

/-- **There is no price history.** -/
theorem genesis_feedHistory :
    d.store.get Kind.feedHistory 0 = some ({} : FeedHistory) := by
  have hborn : Steps (Born Kind.feedHistory ({} : FeedHistory)) (initGenesis g) := by
    rw [initGenesis_eq]
    refine born_after ?_ fun _ => born_then ?_ fun _ => ?_
    · unfold initAccounts
      repeat' first | with_reducible apply steps_bind | intro _ | exact spared_create (by decide)
      exact (looks_pure ()).steps
    · unfold initGlobals
      iterate 4 refine born_after (spared_create (by decide)) fun _ => ?_
      refine born_then born_create fun _ => ?_
      repeat' first
        | with_reducible apply steps_bind | intro _ | exact untouched_create (by decide)
      exact (looks_pure ()).steps
    · exact untouched_of_composed (composed_importGenesis g) (by decide) (by decide)
        fun _ _ hab => Or.resolve_left hab (by decide)
  exact (hborn.step h (fun _ => rfl) rfl).1

/-- **No hardfork has been applied.** -/
theorem genesis_hardforks :
    d.store.get Kind.hardforkProperty 0 =
      some ({ processedHardforks := [genesisTime] } : HardforkProperty) := by
  have hborn : Steps (Born Kind.hardforkProperty
      ({ processedHardforks := [genesisTime] } : HardforkProperty)) (initGenesis g) := by
    rw [initGenesis_eq]
    refine born_after ?_ fun _ => born_then ?_ fun _ => ?_
    · unfold initAccounts
      repeat' first | with_reducible apply steps_bind | intro _ | exact spared_create (by decide)
      exact (looks_pure ()).steps
    · unfold initGlobals
      iterate 5 refine born_after (spared_create (by decide)) fun _ => ?_
      refine born_then born_create fun _ => ?_
      exact steps_bind (untouched_create (by decide)) fun _ => (looks_pure ()).steps
    · exact untouched_of_composed (composed_importGenesis g) (by decide) (by decide)
        fun _ _ hab => Or.resolve_left hab (by decide)
  exact (hborn.step h (fun _ => rfl) rfl).1

/-- **There are no proposals.** -/
theorem genesis_proposals (i : Nat) : d.store.get Kind.proposal i = none := by
  have hnone : Steps (Untouched Kind.proposal) (initGenesis g) := by
    rw [initGenesis_eq]
    refine steps_bind ?_ fun _ => steps_bind ?_ fun _ => ?_
    · unfold initAccounts
      repeat' first
        | with_reducible apply steps_bind | intro _ | exact untouched_create (by decide)
      exact (looks_pure ()).steps
    · unfold initGlobals
      repeat' first
        | with_reducible apply steps_bind | intro _ | exact untouched_create (by decide)
      exact (looks_pure ()).steps
    · exact untouched_of_composed (composed_importGenesis g) (by decide) (by decide)
        fun _ _ hab => Or.resolve_left hab (by decide)
  have huntouched : d.store.get Kind.proposal = emptyStore.get Kind.proposal := hnone.step h
  rw [huntouched]
  rfl

end

/-! ## 3. Blocks from the genesis on -/

section

variable [Fc] {g : GenesisState} {past : Past} {m : Moment}

theorem Timeline.proper (h : Timeline g past m) : Proper m.store := by
  refine h.reached.invariant (fun {u d} hg i p hp => ?_) fun hst => hst.proper
  exact nomatch (genesis_proposals hg i).symm.trans hp

/-- **In every moment the scheduled names differ, and are those of witnesses.** -/
theorem Timeline.rostered (h : Timeline g past m) : Rostered m.store := by
  refine h.reached.invariant (fun {u d} hg o ho => ?_) fun hst => hst.rostered
  obtain ⟨⟨w, hw, hname, _⟩, _⟩ := genesis_witness hg
  rw [genesis_schedule hg] at ho
  cases ho
  refine ⟨List.nodup_singleton _, fun name hmem => ?_⟩
  obtain rfl := List.mem_singleton.mp hmem
  exact ⟨w, 0, hw, hname⟩

/-- Duties that are done one after the other. -/
theorem Path.duties (rest : List Routine) {l : List Routine} {u : Unit} {d d' : Database chainSchema}
    (hr : (Action.forEach l Routine.act : Act n Unit).run d = .ok u d') :
    ∃ past, Path ⟨d.store, l ++ rest⟩ past ⟨d'.store, rest⟩ := by
  induction l generalizing d with
  | nil =>
    cases hr
    exact ⟨[], .nil⟩
  | cons r l ih =>
    obtain ⟨_, d₁, h1, h2⟩ := Action.bind_ok.mp hr
    obtain ⟨past, hpast⟩ := ih h2
    exact ⟨_, Path.trans (.snoc .nil (.duty (.routine n h1))) hpast⟩

/-- What a witness puts into its block. -/
structure Payload where
  extensions : List HeaderExtension := []
  operations : List Operation := []
  signatures : List PublicKey := []

/-- The block of the scheduled witness in the slot after the head. -/
def nextBlock (s : Store chainSchema) (c : Payload) : SignedBlock :=
  let p : DynamicGlobalProperty := (s.get Kind.dynamicGlobalProperty 0).getD {}
  let names := ((s.get Kind.witnessSchedule 0).getD
    ({} : WitnessSchedule) : WitnessSchedule).currentShuffledWitnesses
  let name := names.getD ((p.currentAslot + 1) % names.length) ""
  let key := ((s.rows Kind.witness).find? fun r : Nat × Witness => r.2.owner = name).map
    fun r : Nat × Witness => r.2.signingKey
  let time := u32 (p.time + blockInterval)
  let trxs := if c.operations.isEmpty then [] else
    [⟨0, 0, u32 (time + blockInterval), c.operations, c.signatures⟩]
  let header : SignedBlockHeader := ⟨p.headBlockId, time, name, 0, c.extensions, key.getD 0⟩
  { header with
    transactionMerkleRoot := (⟨header, trxs⟩ : SignedBlock).calculateMerkleRoot
    transactions := trxs }

def produceBlock (c : Payload) : Act 0 Unit := do
  let b ← Action.read fun s => nextBlock s c
  let signingWitness ← applyBlockFirst 0 {} 0 b
  applyBlockRest 0 0 signingWitness b

/-- A block is a path from one moment between blocks to the next one. -/
theorem Path.produceBlock {c : Payload} {d d' : Database chainSchema} {u : Unit}
    (hp : Proper d.store) (hf : d.store.Fresh) (hr : (produceBlock c).run d = .ok u d')
    (hb : d'.broken = false) : ∃ l, Path ⟨d.store, []⟩ l ⟨d'.store, []⟩ := by
  unfold MuseChain.produceBlock at hr
  replace hr := Action.bind_read_ok.mp hr
  obtain ⟨wit, d₁, hfirst, hrest⟩ := Action.bind_ok.mp hr
  exact Path.applyBlock hfirst
    (show (applyBlockRest _ _ _ _).run { d₁ with maxSize := d₁.maxSize } = _ from hrest) rfl
    (Nat.mod_lt _ (by decide)) hp hf hb (Nat.zero_le _) (Nat.zero_le _)

theorem Timeline.produceBlock {c : Payload} {d d' : Database chainSchema} {u : Unit}
    (ht : Timeline g past ⟨d.store, []⟩) (hf : d.store.Fresh)
    (hr : (produceBlock c).run d = .ok u d') (hb : d'.broken = false) :
    (∃ past', Timeline g past' ⟨d'.store, []⟩) ∧ d'.store.Fresh := by
  have hholds := (MuseChain.produceBlock c).holds d
  rw [hr, Outcome.db_ok] at hholds
  obtain ⟨l, hl⟩ := Path.produceBlock ht.proper hf hr hb
  exact ⟨⟨_, ht.append hl⟩, ((hholds hb).2.2 (Nat.zero_le _) hf).fresh⟩

theorem Timeline.produceBlocks {l : List Payload} {d d' : Database chainSchema} {u : Unit}
    (ht : Timeline g past ⟨d.store, []⟩) (hf : d.store.Fresh)
    (hr : (Action.forEach l MuseChain.produceBlock).run d = .ok u d') (hb : d'.broken = false) :
    (∃ past', Timeline g past' ⟨d'.store, []⟩) ∧ d'.store.Fresh := by
  induction l generalizing d past with
  | nil =>
    cases hr
    exact ⟨⟨_, ht⟩, hf⟩
  | cons c l ih =>
    obtain ⟨_, d₁, h1, h2⟩ := Action.bind_ok.mp hr
    have hholds := (Action.forEach l MuseChain.produceBlock).holds d₁
    rw [h2, Outcome.db_ok] at hholds
    obtain ⟨⟨past', ht'⟩, hf'⟩ := ht.produceBlock hf h1 (hholds hb).1
    exact ih ht' hf' h2

/-- The genesis, and blocks after it. -/
def founded (g : GenesisState) (l : List Payload) : Outcome chainSchema Unit :=
  (do initGenesis g; Action.forEach l produceBlock : Act 0 Unit).run
    emptyDatabase

/-- **Blocks that are made from the genesis on are a timeline.** -/
theorem Timeline.founded {l : List Payload} {u : Unit} {d : Database chainSchema}
    (hr : MuseChain.founded g l = .ok u d) (hb : d.broken = false) :
    (∃ past, Timeline g past ⟨d.store, []⟩) ∧ d.store.Fresh := by
  obtain ⟨u₀, d₀, hg, hblocks⟩ := Action.bind_ok.mp hr
  have hholds := (Action.forEach l MuseChain.produceBlock).holds d₀
  rw [hblocks, Outcome.db_ok] at hholds
  have hgenesis := (initGenesis g).holds emptyDatabase
  rw [hg, Outcome.db_ok] at hgenesis
  have hf : d₀.store.Fresh :=
    ((hgenesis (hholds hb).1).2.2 (Nat.zero_le _) emptyStore_fresh).fresh
  exact (Timeline.start hg).produceBlocks hf hblocks hb

/-- The genesis, blocks after it, and one more that is done up to its `k`-th duty. -/
def begun (g : GenesisState) (l : List Payload) (c : Payload) (k : Nat) :
    Outcome chainSchema Unit :=
  (do
    initGenesis g
    Action.forEach l produceBlock
    let b ← Action.read fun s => nextBlock s c
    let signingWitness ← applyBlockFirst 0 {} 0 b
    Action.forEach ((Routine.afterHead signingWitness b).take k) Routine.act : Act 0 Unit).run
    emptyDatabase

/-- **In the middle of a block**, when no proposal is due. -/
theorem Timeline.begun {l : List Payload} {c : Payload} {k : Nat} {u : Unit}
    {d : Database chainSchema} (hr : MuseChain.begun g l c k = .ok u d) (hb : d.broken = false) :
    ∃ past wit b, Timeline g past ⟨d.store, (Routine.afterHead wit b).drop k⟩ := by
  obtain ⟨u₀, d₀, hg, hr⟩ := Action.bind_ok.mp hr
  obtain ⟨u₁, d₁, hblocks, hlast⟩ := Action.bind_ok.mp hr
  replace hlast := Action.bind_read_ok.mp hlast
  obtain ⟨wit, d₂, hfirst, hduties⟩ := Action.bind_ok.mp hlast
  have hholds2 := (Action.forEach ((Routine.afterHead wit
    (nextBlock d₁.store c)).take k) (Routine.act (n := 0))).holds d₂
  rw [hduties, Outcome.db_ok] at hholds2
  have hb2 : d₂.broken = false := (hholds2 hb).1
  have hholds1 := (applyBlockFirst 0 {} 0 (nextBlock d₁.store c)).holds d₁
  rw [hfirst, Outcome.db_ok] at hholds1
  obtain ⟨⟨past, ht⟩, hf⟩ := Timeline.founded (Action.bind_ok.mpr ⟨u₀, d₀, hg, hblocks⟩)
    (hholds1 hb2).1
  obtain ⟨_, hlinked⟩ := applyBlockFirst_moved hfirst
  obtain ⟨l₁, hl₁⟩ := (heads_applyBlockFirst 0 0 rfl (Nat.mod_lt _ (by decide))).step hfirst hb2
    (Nat.zero_le _) hf ht.proper hlinked wit
  obtain ⟨l₂, hl₂⟩ := Path.duties
    ((Routine.afterHead wit (nextBlock d₁.store c)).drop k) hduties
  rw [List.take_append_drop] at hl₂
  exact ⟨_, wit, _, ht.append (hl₁.trans hl₂)⟩

/-- The outcome is a return, with objects of which `p` is true. -/
def Returns (p : Database chainSchema → Bool) {α : Type} : Outcome chainSchema α → Bool
  | .ok _ d => !d.broken && p d
  | .thrown _ _ => false

omit [Fc] in
theorem Returns.exists {p : Database chainSchema → Bool} {α : Type} {o : Outcome chainSchema α}
    (h : Returns p o = true) : ∃ a d, o = .ok a d ∧ d.broken = false ∧ p d = true := by
  cases o with
  | ok a d =>
    obtain ⟨hb, hp⟩ := Bool.and_eq_true_iff.mp h
    exact ⟨a, d, rfl, by simpa using hb, hp⟩
  | thrown e d => cases h

end

end MuseChain
