/-
  File:      MuseChain/Safety/Bandwidth.lean
  Subject:   The virtual bandwidth.

  * `Sized s`: the block sizes that the witnesses vote for and the one in force are not below the
    limit, and the reserve ratio is not above its maximum. It is so in every state of the chain
    (`Reached.sized`).
  * `virtual_bandwidth_exact_iff`: a call of update_global_dynamic_data computes the virtual
    bandwidth exactly where the product fits into 64 bits and the ratio is not 0 (`Roomy`), and
    nowhere else.
-/
import MuseChain.Safety.Slots

namespace MuseChain

variable {n : Nat} {d d' : Database chainSchema} {u : Unit}

/-! ## 1. The sizes of blocks -/

/-- The block sizes are not below the limit, the ratio not above its maximum. -/
structure Sized (s : Store chainSchema) : Prop where
  votes : ∀ i (w : Witness), s.get Kind.witness i = some w →
    minBlockSizeLimit ≤ w.props.maximumBlockSize
  size : ∀ p : DynamicGlobalProperty, s.get Kind.dynamicGlobalProperty 0 = some p →
    minBlockSizeLimit ≤ p.maximumBlockSize
  ratio : ∀ p : DynamicGlobalProperty, s.get Kind.dynamicGlobalProperty 0 = some p →
    p.currentReserveRatio ≤ maxReserveRatio

section

variable {l : List Part} {s t : Store chainSchema}

/-- A group of fields of the properties, as it was before. -/
theorem props_before (h : Obeys (changes l) s t) (hm : .made .dynamicGlobalProperty ∉ l)
    (hg : .gone .dynamicGlobalProperty ∉ l) {f : PropsField} (hf : .props f ∉ l)
    {q : DynamicGlobalProperty} (hq : t.get Kind.dynamicGlobalProperty 0 = some q) :
    ∃ p : DynamicGlobalProperty, s.get Kind.dynamicGlobalProperty 0 = some p ∧
      p.view f = q.view f := by
  rcases changes_cases (h Kind.dynamicGlobalProperty 0) hg with
    ⟨a, b, ha, hb, hab⟩ | ⟨_, hn⟩ | ⟨_, _, _, _, hmade, _⟩
  · obtain rfl : b = q := Option.some.inj (hb.symm.trans hq)
    exact ⟨a, ha, Or.resolve_left (hab f) hf⟩
  · exact nomatch hq.symm.trans hn
  · exact absurd hmade hm

/-- The votes of the witnesses stay where no witness is made and none signs with another key. -/
theorem votes_of_changes (h : Obeys (changes l) s t) (hm : .made .witness ∉ l)
    (hg : .gone .witness ∉ l) (hf : .witness .signing ∉ l) (hs : Sized s) {i : Nat} {w : Witness}
    (hw : t.get Kind.witness i = some w) : minBlockSizeLimit ≤ w.props.maximumBlockSize := by
  obtain ⟨v, hv, hsign⟩ := witness_before h hm hg hf hw
  have hprops : v.props = w.props := congrArg (·.2.2) hsign
  rw [← hprops]
  exact hs.votes i v hv

theorem size_of_changes (h : Obeys (changes l) s t) (hm : .made .dynamicGlobalProperty ∉ l)
    (hg : .gone .dynamicGlobalProperty ∉ l) (hf : .props .blockSize ∉ l) (hs : Sized s)
    {q : DynamicGlobalProperty} (hq : t.get Kind.dynamicGlobalProperty 0 = some q) :
    minBlockSizeLimit ≤ q.maximumBlockSize := by
  obtain ⟨p, hp, hsize⟩ := props_before h hm hg hf hq
  have hsize : p.maximumBlockSize = q.maximumBlockSize := hsize
  rw [← hsize]
  exact hs.size p hp

theorem ratio_of_changes (h : Obeys (changes l) s t) (hm : .made .dynamicGlobalProperty ∉ l)
    (hg : .gone .dynamicGlobalProperty ∉ l) (hf : .props .usage ∉ l) (hs : Sized s)
    {q : DynamicGlobalProperty} (hq : t.get Kind.dynamicGlobalProperty 0 = some q) :
    q.currentReserveRatio ≤ maxReserveRatio := by
  obtain ⟨p, hp, husage⟩ := props_before h hm hg hf hq
  have hratio : p.currentReserveRatio = q.currentReserveRatio := congrArg (·.2.1) husage
  rw [← hratio]
  exact hs.ratio p hp

/-- The parts that the sizes and the ratio are taken from. -/
def Part.sized : Part → Bool
  | .made .witness | .gone .witness | .witness .signing | .made .dynamicGlobalProperty
  | .gone .dynamicGlobalProperty | .props .blockSize | .props .usage => true
  | _ => false

theorem Sized.of_changes (h : Obeys (changes l) s t) (hl : ∀ p ∈ l, p.sized = false)
    (hs : Sized s) : Sized t := by
  have hn : ∀ {p : Part}, p.sized = true → p ∉ l := not_mem_of_false hl
  refine ⟨fun i w hw => ?_, fun q hq => ?_, fun q hq => ?_⟩
  · exact votes_of_changes h (hn rfl) (hn rfl) (hn rfl) hs hw
  · exact size_of_changes h (hn rfl) (hn rfl) (hn rfl) hs hq
  · exact ratio_of_changes h (hn rfl) (hn rfl) (hn rfl) hs hq

end

/-! ## 2. Steps -/

/-- The property of a witness that `Sized` asks for. -/
def Witness.SizeVoted (w : Witness) : Prop := minBlockSizeLimit ≤ w.props.maximumBlockSize

/-- A witness votes for a size that was validated. -/
theorem sizeVoted_witnessUpdate [Fc] {o : WitnessUpdateOp} (hv : o.validate = .ok ()) :
    Steps (Upholds (S := chainSchema) Kind.witness Witness.SizeVoted)
      (witnessUpdate o : Act n Unit) := by
  have hsize : minBlockSizeLimit ≤ o.props.maximumBlockSize := by
    unfold WitnessUpdateOp.validate at hv
    obtain ⟨_, hv⟩ := check_bind_ok.mp hv
    obtain ⟨_, hv⟩ := check_bind_ok.mp hv
    obtain ⟨_, hv⟩ := check_bind_ok.mp hv
    obtain ⟨_, _, hv⟩ := except_bind_ok.mp hv
    obtain ⟨_, hv⟩ := check_bind_ok.mp hv
    unfold ChainProperties.validate at hv
    obtain ⟨_, hv⟩ := check_bind_ok.mp hv
    obtain ⟨_, hv⟩ := check_bind_ok.mp hv
    exact (check_bind_ok.mp hv).1
  unfold witnessUpdate
  refine steps_bind (looks_getAccountId _).steps fun _ => ?_
  refine steps_bind (looks_require _ _).steps fun _ => ?_
  refine steps_bind (looks_findWitness _).steps fun r => ?_
  cases r with
  | some r => exact upholds_modify (S := chainSchema) (k := Kind.witness) fun _ _ => hsize
  | none =>
    refine steps_bind looks_headBlockTime.steps fun now => ?_
    exact steps_bind (upholds_create (S := chainSchema) (k := Kind.witness) hsize) fun _ =>
      (looks_pure ()).steps

theorem sized_witnessUpdate [Fc] {o : WitnessUpdateOp} (hv : o.validate = .ok ())
    (hs : Sized d.store) (h : (witnessUpdate o : Act n Unit).run d = .ok u d') :
    Sized d'.store := by
  have hchanges : Obeys (changes [.witness .signing, .made .witness]) d.store d'.store :=
    (composed_witnessUpdate o (List.Subset.refl _)).steps.step h
  refine ⟨(sizeVoted_witnessUpdate hv).step h hs.votes, fun q hq => ?_, fun q hq => ?_⟩
  · exact size_of_changes hchanges (by decide) (by decide) (by decide) hs hq
  · exact ratio_of_changes hchanges (by decide) (by decide) (by decide) hs hq

theorem reserveRatio_le {num ratio average max : Nat} (h : ratio ≤ maxReserveRatio) :
    reserveRatio num ratio average max ≤ maxReserveRatio := by
  unfold reserveRatio
  split
  · exact Nat.min_le_right _ _
  · exact h

/-- Missed slots take no votes away, and the new ratio is bounded. -/
theorem sized_updateGlobalDynamicData [Fc] {skip : Skip} {b : SignedBlock} (hs : Sized d.store)
    (h : (updateGlobalDynamicData skip b : Act n Unit).run d = .ok u d') : Sized d'.store := by
  obtain ⟨p, d₁, hp, hcount, _, hf, hstore⟩ := updateGlobalDynamicData_ok h
  have hmissed : ∀ i, Steps (Upholds (S := chainSchema) Kind.witness Witness.SizeVoted)
      (countMissed b i : Act n Unit) := by
    intro i
    unfold countMissed
    refine steps_bind (looks_getScheduledWitness _).steps fun name => ?_
    refine steps_bind (looks_getWitnessId _).steps fun wit => ?_
    refine steps_bind (looks_hasHardfork _).steps fun hf3 => ?_
    refine steps_bind looks_headBlockNum.steps fun num => ?_
    refine steps_ite (fun _ => ?_) fun _ => (looks_pure ()).steps
    exact upholds_modifyWith (S := chainSchema) (k := Kind.witness) fun _ _ _ hw => hw
  have hvotes := (steps_forEach hmissed).step hcount hs.votes
  have hwitness : ∀ i, d'.store.get Kind.witness i = d₁.store.get Kind.witness i := fun i => by
    rw [hstore, Store.get_write_ne _ (show Kind.witness ≠ Kind.dynamicGlobalProperty by decide)]
  have hnext : d'.store.get Kind.dynamicGlobalProperty 0 =
      some (nextProperties b (p.missedBefore b) p) := by
    rw [hstore, Store.get_write_self, if_pos rfl]
  refine ⟨fun i w hw => hvotes i w ((hwitness i).symm.trans hw), fun q hq => ?_, fun q hq => ?_⟩
  · obtain rfl := Option.some.inj (hnext.symm.trans hq)
    exact hs.size p hp
  · obtain rfl := Option.some.inj (hnext.symm.trans hq)
    exact reserveRatio_le (hs.ratio p hp)

/-- The size of a block is one that a scheduled witness votes for. -/
theorem updateMedianWitnessProps_size
    (h : (updateMedianWitnessProps : Act n Unit).run d = .ok u d') :
    ∃ (i : Nat) (w : Witness) (q : DynamicGlobalProperty),
      d'.store.get Kind.witness i = some w ∧
      d'.store.get Kind.dynamicGlobalProperty 0 = some q ∧
      q.maximumBlockSize = w.props.maximumBlockSize := by
  unfold updateMedianWitnessProps at h
  obtain ⟨o, ho, h1⟩ := Action.bind_get_ok.mp h
  obtain ⟨active, d₁, hactive, h2⟩ := Action.bind_ok.mp h1
  obtain ⟨rfl, ws, hws, rfl⟩ := collectWitnesses_ok (f := id) hactive
  obtain ⟨fee, _, h3⟩ := Action.bind_lift_ok.mp h2
  obtain ⟨spFee, _, h4⟩ := Action.bind_lift_ok.mp h3
  obtain ⟨_, d₂, hmodify, h5⟩ := Action.bind_ok.mp h4
  obtain ⟨size, hsize, h6⟩ := Action.bind_lift_ok.mp h5
  obtain ⟨rate, _, h7⟩ := Action.bind_lift_ok.mp h6
  obtain ⟨_, _, hf, e⟩ := modify_store hmodify
  obtain ⟨p, _, _, _, hf', e'⟩ := modifyWith_store h7
  have hmem : size ∈ ws := by simpa using medianWitness_ok hsize
  obtain ⟨name, _, i, hi, _⟩ := exists_name hws hmem
  refine ⟨i, size, _, ?_, by rw [e', Store.get_write_self, if_pos rfl], rfl⟩
  rw [e', Store.get_write_ne _ (show Kind.witness ≠ Kind.dynamicGlobalProperty by decide), e,
    Store.get_write_ne _ (show Kind.witness ≠ Kind.witnessSchedule by decide)]
  exact hi

theorem sized_updateWitnessSchedule (hs : Sized d.store)
    (h : (updateWitnessSchedule : Act n Unit).run d = .ok u d') : Sized d'.store := by
  have hchanges : Obeys (changes scheduleParts) d.store d'.store :=
    (composed_updateWitnessSchedule (List.Subset.refl _)).steps.step h
  have hvotes : ∀ i (w : Witness), d'.store.get Kind.witness i = some w →
      minBlockSizeLimit ≤ w.props.maximumBlockSize :=
    fun i w => votes_of_changes hchanges (by decide) (by decide) (by decide) hs
  obtain ⟨_, _, ⟨_, rfl⟩ | ⟨_, hupdate⟩⟩ := witnessSchedule_ok h
  · exact hs
  · obtain ⟨_, _, _, _, _, _, _, _, _, hparts⟩ := updateWitnessSchedule4_ok hupdate
    obtain ⟨i, w, q, hw, hq, hsize⟩ := updateMedianWitnessProps_size hparts.median
    refine ⟨hvotes, fun q' hq' => ?_, fun q' hq' => ?_⟩
    · obtain rfl := Option.some.inj (hq.symm.trans hq')
      rw [hsize]
      exact hvotes i w hw
    · exact ratio_of_changes hchanges (by decide) (by decide) (by decide) hs hq'

theorem ChainStep.sized [Fc] {ok : Store chainSchema → Operation → Prop} {s t : Store chainSchema}
    (h : ChainStep ok s t) (hs : Sized s) : Sized t := by
  cases h with
  | @operation d d' u clock n push op hv ha _ hr =>
    have hchanges := (composed_evaluate clock push ha).steps.step hr
    cases op with
    | proposalUpdate o => cases ha
    | witnessUpdate o => exact sized_witnessUpdate hv hs hr
    | _ => exact hs.of_changes hchanges (by simp +decide [Operation.parts])
  | @routine d d' u n r hr =>
    have hchanges := (Routine.composed_act r).steps.step hr
    cases r with
    | globalDynamicData skip b => exact sized_updateGlobalDynamicData hs hr
    | witnessSchedule => exact sized_updateWitnessSchedule hs hr
    | _ => exact hs.of_changes hchanges (by simp +decide [Routine.parts])

theorem sized_genesis [Fc] {g : GenesisState} {u : Unit} {d : Database chainSchema}
    (h : (initGenesis g).run emptyDatabase = .ok u d) : Sized d.store := by
  obtain ⟨⟨miner, hminer, hwitness⟩, hothers⟩ := genesis_initMiner h
  obtain ⟨p, hp, hprops⟩ := genesis_properties h
  have hsign := Or.resolve_left (hwitness .signing) (by decide)
  have hsize := Or.resolve_left (hprops .blockSize) (by decide)
  have husage := Or.resolve_left (hprops .usage) (by decide)
  simp only [Witness.view, DynamicGlobalProperty.view, Prod.mk.injEq] at hsign hsize husage
  refine ⟨fun i w hw => ?_, fun q hq => ?_, fun q hq => ?_⟩
  · by_cases hi : i = 0
    · subst hi
      obtain rfl := Option.some.inj (hminer.symm.trans hw)
      rw [← hsign.2.2]
      decide
    · exact nomatch (hothers i hi).symm.trans hw
  · obtain rfl := Option.some.inj (hp.symm.trans hq)
    rw [← hsize]
    decide
  · obtain rfl := Option.some.inj (hp.symm.trans hq)
    rw [← husage.2.1]
    decide

/-- **The sizes and the ratio stay within their limits.** -/
theorem Reached.sized [Fc] {ok : Store chainSchema → Operation → Prop} {g : GenesisState}
    {s : Store chainSchema} (h : Reached ok g s) : Sized s :=
  h.invariant sized_genesis fun hst => hst.sized

/-! ## 3. The virtual bandwidth -/

/-- The virtual bandwidth is what the integers give, and positive. -/
def DynamicGlobalProperty.ExactBandwidth (q : DynamicGlobalProperty) : Prop :=
  q.maxVirtualBandwidth = q.maximumBlockSize * q.currentReserveRatio * bandwidthPrecision *
    bandwidthAverageWindowSeconds / blockInterval ∧ 0 < q.maxVirtualBandwidth

/-- The ratio is positive and the product fits into 64 bits. -/
def Room (size ratio : Nat) : Prop :=
  0 < ratio ∧ size * ratio * bandwidthPrecision * bandwidthAverageWindowSeconds < 2 ^ 64

/-- The blocks use more than a quarter of their size on average, this one included. -/
def Crowded [Fc] (b : SignedBlock) (p : DynamicGlobalProperty) : Prop :=
  p.maximumBlockSize / 4 < u32 ((u32 (99 * p.averageBlockSize) + Fc.blockPackSize b) / 100)

/-- What the properties before a block leave room for: the ratio is halved where the blocks are
crowded and raised by one where they are not, every 20 blocks. -/
def Roomy [Fc] (b : SignedBlock) (p : DynamicGlobalProperty) : Prop :=
  (b.blockNum % 20 ≠ 0 → Room p.maximumBlockSize p.currentReserveRatio) ∧
  (b.blockNum % 20 = 0 → Crowded b p → Room p.maximumBlockSize (p.currentReserveRatio / 2)) ∧
  (b.blockNum % 20 = 0 → ¬Crowded b p →
    Room p.maximumBlockSize (min (p.currentReserveRatio + 1) maxReserveRatio))

/-- **The product in 64 bits.** -/
theorem room_iff {size ratio : Nat} (hsize : 0 < size) :
    (u64 (u64 (u64 (size * ratio) * bandwidthPrecision) * bandwidthAverageWindowSeconds) /
        blockInterval =
      size * ratio * bandwidthPrecision * bandwidthAverageWindowSeconds / blockInterval ∧
      0 < u64 (u64 (u64 (size * ratio) * bandwidthPrecision) * bandwidthAverageWindowSeconds) /
        blockInterval) ↔ Room size ratio := by
  unfold Room bandwidthPrecision bandwidthAverageWindowSeconds blockInterval
  constructor
  · rintro ⟨hexact, hpos⟩
    refine ⟨Nat.pos_of_ne_zero fun hzero => ?_, ?_⟩
    · rw [hexact, hzero] at hpos
      simp at hpos
    · -- the product is a multiple of the block interval
      rw [hexact] at hpos
      generalize size * ratio = product at hexact
      have hbound : u64 (u64 (u64 product * 1000000) * 604800) < 2 ^ 64 :=
        Nat.mod_lt _ (by decide)
      omega
  · rintro ⟨hratio, hfits⟩
    have hpos : 0 < size * ratio := Nat.mul_pos hsize hratio
    generalize size * ratio = product at hfits hpos
    have hsecond : product * 1000000 < 2 ^ 64 :=
      Nat.lt_of_le_of_lt (Nat.le_mul_of_pos_right _ (by decide)) hfits
    have hfirst : product < 2 ^ 64 :=
      Nat.lt_of_le_of_lt (Nat.le_mul_of_pos_right _ (by decide)) hsecond
    rw [u64_of_lt hfirst, u64_of_lt hsecond, u64_of_lt hfits]
    refine ⟨rfl, Nat.div_pos ?_ (by decide)⟩
    calc 3 ≤ 1 * 1000000 * 604800 := by decide
      _ ≤ product * 1000000 * 604800 :=
        Nat.mul_le_mul_right _ (Nat.mul_le_mul_right _ hpos)

/-- The new ratio, by cases. -/
theorem room_reserveRatio_iff [Fc] {b : SignedBlock} {p : DynamicGlobalProperty}
    (hratio : p.currentReserveRatio ≤ maxReserveRatio) :
    Room p.maximumBlockSize (reserveRatio b.blockNum p.currentReserveRatio
      (u32 ((u32 (99 * p.averageBlockSize) + Fc.blockPackSize b) / 100)) p.maximumBlockSize) ↔
      Roomy b p := by
  unfold reserveRatio Roomy Crowded
  by_cases hturn : b.blockNum % 20 = 0
  · by_cases hcrowded : p.maximumBlockSize / 4 <
        u32 ((u32 (99 * p.averageBlockSize) + Fc.blockPackSize b) / 100)
    · have hhalf : min (p.currentReserveRatio / 2) maxReserveRatio = p.currentReserveRatio / 2 :=
        Nat.min_eq_left (by omega)
      simp [hturn, hcrowded, hhalf]
    · have hnext : u64 (p.currentReserveRatio + 1) = p.currentReserveRatio + 1 :=
        u64_of_lt (by unfold maxReserveRatio at hratio; omega)
      simp [hturn, hcrowded, hnext]
  · simp [hturn]

/-- **The virtual bandwidth is exact where there is room.** -/
theorem virtual_bandwidth_exact_iff [Fc] {g : GenesisState} {skip : Skip} {b : SignedBlock}
    (h : Reached (fun _ _ => True) g d.store)
    (hr : (updateGlobalDynamicData skip b : Act n Unit).run d = .ok u d') :
    ∃ p q : DynamicGlobalProperty, d.store.get Kind.dynamicGlobalProperty 0 = some p ∧
      d'.store.get Kind.dynamicGlobalProperty 0 = some q ∧ (q.ExactBandwidth ↔ Roomy b p) := by
  obtain ⟨p, d₁, hp, _, _, hf, hstore⟩ := updateGlobalDynamicData_ok hr
  refine ⟨p, nextProperties b (p.missedBefore b) p, hp, ?_, ?_⟩
  · rw [hstore, Store.get_write_self, if_pos rfl]
  · have hsize : 0 < p.maximumBlockSize :=
      Nat.lt_of_lt_of_le (by decide) (h.sized.size p hp)
    exact (room_iff hsize).trans (room_reserveRatio_iff (h.sized.ratio p hp))

section

attribute [local instance] sampleFc

/-- The first block of the sample genesis. -/
def firstUpdate : Outcome chainSchema Unit :=
  (updateGlobalDynamicData {} (slotBlock (genesisTime + 3)) : Act 0 Unit).run slotStart

/-- The first block after an update of the schedule. -/
def scheduledStart : Database chainSchema :=
  ((updateWitnessSchedule : Act 0 Unit).run slotStart).db

def scheduledUpdate : Outcome chainSchema Unit :=
  (updateGlobalDynamicData {} (slotBlock (genesisTime + 3)) : Act 0 Unit).run scheduledStart

def bandwidthOf (d : Database chainSchema) : Option (Nat × Nat × Nat) :=
  (d.store.get Kind.dynamicGlobalProperty 0).map fun p : DynamicGlobalProperty =>
    (p.maximumBlockSize, p.currentReserveRatio, p.maxVirtualBandwidth)

/-- The virtual bandwidths after each, as the code computes them. -/
theorem bandwidths_run :
    (firstUpdate.isOk = true ∧
      bandwidthOf firstUpdate.db = some (393216000, 1, 5485369305161793536)) ∧
    ((updateWitnessSchedule : Act 0 Unit).run slotStart).isOk = true ∧
    scheduledUpdate.isOk = true ∧
      bandwidthOf scheduledUpdate.db = some (131072, 1, 26424115200000000) := by
  decide +kernel

theorem reached_slotStart {ok : Store chainSchema → Operation → Prop} :
    Reached ok sampleGenesis slotStart.store := ⟨(), slotStart, slotStart_genesis, .refl⟩

/-- **The product of the first block wraps**: the size of the genesis is 393216000. -/
theorem virtual_bandwidth_wraps :
    Reached (fun _ _ => True) sampleGenesis slotStart.store ∧
    ∃ (d' : Database chainSchema) (q : DynamicGlobalProperty),
      (updateGlobalDynamicData {} (slotBlock (genesisTime + 3)) : Act 0 Unit).run slotStart =
        .ok () d' ∧
      d'.store.get Kind.dynamicGlobalProperty 0 = some q ∧ ¬q.ExactBandwidth := by
  obtain ⟨⟨hok, hvalues⟩, _⟩ := bandwidths_run
  obtain ⟨_, hr⟩ := Outcome.exists_of_isOk hok
  obtain ⟨q, hq, hvalue⟩ := Option.map_eq_some_iff.mp hvalues
  obtain ⟨hsize, hrest⟩ := Prod.mk.inj hvalue
  obtain ⟨hratio, hbandwidth⟩ := Prod.mk.inj hrest
  refine ⟨reached_slotStart, _, q, hr, hq, fun hexact => ?_⟩
  have hvalue := hexact.1
  rw [hsize, hratio, hbandwidth] at hvalue
  exact absurd hvalue (by decide)

/-- After an update of the schedule the size is the default vote of the init miner. -/
theorem virtual_bandwidth_exact_iff_scheduled :
    ∃ (d' : Database chainSchema) (p q : DynamicGlobalProperty),
      scheduledStart.store.get Kind.dynamicGlobalProperty 0 = some p ∧
      d'.store.get Kind.dynamicGlobalProperty 0 = some q ∧
      (q.ExactBandwidth ↔ Roomy (slotBlock (genesisTime + 3)) p) ∧ q.ExactBandwidth := by
  obtain ⟨_, hscheduled, hok, hvalues⟩ := bandwidths_run
  obtain ⟨_, hr⟩ := Outcome.exists_of_isOk hok
  obtain ⟨_, hs⟩ := Outcome.exists_of_isOk hscheduled
  obtain ⟨q, hq, hvalue⟩ := Option.map_eq_some_iff.mp hvalues
  obtain ⟨hsize, hrest⟩ := Prod.mk.inj hvalue
  obtain ⟨hratio, hbandwidth⟩ := Prod.mk.inj hrest
  obtain ⟨u, d, hg, hrun⟩ := @reached_slotStart fun _ _ => True
  have hreached : Reached (fun _ _ => True) sampleGenesis scheduledStart.store :=
    ⟨u, d, hg, hrun.tail (.routine 0 .witnessSchedule hs)⟩
  obtain ⟨p, q', hp, hq', hiff⟩ := virtual_bandwidth_exact_iff hreached hr
  obtain rfl : q' = q := Option.some.inj (hq'.symm.trans hq)
  refine ⟨_, p, q', hp, hq, hiff, ?_⟩
  unfold DynamicGlobalProperty.ExactBandwidth
  rw [hsize, hratio, hbandwidth]
  decide

end

end MuseChain
