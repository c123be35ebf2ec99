/-
  File:      MuseChain/Safety/References.lean
  Subject:   The block that a transaction refers to.

  * `referredId bs ref`: the last block of a chain whose number has the lower bits `ref`.
  * `Indexed bs s`: after the blocks `bs` the block summaries hold these ids, and the numbers and
    ids of the blocks are those of a chain.
  * `reference_names_block`: a transaction of a later block than the first names one of the 65536
    blocks before its own.
  * `reference_pins_history`: so a transaction that is in two chains was put into both after the
    same block, and all blocks up to that one are the same in both.
-/
import MuseChain.Lib.HashChains
import MuseChain.Safety.Replays

namespace MuseChain

variable {n : Nat}

/-! ## 1. What keeps the summaries -/

/-- Everything but the block summaries may change. -/
def summaryLicence : Licence chainSchema where
  create k _ := k ≠ .blockSummary
  modify k _ _ _ := k ≠ .blockSummary
  remove k _ _ := k ≠ .blockSummary
  spoil k := k ≠ .blockSummary

def summaryLaw : Law chainSchema where
  rel
    | .blockSummary => fun o q => o = q
    | _ => fun _ _ => True
  refl := by
    intro k o
    cases k with
    | blockSummary => rfl
    | _ => trivial
  trans := by
    intro k o p q h h'
    cases k with
    | blockSummary => exact h.trans h'
    | _ => trivial

theorem summaryLicence_respects : summaryLicence.Respects summaryLaw.idLaw where
  create {k i a} h := by
    cases k with
    | blockSummary => exact absurd rfl h
    | _ => trivial
  modify {k i a b} h := by
    cases k with
    | blockSummary => exact absurd rfl h
    | _ => trivial
  remove {k i a} h := by
    cases k with
    | blockSummary => exact absurd rfl h
    | _ => trivial
  spoil {k i} h a := by
    cases k with
    | blockSummary => exact absurd rfl h
    | _ => trivial

theorem summaryLaw_reversible (s : Store chainSchema) : Reversible summaryLaw.idLaw s := by
  intro k i o h
  cases k with
  | blockSummary => exact h.symm
  | _ => trivial

theorem opLicence_le_summary {ok : Operation → Prop} : (opLicence ok).Le summaryLicence where
  create {k a} h := by
    rintro rfl
    cases h
  modify {k i a b} h := by
    rintro rfl
    cases h
  remove {k i a} h := by
    rintro rfl
    cases h
  spoil {k} h := by
    rintro rfl
    cases h

/-- The same block summaries. -/
def SameSummaries (s t : Store chainSchema) : Prop :=
  ∀ i, t.get Kind.blockSummary i = s.get Kind.blockSummary i

instance : IsPreorder (Store chainSchema) SameSummaries where
  refl _ _ := rfl
  trans _ _ _ h h' i := (h' i).trans (h i)

/-- Whether the program returns or throws. -/
theorem Within.sameSummaries {α : Type} {x : Act n α} (h : Within summaryLicence x)
    (d : Database chainSchema) : SameSummaries d.store (x.run d).db.store := fun i =>
  (h.obeys summaryLicence_respects (summaryLaw_reversible d.store) Kind.blockSummary i).symm

theorem Within.sameSummaries_ok {α : Type} {x : Act n α} (h : Within summaryLicence x)
    {d d' : Database chainSchema} {a : α} (hr : x.run d = .ok a d') :
    SameSummaries d.store d'.store := by
  have hs := h.sameSummaries d
  rw [hr] at hs
  exact hs

theorem within_summary {α : Type} {x : Act n α} (h : Within (opLicence fun _ => True) x) :
    Within summaryLicence x := h.mono opLicence_le_summary

theorem within_summary_dgp {β : Type} {f : DynamicGlobalProperty → Except Exn β}
    {upd : DynamicGlobalProperty → β → DynamicGlobalProperty} :
    Within summaryLicence (modifyDgp f upd : Act n Unit) :=
  within_modifyWith (.inr rfl) (.inl (.inr rfl)) fun _ _ _ => by simp [summaryLicence]

section

variable [Fc]

theorem within_summary_applyTransaction (clock : Nat) (skip : Skip) (trx : Transaction) :
    Within summaryLicence (applyTransaction clock skip n trx) := by
  have hc := clockFree_same clock
  have hop : ∀ op, Within summaryLicence (applyOperation clock n op) := fun op =>
    within_summary ⟨fun d => (agree_applyOperation hc trivial).acts d fun _ _ _ _ _ => trivial⟩
  have hops : Within summaryLicence
      (Action.forEach trx.operations fun op => applyOperation clock n op) := within_forEach hop
  have hbandwidth : Within summaryLicence (chargeBandwidth trx : Act n Unit) :=
    within_summary (within_chargeBandwidth trx)
  unfold applyTransaction
  repeat' first
    | with_reducible apply within_bind | with_reducible apply within_ite | intro _
    | exact hops | exact hbandwidth | exact within_create (by simp [summaryLicence]) | simp

/-! ## 2. The two halves of a block -/

/-- The first half of a block: what was tested, and the four steps that write. -/
theorem applyBlockFirst_ok {clock : Nat} {skip : Skip} {b : SignedBlock}
    {d d' : Database chainSchema} {wit : Nat}
    (h : (applyBlockFirst clock skip n b).run d = .ok wit d') :
    (validateBlockHeader skip b : Act n Nat).run d = .ok wit d ∧
      ∃ (d₁ d₂ d₃ : Database chainSchema),
        (modifyDgp (fun _ => .ok ()) (fun p _ => { p with currentWitness := b.witness }) :
          Act n Unit).run d = .ok () d₁ ∧
        (processHeaderExtensions b : Act n Unit).run d₁ = .ok () d₂ ∧
        (Action.forEach b.transactions fun trx => applyTransaction clock skip n trx).run d₂ =
          .ok () d₃ ∧
        (updateGlobalDynamicData skip b : Act n Unit).run d₃ = .ok () d' := by
  unfold applyBlockFirst at h
  obtain ⟨_, e1, hmerkle, h1⟩ := Action.bind_ok.mp h
  obtain ⟨wit', e2, hheader, h2⟩ := Action.bind_ok.mp h1
  obtain ⟨_, e3, hprops, h3⟩ := Action.bind_ok.mp h2
  obtain ⟨_, e4, hsize, h4⟩ := Action.bind_ok.mp h3
  obtain ⟨_, d₁, hwitness, h5⟩ := Action.bind_ok.mp h4
  obtain ⟨_, d₂, hext, h6⟩ := Action.bind_ok.mp h5
  obtain ⟨_, e5, hw, h7⟩ := Action.bind_ok.mp h6
  obtain ⟨_, e6, hh, h8⟩ := Action.bind_ok.mp h7
  obtain ⟨_, e7, hversion, h9⟩ := Action.bind_ok.mp h8
  obtain ⟨_, d₃, happly, h10⟩ := Action.bind_ok.mp h9
  obtain ⟨_, d₄, hupdate, hpure⟩ := Action.bind_ok.mp h10
  cases hpure
  have hd1 : e1 = d := Looks.of_ok (by simp) hmerkle
  have hd2 : e2 = e1 := Looks.of_ok (by simp) hheader
  have hd3 : e3 = e2 := Looks.of_ok (by simp) hprops
  have hd4 : e4 = e3 := Looks.of_ok (by simp) hsize
  have hd5 : e5 = d₂ := Looks.of_ok (by simp) hw
  have hd6 : e6 = e5 := Looks.of_ok (by simp) hh
  have hd7 : e7 = e6 := Looks.of_ok (by simp) hversion
  subst hd7 hd6 hd5 hd4 hd3 hd2 hd1
  exact ⟨hheader, d₁, _, d₃, hwitness, hext, happly, hupdate⟩

/-- A block that is applied in its session runs through both halves. -/
theorem applyInSession_halves {clock depth : Nat} {m m' : Node} {b : SignedBlock} {id : BlockId}
    {u : Unit} (h : Node.applyInSession clock depth {} m b id = .ok u m')
    (hcp : m.checkpoints = []) :
    ∃ (d d₁ d₂ : Database chainSchema) (wit size : Nat), d.store = m.db.store ∧
      (applyBlockFirst clock {} depth b).run d = .ok wit d₁ ∧
      (applyBlockRest clock depth wit b).run { d₁ with maxSize := size } = .ok () d₂ ∧
      m'.db.store = d₂.store := by
  obtain ⟨skip, wit, d₁, d₂, hskip, hfirst, hrest, rfl⟩ := Node.applyInSession_ok h
  obtain rfl : skip = {} :=
    Except.ok.inj (hskip.symm.trans (Node.checkpointSkip_of_nil {} b hcp))
  exact ⟨_, d₁, d₂, wit, _, startUndoSession_store m.db false, hfirst, hrest, rfl⟩

theorem sameSummaries_applyBlockFirst {clock : Nat} {skip : Skip} {b : SignedBlock}
    {d d' : Database chainSchema} {wit : Nat}
    (h : (applyBlockFirst clock skip n b).run d = .ok wit d') :
    SameSummaries d.store d'.store := by
  obtain ⟨_, d₁, d₂, d₃, h1, h2, h3, h4⟩ := applyBlockFirst_ok h
  have hupdate : Within summaryLicence (updateGlobalDynamicData skip b : Act n Unit) := by
    have hmissed : ∀ i, Within summaryLicence (countMissed b i : Act n Unit) :=
      fun i => within_summary (within_countMissed b i)
    unfold updateGlobalDynamicData
    repeat' first
      | with_reducible apply within_bind | with_reducible apply within_ite | intro _
      | simp [hmissed] | exact within_summary_dgp
  refine trans_of SameSummaries (within_summary_dgp.sameSummaries_ok h1) ?_
  refine trans_of SameSummaries
    ((within_summary (within_processHeaderExtensions b)).sameSummaries_ok h2) ?_
  exact trans_of SameSummaries
    ((within_forEach fun trx => within_summary_applyTransaction clock skip trx).sameSummaries_ok h3)
    (hupdate.sameSummaries_ok h4)

/-- The second half of a block enters the block into the summaries. -/
theorem applyBlockRest_summary {clock wit : Nat} {b : SignedBlock} {d d' : Database chainSchema}
    {u : Unit} (h : (applyBlockRest clock n wit b).run d = .ok u d') (i : Nat) :
    d'.store.get Kind.blockSummary i = if i = b.blockNum % 65536 then
      some (⟨b.toSignedBlockHeader.id⟩ : BlockSummary) else d.store.get Kind.blockSummary i := by
  have hc := clockFree_same clock
  unfold applyBlockRest at h
  obtain ⟨_, d₁, h1, hrest⟩ := Action.bind_ok.mp h
  obtain ⟨_, d₂, h2, hrest⟩ := Action.bind_ok.mp hrest
  obtain ⟨_, d₃, h3, hrest⟩ := Action.bind_ok.mp hrest
  have hsigning : Within summaryLicence (updateSigningWitness wit b : Act n Unit) :=
    within_updateSigningWitness (by simp [summaryLicence]) (fun _ _ _ => by simp [summaryLicence])
      wit b
  have hlib : Within summaryLicence (updateLastIrreversibleBlock : Act n Unit) :=
    within_updateLastIrreversibleBlock fun _ => within_summary_dgp
  have hproposals : Within (opLicence fun _ => True) (clearExpiredProposals clock n) :=
    ⟨fun d => (agree_clearExpiredProposals (opLicence_keeps _) (agree_pushProposal hc n)).acts d
      fun _ _ _ _ _ => trivial⟩
  have htransactions : Within summaryLicence (clearExpiredTransactions : Act n Unit) :=
    within_bind (by simp) fun now => within_bind (looks_read _).within fun due =>
      within_forEach fun t => within_remove fun _ => by simp [summaryLicence]
  have hafter : SameSummaries d₃.store d'.store := by
    refine Within.sameSummaries_ok (within_bind htransactions fun _ => within_summary ?_) hrest
    refine within_bind hproposals fun _ => within_bind within_clearExpiredOrders fun _ =>
      within_bind within_updateWitnessSchedule fun _ => within_bind within_updateMedianFeed
      fun _ => ?_
    refine within_bind within_updateVirtualSupply fun _ => within_bind within_payBlock fun _ => ?_
    exact within_bind within_updateVirtualSupply fun _ => within_bind
      within_accountRecoveryProcessing fun _ => within_processHardforks
  have hbefore : SameSummaries d.store d₂.store :=
    trans_of SameSummaries (hsigning.sameSummaries_ok h1) (hlib.sameSummaries_ok h2)
  obtain ⟨o, ho, hfree, hstore⟩ := modify_store h3
  rw [hafter i, hstore, Store.get_write_self, hbefore i]

/-! ## 3. What the summaries hold -/

/-- The headers of the blocks. -/
def headersOf (bs : List SignedBlock) : List SignedBlockHeader :=
  bs.map fun b => b.toSignedBlockHeader

/-- The id of the last block whose number has the lower bits `ref`. -/
def referredId (bs : List SignedBlock) (ref : Nat) : BlockId :=
  ((bs.filter fun b => decide (b.blockNum % 65536 = ref)).getLast?.map
    fun b => b.toSignedBlockHeader.id).getD ⟨0, 0⟩

theorem referredId_snoc (bs : List SignedBlock) (b : SignedBlock) (ref : Nat) :
    referredId (bs ++ [b]) ref =
      if b.blockNum % 65536 = ref then b.toSignedBlockHeader.id else referredId bs ref := by
  unfold referredId
  rw [List.filter_append]
  by_cases h : b.blockNum % 65536 = ref
  · simp [h]
  · simp [h]

/-- The blocks are numbered from 1 on. -/
def Consecutive (bs : List SignedBlock) : Prop := ∀ k b, bs[k]? = some b → b.blockNum = k + 1

omit [Fc] in
theorem Consecutive.snoc {bs : List SignedBlock} {b : SignedBlock} (h : Consecutive bs)
    (hb : b.blockNum = bs.length + 1) : Consecutive (bs ++ [b]) := by
  intro k c hc
  have hk := (List.getElem?_eq_some_iff.mp hc).1
  rw [List.length_append, List.length_singleton] at hk
  obtain hlt | hend := Nat.lt_or_ge k bs.length
  · exact h k c (List.getElem?_append_left hlt ▸ hc)
  · obtain rfl : k = bs.length := by omega
    rw [List.getElem?_concat_length] at hc
    cases hc
    exact hb

omit [Fc] in
theorem Consecutive.left {bs : List SignedBlock} {b : SignedBlock} (h : Consecutive (bs ++ [b])) :
    Consecutive bs := fun k c hc =>
  h k c ((List.getElem?_append_left (List.getElem?_eq_some_iff.mp hc).1).trans hc)

/-- **A summary that holds a block holds one of the last 65536.** -/
theorem referredId_cases {bs : List SignedBlock} (h : Consecutive bs) (ref : Nat) :
    referredId bs ref = ⟨0, 0⟩ ∨ ∃ k b, bs[k]? = some b ∧ (k + 1) % 65536 = ref ∧
      bs.length ≤ k + 65536 ∧ referredId bs ref = b.toSignedBlockHeader.id := by
  induction bs using List.reverseRecOn with
  | nil => exact .inl rfl
  | append_singleton bs b ih =>
    have hb : b.blockNum = bs.length + 1 := h _ b List.getElem?_concat_length
    rw [referredId_snoc, List.length_append, List.length_singleton]
    by_cases hnum : b.blockNum % 65536 = ref
    · rw [if_pos hnum]
      exact .inr ⟨bs.length, b, List.getElem?_concat_length, hb ▸ hnum, by omega, rfl⟩
    · rw [if_neg hnum]
      rcases ih h.left with hzero | ⟨k, c, hc, hk, hlen, hid⟩
      · exact .inl hzero
      · have hlt := (List.getElem?_eq_some_iff.mp hc).1
        exact .inr ⟨k, c, (List.getElem?_append_left hlt).trans hc, hk, by omega, hid⟩

/-- The objects after the blocks `bs`: the numbers and ids fit together, and the summaries hold the
last blocks. -/
structure Indexed (bs : List SignedBlock) (s : Store chainSchema) : Prop where
  numbered : Numbered s
  number : s.props.headBlockNumber = bs.length
  head : s.props.headBlockId = HashChains.lastId SignedBlockHeader.id ⟨0, 0⟩ (headersOf bs)
  linked : HashChains.IsChain SignedBlockHeader.id (fun b => b.previous) ⟨0, 0⟩ (headersOf bs)
  inOrder : Consecutive bs
  summary : ∀ i, s.get Kind.blockSummary i =
    if i < 65536 then some (⟨referredId bs i⟩ : BlockSummary) else none

/-- **A block enters itself.** -/
theorem Indexed.applyInSession {clock depth : Nat} {m m' : Node} {b : SignedBlock} {id : BlockId}
    {bs : List SignedBlock} {u : Unit} (hs : Indexed bs m.db.store)
    (h : Node.applyInSession clock depth {} m b id = .ok u m') (hcp : m.checkpoints = [])
    (hb : b.timestamp < 2 ^ 32) : Indexed (bs ++ [b]) m'.db.store := by
  obtain ⟨d, d₁, d₂, wit, size, hstore, hfirst, hrest, hend⟩ := applyInSession_halves h hcp
  rw [← hstore] at hs
  have hsize : ({ d₁ with maxSize := size } : Database chainSchema).store = d₁.store := rfl
  have hext := extends_of_halves hfirst hsize hrest hs.numbered hb
  have hnum : b.blockNum = bs.length + 1 := hext.number.trans (congrArg (· + 1) hs.number)
  have hheaders : headersOf (bs ++ [b]) = headersOf bs ++ [b.toSignedBlockHeader] := by
    simp [headersOf]
  rw [hend]
  refine ⟨hext.numbered, ?_, ?_, ?_, hs.inOrder.snoc hnum, fun i => ?_⟩
  · rw [hext.headNumber, hnum, List.length_append, List.length_singleton]
  · rw [hheaders, HashChains.lastId_snoc]
    exact hext.headId
  · rw [hheaders]
    exact hs.linked.snoc (hext.previous.symm.trans hs.head)
  · have hlow : b.blockNum % 65536 < 65536 := Nat.mod_lt _ (by decide)
    rw [applyBlockRest_summary hrest i, sameSummaries_applyBlockFirst hfirst i, hs.summary i,
      referredId_snoc]
    by_cases hi : i = b.blockNum % 65536
    · rw [if_pos hi, if_pos (hi ▸ hlow), if_pos hi.symm]
    · rw [if_neg hi, if_neg (Ne.symm hi)]

/-- Nothing was entered at the genesis. -/
theorem genesis_indexed (g : GenesisState) : Indexed [] (Node.genesis g).db.store := by
  obtain ⟨_, hhead, _, _⟩ := genesis_start g
  have hgenesis : Within summaryLicence (initGenesis g) := by
    have hcreate : ∀ {k : Kind} {a : k.Object}, k ≠ .blockSummary →
        Within summaryLicence (Action.create (S := chainSchema) k a : Act 0 Nat) :=
      fun hk => within_create hk
    have haccounts : Within summaryLicence (initAccounts g) := by
      unfold initAccounts
      repeat' first
        | with_reducible apply within_bind | intro _ | exact hcreate (by decide)
      simp
    have hglobals : Within summaryLicence (initGlobals g) := by
      unfold initGlobals
      repeat' first | with_reducible apply within_bind | intro _ | exact hcreate (by decide)
      simp
    unfold initGenesis
    refine within_bind haccounts fun _ => within_bind hglobals fun _ => ?_
    have himport : ∀ a, Within summaryLicence (importAccount a) := fun a => by
      unfold importAccount
      exact within_summary (within_accountCreate _)
    refine within_bind (within_forEach himport) fun _ => ?_
    refine within_bind (within_forEach fun a => within_bind (by simp) fun _ =>
      within_bind (hcreate (by decide)) fun _ => by simp) fun _ => ?_
    refine within_bind (within_forEach fun b => ?_) fun _ => within_forEach fun v => ?_
    · exact within_bind (hcreate (by decide)) fun _ => within_bind within_summary_dgp
        fun _ => within_summary (within_changeAssetSupply _ _)
    · refine within_bind (by simp) fun _ => within_bind ?_ fun _ => within_summary_dgp
      exact within_modifyWith (.inl (by simp [summaryLicence]))
        (.inl (.inl (by simp [summaryLicence]))) fun _ _ _ => by simp [summaryLicence]
  have hsummary := hgenesis.sameSummaries emptyDatabase
  have hnumbered := genesis_numbered g
  rw [Node.genesis_store] at hhead hnumbered ⊢
  generalize ((initGenesis g).run emptyDatabase).db.store = s at hhead hnumbered hsummary ⊢
  refine ⟨hnumbered, congrArg Head.number hhead, congrArg Head.id hhead,
    HashChains.isChain_nil, ?_, fun i => (hsummary i).trans FMap.get_const⟩
  intro k b hb
  cases hb

theorem Node.Chain.indexed {g : GenesisState} {bs : List SignedBlock} {m : Node}
    (h : Node.Chain (Node.genesis g) bs m) (hb : ∀ b ∈ bs, b.timestamp < 2 ^ 32) :
    Indexed bs m.db.store := by
  induction h with
  | nil => exact genesis_indexed g
  | snoc _ _ _ hstore hcp happly ih =>
    have hs := ih fun c hc => hb c (List.mem_append_left _ hc)
    rw [← hstore] at hs
    exact hs.applyInSession happly hcp (hb _ (by simp))

/-! ## 4. References -/

/-- The summary that the transaction names has its prefix. -/
def Refers (trx : Transaction) (s : Store chainSchema) : Prop :=
  ∃ o : BlockSummary, s.get Kind.blockSummary trx.refBlockNum = some o ∧
    trx.refBlockPrefix = Fc.idPrefix o.blockId

theorem checkReference_refers {trx : Transaction} {d d' : Database chainSchema} {u : Unit}
    (h : (checkReference {} trx : Act n Unit).run d = .ok u d')
    (hpos : 0 < d.store.props.headBlockNumber) : Refers trx d.store := by
  unfold checkReference at h
  obtain ⟨p, d₁, hp, h1⟩ := Action.bind_ok.mp h
  obtain ⟨hp, rfl⟩ := Action.get_ok.mp hp
  rw [Store.props_of_get hp] at hpos
  simp only [hpos, if_true, Bool.false_eq_true, if_false] at h1
  obtain ⟨o, ho, h2⟩ := bind_getObject_ok.mp h1
  obtain ⟨_, d₂, hprefix, _⟩ := Action.bind_ok.mp h2
  exact ⟨o, ho, (Action.require_ok.mp hprefix).1⟩

theorem applyTransaction_refers {clock : Nat} {trx : Transaction} {d d' : Database chainSchema}
    {u : Unit} (h : (applyTransaction clock {} n trx).run d = .ok u d')
    (hpos : 0 < d.store.props.headBlockNumber) : Refers trx d.store := by
  unfold applyTransaction at h
  simp only [Bool.or_self, Bool.false_eq_true, if_false, false_or] at h
  obtain ⟨_, e1, hvalid, h1⟩ := Action.bind_ok.mp h
  obtain ⟨_, e2, hread, h2⟩ := Action.bind_ok.mp h1
  obtain ⟨_, e3, hnew, h3⟩ := Action.bind_ok.mp h2
  obtain ⟨_, e4, hauth, h4⟩ := Action.bind_ok.mp h3
  obtain ⟨_, d₁, hcharge, h5⟩ := Action.bind_ok.mp h4
  obtain ⟨_, e5, href, _⟩ := Action.bind_ok.mp h5
  have hd1 : e1 = d := Looks.of_ok (by simp) hvalid
  have hd2 : e2 = e1 := Looks.of_ok (looks_read _) hread
  have hd3 : e3 = e2 := Looks.of_ok (by simp) hnew
  have hd4 : e4 = e3 := Looks.of_ok (by simp) hauth
  subst hd4 hd3 hd2 hd1
  have hsame := (within_summary (within_chargeBandwidth trx)).sameSummaries_ok hcharge
  have hhead := (within_head (within_chargeBandwidth trx)).sameHead_ok hcharge
  have hnumber : d₁.store.props.headBlockNumber = e4.store.props.headBlockNumber :=
    congrArg (fun a : Anchor => a.head.number) hhead.props.symm
  obtain ⟨o, ho, hprefix⟩ := checkReference_refers href (hnumber ▸ hpos)
  exact ⟨o, (hsame trx.refBlockNum).symm.trans ho, hprefix⟩

/-- The loop over the transactions of a block. -/
theorem applyEach_refers {clock : Nat} {l : List Transaction} {d d' : Database chainSchema}
    {u : Unit} (h : (Action.forEach l fun trx => applyTransaction clock {} n trx).run d = .ok u d')
    (hpos : 0 < d.store.props.headBlockNumber) : ∀ trx ∈ l, Refers trx d.store := by
  induction l generalizing d with
  | nil => exact List.forall_mem_nil _
  | cons trx l ih =>
    obtain ⟨_, d₁, h1, h2⟩ := Action.bind_ok.mp h
    have hsame := (within_summary_applyTransaction clock {} trx).sameSummaries_ok h1
    have hhead := (within_head_applyTransaction clock {} trx).sameHead_ok h1
    have hnumber : d₁.store.props.headBlockNumber = d.store.props.headBlockNumber :=
      congrArg (fun a : Anchor => a.head.number) hhead.props.symm
    refine List.forall_mem_cons.mpr ⟨applyTransaction_refers h1 hpos, fun t ht => ?_⟩
    obtain ⟨o, ho, hprefix⟩ := ih h2 (hnumber ▸ hpos) t ht
    exact ⟨o, (hsame t.refBlockNum).symm.trans ho, hprefix⟩

theorem applyBlockFirst_refers {clock : Nat} {b : SignedBlock} {d d' : Database chainSchema}
    {wit : Nat} (h : (applyBlockFirst clock {} n b).run d = .ok wit d')
    (hpos : 0 < d.store.props.headBlockNumber) : ∀ trx ∈ b.transactions, Refers trx d.store := by
  obtain ⟨_, d₁, d₂, d₃, h1, h2, h3, _⟩ := applyBlockFirst_ok h
  have hdgp : Within headLicence (modifyDgp (fun _ => .ok ())
      (fun p _ => { p with currentWitness := b.witness }) : Act n Unit) :=
    within_head_dgp fun _ _ => rfl
  have hext : Within (opLicence fun _ => True) (processHeaderExtensions b : Act n Unit) :=
    within_processHeaderExtensions b
  have hhead := (hdgp.sameHead_ok h1).trans ((within_head hext).sameHead_ok h2)
  have hnumber : d₂.store.props.headBlockNumber = d.store.props.headBlockNumber :=
    congrArg (fun a : Anchor => a.head.number) hhead.props.symm
  have hsame : SameSummaries d.store d₂.store :=
    trans_of SameSummaries (within_summary_dgp.sameSummaries_ok h1)
      ((within_summary hext).sameSummaries_ok h2)
  intro trx ht
  obtain ⟨o, ho, hprefix⟩ := applyEach_refers h3 (hnumber ▸ hpos) trx ht
  exact ⟨o, (hsame trx.refBlockNum).symm.trans ho, hprefix⟩

/-- Every block of a chain was applied to the blocks before it. -/
theorem Node.Chain.split {m m' : Node} {pre post : List SignedBlock} {b : SignedBlock}
    (h : Node.Chain m (pre ++ b :: post) m') :
    ∃ (m₁ m₂ m₃ : Node) (clock depth : Nat) (id : BlockId), Node.Chain m pre m₁ ∧
      m₂.db.store = m₁.db.store ∧ m₂.checkpoints = [] ∧
      Node.applyInSession clock depth {} m₂ b id = .ok () m₃ := by
  generalize he : pre ++ b :: post = bs at h
  induction h generalizing post with
  | nil => simp at he
  | @snoc bs m₁ m₂ m₃ c id clock depth hchain hstore hcp happly ih =>
    rcases List.eq_nil_or_concat post with rfl | ⟨post, c', rfl⟩
    · obtain ⟨rfl, hlast⟩ := List.append_inj' he rfl
      cases hlast
      exact ⟨m₁, m₂, m₃, clock, depth, id, hchain, hstore, hcp, happly⟩
    · have he : (pre ++ b :: post) ++ [c'] = bs ++ [c] := by
        rw [← he]
        simp
      exact ih (List.append_inj' he rfl).1

section

variable {g g' : GenesisState} {pre pre' post post' : List SignedBlock} {b b' : SignedBlock}
  {m m' : Node} {trx : Transaction}

/-- **A transaction of a later block than the first has the prefix of the last block before its own
whose number has the lower bits that it names.** -/
theorem reference_names_block (h : Node.Chain (Node.genesis g) (pre ++ b :: post) m)
    (hb : ∀ c ∈ pre, c.timestamp < 2 ^ 32) (hpre : pre ≠ []) (ht : trx ∈ b.transactions) :
    trx.refBlockPrefix = Fc.idPrefix (referredId pre trx.refBlockNum) := by
  obtain ⟨m₁, m₂, m₃, clock, depth, id, hchain, hstore, hcp, happly⟩ := h.split
  have hs := hchain.indexed hb
  obtain ⟨d, d₁, d₂, wit, size, hd, hfirst, _, _⟩ := applyInSession_halves happly hcp
  rw [← hstore, ← hd] at hs
  have hpos : 0 < d.store.props.headBlockNumber := by
    rw [hs.number]
    exact List.length_pos_iff.mpr hpre
  obtain ⟨o, ho, hprefix⟩ := applyBlockFirst_refers hfirst hpos trx ht
  rw [hs.summary] at ho
  split at ho
  · cases ho
    exact hprefix
  · cases ho

/-- **A transaction that is in two chains binds both to one history.** It names a block, by the
lower bits of the number and the prefix of the id. If no two different headers of the chains have
the same prefix, both chains have this block among the 65536 before the transaction's own, and the
same blocks up to it. -/
theorem reference_pins_history (h : Node.Chain (Node.genesis g) (pre ++ b :: post) m)
    (h' : Node.Chain (Node.genesis g') (pre' ++ b' :: post') m')
    (hb : ∀ c ∈ pre, c.timestamp < 2 ^ 32) (hb' : ∀ c ∈ pre', c.timestamp < 2 ^ 32)
    (hpre : pre ≠ []) (hpre' : pre' ≠ []) (ht : trx ∈ b.transactions) (ht' : trx ∈ b'.transactions)
    (hnamed : trx.refBlockPrefix ≠ Fc.idPrefix ⟨0, 0⟩)
    (hinj : ∀ c ∈ headersOf pre, ∀ c' ∈ headersOf pre',
      Fc.idPrefix c.id = Fc.idPrefix c'.id → c = c') :
    ∃ k, 0 < k ∧ k % 65536 = trx.refBlockNum ∧ k ≤ pre.length ∧ pre.length < k + 65536 ∧
      k ≤ pre'.length ∧ pre'.length < k + 65536 ∧
      headersOf (pre.take k) = headersOf (pre'.take k) := by
  have hprefix := reference_names_block h hb hpre ht
  have hprefix' := reference_names_block h' hb' hpre' ht'
  obtain ⟨m₁, _, _, _, _, _, hchain, _⟩ := h.split
  obtain ⟨m₂, _, _, _, _, _, hchain', _⟩ := h'.split
  have hs := hchain.indexed hb
  have hs' := hchain'.indexed hb'
  rcases referredId_cases hs.inOrder trx.refBlockNum with hzero | ⟨k, c, hc, hk, hlen, hid⟩
  · rw [hzero] at hprefix
    exact absurd hprefix hnamed
  rcases referredId_cases hs'.inOrder trx.refBlockNum with hzero | ⟨k', c', hc', hk', hlen', hid'⟩
  · rw [hzero] at hprefix'
    exact absurd hprefix' hnamed
  have hget : (headersOf pre)[k]? = some c.toSignedBlockHeader := by
    rw [headersOf, List.getElem?_map, hc]
    rfl
  have hget' : (headersOf pre')[k']? = some c'.toSignedBlockHeader := by
    rw [headersOf, List.getElem?_map, hc']
    rfl
  have hsame : c.toSignedBlockHeader = c'.toSignedBlockHeader := by
    refine hinj _ (List.mem_of_getElem? hget) _ (List.mem_of_getElem? hget') ?_
    rw [← hid, ← hid', ← hprefix, ← hprefix']
  -- the number of a block is part of what its header says
  obtain rfl : k = k' := by
    have hnum : c.blockNum = c'.blockNum := congrArg SignedBlockHeader.blockNum hsame
    have h1 := hs.inOrder k c hc
    have h2 := hs'.inOrder k' c' hc'
    omega
  have htake := HashChains.take_eq_of_id_eq hs.linked hs'.linked
    (fun x hx y hy hxy => hinj x hx y hy (congrArg Fc.idPrefix hxy)) hget hget'
    (congrArg SignedBlockHeader.id hsame)
  have hlt := (List.getElem?_eq_some_iff.mp hc).1
  have hlt' := (List.getElem?_eq_some_iff.mp hc').1
  refine ⟨k + 1, by omega, hk, by omega, by omega, by omega, by omega, ?_⟩
  unfold headersOf at htake ⊢
  rw [List.map_take, List.map_take]
  exact htake

end

end

section

attribute [local instance] sampleFc

/-- Block 1, and two blocks after it with the same transfer. -/
def forkedBlocks : SignedBlock × SignedBlock × SignedBlock :=
  let b := transferBlock ⟨0, 0⟩ 1 [genesisTime + 60]
  (b, transferBlock b.toSignedBlockHeader.id 2 [genesisTime + 61],
    transferBlock b.toSignedBlockHeader.id 3 [genesisTime + 61])

/-- A block after `b` with a transfer that names block 1. -/
def referringBlock (b : SignedBlock) : SignedBlock :=
  let first := forkedBlocks.1.toSignedBlockHeader.id
  let trx : Transaction := ⟨first.num, first.hash, genesisTime + 62,
    [.transfer initMinerName nullAccount (Asset.muse 1) ""], [7]⟩
  let header := sampleHeader b.toSignedBlockHeader.id 4
  let c : SignedBlock := ⟨header, [trx]⟩
  ⟨{ header with transactionMerkleRoot := c.calculateMerkleRoot }, [trx]⟩

def afterBlock (m : Node) (b : SignedBlock) : Node :=
  (Node.applyInSession 0 0 {} m b ⟨0, 0⟩).node

def afterFirst : Node := afterBlock (Node.genesis sampleGenesis) forkedBlocks.1

theorem forked_runs :
    (Node.applyInSession 0 0 {} (Node.genesis sampleGenesis) forkedBlocks.1 ⟨0, 0⟩).isOk = true ∧
      ∀ b ∈ [forkedBlocks.2.1, forkedBlocks.2.2],
        (Node.applyInSession 0 0 {} afterFirst b ⟨0, 0⟩).isOk = true ∧
        (Node.applyInSession 0 0 {} (afterBlock afterFirst b) (referringBlock b) ⟨0, 0⟩).isOk =
          true ∧
        (afterBlock afterFirst b).checkpoints = [] ∧ afterFirst.checkpoints = [] := by
  decide +kernel

/-- Both branches are chains. -/
theorem forked_chain {b : SignedBlock} (h : b ∈ [forkedBlocks.2.1, forkedBlocks.2.2]) :
    ∃ m, Node.Chain (Node.genesis sampleGenesis) ([forkedBlocks.1, b] ++ referringBlock b :: [])
      m := by
  obtain ⟨hfirst, hrest⟩ := forked_runs
  obtain ⟨hsecond, hthird, hcp', hcp⟩ := hrest b h
  obtain ⟨m₁, h1⟩ := Reply.exists_of_isOk hfirst
  obtain ⟨m₂, h2⟩ := Reply.exists_of_isOk hsecond
  obtain ⟨m₃, h3⟩ := Reply.exists_of_isOk hthird
  have hm₁ : afterFirst = m₁ := by
    unfold afterFirst afterBlock
    rw [h1]
    rfl
  have hm₂ : afterBlock afterFirst b = m₂ := by
    unfold afterBlock
    rw [h2]
    rfl
  have hchain₁ : Node.Chain (Node.genesis sampleGenesis) ([] ++ [forkedBlocks.1]) m₁ :=
    .snoc 0 0 .nil rfl rfl h1
  rw [hm₁] at h2 hcp
  rw [hm₂] at h3 hcp'
  have hchain₂ : Node.Chain (Node.genesis sampleGenesis) ([forkedBlocks.1] ++ [b]) m₂ :=
    .snoc 0 0 hchain₁ rfl hcp h2
  exact ⟨m₃, .snoc 0 0 hchain₂ rfl hcp' h3⟩

/-- The two branches differ, and have block 1 in common. -/
theorem reference_pins_history_forked :
    headersOf [forkedBlocks.1, forkedBlocks.2.1] ≠ headersOf [forkedBlocks.1, forkedBlocks.2.2] ∧
      ∃ trx ∈ (referringBlock forkedBlocks.2.1).transactions, ∃ k, 0 < k ∧
        k % 65536 = trx.refBlockNum ∧ k ≤ [forkedBlocks.1, forkedBlocks.2.1].length ∧
        [forkedBlocks.1, forkedBlocks.2.1].length < k + 65536 ∧
        k ≤ [forkedBlocks.1, forkedBlocks.2.2].length ∧
        [forkedBlocks.1, forkedBlocks.2.2].length < k + 65536 ∧
        headersOf ([forkedBlocks.1, forkedBlocks.2.1].take k) =
          headersOf ([forkedBlocks.1, forkedBlocks.2.2].take k) := by
  obtain ⟨m, hchain⟩ := forked_chain (b := forkedBlocks.2.1) (by simp)
  obtain ⟨m', hchain'⟩ := forked_chain (b := forkedBlocks.2.2) (by simp)
  have htime : ∀ c ∈ [forkedBlocks.1, forkedBlocks.2.1], c.timestamp < 2 ^ 32 := by decide
  have htime' : ∀ c ∈ [forkedBlocks.1, forkedBlocks.2.2], c.timestamp < 2 ^ 32 := by decide
  have htrxs : (referringBlock forkedBlocks.2.1).transactions =
      (referringBlock forkedBlocks.2.2).transactions := rfl
  obtain ⟨trx, ht⟩ := List.exists_mem_of_ne_nil (referringBlock forkedBlocks.2.1).transactions
    (by decide)
  have hnamed : trx.refBlockPrefix ≠ Fc.idPrefix ⟨0, 0⟩ := by
    revert trx
    decide
  -- the three blocks have three prefixes
  have hprefixes : forkedBlocks.1.toSignedBlockHeader.id.hash ≠
        forkedBlocks.2.2.toSignedBlockHeader.id.hash ∧
      forkedBlocks.2.1.toSignedBlockHeader.id.hash ≠ forkedBlocks.1.toSignedBlockHeader.id.hash ∧
      forkedBlocks.2.1.toSignedBlockHeader.id.hash ≠
        forkedBlocks.2.2.toSignedBlockHeader.id.hash := by decide
  obtain ⟨hfirst, hsecond, hdiffer⟩ := hprefixes
  refine ⟨fun e => ?_, trx, ht, reference_pins_history hchain hchain' htime htime' (by simp)
    (by simp) ht (htrxs ▸ ht) hnamed fun c hc c' hc' he => ?_⟩
  · have hlast := (List.cons.inj (List.cons.inj e).2).1
    exact hdiffer (congrArg (fun h : SignedBlockHeader => h.id.hash) hlast)
  · unfold headersOf at hc hc'
    simp only [List.map_cons, List.map_nil, List.mem_cons, List.not_mem_nil, or_false] at hc hc'
    rcases hc with rfl | rfl
    · rcases hc' with rfl | rfl
      · rfl
      · exact absurd he hfirst
    · rcases hc' with rfl | rfl
      · exact absurd he hsecond
      · exact absurd he hdiffer

end

end MuseChain
