/-
  File:      MuseChain/Safety/Irreversibility.lean
  Subject:   The last irreversible block over a run.

  * `Moves e s t`: what an event does to the numbers of the head and to the confirmations.
  * `Due m`: the numbers fit together, and the block that is applied is the head.
  * `raise_ok`: where the irreversible block is raised once witnesses are voted for, the number is
    the greatest that enough of the scheduled witnesses have confirmed.
-/
import MuseChain.Safety.Founding
import MuseChain.Lib.Ranks

namespace MuseChain

variable {n : Nat}

/-! ## 1. What an event does to the numbers -/

/-- The parts that the numbers of the head and the confirmations are taken from. -/
def Part.numbering : Part → Bool
  | .made .dynamicGlobalProperty | .gone .dynamicGlobalProperty | .props .identity | .props .head
  | .props .time | .props .irreversible | .gone .witness | .witness .confirmed => true
  | _ => false

theorem sameHead_of_changes {l : List Part} {s t : Store chainSchema} (h : Obeys (changes l) s t)
    (hl : ∀ p ∈ l, p.numbering = false) : SameHead s t := by
  refine ⟨?_, fun bound hb i w hw => ?_⟩
  · obtain ⟨p, q, hp, hq, hpq⟩ | ⟨hp, hq⟩ | ⟨_, _, _, _, hmade, _⟩ :=
      changes_cases (h Kind.dynamicGlobalProperty 0) (not_mem_of_false hl rfl)
    · have hidentity := Or.resolve_left (hpq .identity) (not_mem_of_false hl rfl)
      have hhead := Or.resolve_left (hpq .head) (not_mem_of_false hl rfl)
      have htime := Or.resolve_left (hpq .time) (not_mem_of_false hl rfl)
      have hlib := Or.resolve_left (hpq .irreversible) (not_mem_of_false hl rfl)
      simp only [DynamicGlobalProperty.view, Prod.mk.injEq] at hidentity hhead htime hlib
      rw [hp, hq]
      simp [DynamicGlobalProperty.anchor, DynamicGlobalProperty.head, hidentity, hhead, htime, hlib]
    · rw [hp, hq]
    · exact absurd hmade (not_mem_of_false hl rfl)
  · obtain ⟨a, b, ha, hb', hab⟩ | ⟨_, hn⟩ | ⟨a, b, _, hb', _, hblank, hab⟩ :=
      changes_cases (h Kind.witness i) (not_mem_of_false hl rfl)
    · obtain rfl : b = w := Option.some.inj (hb'.symm.trans hw)
      have hsame : a.lastConfirmedBlockNum = b.lastConfirmedBlockNum :=
        Or.resolve_left (hab .confirmed) (not_mem_of_false hl rfl)
      exact hsame ▸ hb i a ha
    · exact nomatch hw.symm.trans hn
    · obtain rfl : b = w := Option.some.inj (hb'.symm.trans hw)
      have hsame : a.lastConfirmedBlockNum = b.lastConfirmedBlockNum :=
        Or.resolve_left (hab .confirmed) (not_mem_of_false hl rfl)
      have hzero : a.lastConfirmedBlockNum = 0 := hblank.2.1
      omega

/-- A block is confirmed by the witness that signed it. -/
structure Confirms (b : SignedBlock) (s t : Store chainSchema) : Prop where
  props : t.get Kind.dynamicGlobalProperty 0 = s.get Kind.dynamicGlobalProperty 0
  bounded : ∀ bound, b.blockNum ≤ bound → Bounded bound s → Bounded bound t

/-- What an event does to the numbers of the head and to the confirmations. -/
inductive Moves [Fc] (s t : Store chainSchema) : Event → Prop
  | same (e : Event) : SameHead s t → Moves s t e
  | head (skip : Skip) (b : SignedBlock) : HeadMoved b s t →
      Moves s t (.routine (.globalDynamicData skip b))
  | confirms (wit : Nat) (b : SignedBlock) : Confirms b s t →
      Moves s t (.routine (.signingWitness wit b))
  | raises : LibMoved s t → Moves s t (.routine .lastIrreversibleBlock)

theorem Event.Does.moves [Fc] {e : Event} {s t : Store chainSchema} (h : e.Does s t) :
    Moves s t e := by
  cases h with
  | @operation d d' u op clock n push _ ha hr =>
    refine .same _ (sameHead_of_changes ((composed_evaluate clock push ha).steps.step hr) ?_)
    cases op with
    | proposalUpdate o => cases ha
    | _ => simp +decide [Operation.parts]
  | @routine d d' u r n hr =>
    cases r with
    | globalDynamicData skip b => exact .head skip b (headMoved_updateGlobalDynamicData hr)
    | signingWitness wit b =>
      obtain ⟨hprops, hbound⟩ := updateSigningWitness_ok hr
      exact .confirms wit b ⟨hprops, hbound⟩
    | lastIrreversibleBlock => exact .raises (libMoved_updateLastIrreversibleBlock hr)
    | _ =>
      refine .same _ (sameHead_of_changes ((Routine.composed_act _).steps.step hr) ?_)
      simp +decide [Routine.parts]

/-! ## 2. The numbers stay fitting -/

section

variable [Fc] {s t : Store chainSchema}

omit [Fc] in
/-- The numbers of the global properties, one by one. -/
theorem props_of_anchor {p q : DynamicGlobalProperty} (h : q.anchor = p.anchor) :
    q.headBlockNumber = p.headBlockNumber ∧ q.headBlockId = p.headBlockId ∧
      q.lastIrreversibleBlockNum = p.lastIrreversibleBlockNum ∧ q.time = p.time :=
  ⟨congrArg (fun a : Anchor => a.head.number) h, congrArg (fun a : Anchor => a.head.id) h,
    congrArg (fun a : Anchor => a.head.lastIrreversible) h, congrArg Anchor.time h⟩

omit [Fc] in
theorem SameHead.numbers (h : SameHead s t) :
    t.props.headBlockNumber = s.props.headBlockNumber ∧
      t.props.lastIrreversibleBlockNum = s.props.lastIrreversibleBlockNum := by
  obtain ⟨hnumber, _, hlib, _⟩ := props_of_anchor h.props.symm
  exact ⟨hnumber, hlib⟩

omit [Fc] in
theorem Numbered.sameHead (hs : Numbered s) (h : SameHead s t) : Numbered t := by
  obtain ⟨hnumber, hid, hlib, _⟩ := props_of_anchor h.props.symm
  refine ⟨by rw [hid, hnumber, hs.id], fun q hq => ?_, ?_, by rw [hlib, hnumber]; exact hs.irreversible,
    by rw [hlib, hnumber]; exact hs.early⟩
  · have ha := h.anchor
    rw [hq] at ha
    obtain ⟨p, hp, he⟩ := Option.map_eq_some_iff.mp ha
    obtain ⟨hn, _, _, ht⟩ := props_of_anchor he.symm
    rw [hn, ht]
    exact hs.time p hp
  · rw [hnumber]
    exact h.bounded _ hs.confirmed

omit [Fc] in
theorem Numbered.confirms {b : SignedBlock} (hs : Numbered s) (h : Confirms b s t)
    (hb : b.blockNum = s.props.headBlockNumber) : Numbered t := by
  have hprops : t.props = s.props := by
    unfold Store.props
    rw [h.props]
  refine ⟨by rw [hprops, hs.id], fun p hp => hs.time p (h.props ▸ hp), ?_,
    by rw [hprops]; exact hs.irreversible, by rw [hprops]; exact hs.early⟩
  rw [hprops]
  exact h.bounded _ hb.le hs.confirmed

/-- The head has moved on: the numbers after it. -/
theorem Numbered.head {b : SignedBlock} (hs : Numbered s) (h : HeadMoved b s t)
    {p : DynamicGlobalProperty} (hp : s.get Kind.dynamicGlobalProperty 0 = some p)
    (hprev : p.headBlockId = b.previous) (htime : p.time < b.timestamp)
    (hb : b.timestamp < 2 ^ 32) :
    Numbered t ∧ b.blockNum = t.props.headBlockNumber ∧
      t.props.lastIrreversibleBlockNum = s.props.lastIrreversibleBlockNum := by
  obtain ⟨p', q, hp', hq, he⟩ := h.anchor
  obtain rfl : p' = p := Option.some.inj (hp'.symm.trans hp)
  have hnumber : q.headBlockNumber = b.blockNum :=
    congrArg (fun a : Anchor => a.head.number) he
  have hid : q.headBlockId = b.toSignedBlockHeader.id := congrArg (fun a : Anchor => a.head.id) he
  have hlib : q.lastIrreversibleBlockNum = p'.lastIrreversibleBlockNum :=
    congrArg (fun a : Anchor => a.head.lastIrreversible) he
  have htime' : q.time = b.timestamp := congrArg Anchor.time he
  obtain ⟨hsid, hstime, hconf, hirr, hearly⟩ := hs
  have hlow := hstime p' hp
  rw [Store.props_of_get hp] at hsid hconf hirr hearly
  have hgenesis := (show genesisTime = 1458835200 from rfl)
  have hblock : b.blockNum = p'.headBlockNumber + 1 := by
    show u32 (b.previous.num + 1) = _
    rw [← hprev, hsid]
    exact Nat.mod_eq_of_lt (by omega)
  rw [Store.props_of_get hp, Store.props_of_get hq]
  refine ⟨⟨?_, fun r hr => ?_, ?_, ?_, ?_⟩, hnumber.symm, hlib⟩
  · rw [Store.props_of_get hq, hnumber, hid]
    rfl
  · obtain rfl : r = q := Option.some.inj (hr.symm.trans hq)
    omega
  · rw [Store.props_of_get hq]
    refine h.bounded _ fun i w hw => ?_
    have := hconf i w hw
    omega
  · rw [Store.props_of_get hq]
    omega
  · rw [Store.props_of_get hq]
    omega

omit [Fc] in
/-- The irreversible block has moved on: the numbers after it. -/
theorem Numbered.raises (hs : Numbered s) (h : LibMoved s t) :
    Numbered t ∧ t.props.headBlockNumber = s.props.headBlockNumber ∧
      s.props.lastIrreversibleBlockNum ≤ t.props.lastIrreversibleBlockNum := by
  obtain ⟨p, q, hp, hq, he, hbefore, hafter⟩ := h.anchor
  have hnumber : q.headBlockNumber = p.headBlockNumber :=
    congrArg (fun a : Anchor => a.head.number) he
  have hid : q.headBlockId = p.headBlockId := congrArg (fun a : Anchor => a.head.id) he
  have htime : q.time = p.time := congrArg Anchor.time he
  obtain ⟨hsid, hstime, hconf, hirr, hearly⟩ := hs
  have hlow := hstime p hp
  rw [Store.props_of_get hp] at hsid hconf hirr hearly
  have hlib : p.lastIrreversibleBlockNum ≤ q.lastIrreversibleBlockNum ∧
      q.lastIrreversibleBlockNum ≤ q.headBlockNumber ∧
      (q.headBlockNumber < startMinerVotingBlock →
        q.lastIrreversibleBlockNum ≤ q.headBlockNumber - maxMiners) := by
    obtain hstart | hstart := Nat.lt_or_ge p.headBlockNumber startMinerVotingBlock
    · have heq := hbefore hstart
      have hle := hearly hstart
      split at heq <;> omega
    · obtain heq | ⟨hlt, hle⟩ := hafter hstart
      · omega
      · have := hle _ hconf
        omega
  rw [Store.props_of_get hp, Store.props_of_get hq]
  refine ⟨⟨?_, fun r hr => ?_, ?_, ?_, ?_⟩, hnumber, hlib.1⟩
  · rw [Store.props_of_get hq, hid, hnumber, hsid]
  · obtain rfl : r = q := Option.some.inj (hr.symm.trans hq)
    omega
  · rw [Store.props_of_get hq, hnumber]
    exact h.bounded _ hconf
  · rw [Store.props_of_get hq]
    exact hlib.2.1
  · rw [Store.props_of_get hq]
    exact hlib.2.2

end

/-- The numbers fit together, and the block that is applied is the head. -/
structure Due (m : Moment) : Prop where
  numbered : Numbered m.store
  left : m.left = [] ∨ ∃ wit b, m.left ⊆ Routine.afterHead wit b ∧
    b.blockNum = m.store.props.headBlockNumber

/-- What one event preserves, and that it does not take the irreversible block back. -/
theorem Passes.due [Fc] {m m' : Moment} {e : Event} (h : Passes m e m') (hm : Due m) :
    Due m' ∧ m.store.props.lastIrreversibleBlockNum ≤ m'.store.props.lastIrreversibleBlockNum := by
  have hsame : ∀ {t : Store chainSchema} {left : List Routine}, SameHead m.store t →
      left ⊆ m.left → Due ⟨t, left⟩ ∧
        m.store.props.lastIrreversibleBlockNum ≤ t.props.lastIrreversibleBlockNum := by
    intro t left hst hleft
    obtain ⟨hnumber, hlib⟩ := hst.numbers
    refine ⟨⟨hm.numbered.sameHead hst, ?_⟩, hlib.ge⟩
    obtain hnil | ⟨wit, b, hsub, hb⟩ := hm.left
    · rw [hnil] at hleft
      exact .inl (List.subset_nil.mp hleft)
    · exact .inr ⟨wit, b, fun r hr => hsub (hleft hr), hb.trans hnumber.symm⟩
  cases h with
  | @loose m t e _ hloose hdoes =>
    cases hdoes.moves with
    | same _ hst => exact hsame hst (List.Subset.refl _)
    | head | confirms | raises => cases hloose
  | @head s t p skip b wit hp hprev htime hb hdoes =>
    cases hdoes with
    | routine n hr =>
      have hst := headMoved_updateGlobalDynamicData hr
      obtain ⟨hnumbered, hblock, hlib⟩ := hm.numbered.head hst hp hprev htime hb
      exact ⟨⟨hnumbered, .inr ⟨wit, b, List.Subset.refl _, hblock⟩⟩, hlib.ge⟩
  | @duty s t r rest hdoes =>
    have hrest : rest ⊆ r :: rest := List.subset_cons_self r rest
    obtain hnil | ⟨wit, b, hsub, hb⟩ := hm.left
    · cases hnil
    cases hdoes.moves with
    | same _ hst => exact hsame hst hrest
    | head skip b' _ =>
      have hmem := hsub List.mem_cons_self
      simp [Routine.afterHead] at hmem
    | confirms wit' b' hst =>
      have hmem := hsub List.mem_cons_self
      simp [Routine.afterHead] at hmem
      obtain ⟨rfl, rfl⟩ := hmem
      have hprops : t.props = s.props := by
        unfold Store.props
        rw [hst.props]
      refine ⟨⟨hm.numbered.confirms hst hb, .inr ⟨wit', b', fun r hr => hsub (hrest hr), ?_⟩⟩, ?_⟩
      · rw [hb, hprops]
      · rw [hprops]
    | raises hst =>
      obtain ⟨hnumbered, hnumber, hlib⟩ := hm.numbered.raises hst
      exact ⟨⟨hnumbered, .inr ⟨wit, b, fun r hr => hsub (hrest hr), hb.trans hnumber.symm⟩⟩, hlib⟩

/-! ## 3. Runs -/

/-- What a witness has confirmed. -/
abbrev confirmedBy (block : Nat) (w : Witness) : Prop := block ≤ w.lastConfirmedBlockNum

/-- Where the irreversible block is raised to: the element that `std::nth_element` selects. -/
theorem raise_ok {d d' : Database chainSchema} {u : Unit}
    (hr : (updateLastIrreversibleBlock : Act n Unit).run d = .ok u d')
    (hstart : startMinerVotingBlock ≤ d.store.props.headBlockNumber)
    (hraise : d.store.props.lastIrreversibleBlockNum < d'.store.props.lastIrreversibleBlockNum) :
    ∃ (o : WitnessSchedule) (ws : List Witness), d.store.get Kind.witnessSchedule 0 = some o ∧
      List.Forall₂ (IsNamed d.store) o.currentShuffledWitnesses ws ∧
      Ranks.rank (ws.map fun w => w.lastConfirmedBlockNum)
        ((percent100 - irreversibleThreshold) * ws.length / percent100) =
        some d'.store.props.lastIrreversibleBlockNum := by
  unfold updateLastIrreversibleBlock at hr
  obtain ⟨p, hp, h1⟩ := bind_getDgp_ok.mp hr
  rw [Store.props_of_get hp] at hstart hraise
  rw [if_neg (Nat.not_lt.mpr hstart)] at h1
  obtain ⟨o, ho, h2⟩ := Action.bind_get_ok.mp h1
  obtain ⟨nums, d₁, hnums, h3⟩ := Action.bind_ok.mp h2
  obtain ⟨rfl, ws, hws, rfl⟩ := collectWitnesses_ok hnums
  dsimp only at h3
  split at h3
  · cases h3
  · rename_i num hnum
    refine ⟨o, ws, ho, hws, ?_⟩
    rw [List.nil_append, List.length_map] at hnum
    split at h3
    · obtain ⟨q, x, hq, _, hq', _⟩ := modifyDgp_ok h3
      rw [Store.props_of_get hq']
      exact hnum
    · cases h3
      rw [Store.props_of_get hp] at hraise
      exact absurd hraise (lt_irrefl _)

/-- **Enough scheduled witnesses have confirmed the element, and too few have confirmed more.** -/
theorem enough_confirmed {ws : List Witness} {block : Nat}
    (h : Ranks.rank (ws.map fun w => w.lastConfirmedBlockNum)
      ((percent100 - irreversibleThreshold) * ws.length / percent100) = some block) :
    irreversibleThreshold * ws.length ≤ percent100 * ws.countP (fun w => confirmedBy block w) ∧
      ∀ more, block < more →
        percent100 * ws.countP (fun w => confirmedBy more w) < irreversibleThreshold * ws.length := by
  have hcount : ∀ block, (ws.map fun w => w.lastConfirmedBlockNum).countP (fun a => block ≤ a) =
      ws.countP fun w => confirmedBy block w := fun block => by
    rw [List.countP_map]
    rfl
  have hthreshold : irreversibleThreshold = 5100 := rfl
  have hpercent : percent100 = 10000 := rfl
  rw [hthreshold, hpercent] at h ⊢
  constructor
  · have hreach := Ranks.sub_le_countP_rank h
    rw [hcount, List.length_map] at hreach
    omega
  · intro more hmore
    have hfew := Ranks.countP_rank_lt h hmore
    rw [hcount, List.length_map] at hfew
    omega

/-- Nothing else raises the irreversible block. -/
theorem Event.Does.raised [Fc] {e : Event} {s t : Store chainSchema} (h : e.Does s t)
    (hstart : startMinerVotingBlock ≤ s.props.headBlockNumber)
    (hraise : s.props.lastIrreversibleBlockNum < t.props.lastIrreversibleBlockNum) :
    ∃ (o : WitnessSchedule) (ws : List Witness), s.get Kind.witnessSchedule 0 = some o ∧
      List.Forall₂ (IsNamed s) o.currentShuffledWitnesses ws ∧
      Ranks.rank (ws.map fun w => w.lastConfirmedBlockNum)
        ((percent100 - irreversibleThreshold) * ws.length / percent100) =
        some t.props.lastIrreversibleBlockNum := by
  have hsame : t.props.lastIrreversibleBlockNum = s.props.lastIrreversibleBlockNum → False :=
    fun he => absurd hraise (he ▸ lt_irrefl _)
  have hmoves := h.moves
  cases h with
  | operation =>
    cases hmoves with
    | same _ hst => exact (hsame hst.numbers.2).elim
  | routine n hr =>
    cases hmoves with
    | same _ hst => exact (hsame hst.numbers.2).elim
    | head skip b hst =>
      obtain ⟨p, q, hp, hq, he⟩ := hst.anchor
      refine (hsame ?_).elim
      rw [Store.props_of_get hp, Store.props_of_get hq]
      exact congrArg (fun a : Anchor => a.head.lastIrreversible) he
    | confirms wit b hst =>
      refine (hsame ?_).elim
      unfold Store.props
      rw [hst.props]
    | raises => exact raise_ok hr hstart hraise

section

variable [Fc] {g : GenesisState} {past l : Past} {m m' : Moment} {e : Event}

theorem Timeline.due (h : Timeline g past m) : Due m := by
  induction h with
  | start hg =>
    have hstart := genesis_numbered g
    unfold Node.genesis at hstart
    rw [hg] at hstart
    exact ⟨hstart, .inl rfl⟩
  | step _ hp ih => exact (hp.due ih).1

/-- **A run does not take the irreversible block back.** -/
theorem Path.irreversible (h : Path m l m') (hm : Due m) :
    Due m' ∧ m.store.props.lastIrreversibleBlockNum ≤ m'.store.props.lastIrreversibleBlockNum := by
  induction h with
  | nil => exact ⟨hm, le_rfl⟩
  | snoc _ hp ih =>
    obtain ⟨hd, hle⟩ := ih
    obtain ⟨hd', hle'⟩ := hp.due hd
    exact ⟨hd', hle.trans hle'⟩

/-- **The last irreversible block** is never taken back nor ahead of the head. Once witnesses are
voted for, it is raised to the greatest number that enough of the scheduled ones have confirmed. -/
theorem last_irreversible_block (ht : Timeline g past m) :
    m.store.props.lastIrreversibleBlockNum ≤ m.store.props.headBlockNumber ∧
    (∀ l m', Path m l m' →
      m.store.props.lastIrreversibleBlockNum ≤ m'.store.props.lastIrreversibleBlockNum) ∧
    ∀ e m', Passes m e m' → startMinerVotingBlock ≤ m.store.props.headBlockNumber →
      m.store.props.lastIrreversibleBlockNum < m'.store.props.lastIrreversibleBlockNum →
      ∃ (o : WitnessSchedule) (ws : List Witness),
        m.store.get Kind.witnessSchedule 0 = some o ∧ o.currentShuffledWitnesses.Nodup ∧
        List.Forall₂ (IsNamed m.store) o.currentShuffledWitnesses ws ∧
        irreversibleThreshold * ws.length ≤ percent100 *
          ws.countP (fun w => confirmedBy m'.store.props.lastIrreversibleBlockNum w) ∧
        ∀ more, m'.store.props.lastIrreversibleBlockNum < more →
          percent100 * ws.countP (fun w => confirmedBy more w) <
            irreversibleThreshold * ws.length := by
  have hm := ht.due
  refine ⟨hm.numbered.irreversible, fun l m' hl => (hl.irreversible hm).2,
    fun e m' hp hstart hraise => ?_⟩
  obtain ⟨o, ws, ho, hws, hrank⟩ := hp.does.raised hstart hraise
  obtain ⟨henough, hmost⟩ := enough_confirmed hrank
  exact ⟨o, ws, ho, (ht.rostered o ho).1, hws, henough, hmost⟩

end

section

attribute [local instance] sampleFc

/-- After 25 blocks of the init miner, the fourth is irreversible, and after one more the fifth. -/
theorem last_irreversible_block_miner : ∃ (d d' : Database chainSchema) (past l : Past),
    Timeline sampleGenesis past ⟨d.store, []⟩ ∧ Path ⟨d.store, []⟩ l ⟨d'.store, []⟩ ∧
      d.store.props.lastIrreversibleBlockNum = 4 ∧
      d'.store.props.lastIrreversibleBlockNum = 5 ∧
      d.store.props.lastIrreversibleBlockNum ≤ d.store.props.headBlockNumber ∧
      d.store.props.lastIrreversibleBlockNum ≤ d'.store.props.lastIrreversibleBlockNum := by
  obtain ⟨u, d, hr, hb, hnext⟩ := Returns.exists (p := fun d =>
    decide (d.store.props.lastIrreversibleBlockNum = 4) &&
      Returns (fun d => decide (d.store.props.lastIrreversibleBlockNum = 5))
        ((produceBlock {}).run d))
    (show Returns _ (founded sampleGenesis (List.replicate 25 {})) = true by decide +kernel)
  obtain ⟨hfour, hnext⟩ := Bool.and_eq_true_iff.mp hnext
  obtain ⟨u', d', hr', hb', hfive⟩ := Returns.exists hnext
  obtain ⟨⟨past, ht⟩, hf⟩ := Timeline.founded hr hb
  obtain ⟨l, hl⟩ := Path.produceBlock ht.proper hf hr' hb'
  obtain ⟨hhead, hrises, _⟩ := last_irreversible_block ht
  exact ⟨d, d', past, l, ht, hl, of_decide_eq_true hfour, of_decide_eq_true hfive, hhead,
    hrises l _ hl⟩

end

end MuseChain
