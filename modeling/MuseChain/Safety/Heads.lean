/-
  File:      MuseChain/Safety/Heads.lean
  Subject:   What a block does to the head, the last irreversible block and the confirmations.

  * `headLicence`: everything but the number, id and time of the head, the last irreversible block
    and the blocks that the witnesses confirmed may change. Whatever transactions do is of this
    kind (`Within.sameHead`).
  * `Numbered s`: the numbers of a state fit together; in particular the last irreversible block
    is not above the head.
  * `extends_of_halves`: a block that is applied makes the head its own, one higher, and does not
    lower the last irreversible block.
-/
import MuseChain.Chain.Genesis
import MuseChain.Safety.Licences

namespace MuseChain

variable {n : Nat}

/-! ## 1. What keeps the head -/

/-- Everything but the head and the confirmations may change. -/
def headLicence : Licence chainSchema where
  create
    | .dynamicGlobalProperty => fun _ => False
    | .witness => fun w => w.lastConfirmedBlockNum = 0
    | _ => fun _ => True
  modify
    | .dynamicGlobalProperty => fun _ p q => p.anchor = q.anchor
    | .witness => fun _ w v => w.lastConfirmedBlockNum = v.lastConfirmedBlockNum
    | _ => fun _ _ _ => True
  remove
    | .dynamicGlobalProperty => fun _ _ => False
    | _ => fun _ _ => True
  spoil
    | .dynamicGlobalProperty => False
    | _ => True

theorem opLicence_le_head {ok : Operation → Prop} : (opLicence ok).Le headLicence where
  create {k a} h := by
    cases k with
    | dynamicGlobalProperty => cases h
    | witness => exact h
    | _ => trivial
  modify {k i a b} h := by
    cases k with
    | dynamicGlobalProperty => exact h
    | witness => exact h
    | _ => trivial
  remove {k i a} h := by
    cases k with
    | dynamicGlobalProperty => cases h
    | _ => trivial
  spoil {k} h := by
    cases k with
    | dynamicGlobalProperty => cases h
    | _ => trivial

/-- The global properties stay where they are. -/
def anchorLaw : Law chainSchema where
  rel
    | .dynamicGlobalProperty => fun o q : Option DynamicGlobalProperty =>
        o.map (·.anchor) = q.map (·.anchor)
    | _ => fun _ _ => True
  refl := by
    intro k o
    cases k with
    | dynamicGlobalProperty => rfl
    | _ => trivial
  trans := by
    intro k o p q h h'
    cases k with
    | dynamicGlobalProperty => exact h.trans h'
    | _ => trivial

theorem headLicence_anchor : headLicence.Respects anchorLaw.idLaw where
  create {k i a} h := by
    cases k with
    | dynamicGlobalProperty => exact h.elim
    | _ => trivial
  modify {k i a b} h := by
    cases k with
    | dynamicGlobalProperty => exact congrArg some h
    | _ => trivial
  remove {k i a} h := by
    cases k with
    | dynamicGlobalProperty => exact h.elim
    | _ => trivial
  spoil {k i} h a := by
    cases k with
    | dynamicGlobalProperty => exact h.elim
    | _ => trivial

/-- No witness has confirmed a block above `bound`. -/
def Bounded (bound : Nat) (s : Store chainSchema) : Prop :=
  ∀ i (w : Witness), s.get Kind.witness i = some w → w.lastConfirmedBlockNum ≤ bound

def boundLaw (bound : Nat) : Law chainSchema where
  rel
    | .witness => fun o q : Option Witness => (∀ w, o = some w → w.lastConfirmedBlockNum ≤ bound) →
        ∀ w, q = some w → w.lastConfirmedBlockNum ≤ bound
    | _ => fun _ _ => True
  refl := by
    intro k o
    cases k with
    | witness => exact id
    | _ => trivial
  trans := by
    intro k o p q h h'
    cases k with
    | witness => exact h' ∘ h
    | _ => trivial

theorem headLicence_bound (bound : Nat) : headLicence.Respects (boundLaw bound).idLaw where
  create {k i a} h := by
    cases k with
    | witness =>
      intro _ w hw
      cases hw
      exact (show a.lastConfirmedBlockNum = 0 from h).trans_le (Nat.zero_le bound)
    | _ => trivial
  modify {k i a b} h := by
    cases k with
    | witness =>
      intro ho w hw
      cases hw
      exact (Eq.symm h).trans_le (ho a rfl)
    | _ => trivial
  remove {k i a} h := by
    cases k with
    | witness => exact fun _ w hw => nomatch hw
    | _ => trivial
  spoil {k i} h a := by
    cases k with
    | witness => exact fun _ w hw => nomatch hw
    | _ => trivial

/-- The same head, and no confirmation that was not there. -/
structure SameHead (s t : Store chainSchema) : Prop where
  anchor : (s.get Kind.dynamicGlobalProperty 0).map DynamicGlobalProperty.anchor =
    (t.get Kind.dynamicGlobalProperty 0).map DynamicGlobalProperty.anchor
  bounded : ∀ bound, Bounded bound s → Bounded bound t

theorem SameHead.refl (s : Store chainSchema) : SameHead s s := ⟨rfl, fun _ h => h⟩

theorem SameHead.trans {s t u : Store chainSchema} (h : SameHead s t) (h' : SameHead t u) :
    SameHead s u := ⟨h.anchor.trans h'.anchor, fun bound hs => h'.bounded bound (h.bounded bound hs)⟩

/-- Where the global properties have one anchor, so have those that are read. -/
theorem props_anchor {s t : Store chainSchema}
    (ha : (s.get Kind.dynamicGlobalProperty 0).map DynamicGlobalProperty.anchor =
      (t.get Kind.dynamicGlobalProperty 0).map DynamicGlobalProperty.anchor) :
    s.props.anchor = t.props.anchor := by
  unfold Store.props
  cases hs : s.get Kind.dynamicGlobalProperty 0 with
  | none =>
    cases ht : t.get Kind.dynamicGlobalProperty 0 with
    | none => rfl
    | some q =>
      rw [hs, ht] at ha
      cases ha
  | some p =>
    cases ht : t.get Kind.dynamicGlobalProperty 0 with
    | none =>
      rw [hs, ht] at ha
      cases ha
    | some q =>
      rw [hs, ht] at ha
      exact Option.some.inj ha

theorem SameHead.props {s t : Store chainSchema} (h : SameHead s t) :
    s.props.anchor = t.props.anchor := props_anchor h.anchor

/-- Whatever keeps the anchor can be taken back. -/
theorem anchorLaw_reversible (s : Store chainSchema) : Reversible anchorLaw.idLaw s := by
  intro k i o h
  cases k with
  | dynamicGlobalProperty => exact h.symm
  | _ => trivial

/-- **A program within the licence keeps the head, whether it returns or throws.** -/
theorem Within.sameHead {α : Type} {x : Act n α} (h : Within headLicence x)
    (d : Database chainSchema) : SameHead d.store (x.run d).db.store := by
  refine ⟨?_, fun bound hb => ?_⟩
  · exact h.kept headLicence_anchor (anchorLaw_reversible _) Kind.dynamicGlobalProperty 0
  · have hrev : Reversible (boundLaw bound).idLaw d.store := by
      intro k i o _
      cases k with
      | witness => exact fun _ w hw => hb i w hw
      | _ => trivial
    exact fun i w hw => h.kept (headLicence_bound bound) hrev Kind.witness i (hb i) w hw

theorem Within.sameHead_ok {α : Type} {x : Act n α} (h : Within headLicence x)
    {d d' : Database chainSchema} {a : α} (hr : x.run d = .ok a d') : SameHead d.store d'.store := by
  have hs := h.sameHead d
  rw [hr] at hs
  exact hs

/-- What evaluators do is within the licence. -/
theorem within_head {α : Type} {x : Act n α} (h : Within (opLicence fun _ => True) x) :
    Within headLicence x := h.mono opLicence_le_head

theorem within_head_dgp {β : Type} {f : DynamicGlobalProperty → Except Exn β}
    {upd : DynamicGlobalProperty → β → DynamicGlobalProperty}
    (h : ∀ p x, p.anchor = (upd p x).anchor) : Within headLicence (modifyDgp f upd : Act n Unit) :=
  within_modifyWith (.inr rfl) (.inl (.inr rfl)) fun p x _ => h p x

/-! ## 2. Transactions -/

section

variable [Fc]

theorem within_head_applyOperation (clock : Nat) (op : Operation) :
    Within headLicence (applyOperation clock n op) := by
  have hc := clockFree_same clock
  exact within_head
    ⟨fun d => (agree_applyOperation hc trivial).acts d fun _ _ _ _ _ => trivial⟩

theorem within_head_applyTransaction (clock : Nat) (skip : Skip) (trx : Transaction) :
    Within headLicence (applyTransaction clock skip n trx) := by
  have hops : Within headLicence
      (Action.forEach trx.operations fun op => applyOperation clock n op) :=
    within_forEach fun op => within_head_applyOperation clock op
  have hbandwidth : Within headLicence (chargeBandwidth trx : Act n Unit) :=
    within_head (within_chargeBandwidth trx)
  unfold applyTransaction
  repeat' first
    | with_reducible apply within_bind | with_reducible apply within_ite | intro _
    | exact hops | exact hbandwidth | exact within_create trivial | simp

/-! ## 3. The first half of a block -/

/-- What the numbers are when the head has moved on to `b`. -/
def nextAnchor (b : SignedBlock) (a : Anchor) : Anchor :=
  ⟨⟨b.blockNum, b.toSignedBlockHeader.id, a.head.lastIrreversible⟩, b.timestamp,
    a.maximumProposalLifetime⟩

/-- The head has moved on to `b`. -/
structure HeadMoved (b : SignedBlock) (s t : Store chainSchema) : Prop where
  anchor : ∃ p q : DynamicGlobalProperty, s.get Kind.dynamicGlobalProperty 0 = some p ∧
    t.get Kind.dynamicGlobalProperty 0 = some q ∧ q.anchor = nextAnchor b p.anchor
  bounded : ∀ bound, Bounded bound s → Bounded bound t

theorem HeadMoved.of_sameHead {b : SignedBlock} {s t u v : Store chainSchema}
    (h' : HeadMoved b t u) (h : SameHead s t) (h'' : SameHead u v) : HeadMoved b s v := by
  obtain ⟨p, q, hp, hq, he⟩ := h'.anchor
  have hs := h.anchor
  have hv := h''.anchor
  rw [hp] at hs
  rw [hq] at hv
  obtain ⟨p', hp', hpe⟩ := Option.map_eq_some_iff.mp hs
  obtain ⟨q', hq', hqe⟩ := Option.map_eq_some_iff.mp hv.symm
  refine ⟨⟨p', q', hp', hq', ?_⟩, fun bound hb => ?_⟩
  · rw [hqe, he, hpe]
  · exact h''.bounded bound (h'.bounded bound (h.bounded bound hb))

omit [Fc] in
/-- Only the global properties are written. -/
theorem modifyDgp_ok {β : Type} {f : DynamicGlobalProperty → Except Exn β}
    {upd : DynamicGlobalProperty → β → DynamicGlobalProperty} {d d' : Database chainSchema}
    {u : Unit} (h : (modifyDgp f upd : Act n Unit).run d = .ok u d') :
    ∃ (p : DynamicGlobalProperty) (x : β), d.store.get Kind.dynamicGlobalProperty 0 = some p ∧
      f p = .ok x ∧ d'.store.get Kind.dynamicGlobalProperty 0 = some (upd p x) ∧
      ∀ bound, Bounded bound d.store → Bounded bound d'.store := by
  obtain ⟨p, x, hp, hx, hfree, hstore⟩ := modifyWith_store h
  refine ⟨p, x, hp, hx, by rw [hstore, Store.get_write_self, if_pos rfl], fun bound hb i w hw => ?_⟩
  rw [hstore, Store.get_write_ne _ (show Kind.witness ≠ Kind.dynamicGlobalProperty by decide)] at hw
  exact hb i w hw

theorem headMoved_nextProperties {b : SignedBlock} {missed : Nat} {d d' : Database chainSchema}
    {u : Unit} (h : (modifyDgp (fun p => .ok (nextProperties b missed p)) fun _ p => p :
      Act n Unit).run d = .ok u d') : HeadMoved b d.store d'.store := by
  obtain ⟨p, q, hp, hq, hnext, hbound⟩ := modifyDgp_ok h
  cases hq
  exact ⟨⟨p, _, hp, hnext, rfl⟩, hbound⟩

theorem headMoved_updateGlobalDynamicData {skip : Skip} {b : SignedBlock}
    {d d' : Database chainSchema} {u : Unit}
    (h : (updateGlobalDynamicData skip b : Act n Unit).run d = .ok u d') :
    HeadMoved b d.store d'.store := by
  have htail : ∀ missed d, (do
      Action.forEach (List.range missed) fun i => countMissed b i
      modifyDgp (fun p => .ok (nextProperties b missed p)) fun _ p => p
      let p ← getDynamicGlobalProperties
      if skip.undoHistoryCheck then pure ()
      else
        Action.require (sub32 p.headBlockNumber p.lastIrreversibleBlockNum < maxUndoHistory)
          "Please add a checkpoint if you would like to continue applying blocks beyond this point."
      : Act n Unit).run d = .ok u d' → HeadMoved b d.store d'.store := by
    intro missed d h
    obtain ⟨_, d₁, hcount, h1⟩ := Action.bind_ok.mp h
    obtain ⟨_, d₂, hmove, h2⟩ := Action.bind_ok.mp h1
    obtain ⟨p, e3, hp, h3⟩ := Action.bind_ok.mp h2
    have hd3 : e3 = d₂ := Looks.of_ok (by simp) hp
    have hd4 : d' = e3 := Looks.of_ok (by simp) h3
    subst hd4 hd3
    have hsame : SameHead d.store d₁.store :=
      (within_forEach fun i => within_head (within_countMissed b i)).sameHead_ok hcount
    exact (headMoved_nextProperties hmove).of_sameHead hsame (SameHead.refl _)
  unfold updateGlobalDynamicData at h
  obtain ⟨now, e1, hnow, h1⟩ := Action.bind_ok.mp h
  have hd1 : e1 = d := Looks.of_ok (by simp) hnow
  subst hd1
  simp only at h1
  split at h1
  · obtain ⟨slot, e2, hslot, h2⟩ := Action.bind_ok.mp h1
    have hd2 : e2 = e1 := Looks.of_ok (by simp) hslot
    subst hd2
    generalize sub32 slot 1 = missed at h2
    exact htail missed _ (Action.bind_pure_ok.mp h2)
  · exact htail _ _ (Action.bind_pure_ok.mp h1)

/-- A block extends the chain at its head, and its time is later. -/
theorem validateBlockHeader_links {skip : Skip} {b : SignedBlock} {d d' : Database chainSchema}
    {wit : Nat} (h : (validateBlockHeader skip b : Act n Nat).run d = .ok wit d') :
    ∃ p : DynamicGlobalProperty, d.store.get Kind.dynamicGlobalProperty 0 = some p ∧
      p.headBlockId = b.previous ∧ p.time < b.timestamp := by
  unfold validateBlockHeader at h
  obtain ⟨p, d₁, hp, h1⟩ := Action.bind_ok.mp h
  obtain ⟨_, d₂, hprev, h2⟩ := Action.bind_ok.mp h1
  obtain ⟨_, d₃, htime, _⟩ := Action.bind_ok.mp h2
  exact ⟨p, (Action.get_ok.mp hp).1, (Action.require_ok.mp hprev).1, (Action.require_ok.mp htime).1⟩

theorem applyBlockFirst_moved {clock : Nat} {skip : Skip} {b : SignedBlock}
    {d d' : Database chainSchema} {wit : Nat}
    (h : (applyBlockFirst clock skip n b).run d = .ok wit d') :
    HeadMoved b d.store d'.store ∧
      ∃ p : DynamicGlobalProperty, d.store.get Kind.dynamicGlobalProperty 0 = some p ∧
        p.headBlockId = b.previous ∧ p.time < b.timestamp := by
  unfold applyBlockFirst at h
  obtain ⟨_, e1, hmerkle, h1⟩ := Action.bind_ok.mp h
  obtain ⟨_, e2, hheader, h2⟩ := Action.bind_ok.mp h1
  obtain ⟨_, e3, hprops, h3⟩ := Action.bind_ok.mp h2
  obtain ⟨_, e4, hsize, h4⟩ := Action.bind_ok.mp h3
  obtain ⟨_, d₁, hwitness, h5⟩ := Action.bind_ok.mp h4
  obtain ⟨_, d₂, hext, h6⟩ := Action.bind_ok.mp h5
  obtain ⟨_, e5, hw, h7⟩ := Action.bind_ok.mp h6
  obtain ⟨_, e6, hh, h8⟩ := Action.bind_ok.mp h7
  obtain ⟨_, e7, hversion, h9⟩ := Action.bind_ok.mp h8
  obtain ⟨_, d₃, happly, h10⟩ := Action.bind_ok.mp h9
  obtain ⟨_, d₄, hupdate, hpure⟩ := Action.bind_ok.mp h10
  cases hpure
  have hd1 : e1 = d := Looks.of_ok (by simp) hmerkle
  have hd2 : e2 = e1 := Looks.of_ok (by simp) hheader
  have hd3 : e3 = e2 := Looks.of_ok (by simp) hprops
  have hd4 : e4 = e3 := Looks.of_ok (by simp) hsize
  have hd5 : e5 = d₂ := Looks.of_ok (by simp) hw
  have hd6 : e6 = e5 := Looks.of_ok (by simp) hh
  have hd7 : e7 = e6 := Looks.of_ok (by simp) hversion
  subst hd7 hd6 hd5 hd4 hd3 hd2 hd1
  have hs1 := (within_head_dgp (by intro p _; rfl)).sameHead_ok hwitness
  have hs2 := (within_head (within_processHeaderExtensions b)).sameHead_ok hext
  have hs3 := (within_forEach fun trx => within_head_applyTransaction clock skip trx).sameHead_ok
    happly
  exact ⟨(headMoved_updateGlobalDynamicData hupdate).of_sameHead ((hs1.trans hs2).trans hs3)
    (SameHead.refl _), validateBlockHeader_links hheader⟩

/-! ## 4. The second half -/

/-- The last irreversible block has moved on. -/
structure LibMoved (s t : Store chainSchema) : Prop where
  anchor : ∃ (p q : DynamicGlobalProperty), s.get Kind.dynamicGlobalProperty 0 = some p ∧
    t.get Kind.dynamicGlobalProperty 0 = some q ∧
    q.anchor = { p.anchor with head := { p.head with lastIrreversible := q.lastIrreversibleBlockNum } } ∧
    (p.headBlockNumber < startMinerVotingBlock → q.lastIrreversibleBlockNum =
      if maxMiners < p.headBlockNumber then p.headBlockNumber - maxMiners
      else p.lastIrreversibleBlockNum) ∧
    (startMinerVotingBlock ≤ p.headBlockNumber →
      q.lastIrreversibleBlockNum = p.lastIrreversibleBlockNum ∨
      (p.lastIrreversibleBlockNum < q.lastIrreversibleBlockNum ∧
        ∀ bound, Bounded bound s → q.lastIrreversibleBlockNum ≤ bound))
  bounded : ∀ bound, Bounded bound s → Bounded bound t

omit [Fc] in
/-- The confirmations that are collected are those of witnesses. -/
theorem confirmed_bounded {names : List String} {nums nums' : List Nat} {bound : Nat}
    {d d' : Database chainSchema}
    (h : (Action.foldEach names nums fun nums name => do
      let w ← getWitness name
      pure (nums ++ [w.lastConfirmedBlockNum]) : Act n (List Nat)).run d = .ok nums' d')
    (hb : Bounded bound d.store) (hn : ∀ m ∈ nums, m ≤ bound) : ∀ m ∈ nums', m ≤ bound := by
  induction names generalizing nums d with
  | nil =>
    cases h
    exact hn
  | cons name names ih =>
    obtain ⟨nums₁, d₁, h1, h2⟩ := Action.bind_ok.mp h
    obtain ⟨w, e1, hw, hpure⟩ := Action.bind_ok.mp h1
    cases hpure
    obtain ⟨i, e2, hi, hget⟩ := Action.bind_ok.mp hw
    have hd2 : e2 = d := Looks.of_ok (by simp) hi
    obtain ⟨hget, rfl⟩ := Action.get_ok.mp hget
    subst hd2
    refine ih h2 hb fun m hm => ?_
    rcases List.mem_append.mp hm with hm | hm
    · exact hn m hm
    · rw [List.mem_singleton.mp hm]
      exact hb i w hget

omit [Fc] in
theorem libMoved_updateLastIrreversibleBlock {d d' : Database chainSchema} {u : Unit}
    (h : (updateLastIrreversibleBlock : Act n Unit).run d = .ok u d') :
    LibMoved d.store d'.store := by
  unfold updateLastIrreversibleBlock at h
  obtain ⟨p, e1, hp, h1⟩ := Action.bind_ok.mp h
  obtain ⟨hp, rfl⟩ := Action.get_ok.mp hp
  split at h1
  · rename_i hearly
    obtain ⟨p', x, hp', _, hq, hbound⟩ := modifyDgp_ok h1
    obtain rfl : p' = p := Option.some.inj (hp'.symm.trans hp)
    exact ⟨⟨p', _, hp, hq, rfl, fun _ => rfl,
      fun hlate => absurd hearly (Nat.not_lt.mpr hlate)⟩, hbound⟩
  · rename_i hlate
    obtain ⟨wso, e2, hwso, h2⟩ := Action.bind_ok.mp h1
    have hd2 : e2 = e1 := Looks.of_ok (by simp) hwso
    obtain ⟨nums, e3, hnums, h3⟩ := Action.bind_ok.mp h2
    have hd3 : e3 = e2 := Looks.of_ok (looks_foldEach (fun _ _ => by simp) _) hnums
    subst hd3 hd2
    simp only at h3
    split at h3
    · cases h3
    · rename_i num hnum
      have hmem : num ∈ nums := by
        have := List.mem_of_getElem? hnum
        exact (List.perm_insertionSort _ _).mem_iff.mp this
      split at h3
      · rename_i hhigher
        obtain ⟨p', x, hp', _, hq, hbound⟩ := modifyDgp_ok h3
        obtain rfl : p' = p := Option.some.inj (hp'.symm.trans hp)
        refine ⟨⟨p', _, hp, hq, rfl, fun hearly => absurd hearly hlate,
          fun _ => .inr ⟨hhigher, fun bound hb => ?_⟩⟩, hbound⟩
        exact confirmed_bounded hnums hb (List.forall_mem_nil _) num hmem
      · cases h3
        exact ⟨⟨p, p, hp, hp, rfl, fun hearly => absurd hearly hlate, fun _ => .inl rfl⟩,
          fun _ hb => hb⟩

omit [Fc] in
theorem LibMoved.of_sameHead {s t u : Store chainSchema} (h : LibMoved s t) (h' : SameHead t u) :
    LibMoved s u := by
  obtain ⟨p, q, hp, hq, he, hearly, hlate⟩ := h.anchor
  have hu := h'.anchor
  rw [hq] at hu
  obtain ⟨q', hq', hqe⟩ := Option.map_eq_some_iff.mp hu.symm
  have hlib : q'.lastIrreversibleBlockNum = q.lastIrreversibleBlockNum :=
    congrArg (fun a : Anchor => a.head.lastIrreversible) hqe
  refine ⟨⟨p, q', hp, hq', ?_, ?_, ?_⟩, fun bound hb => h'.bounded bound (h.bounded bound hb)⟩
  · rw [hqe, he, hlib]
  · rw [hlib]
    exact hearly
  · rw [hlib]
    exact hlate

omit [Fc] in
/-- The signing witness confirms the block. -/
theorem updateSigningWitness_ok {wit : Nat} {b : SignedBlock} {d d' : Database chainSchema}
    {u : Unit} (h : (updateSigningWitness wit b : Act n Unit).run d = .ok u d') :
    d'.store.get Kind.dynamicGlobalProperty 0 = d.store.get Kind.dynamicGlobalProperty 0 ∧
      ∀ bound, b.blockNum ≤ bound → Bounded bound d.store → Bounded bound d'.store := by
  unfold updateSigningWitness at h
  obtain ⟨p, e1, hp, h1⟩ := Action.bind_ok.mp h
  obtain ⟨slot, e2, hslot, h2⟩ := Action.bind_ok.mp h1
  have hd1 : e1 = d := Looks.of_ok (by simp) hp
  have hd2 : e2 = e1 := Looks.of_ok (by simp) hslot
  subst hd2 hd1
  obtain ⟨w, x, hw, hx, hfree, hstore⟩ := modifyWith_store h2
  refine ⟨?_, fun bound hle hb i v hv => ?_⟩
  · rw [hstore, Store.get_write_ne _ (show Kind.dynamicGlobalProperty ≠ Kind.witness by decide)]
  · rw [hstore, Store.get_write_self] at hv
    split at hv
    · cases hv
      exact hle
    · exact hb i v hv

theorem within_head_afterIrreversible (clock : Nat) (b : SignedBlock) :
    Within headLicence (do
      createBlockSummary b
      clearExpiredTransactions
      clearExpiredProposals clock n
      clearExpiredOrders
      updateWitnessSchedule
      updateMedianFeed
      updateVirtualSupply
      payBlock
      updateVirtualSupply
      accountRecoveryProcessing
      processHardforks : Act n Unit) := by
  have hc := clockFree_same clock
  have hproposals : Within (opLicence fun _ => True) (clearExpiredProposals clock n) :=
    ⟨fun d => (agree_clearExpiredProposals (opLicence_keeps _) (agree_pushProposal hc n)).acts d
      fun _ _ _ _ _ => trivial⟩
  have htransactions : Within headLicence (clearExpiredTransactions : Act n Unit) :=
    within_bind (by simp) fun now => within_bind (looks_read _).within fun due =>
      within_forEach fun t => within_remove fun _ => trivial
  have hsummary : Within headLicence (createBlockSummary b : Act n Unit) :=
    within_modify (.inl trivial) fun _ => trivial
  refine within_bind hsummary fun _ => within_bind htransactions fun _ => within_head ?_
  refine within_bind hproposals fun _ => within_bind within_clearExpiredOrders fun _ =>
    within_bind within_updateWitnessSchedule fun _ => within_bind within_updateMedianFeed fun _ => ?_
  refine within_bind within_updateVirtualSupply fun _ => within_bind within_payBlock fun _ => ?_
  exact within_bind within_updateVirtualSupply fun _ => within_bind
    within_accountRecoveryProcessing fun _ => within_processHardforks

/-- What the second half does: the block is confirmed, then the irreversible block moves on. -/
theorem applyBlockRest_moved {clock wit : Nat} {b : SignedBlock} {d d' : Database chainSchema}
    {u : Unit} (h : (applyBlockRest clock n wit b).run d = .ok u d') :
    ∃ t, t.get Kind.dynamicGlobalProperty 0 = d.store.get Kind.dynamicGlobalProperty 0 ∧
      (∀ bound, b.blockNum ≤ bound → Bounded bound d.store → Bounded bound t) ∧
      LibMoved t d'.store := by
  unfold applyBlockRest at h
  obtain ⟨_, d₁, h1, hrest⟩ := Action.bind_ok.mp h
  obtain ⟨_, d₂, h2, hrest⟩ := Action.bind_ok.mp hrest
  obtain ⟨hprops, hbound⟩ := updateSigningWitness_ok h1
  refine ⟨d₁.store, hprops, hbound, ?_⟩
  exact (libMoved_updateLastIrreversibleBlock h2).of_sameHead
    ((within_head_afterIrreversible clock b).sameHead_ok hrest)

/-! ## 5. Numbers that fit together -/

/-- The numbers of a state: the id of the head names its number, there were no more blocks than
seconds since the genesis, and nothing above the head is confirmed or irreversible. Before the witnesses are voted
for, the last irreversible block is `MUSE_MAX_MINERS` behind. -/
structure Numbered (s : Store chainSchema) : Prop where
  id : s.props.headBlockId.num = s.props.headBlockNumber
  time : ∀ p : DynamicGlobalProperty, s.get Kind.dynamicGlobalProperty 0 = some p →
    p.headBlockNumber + genesisTime ≤ p.time
  confirmed : Bounded s.props.headBlockNumber s
  irreversible : s.props.lastIrreversibleBlockNum ≤ s.props.headBlockNumber
  early : s.props.headBlockNumber < startMinerVotingBlock →
    s.props.lastIrreversibleBlockNum ≤ s.props.headBlockNumber - maxMiners

/-- The state `t` is the state `s` with one block more. -/
structure Extends (b : SignedBlock) (s t : Store chainSchema) : Prop where
  previous : s.props.headBlockId = b.previous
  number : b.blockNum = s.props.headBlockNumber + 1
  headNumber : t.props.headBlockNumber = b.blockNum
  headId : t.props.headBlockId = b.toSignedBlockHeader.id
  irreversible : s.props.lastIrreversibleBlockNum ≤ t.props.lastIrreversibleBlockNum
  numbered : Numbered t

/-- The numbers after the first half. -/
theorem applyBlockFirst_numbers {clock wit : Nat} {skip : Skip} {b : SignedBlock}
    {d d₁ : Database chainSchema} (hfirst : (applyBlockFirst clock skip n b).run d = .ok wit d₁)
    (hs : Numbered d.store) (hb : b.timestamp < 2 ^ 32) :
    b.blockNum = d.store.props.headBlockNumber + 1 ∧ b.blockNum + genesisTime ≤ b.timestamp ∧
      d₁.store.props.anchor = nextAnchor b d.store.props.anchor := by
  obtain ⟨⟨⟨p, q, hp, hq, hqe⟩, _⟩, p', hp', hprev, htime⟩ := applyBlockFirst_moved hfirst
  obtain rfl : p' = p := Option.some.inj (hp'.symm.trans hp)
  have hnum := hs.time p' hp
  have hid := hs.id
  rw [Store.props_of_get hp, Store.props_of_get hq]
  rw [Store.props_of_get hp] at hid
  have hblock : b.blockNum = p'.headBlockNumber + 1 := by
    show u32 (b.previous.num + 1) = _
    rw [← hprev, hid]
    have := (show genesisTime = 1458835200 from rfl)
    exact Nat.mod_eq_of_lt (by omega)
  exact ⟨hblock, by omega, hqe⟩

/-- The two halves of a block together. -/
theorem extends_of_halves {clock wit : Nat} {skip : Skip} {b : SignedBlock}
    {d d₁ d₂ d' : Database chainSchema} {u : Unit}
    (hfirst : (applyBlockFirst clock skip n b).run d = .ok wit d₁) (hd : d₂.store = d₁.store)
    (hrest : (applyBlockRest clock n wit b).run d₂ = .ok u d') (hs : Numbered d.store)
    (hb : b.timestamp < 2 ^ 32) : Extends b d.store d'.store := by
  obtain ⟨hblock, htime, _⟩ := applyBlockFirst_numbers hfirst hs hb
  obtain ⟨⟨⟨p, q, hp, hq, hqe⟩, hbound⟩, p', hp', hprev, _⟩ := applyBlockFirst_moved hfirst
  obtain rfl : p' = p := Option.some.inj (hp'.symm.trans hp)
  obtain ⟨t, hprops, hbound', hlib⟩ := applyBlockRest_moved hrest
  rw [hd, hq] at hprops
  obtain ⟨⟨r, v, hr, hv, hve, hearly, hlate⟩, hbound''⟩ := hlib
  obtain rfl : r = q := Option.some.inj (hr.symm.trans hprops)
  obtain ⟨hid, _, hconf, hirr, hearly0⟩ := hs
  have ep := Store.props_of_get hp
  have ev := Store.props_of_get hv
  rw [ep] at hconf hirr hearly0 hblock
  have q1 : r.headBlockNumber = b.blockNum := congrArg (fun a : Anchor => a.head.number) hqe
  have q2 : r.lastIrreversibleBlockNum = p'.lastIrreversibleBlockNum :=
    congrArg (fun a : Anchor => a.head.lastIrreversible) hqe
  have q3 : r.headBlockId = b.toSignedBlockHeader.id := congrArg (fun a : Anchor => a.head.id) hqe
  have q4 : r.time = b.timestamp := congrArg (fun a : Anchor => a.time) hqe
  have v1 : v.headBlockNumber = r.headBlockNumber := congrArg (fun a : Anchor => a.head.number) hve
  have v2 : v.headBlockId = r.headBlockId := congrArg (fun a : Anchor => a.head.id) hve
  have v3 : v.time = r.time := congrArg (fun a : Anchor => a.time) hve
  have hconf' : Bounded b.blockNum t := by
    refine hbound' _ (Nat.le_refl _) ?_
    rw [hd]
    refine hbound _ fun i w hw => ?_
    have := hconf i w hw
    omega
  have hlib : p'.lastIrreversibleBlockNum ≤ v.lastIrreversibleBlockNum ∧
      v.lastIrreversibleBlockNum ≤ b.blockNum ∧
      (b.blockNum < startMinerVotingBlock → v.lastIrreversibleBlockNum ≤ b.blockNum - maxMiners) := by
    by_cases hstart : r.headBlockNumber < startMinerVotingBlock
    · have hv' := hearly hstart
      have hp0 := hearly0 (by omega)
      split at hv' <;> omega
    · refine ⟨?_, ?_, fun h => absurd (q1 ▸ h) hstart⟩
      · rcases hlate (Nat.not_lt.mp hstart) with h | ⟨h, _⟩ <;> omega
      · rcases hlate (Nat.not_lt.mp hstart) with h | ⟨_, h⟩
        · omega
        · exact h _ hconf'
  obtain ⟨hlib1, hlib2, hlib3⟩ := hlib
  have hnumber : v.headBlockNumber = b.blockNum := v1.trans q1
  refine ⟨by rw [ep]; exact hprev, by rw [ep]; exact hblock, by rw [ev, hnumber],
    by rw [ev, v2, q3], by rw [ep, ev]; exact hlib1, ?_⟩
  refine ⟨?_, fun v' hv' => ?_, ?_, ?_, ?_⟩
  · rw [ev, hnumber, v2, q3]
    rfl
  · obtain rfl : v' = v := Option.some.inj (hv'.symm.trans hv)
    omega
  · rw [ev, hnumber]
    exact hbound'' _ hconf'
  · rw [ev, hnumber]
    exact hlib2
  · rw [ev, hnumber]
    exact hlib3

/-! ## 6. The genesis -/

/-- Nothing but the genesis itself makes the global properties, and they start before block 1. No
transaction is put into its index, and no witness has confirmed anything. -/
def genesisLicence : Licence chainSchema where
  create
    | .transaction => fun _ => False
    | .dynamicGlobalProperty => fun p => p.head = ⟨0, ⟨0, 0⟩, 0⟩ ∧ p.time = genesisTime
    | .witness => fun w => w.lastConfirmedBlockNum = 0
    | _ => fun _ => True
  modify
    | .transaction => fun _ _ _ => False
    | .dynamicGlobalProperty => fun _ p q => p.anchor = q.anchor
    | .witness => fun _ w v => w.lastConfirmedBlockNum = v.lastConfirmedBlockNum
    | _ => fun _ _ _ => True
  remove _ _ _ := True
  spoil _ := True

def genesisLaw : Law chainSchema where
  rel
    | .transaction => fun o q : Option TransactionObject => o = none → q = none
    | .dynamicGlobalProperty => fun o q : Option DynamicGlobalProperty =>
        (∀ p, o = some p → p.head = ⟨0, ⟨0, 0⟩, 0⟩ ∧ p.time = genesisTime) →
          ∀ p, q = some p → p.head = ⟨0, ⟨0, 0⟩, 0⟩ ∧ p.time = genesisTime
    | .witness => fun o q : Option Witness => (∀ w, o = some w → w.lastConfirmedBlockNum = 0) →
        ∀ w, q = some w → w.lastConfirmedBlockNum = 0
    | _ => fun _ _ => True
  refl := by
    intro k o
    cases k with
    | transaction | dynamicGlobalProperty | witness => exact id
    | _ => trivial
  trans := by
    intro k o p q h h'
    cases k with
    | transaction | dynamicGlobalProperty | witness => exact h' ∘ h
    | _ => trivial

omit [Fc] in
theorem genesisLicence_respects : genesisLicence.Respects genesisLaw.idLaw where
  create {k i a} h := by
    cases k with
    | transaction => exact h.elim
    | dynamicGlobalProperty | witness =>
      intro _ p hp
      cases hp
      exact h
    | _ => trivial
  modify {k i a b} h := by
    cases k with
    | transaction => exact h.elim
    | dynamicGlobalProperty =>
      intro ho p hp
      cases hp
      have he : b.anchor = a.anchor := Eq.symm h
      obtain ⟨hhead, htime⟩ := ho a rfl
      exact ⟨(congrArg Anchor.head he).trans hhead, (congrArg Anchor.time he).trans htime⟩
    | witness =>
      intro ho p hp
      cases hp
      exact (Eq.symm h).trans (ho a rfl)
    | _ => trivial
  remove {k i a} h := by
    cases k with
    | transaction => exact fun _ => rfl
    | dynamicGlobalProperty | witness => exact fun _ p hp => nomatch hp
    | _ => trivial
  spoil {k i} h a := by
    cases k with
    | transaction => exact fun _ => rfl
    | dynamicGlobalProperty | witness => exact fun _ p hp => nomatch hp
    | _ => trivial

omit [Fc] in
theorem opLicence_le_genesis {ok : Operation → Prop} : (opLicence ok).Le genesisLicence where
  create {k a} h := by
    cases k with
    | transaction | dynamicGlobalProperty => cases h
    | witness => exact h
    | _ => trivial
  modify {k i a b} h := by
    cases k with
    | transaction => cases h
    | dynamicGlobalProperty | witness => exact h
    | _ => trivial
  remove _ := trivial
  spoil _ := trivial

omit [Fc] in
theorem within_genesis {α : Type} {x : Act n α} (h : Within (opLicence fun _ => True) x) :
    Within genesisLicence x := h.mono opLicence_le_genesis

theorem within_initGenesis (g : GenesisState) : Within genesisLicence (initGenesis g) := by
  have haccounts : Within genesisLicence (initAccounts g) := by
    unfold initAccounts
    repeat' first
      | with_reducible apply within_bind | intro _ | exact within_create trivial
      | exact within_create rfl
    simp
  have hglobals : Within genesisLicence (initGlobals g) := by
    unfold initGlobals
    refine within_bind (within_create ⟨rfl, rfl⟩) fun _ => ?_
    repeat' first | with_reducible apply within_bind | intro _ | exact within_create trivial
    simp
  have hdgp : ∀ {β : Type} {f : DynamicGlobalProperty → Except Exn β}
      {upd : DynamicGlobalProperty → β → DynamicGlobalProperty},
      (∀ p x, p.anchor = (upd p x).anchor) → Within genesisLicence (modifyDgp f upd : Act 0 Unit) :=
    fun h => within_modifyWith (.inr rfl) (.inl (.inr rfl)) fun p x _ => h p x
  have himport : ∀ a, Within genesisLicence (importAccount a) := fun a => by
    unfold importAccount
    exact within_genesis (within_accountCreate _)
  unfold initGenesis
  refine within_bind haccounts fun _ => within_bind hglobals fun _ => ?_
  refine within_bind (within_forEach himport) fun _ => ?_
  refine within_bind (within_forEach fun a => ?_) fun _ => ?_
  · exact within_bind (by simp) fun _ => within_bind (within_create trivial) fun _ => by simp
  refine within_bind (within_forEach fun b => ?_) fun _ => within_forEach fun v => ?_
  · refine within_bind (within_create trivial) fun _ => within_bind (hdgp ?_) fun _ => ?_
    · intro p x
      rfl
    · exact within_genesis (within_changeAssetSupply _ _)
  · refine within_bind (by simp) fun _ => within_bind ?_ fun _ => hdgp ?_
    · exact within_modifyWith (.inl trivial) (.inl (.inl trivial)) fun _ _ _ => trivial
    · intro p x
      rfl

/-- **Where the chain starts.** -/
theorem genesis_start (g : GenesisState) :
    (∀ i, (Node.genesis g).db.store.get Kind.transaction i = none) ∧
      (Node.genesis g).db.store.props.head = ⟨0, ⟨0, 0⟩, 0⟩ ∧
      (∀ p : DynamicGlobalProperty, (Node.genesis g).db.store.get Kind.dynamicGlobalProperty 0 =
        some p → p.headBlockNumber + genesisTime ≤ p.time) ∧
      Bounded 0 (Node.genesis g).db.store := by
  have hrev : Reversible genesisLaw.idLaw emptyStore := by
    intro k i o _
    cases k with
    | transaction => exact fun _ => rfl
    | dynamicGlobalProperty | witness => exact fun _ p hp => nomatch hp
    | _ => trivial
  have ho : Obeys genesisLaw emptyStore ((initGenesis g).run emptyDatabase).db.store :=
    (within_initGenesis g).obeys genesisLicence_respects (d := emptyDatabase) hrev
  rw [Node.genesis_store]
  generalize ((initGenesis g).run emptyDatabase).db.store = s at ho ⊢
  have hprops := ho Kind.dynamicGlobalProperty 0 fun p hp => nomatch hp
  refine ⟨fun i => ho Kind.transaction i rfl, ?_, fun p hp => ?_, fun i w hw => ?_⟩
  · unfold Store.props
    cases hp : s.get Kind.dynamicGlobalProperty 0 with
    | none => rfl
    | some p => exact (hprops p hp).1
  · obtain ⟨hhead, htime⟩ := hprops p hp
    have hnum : p.headBlockNumber = 0 := congrArg Head.number hhead
    omega
  · exact (ho Kind.witness i (fun w hw => nomatch hw) w hw).le

theorem genesis_numbered (g : GenesisState) : Numbered (Node.genesis g).db.store := by
  obtain ⟨_, hhead, htime, hbound⟩ := genesis_start g
  generalize (Node.genesis g).db.store = s at hhead htime hbound ⊢
  have h1 : s.props.headBlockNumber = 0 := congrArg Head.number hhead
  have h2 : s.props.headBlockId = ⟨0, 0⟩ := congrArg Head.id hhead
  have h3 : s.props.lastIrreversibleBlockNum = 0 := congrArg Head.lastIrreversible hhead
  refine ⟨by rw [h1, h2], htime, ?_, by omega, fun _ => by omega⟩
  rw [h1]
  exact hbound

end

end MuseChain
