/-
  File:      MuseChain/Safety/Hardforks.lean
  Subject:   Hardforks are applied in their order, each once, and after a vote.

  * `InOrder h`: what is recorded of the hardforks is a beginning of the list of all of them.
  * `hardforkEach_ok`: what the loop of `process_hardforks` did when it returns;
    `processHardforks_turns`: it does not run out of turns.
  * `Elects s v`: the schedule update that starts from `s` finds a majority for the version `v`.
  * `Mandated past h`: the next hardfork was elected, or is not newer than the current one.
-/
import MuseChain.Safety.Founding

namespace MuseChain

variable {n : Nat} {d d' : Database chainSchema} {u : Unit}

/-! ## 1. Versions -/

theorem hardforkVersion_of_le {i : Nat} (h : i ≤ numHardforks) : hardforkVersion i = ⟨0, i, 0⟩ := by
  revert i
  decide

/-- A version without a revision that is newer than a hardfork has the next one too. -/
theorem ge_next {v : Version} {i : Nat} (hv : v.revision = 0) (hi : i < numHardforks)
    (h : (hardforkVersion i).lt v = true) : v.ge (hardforkVersion (i + 1)) = true := by
  rw [hardforkVersion_of_le hi.le] at h
  rw [hardforkVersion_of_le hi]
  unfold Version.ge
  unfold Version.lt at h ⊢
  simp only [Bool.or_eq_true, Bool.and_eq_true, decide_eq_true_eq, hv, Bool.not_eq_true',
    Bool.eq_false_iff, ne_eq] at h ⊢
  omega

/-- What is not newer than the last hardfork has no hardfork after it. -/
theorem le_last {v : Version} {i last : Nat} (h : ¬(hardforkVersion last).lt v = true)
    (hi : i ≤ numHardforks) (hv : v.ge (hardforkVersion i) = true) : i ≤ last := by
  by_contra hlt
  rw [hardforkVersion_of_le (by omega)] at h
  rw [hardforkVersion_of_le hi] at hv
  unfold Version.ge at hv
  unfold Version.lt at h hv
  simp only [Bool.or_eq_true, Bool.and_eq_true, decide_eq_true_eq, Bool.not_eq_true',
    Bool.eq_false_iff, ne_eq] at h hv
  omega

/-! ## 2. One hardfork -/

/-- What is recorded of the hardforks is a beginning of the list of all of them. -/
structure InOrder (h : HardforkProperty) : Prop where
  size : h.processedHardforks.length = h.lastHardfork + 1
  times : ∀ i, i ≤ h.lastHardfork → h.processedHardforks[i]? = hardforkTimes[i]?
  version : h.currentHardforkVersion = hardforkVersion h.lastHardfork
  known : h.lastHardfork ≤ numHardforks

/-- The record with one hardfork more. -/
def HardforkProperty.next (h : HardforkProperty) : HardforkProperty :=
  { h with
    processedHardforks := h.processedHardforks ++ [hardforkTimes.getD (h.lastHardfork + 1) 0]
    lastHardfork := h.lastHardfork + 1
    currentHardforkVersion := hardforkVersion (h.lastHardfork + 1) }

theorem InOrder.next {h : HardforkProperty} (hh : InOrder h) (hlt : h.lastHardfork < numHardforks) :
    InOrder h.next := by
  refine ⟨?_, fun i hi => ?_, rfl, hlt⟩
  · simp [HardforkProperty.next, hh.size]
  · simp only [HardforkProperty.next] at hi ⊢
    have hlen := hh.size
    obtain hi | rfl : i ≤ h.lastHardfork ∨ i = h.lastHardfork + 1 := by omega
    · rw [List.getElem?_append_left (by omega)]
      exact hh.times i hi
    · have hbound : h.lastHardfork + 1 < hardforkTimes.length := by
        unfold numHardforks at hlt
        simp only [hardforkTimes, List.length_cons, List.length_nil]
        omega
      rw [List.getElem?_append_right (by omega), hlen, Nat.sub_self, List.getElem?_cons_zero,
        List.getD_eq_getElem?_getD, List.getElem?_eq_getElem hbound, Option.getD_some]

/-- The end of `apply_hardfork`. -/
theorem recordHardfork_ok {hardfork : Nat}
    (hr : (Action.modifyWith (S := chainSchema) Kind.hardforkProperty 0
      (fun h : HardforkProperty => do
        check (hardfork = h.lastHardfork + 1) "Hardfork being applied out of order"
        check (h.processedHardforks.length = hardfork) "Hardfork being applied out of order")
      (fun (h : HardforkProperty) _ =>
        { h with
          processedHardforks := h.processedHardforks ++ [hardforkTimes.getD hardfork 0]
          lastHardfork := hardfork
          currentHardforkVersion := hardforkVersion hardfork }) : Act n Unit).run d = .ok u d') :
    ∃ h : HardforkProperty, d.store.get Kind.hardforkProperty 0 = some h ∧
      hardfork = h.lastHardfork + 1 ∧
      d'.store.get Kind.hardforkProperty 0 = some h.next := by
  obtain ⟨h, _, hget, hcheck, hf, e⟩ := modifyWith_store hr
  obtain ⟨hlast, _⟩ : hardfork = h.lastHardfork + 1 ∧ h.processedHardforks.length = hardfork := by
    obtain ⟨h1, h2⟩ := check_bind_ok.mp hcheck
    exact ⟨h1, check_ok.mp h2⟩
  subst hlast
  refine ⟨h, hget, rfl, ?_⟩
  rw [e, Store.get_write_self, if_pos rfl]
  rfl

theorem applyHardfork_ok {hardfork : Nat}
    (hr : (applyHardfork hardfork : Act n Unit).run d = .ok u d') :
    ∃ h : HardforkProperty, d.store.get Kind.hardforkProperty 0 = some h ∧
      hardfork = h.lastHardfork + 1 ∧ d'.store.get Kind.hardforkProperty 0 = some h.next := by
  have hafter : ∀ {d₁ : Database chainSchema} {l : List Part} {x : Act n Unit},
      Composed l x → .made .hardforkProperty ∉ l → .gone .hardforkProperty ∉ l →
      .whole .hardforkProperty ∉ l → x.run d = .ok () d₁ →
      d₁.store.get Kind.hardforkProperty 0 = d.store.get Kind.hardforkProperty 0 :=
    fun hx hm hg hw h => get_of_unchanged (hx.steps.step h) hm hg fun _ _ hab =>
      Or.resolve_left hab hw
  unfold applyHardfork at hr
  split at hr
  · obtain ⟨_, d₁, hname, h1⟩ := Action.bind_ok.mp hr
    obtain rfl := (looks_getAccountId _).of_ok hname
    exact recordHardfork_ok h1
  · split at hr
    · obtain ⟨_, d₁, hclear, h1⟩ := Action.bind_ok.mp hr
      have hsame := hafter (l := hardforkParts.tail) (composed_clearSupplyDelta (by decide)) (by decide)
        (by decide) (by decide) hclear
      rw [← hsame]
      exact recordHardfork_ok h1
    · split at hr
      · obtain ⟨_, d₁, hremove, h1⟩ := Action.bind_ok.mp hr
        have hsame := hafter (l := hardforkParts.tail) (composed_removeExpiredProposals (by decide))
          (by decide) (by decide) (by decide) hremove
        rw [← hsame]
        exact recordHardfork_ok h1
      · exact recordHardfork_ok hr

/-! ## 3. The loop -/

/-- What the loop of `process_hardforks` did when it returns. -/
structure HardforksApplied (h h' : HardforkProperty) : Prop where
  next : h'.nextHardfork = h.nextHardfork
  time : h'.nextHardforkTime = h.nextHardforkTime
  mono : h.lastHardfork ≤ h'.lastHardfork
  ordered : InOrder h → InOrder h'
  newer : ∀ i, h.lastHardfork ≤ i → i < h'.lastHardfork →
    i < numHardforks ∧ (hardforkVersion i).lt h.nextHardfork = true

theorem hardforkEach_ok {turns : Nat} (hr : (hardforkEach turns : Act n Unit).run d = .ok u d') :
    ∃ (h h' : HardforkProperty) (p : DynamicGlobalProperty),
      d.store.get Kind.hardforkProperty 0 = some h ∧
      d'.store.get Kind.hardforkProperty 0 = some h' ∧
      d'.store.get Kind.dynamicGlobalProperty 0 = some p ∧ HardforksApplied h h' ∧
      ¬((hardforkVersion h'.lastHardfork).lt h'.nextHardfork = true ∧
        h'.nextHardforkTime ≤ p.time) := by
  induction turns generalizing d with
  | zero => cases hr
  | succ turns ih =>
    unfold hardforkEach at hr
    obtain ⟨h, d₁, hget, h1⟩ := Action.bind_ok.mp hr
    obtain ⟨hh, rfl⟩ := getObject_ok.mp hget
    obtain ⟨now, d₁, hnow, h2⟩ := Action.bind_ok.mp h1
    obtain ⟨p, hp, hpure⟩ := bind_getDgp_ok.mp hnow
    cases hpure
    split at h2
    · rename_i hturn
      obtain ⟨hnewer, _⟩ := Bool.and_eq_true_iff.mp hturn
      split at h2
      · rename_i hlt
        obtain ⟨_, d₂, happly, h3⟩ := Action.bind_ok.mp h2
        obtain ⟨h₀, hh₀, _, hnext⟩ := applyHardfork_ok happly
        obtain rfl : h₀ = h := Option.some.inj (hh₀.symm.trans hh)
        obtain ⟨h₁, h', q, hh₁, hh', hq, happlied, hend⟩ := ih h3
        obtain rfl : h₀.next = h₁ := Option.some.inj (hnext.symm.trans hh₁)
        refine ⟨h₀, h', q, hh₀, hh', hq, ⟨happlied.next, happlied.time, ?_, fun ho => ?_,
          fun i hi hi' => ?_⟩, hend⟩
        · exact Nat.le_of_succ_le happlied.mono
        · exact happlied.ordered (ho.next hlt)
        · obtain rfl | hi := Nat.eq_or_lt_of_le hi
          · exact ⟨hlt, hnewer⟩
          · exact happlied.newer i hi hi'
      · cases h2
    · rename_i hstop
      cases h2
      refine ⟨h, h, p, hh, hh, hp, ⟨rfl, rfl, le_rfl, id, fun i hi hi' => ?_⟩, ?_⟩
      · omega
      · rintro ⟨h1, h2⟩
        exact hstop (by rw [h1, decide_eq_true h2, Bool.and_self])

theorem bind_not_crash {α β : Type} {why : String} {x : Except Exn α} {f : α → Except Exn β}
    (hx : x ≠ .error (.crash why)) (hf : ∀ a, f a ≠ .error (.crash why)) :
    x >>= f ≠ .error (.crash why) := by
  cases x with
  | ok a => exact hf a
  | error e =>
    intro h
    cases h
    exact hx rfl

theorem add_not_crash (a b : Asset) (why : String) : a.add b ≠ .error (.crash why) := by
  have hsafe : safe (a.amount + b.amount) ≠ .error (.crash why) := by
    unfold safe
    split <;> nofun
  unfold Asset.add Asset.sameAsset
  refine bind_not_crash ?_ fun _ => bind_not_crash hsafe fun _ => nofun
  split <;> nofun

theorem check_not_crash {c : Prop} [Decidable c] (msg why : String) :
    check c msg ≠ .error (.crash why) := by
  unfold check
  split <;> nofun

theorem noCrash_applyHardfork {why : String} (hwhy : why ≠ "reference to a missing object")
    (hardfork : Nat) : NoCrash why (applyHardfork hardfork : Act n Unit) := by
  have hname : NoCrash why (getAccountId initMinerName : Act n Nat) := by
    unfold getAccountId getRow
    refine (noCrash_read _).bind fun r => ?_
    cases r with
    | none => exact ⟨fun _ _ => nofun⟩
    | some r => exact noCrash_pure _
  have hsupply : NoCrash why (clearSupplyDelta : Act n Unit) := by
    unfold clearSupplyDelta modifyDgp
    exact noCrash_modifyWith hwhy fun p => bind_not_crash (add_not_crash _ _ _) fun _ =>
      bind_not_crash (add_not_crash _ _ _) fun _ => nofun
  have hproposals : NoCrash why (removeExpiredProposals : Act n Unit) := by
    unfold removeExpiredProposals
    refine ((noCrash_get _ _).bind fun _ => noCrash_pure _).bind fun now => ?_
    exact (noCrash_read _).bind fun _ => .forEach fun _ => noCrash_remove hwhy
  have hrecord : ∀ {upd} {hkey}, NoCrash why (Action.modifyWith (S := chainSchema)
      Kind.hardforkProperty 0 (fun h : HardforkProperty => do
        check (hardfork = h.lastHardfork + 1) "Hardfork being applied out of order"
        check (h.processedHardforks.length = hardfork) "Hardfork being applied out of order")
      upd hkey : Act n Unit) :=
    noCrash_modifyWith hwhy fun _ => bind_not_crash (check_not_crash _ _) fun _ => check_not_crash _ _
  unfold applyHardfork
  split
  · exact hname.bind fun _ => hrecord
  · split
    · exact hsupply.bind fun _ => hrecord
    · split
      · exact hproposals.bind fun _ => hrecord
      · exact hrecord

/-- **The loop does not run out of turns** that are more than the hardforks that are left. -/
theorem hardforkEach_turns {turns : Nat} (hturns : ∀ h : HardforkProperty,
      d.store.get Kind.hardforkProperty 0 = some h → numHardforks < h.lastHardfork + turns)
    (hpos : 0 < turns) :
    (hardforkEach turns : Act n Unit).run d ≠ .thrown (.crash "more hardforks than there are") d' := by
  induction turns generalizing d with
  | zero => exact absurd hpos (lt_irrefl 0)
  | succ turns ih =>
    intro hr
    unfold hardforkEach at hr
    obtain hr | ⟨h, d₁, hget, h1⟩ := Action.bind_thrown.mp hr
    · exact (noCrash_get _ _).never d d' hr
    obtain ⟨hh, rfl⟩ := getObject_ok.mp hget
    obtain hr | ⟨now, d₁, hnow, h2⟩ := Action.bind_thrown.mp h1
    · exact ((noCrash_get _ _).bind fun _ => noCrash_pure _).never _ _ hr
    obtain rfl := looks_headBlockTime.of_ok hnow
    split at h2
    · split at h2
      · rename_i hlt
        obtain hr | ⟨_, d₂, happly, h3⟩ := Action.bind_thrown.mp h2
        · exact (noCrash_applyHardfork (by decide) _).never _ _ hr
        obtain ⟨h₀, hh₀, _, hnext⟩ := applyHardfork_ok happly
        obtain rfl : h₀ = h := Option.some.inj (hh₀.symm.trans hh)
        have hleft := hturns h₀ hh
        refine ih (fun h₁ hh₁ => ?_) (by omega) h3
        obtain rfl : h₀.next = h₁ := Option.some.inj (hnext.symm.trans hh₁)
        have : h₀.next.lastHardfork = h₀.lastHardfork + 1 := rfl
        omega
      · cases h2
    · cases h2

/-- **`process_hardforks` does not run out of turns.** -/
theorem processHardforks_turns :
    (processHardforks : Act n Unit).run d ≠ .thrown (.crash "more hardforks than there are") d' :=
  hardforkEach_turns (fun _ _ => by omega) (by omega)

/-- **What it leaves**: no known hardfork that is due. -/
theorem processHardforks_ok (hr : (processHardforks : Act n Unit).run d = .ok u d') :
    ∃ (h h' : HardforkProperty) (p : DynamicGlobalProperty),
      d.store.get Kind.hardforkProperty 0 = some h ∧
      d'.store.get Kind.hardforkProperty 0 = some h' ∧
      d'.store.get Kind.dynamicGlobalProperty 0 = some p ∧ HardforksApplied h h' ∧
      (h'.nextHardforkTime ≤ p.time → ∀ i, i ≤ numHardforks →
        h'.nextHardfork.ge (hardforkVersion i) = true → i ≤ h'.lastHardfork) := by
  obtain ⟨h, h', p, hh, hh', hp, happlied, hend⟩ := hardforkEach_ok hr
  exact ⟨h, h', p, hh, hh', hp, happlied, fun htime i hi hv =>
    le_last (fun hlt => hend ⟨hlt, htime⟩) hi hv⟩

/-! ## 4. The votes of the witnesses -/

/-- The versions that witnesses vote for have no revision. -/
def Plain (s : Store chainSchema) : Prop :=
  ∀ i (w : Witness), s.get Kind.witness i = some w → w.hardforkVersionVote.revision = 0

/-- Votes without a revision stay so. -/
def plainVotes : Law chainSchema where
  rel
    | .witness, o, p => ∀ w' : Witness, p = some w' →
        (∀ w : Witness, o = some w → w.hardforkVersionVote.revision = 0) →
        w'.hardforkVersionVote.revision = 0
    | _, _, _ => True
  refl k o := by
    cases k with
    | witness => exact fun w' ho hw => hw w' ho
    | _ => trivial
  trans k o p q h h' := by
    cases k with
    | witness => exact fun w' hq hw => h' w' hq fun w hp => h w hp hw
    | _ => trivial

theorem Plain.of_obeys {s t : Store chainSchema} (h : Obeys plainVotes s t) (hs : Plain s) :
    Plain t := fun i w hw => h Kind.witness i w hw (hs i)

/-- The parts that the votes are taken from. -/
def Part.voting : Part → Bool
  | .made .witness | .gone .witness | .witness .hardforkVote => true
  | _ => false

theorem plain_of_changes {l : List Part} {s t : Store chainSchema} (h : Obeys (changes l) s t)
    (hl : ∀ p ∈ l, p.voting = false) (hs : Plain s) : Plain t := by
  intro i b hb
  obtain ⟨a, ha, hab⟩ := witness_before h (not_mem_of_false hl rfl) (not_mem_of_false hl rfl)
    (f := .hardforkVote) (not_mem_of_false hl rfl) hb
  simp only [Witness.view, Prod.mk.injEq] at hab
  rw [← hab.1]
  exact hs i a ha

theorem plain_witnessUpdate (o : WitnessUpdateOp) :
    Steps (Obeys plainVotes) (witnessUpdate o : Act n Unit) := by
  have hupdate : ∀ i, Steps (Obeys plainVotes) (Action.modify (S := chainSchema) Kind.witness i
      (fun w : Witness =>
        { w with url := o.url, signingKey := o.blockSigningKey, props := o.props }) :
      Act n Unit) := by
    refine fun i => steps_modify fun a w' he hw => ?_
    cases he
    exact hw a rfl
  have hcreate : ∀ now, Steps (Obeys plainVotes) (Action.create (S := chainSchema) Kind.witness
      ({ owner := o.owner, url := o.url, signingKey := o.blockSigningKey, created := now,
         props := o.props } : Witness) : Act n Nat) := by
    refine fun now => steps_create fun w' he _ => ?_
    cases he
    rfl
  unfold witnessUpdate
  refine steps_bind (looks_getAccountId _).steps fun _ => ?_
  refine steps_bind (looks_require _ _).steps fun _ => ?_
  refine steps_bind (looks_findWitness _).steps fun r => ?_
  cases r with
  | some r => exact hupdate r.1
  | none =>
    exact steps_bind looks_headBlockTime.steps fun now =>
      steps_bind (hcreate now) fun _ => (looks_pure ()).steps

theorem plain_processHeaderExtensions (b : SignedBlock) :
    Steps (Obeys plainVotes) (processHeaderExtensions b : Act n Unit) := by
  have hversion : ∀ i v, Steps (Obeys plainVotes) (Action.modify (S := chainSchema) Kind.witness i
      (fun w : Witness => { w with runningVersion := v }) : Act n Unit) := by
    refine fun i v => steps_modify fun a w' he hw => ?_
    cases he
    exact hw a rfl
  have hvote : ∀ i (v : Version) time, Steps (Obeys plainVotes) (Action.modify (S := chainSchema) Kind.witness i
      (fun w : Witness =>
        { w with hardforkVersionVote := { v with revision := 0 }, hardforkTimeVote := time }) :
      Act n Unit) := by
    refine fun i v time => steps_modify fun a w' he _ => ?_
    cases he
    rfl
  unfold processHeaderExtensions
  refine steps_forEach fun e => ?_
  cases e with
  | void => exact (looks_pure ()).steps
  | version v =>
    refine steps_bind (looks_getWitnessId _).steps fun i => ?_
    refine steps_bind (looks_getObject _ _).steps fun w => ?_
    exact steps_ite (fun _ => hversion i v) fun _ => (looks_pure ()).steps
  | hardforkVersionVote v time =>
    refine steps_bind (looks_getWitnessId _).steps fun i => ?_
    refine steps_bind (looks_getObject _ _).steps fun w => ?_
    exact steps_ite (fun _ => hvote i v time) fun _ => (looks_pure ()).steps

theorem ChainStep.plain [Fc] {ok : Store chainSchema → Operation → Prop} {s t : Store chainSchema}
    (h : ChainStep ok s t) (hs : Plain s) : Plain t := by
  cases h with
  | @operation d d' u clock n push op _ ha _ hr =>
    have hchanges := (composed_evaluate clock push ha).steps.step hr
    cases op with
    | proposalUpdate o => cases ha
    | witnessUpdate o => exact hs.of_obeys ((plain_witnessUpdate o).step hr)
    | _ => exact plain_of_changes hchanges (by simp +decide [Operation.parts]) hs
  | @routine d d' u n r hr =>
    have hchanges := (Routine.composed_act r).steps.step hr
    cases r with
    | headerExtensions b => exact hs.of_obeys ((plain_processHeaderExtensions b).step hr)
    | _ => exact plain_of_changes hchanges (by simp +decide [Routine.parts]) hs

/-! ## 5. The vote on the next hardfork -/

/-- The schedule update that starts from the objects `s` finds enough scheduled witnesses that
vote for the version `v` and for the same time. -/
def Elects (s : Store chainSchema) (v : Version) : Prop :=
  ∃ (p : DynamicGlobalProperty) (o : WitnessSchedule) (ws : List Witness) (time : Nat),
    s.get Kind.dynamicGlobalProperty 0 = some p ∧ p.headBlockNumber % maxMiners = 0 ∧
    s.get Kind.witnessSchedule 0 = some o ∧ o.currentShuffledWitnesses.Nodup ∧
    List.Forall₂ (IsNamed s) o.currentShuffledWitnesses ws ∧
    hardforkRequiredWitnesses ≤ ws.countP fun w =>
      w.hardforkVersionVote = v ∧ w.hardforkTimeVote = time

theorem Elects.plain {s : Store chainSchema} {v : Version} (h : Elects s v) (hs : Plain s) :
    v.revision = 0 := by
  obtain ⟨p, o, ws, time, _, _, _, _, hws, hcount⟩ := h
  have hpos : 0 < ws.countP fun w => w.hardforkVersionVote = v ∧ w.hardforkTimeVote = time :=
    lt_of_lt_of_le (by decide) hcount
  obtain ⟨w, hw, hv⟩ := List.countP_pos_iff.mp hpos
  obtain ⟨rfl, _⟩ := of_decide_eq_true hv
  obtain ⟨name, _, i, hi, _⟩ := exists_name hws hw
  exact hs i w hi

/-- What the update of the schedule does to the record of the hardforks. -/
structure Voted (s : Store chainSchema) (h h' : HardforkProperty) : Prop where
  processed : h'.processedHardforks = h.processedHardforks
  last : h'.lastHardfork = h.lastHardfork
  current : h'.currentHardforkVersion = h.currentHardforkVersion
  next : h'.nextHardfork = h.currentHardforkVersion ∨ Elects s h'.nextHardfork

theorem voteOnHardfork_ok {ballots : List (Version × Nat)}
    (hr : (voteOnHardfork ballots : Act n Unit).run d = .ok u d') :
    ∃ h h' : HardforkProperty, d.store.get Kind.hardforkProperty 0 = some h ∧
      d'.store.get Kind.hardforkProperty 0 = some h' ∧
      h'.processedHardforks = h.processedHardforks ∧ h'.lastHardfork = h.lastHardfork ∧
      h'.currentHardforkVersion = h.currentHardforkVersion ∧
      (h'.nextHardfork = h.currentHardforkVersion ∨
        ∃ time, hardforkRequiredWitnesses ≤ ballots.count (h'.nextHardfork, time)) := by
  unfold voteOnHardfork at hr
  split at hr
  · rename_i v hfind
    obtain ⟨h, hh, hf, e⟩ := modify_store hr
    have hh' := Store.get_write_self d.store _ 0 0 _ hf
    rw [if_pos rfl, ← e] at hh'
    exact ⟨h, _, hh, hh', rfl, rfl, rfl, .inr ⟨v.2, of_decide_eq_true (List.find?_some hfind :)⟩⟩
  · obtain ⟨h, hh, hf, e⟩ := modify_store hr
    have hh' := Store.get_write_self d.store _ 0 0 _ hf
    rw [if_pos rfl, ← e] at hh'
    exact ⟨h, _, hh, hh', rfl, rfl, rfl, .inl rfl⟩

/-- The record is only changed by the vote. -/
theorem hardforks_stay {l : List Part} {s t : Store chainSchema} (h : Obeys (changes l) s t)
    (hm : .made .hardforkProperty ∉ l) (hg : .gone .hardforkProperty ∉ l)
    (hw : .whole .hardforkProperty ∉ l) :
    t.get Kind.hardforkProperty 0 = s.get Kind.hardforkProperty 0 :=
  get_of_unchanged h hm hg fun _ _ hab => Or.resolve_left hab hw

theorem voted_witnessSchedule (hr : (updateWitnessSchedule4 : Act n Unit).run d = .ok () d')
    {p : DynamicGlobalProperty} (hp : d.store.get Kind.dynamicGlobalProperty 0 = some p)
    (hturn : p.headBlockNumber % maxMiners = 0) (hs : Rostered d.store) :
    ∃ h h' : HardforkProperty, d.store.get Kind.hardforkProperty 0 = some h ∧
      d'.store.get Kind.hardforkProperty 0 = some h' ∧ Voted d.store h h' := by
  obtain ⟨d₁, d₂, d₃, d₄, o, reset, ballots, names, block, hsch⟩ := updateWitnessSchedule4_ok hr
  obtain ⟨h, h', hh, hh', hprocessed, hlast, hcurrent, hnext⟩ := voteOnHardfork_ok hsch.hardfork
  -- before the vote only the virtual times move
  have htimes : Obeys (changes [.whole .witnessSchedule, .witness .virtual]) d.store d₂.store :=
    trans_of (Obeys (changes _)) ((composed_updateProcessed _ _ (by decide)).steps.step hsch.processed)
      ((composed_ite (fun _ => composed_resetVirtualScheduleTime (by decide)) fun _ =>
        .looks (looks_pure ())).steps.step hsch.restarted)
  have hmedian : Obeys (changes [.whole .witnessSchedule, .props .rate, .props .blockSize])
      d₃.store d'.store :=
    trans_of (Obeys (changes _))
      ((composed_modify (k := .witnessSchedule) fun _ => Or.inl (by decide)).steps.step
        hsch.replaced)
      ((composed_updateMedianWitnessProps (by decide)).steps.step hsch.median)
  rw [hardforks_stay htimes (by decide) (by decide) (by decide)] at hh
  rw [← hardforks_stay hmedian (by decide) (by decide) (by decide)] at hh'
  refine ⟨h, h', hh, hh', hprocessed, hlast, hcurrent, hnext.imp_right fun ⟨time, hcount⟩ => ?_⟩
  obtain ⟨ws, hws, hballots⟩ := hsch.votes
  obtain ⟨vs, hvs, hmap⟩ := roll_before (f := .hardforkVote) htimes (by decide) (by decide)
    (by decide) (by decide) hws
  refine ⟨p, o, vs, time, hp, hturn, hsch.schedule, (hs o hsch.schedule).1, hvs, ?_⟩
  have hviews : ballots.Perm (vs.map (Witness.view .hardforkVote)) := hmap ▸ hballots
  rw [hviews.count_eq, List.count_eq_countP, List.countP_map] at hcount
  refine hcount.trans (le_of_eq (List.countP_congr fun w _ => ?_))
  simp

/-! ## 6. The record over a run -/

/-- What an event does to the record of the hardforks. -/
inductive Records (s : Store chainSchema) (h : HardforkProperty) : Event → HardforkProperty → Prop
  | same (e : Event) : Records s h e h
  | voted {h' : HardforkProperty} : Voted s h h' → Records s h (.routine .witnessSchedule) h'
  | applied {h' : HardforkProperty} : HardforksApplied h h' → Records s h (.routine .hardforks) h'

theorem Event.Does.records [Fc] {e : Event} {s t : Store chainSchema} (he : e.Does s t)
    {h : HardforkProperty} (hh : s.get Kind.hardforkProperty 0 = some h) (hs : Rostered s) :
    ∃ h', t.get Kind.hardforkProperty 0 = some h' ∧ Records s h e h' := by
  have hsame : ∀ {l : List Part}, Obeys (changes l) s t → .made .hardforkProperty ∉ l →
      .gone .hardforkProperty ∉ l → .whole .hardforkProperty ∉ l →
      ∃ h', t.get Kind.hardforkProperty 0 = some h' ∧ Records s h e h' := fun hl hm hg hw =>
    ⟨h, (hardforks_stay hl hm hg hw).trans hh, .same e⟩
  cases he with
  | @operation d d' u op clock n push _ ha hr =>
    have hchanges := (composed_evaluate clock push ha).steps.step hr
    cases op with
    | proposalUpdate o => cases ha
    | _ =>
      refine hsame hchanges ?_ ?_ ?_
      all_goals simp +decide [Operation.parts]
  | @routine d d' u r n hr =>
    have hchanges := (Routine.composed_act r).steps.step hr
    cases r with
    | witnessSchedule =>
      obtain ⟨p, hp, ⟨_, rfl⟩ | ⟨hturn, h4⟩⟩ := witnessSchedule_ok hr
      · exact ⟨h, hh, .same _⟩
      · obtain ⟨h₀, h', hh₀, hh', hvoted⟩ := voted_witnessSchedule h4 hp hturn hs
        obtain rfl : h₀ = h := Option.some.inj (hh₀.symm.trans hh)
        exact ⟨h', hh', .voted hvoted⟩
    | hardforks =>
      obtain ⟨h₀, h', _, hh₀, hh', _, happlied, _⟩ := processHardforks_ok hr
      obtain rfl : h₀ = h := Option.some.inj (hh₀.symm.trans hh)
      exact ⟨h', hh', .applied happlied⟩
    | _ =>
      refine hsame hchanges ?_ ?_ ?_
      all_goals simp +decide [Routine.parts]

/-- The next hardfork was elected, or is not newer than the current one. -/
def Mandated (past : Past) (h : HardforkProperty) : Prop :=
  h.currentHardforkVersion.ge h.nextHardfork = true ∨
    h.nextHardfork.revision = 0 ∧
      ∃ s, (s, .routine .witnessSchedule) ∈ past ∧ Elects s h.nextHardfork

theorem Version.ge_refl (v : Version) : v.ge v = true := by
  simp [Version.ge, Version.lt]

/-- What one event preserves. -/
theorem Records.mandated {past : Past} {s : Store chainSchema} {e : Event} {h h' : HardforkProperty}
    (hr : Records s h e h') (hs : Plain s) (ho : InOrder h) (hb : Mandated past h) :
    InOrder h' ∧ Mandated ((s, e) :: past) h' := by
  cases hr with
  | same =>
    exact ⟨ho, hb.imp_right fun ⟨hv, t, ht, he⟩ => ⟨hv, t, List.mem_cons_of_mem _ ht, he⟩⟩
  | voted hv =>
    refine ⟨⟨by rw [hv.processed, hv.last, ho.size], fun i hi => ?_, ?_, hv.last ▸ ho.known⟩, ?_⟩
    · rw [hv.processed]
      exact ho.times i (hv.last ▸ hi)
    · rw [hv.current, hv.last, ho.version]
    · obtain hnext | he := hv.next
      · left
        rw [hnext, hv.current]
        exact Version.ge_refl _
      · exact .inr ⟨he.plain hs, s, List.mem_cons_self, he⟩
  | applied ha =>
    have ho' := ha.ordered ho
    refine ⟨ho', ?_⟩
    obtain hge | ⟨hv, t, ht, he⟩ := hb
    · -- the loop ended at once
      have hlast : h'.lastHardfork = h.lastHardfork := by
        by_contra hne
        have hmono := ha.mono
        obtain ⟨_, hlt⟩ := ha.newer _ le_rfl (by omega)
        rw [← ho.version] at hlt
        unfold Version.ge at hge
        rw [hlt] at hge
        cases hge
      left
      rw [ho'.version, hlast, ← ho.version, ha.next]
      exact hge
    · right
      rw [ha.next]
      exact ⟨hv, t, List.mem_cons_of_mem _ ht, he⟩

section

variable [Fc] {g : GenesisState} {past : Past} {m m' : Moment} {e : Event}

theorem Timeline.plain (h : Timeline g past m) : Plain m.store := by
  refine h.reached.invariant (fun {u d} hg i w hw => ?_) fun hst => hst.plain
  obtain ⟨⟨w₀, hw₀, _, _, _, hvote⟩, hothers⟩ := genesis_witness hg
  by_cases hi : i = 0
  · subst hi
    obtain rfl : w₀ = w := Option.some.inj (hw₀.symm.trans hw)
    rw [hvote]
  · exact nomatch (hothers i hi).symm.trans hw

/-- **What a whole run preserves.** -/
theorem Timeline.mandated (h : Timeline g past m) :
    ∃ h : HardforkProperty, m.store.get Kind.hardforkProperty 0 = some h ∧ InOrder h ∧
      Mandated past h := by
  induction h with
  | start hg =>
    refine ⟨_, genesis_hardforks hg, ⟨rfl, fun i hi => ?_, rfl, by decide⟩, .inl (by decide)⟩
    obtain rfl : i = 0 := Nat.le_zero.mp hi
    rfl
  | step ht hp ih =>
    obtain ⟨h, hh, ho, hb⟩ := ih
    obtain ⟨h', hh', hr⟩ := hp.does.records hh ht.rostered
    obtain ⟨ho', hb'⟩ := hr.mandated ht.plain ho hb
    exact ⟨h', hh', ho', hb'⟩

/-- **A hardfork is applied after a vote for it.** -/
theorem Timeline.elected (ht : Timeline g past m) (hp : Passes m e m') {h h' : HardforkProperty}
    (hh : m.store.get Kind.hardforkProperty 0 = some h)
    (hh' : m'.store.get Kind.hardforkProperty 0 = some h') {i : Nat} (hi : h.lastHardfork < i)
    (hi' : i ≤ h'.lastHardfork) :
    ∃ s v, (s, .routine .witnessSchedule) ∈ past ∧ Elects s v ∧
      v.ge (hardforkVersion i) = true := by
  obtain ⟨h₀, hh₀, ho, hb⟩ := ht.mandated
  obtain rfl : h₀ = h := Option.some.inj (hh₀.symm.trans hh)
  obtain ⟨h₁, hh₁, hr⟩ := hp.does.records hh ht.rostered
  obtain rfl : h₁ = h' := Option.some.inj (hh₁.symm.trans hh')
  cases hr with
  | same => omega
  | voted hv =>
    have := hv.last
    omega
  | applied ha =>
    obtain ⟨_, hfirst⟩ := ha.newer _ le_rfl (by omega)
    obtain hge | ⟨hv, s, hs, he⟩ := hb
    · rw [← ho.version] at hfirst
      unfold Version.ge at hge
      rw [hfirst] at hge
      cases hge
    · obtain ⟨hknown, hnewer⟩ := ha.newer (i - 1) (by omega) (by omega)
      have hge := ge_next hv hknown hnewer
      rw [Nat.sub_add_cancel (by omega)] at hge
      exact ⟨s, _, hs, he, hge⟩

/-- **Hardforks are applied in their order, each once, and after a vote for them**; the loop that
applies them ends on every input, and leaves none that is due. -/
theorem hardforks_in_order (ht : Timeline g past m) :
    (∃ h : HardforkProperty, m.store.get Kind.hardforkProperty 0 = some h ∧
      h.processedHardforks.length = h.lastHardfork + 1 ∧
      (∀ i, i ≤ h.lastHardfork → h.processedHardforks[i]? = hardforkTimes[i]?) ∧
      h.currentHardforkVersion = hardforkVersion h.lastHardfork ∧
      h.lastHardfork ≤ numHardforks) ∧
    (∀ (n : Nat) (d d' : Database chainSchema), (processHardforks : Act n Unit).run d ≠
      .thrown (.crash "more hardforks than there are") d') ∧
    (∀ (n : Nat) (d d' : Database chainSchema) (u : Unit),
      (processHardforks : Act n Unit).run d = .ok u d' →
      ∃ (h : HardforkProperty) (p : DynamicGlobalProperty),
        d'.store.get Kind.hardforkProperty 0 = some h ∧
        d'.store.get Kind.dynamicGlobalProperty 0 = some p ∧
        (h.nextHardforkTime ≤ p.time → ∀ i, i ≤ numHardforks →
          h.nextHardfork.ge (hardforkVersion i) = true → i ≤ h.lastHardfork)) ∧
    ∀ (e : Event) (m' : Moment), Passes m e m' → ∀ h h' : HardforkProperty,
      m.store.get Kind.hardforkProperty 0 = some h →
      m'.store.get Kind.hardforkProperty 0 = some h' →
      ∀ i, h.lastHardfork < i → i ≤ h'.lastHardfork →
        ∃ s v, (s, .routine .witnessSchedule) ∈ past ∧ Elects s v ∧
          v.ge (hardforkVersion i) = true := by
  refine ⟨?_, fun n d d' => processHardforks_turns, fun n d d' u hr => ?_,
    fun e m' hp h h' hh hh' i hi hi' => ht.elected hp hh hh' hi hi'⟩
  · obtain ⟨h, hh, ho, _⟩ := ht.mandated
    exact ⟨h, hh, ho.size, ho.times, ho.version, ho.known⟩
  · obtain ⟨_, h, p, _, hh, hp, _, hleft⟩ := processHardforks_ok hr
    exact ⟨h, p, hh, hp, hleft⟩

end

section

attribute [local instance] sampleFc

def minerNames : List String := (List.range 17).map fun i => "miner" ++ toString (i + 10)

def minersGenesis : GenesisState :=
  { sampleGenesis with initialAccounts := minerNames.map fun name => { name, ownerKey := 1 } }

/-- The witness `name` signs with `key`. -/
def signWith (key : PublicKey) (name : String) : Operation :=
  .witnessUpdate ⟨name, "url", key, {}, Asset.muse 0⟩

/-- Accounts become witnesses in the first of two rounds; in the second each of the scheduled ones
votes for hardfork 3. -/
def hardforkPayloads : List Payload :=
  let version : HeaderExtension := .version ⟨blockchainMajor, blockchainMinor, blockchainRevision⟩
  { extensions := [version], operations := minerNames.map (signWith 5), signatures := [1] } ::
    List.replicate 20 { extensions := [version] } ++
    List.replicate 21
      { extensions := [version, .hardforkVersionVote (hardforkVersion hardfork03) genesisTime] }

/-- The run of the two rounds. At its end the hardforks are applied, and the init miner has its
key. -/
theorem exists_hardforkRun : ∃ d : Database chainSchema,
    founded minersGenesis hardforkPayloads = .ok () d ∧ d.broken = false ∧
      (d.store.get Kind.hardforkProperty 0).map (fun h : HardforkProperty =>
        h.processedHardforks) = some hardforkTimes ∧
      (d.store.get Kind.witness 0).map (fun w : Witness => w.signingKey) = some 7 := by
  obtain ⟨u, d, hr, hb, hall⟩ := Returns.exists (p := fun d => decide
    ((d.store.get Kind.hardforkProperty 0).map (fun h : HardforkProperty =>
        h.processedHardforks) = some hardforkTimes ∧
      (d.store.get Kind.witness 0).map (fun w : Witness => w.signingKey) = some 7))
    (show Returns _ (founded minersGenesis hardforkPayloads) = true by decide +kernel)
  exact ⟨d, hr, hb, of_decide_eq_true hall⟩

/-- The three hardforks are applied at the end of the second round. -/
theorem hardforks_in_order_miners : ∃ (d : Database chainSchema) (past : Past)
    (h : HardforkProperty), founded minersGenesis hardforkPayloads = .ok () d ∧
      Timeline minersGenesis past ⟨d.store, []⟩ ∧
      d.store.get Kind.hardforkProperty 0 = some h ∧ h.processedHardforks = hardforkTimes ∧
      h.processedHardforks.length = h.lastHardfork + 1 ∧
      (∀ i, i ≤ h.lastHardfork → h.processedHardforks[i]? = hardforkTimes[i]?) ∧
      h.currentHardforkVersion = hardforkVersion h.lastHardfork ∧
      h.lastHardfork ≤ numHardforks := by
  obtain ⟨d, hr, hb, hprocessed, _⟩ := exists_hardforkRun
  obtain ⟨⟨past, ht⟩, _⟩ := Timeline.founded hr hb
  obtain ⟨⟨h, hh, hrest⟩, _⟩ := hardforks_in_order ht
  obtain ⟨h', hh', e⟩ := Option.map_eq_some_iff.mp hprocessed
  obtain rfl : h' = h := Option.some.inj (hh'.symm.trans hh)
  exact ⟨d, past, h', hr, ht, hh, e, hrest⟩

end

end MuseChain
