/-
  File:      MuseChain/Safety/Signers.lean
  Subject:   There is a witness to schedule, until hardfork 3 finds none that has a key.

  * `Scheduled s`: somebody is scheduled. `Signable s`: an update of the schedule finds somebody.
  * `activeWitnesses_ne_nil`: the update schedules somebody exactly when it finds somebody.
  * `safe_…`: where somebody is scheduled, nothing that looks at the schedule crashes.
-/
import MuseChain.Safety.Hardforks
import MuseChain.Lib.Ranks

namespace MuseChain

variable {n : Nat} {d d' : Database chainSchema} {u : Unit} {s t : Store chainSchema}

/-! ## 1. Who is found -/

/-- Somebody is scheduled. -/
def Scheduled (s : Store chainSchema) : Prop :=
  ∃ o : WitnessSchedule, s.get Kind.witnessSchedule 0 = some o ∧ o.currentShuffledWitnesses ≠ []

/-- An update of the schedule finds somebody: a witness that has a key, or any before hardfork 3. -/
def Signable (s : Store chainSchema) : Prop :=
  ∃ i, ∃ w : Witness, s.get Kind.witness i = some w ∧
    unsignable (s.passed hardfork03) w = false

theorem votedWitnesses_ne_nil (h : Signable s) : votedWitnesses s ≠ [] := by
  obtain ⟨i, w, hw, hkey⟩ := h
  have hrow : (i, w) ∈ byVoteName (s.rows Kind.witness) :=
    (List.perm_insertionSort _ _).mem_iff.mpr (FMap.mem_rows.mpr hw)
  have hmem : (i, w) ∈ (byVoteName (s.rows Kind.witness)).filter fun r =>
      !unsignable (s.passed hardfork03) r.2 := List.mem_filter.mpr ⟨hrow, by simp [hkey]⟩
  unfold votedWitnesses
  intro hnil
  obtain hzero | hnone := List.take_eq_nil_iff.mp hnil
  · cases hzero
  · rw [hnone] at hmem
    cases hmem

/-- **Somebody is scheduled exactly when somebody is found.** -/
theorem activeWitnesses_ne_nil (time : Nat) : activeWitnesses s time ≠ [] ↔ Signable s := by
  constructor
  · intro hne
    obtain ⟨name, hname⟩ := List.exists_mem_of_ne_nil _ hne
    rcases List.mem_append.mp hname with hvoted | hadded
    · obtain ⟨r, hr, _⟩ := List.mem_map.mp hvoted
      have hkey := (List.mem_filter.mp (List.mem_of_mem_take hr)).2
      exact ⟨r.1, r.2, mem_votedWitnesses hr, by simpa using hkey⟩
    · obtain ⟨r, hr, _, hadd⟩ := mem_added hadded
      unfold Addable at hadd
      exact ⟨r.1, r.2, hr, by simpa using (Bool.and_eq_true_iff.mp hadd).1⟩
  · intro h hnil
    obtain ⟨hvoted, _⟩ := List.append_eq_nil_iff.mp hnil
    exact votedWitnesses_ne_nil h (List.map_eq_nil_iff.mp hvoted)

/-- After hardfork 3 a witness with a key is found; before it, any. -/
theorem signable_iff (hs : Rostered s) (hsched : Scheduled s) : Signable s ↔
    (s.passed hardfork03 = true →
      ∃ i, ∃ w : Witness, s.get Kind.witness i = some w ∧ w.signingKey ≠ 0) := by
  constructor
  · rintro ⟨i, w, hw, hkey⟩ hpassed
    refine ⟨i, w, hw, fun hnull => ?_⟩
    simp [unsignable, hpassed, hnull] at hkey
  · intro h
    cases hpassed : s.passed hardfork03 with
    | false =>
      obtain ⟨o, ho, hne⟩ := hsched
      obtain ⟨name, hname⟩ := List.exists_mem_of_ne_nil _ hne
      obtain ⟨w, i, hw, _⟩ := (hs o ho).2 name hname
      exact ⟨i, w, hw, by simp [unsignable, hpassed]⟩
    | true =>
      obtain ⟨i, w, hw, hkey⟩ := h hpassed
      exact ⟨i, w, hw, by simp [unsignable, hkey]⟩

/-! ## 2. Looks at the schedule -/

/-- What a crash on an empty schedule says. -/
abbrev noWitnesses : String := "no scheduled witnesses"

theorem Scheduled.of_changes {l : List Part} (h : Obeys (changes l) s t)
    (hm : .made .witnessSchedule ∉ l) (hg : .gone .witnessSchedule ∉ l)
    (hw : .whole .witnessSchedule ∉ l) (hs : Scheduled s) : Scheduled t := by
  obtain ⟨o, ho, hne⟩ := hs
  exact ⟨o, (schedule_stays h hm hg hw 0).trans ho, hne⟩

theorem noCrash_getRow {why : String} (k : Kind) (p : k.Object → Bool) (msg : String) :
    NoCrash why (getRow k p msg : Act n Nat) := by
  unfold getRow
  refine (noCrash_read _).bind fun r => ?_
  cases r with
  | none => exact ⟨fun _ _ => nofun⟩
  | some r => exact noCrash_pure _

theorem noCrash_headBlockTime {why : String} : NoCrash why (headBlockTime : Act n Nat) :=
  (noCrash_get _ _).bind fun _ => noCrash_pure _

theorem noCrash_headBlockNum {why : String} : NoCrash why (headBlockNum : Act n Nat) :=
  (noCrash_get _ _).bind fun _ => noCrash_pure _

theorem noCrash_getWitness {why : String} (name : String) :
    NoCrash why (getWitness name : Act n Witness) :=
  (noCrash_getRow _ _ _).bind fun _ => noCrash_get _ _

theorem noCrash_collectWitnesses {why : String} {β : Type} (f : List β → Witness → List β)
    (names : List String) (acc : List β) :
    NoCrash why (Action.foldEach names acc fun acc name => do
      let w ← getWitness name
      pure (f acc w) : Act n (List β)) := by
  induction names generalizing acc with
  | nil => exact noCrash_pure acc
  | cons name names ih =>
    exact ((noCrash_getWitness name).bind fun _ => noCrash_pure _).bind fun acc => ih acc

theorem noCrash_getSlotAtTime {why : String} (when_ : Nat) :
    NoCrash why (getSlotAtTime when_ : Act n Nat) := by
  have hslot : NoCrash why (getSlotTime 1 : Act n Nat) := by
    unfold getSlotTime
    refine (noCrash_get _ _).bind fun p => .ite (fun _ => noCrash_pure _) fun _ => ?_
    exact .ite (fun _ => noCrash_pure _) fun _ => noCrash_pure _
  unfold getSlotAtTime
  exact hslot.bind fun _ => .ite (fun _ => noCrash_pure _) fun _ => noCrash_pure _

/-- **The remainder by the number of scheduled witnesses.** -/
theorem safe_getScheduledWitness (slotNum : Nat) :
    Safe noWitnesses Scheduled (getScheduledWitness slotNum : Act n String) := by
  refine ⟨fun {d d'} hd hr => ?_, fun hd hr =>
    (looks_getScheduledWitness slotNum).of_ok hr ▸ hd⟩
  obtain ⟨o, ho, hne⟩ := hd
  unfold getScheduledWitness at hr
  obtain hr | ⟨p, d₁, hp, h1⟩ := Action.bind_thrown.mp hr
  · exact (noCrash_get _ _).never _ _ hr
  obtain ⟨_, rfl⟩ := Action.get_ok.mp hp
  obtain hr | ⟨o', d₁, ho', h2⟩ := Action.bind_thrown.mp h1
  · exact (noCrash_get _ _).never _ _ hr
  obtain ⟨ho', rfl⟩ := Action.get_ok.mp ho'
  obtain rfl : o' = o := Option.some.inj (ho'.symm.trans ho)
  dsimp only at h2
  split at h2
  · cases h2
  · rename_i hnone
    have hpos : 0 < o'.currentShuffledWitnesses.length := List.length_pos_of_ne_nil hne
    have hlt := Nat.mod_lt (u64 (p.currentAslot + slotNum)) hpos
    exact absurd (List.getElem?_eq_none_iff.mp hnone) (Nat.not_le_of_gt hlt)

theorem safe_countMissed (b : SignedBlock) (i : Nat) :
    Safe noWitnesses Scheduled (countMissed b i : Act n Unit) := by
  have hmodify : ∀ {wit : Nat} {f : Witness → Nat × Nat} {upd} {hkey},
      Safe noWitnesses Scheduled (Action.modifyWith (S := chainSchema) Kind.witness wit
        (fun w => .ok (f w)) upd hkey : Act n Unit) :=
    (noCrash_write (by decide)).safe (untouched_modifyWith (k := Kind.witnessSchedule) (by decide))
      fun s t hst ⟨o, ho, hne⟩ => ⟨o, (congrFun hst 0).trans ho, hne⟩
  unfold countMissed
  refine (safe_getScheduledWitness _).bind fun name => ?_
  refine ((noCrash_getRow _ _ _).safe_looks (looks_getWitnessId _)).bind fun wit => ?_
  refine (((noCrash_get _ _).bind fun _ => noCrash_pure _).safe_looks (looks_hasHardfork _)).bind
    fun hf3 => ?_
  refine (noCrash_headBlockNum.safe_looks looks_headBlockNum).bind fun num => ?_
  exact .ite (fun _ => hmodify) fun _ =>
    (noCrash_pure ()).safe_looks (looks_pure ())

theorem safe_updateGlobalDynamicData [Fc] (skip : Skip) (b : SignedBlock) :
    Safe noWitnesses Scheduled (updateGlobalDynamicData skip b : Act n Unit) := by
  have hmove : ∀ {f : DynamicGlobalProperty → DynamicGlobalProperty},
      Safe noWitnesses Scheduled (modifyDgp (fun p => .ok (f p)) fun _ p => p : Act n Unit) :=
    (noCrash_write (by decide)).safe (untouched_modifyWith (k := Kind.witnessSchedule) (by decide))
      fun s t hst ⟨o, ho, hne⟩ => ⟨o, (congrFun hst 0).trans ho, hne⟩
  have htail : ∀ missed, Safe noWitnesses Scheduled (do
      Action.forEach (List.range missed) fun i => countMissed b i
      modifyDgp (fun p => .ok (nextProperties b missed p)) fun _ p => p
      let p ← getDynamicGlobalProperties
      if skip.undoHistoryCheck then pure ()
      else
        Action.require (sub32 p.headBlockNumber p.lastIrreversibleBlockNum < maxUndoHistory)
          "Please add a checkpoint if you would like to continue applying blocks beyond this point."
      : Act n Unit) := fun missed => by
    refine (Safe.forEach fun i => safe_countMissed b i).bind fun _ => ?_
    refine hmove.bind fun _ => ?_
    refine ((noCrash_get _ _).safe_looks (looks_get _ _)).bind fun p => ?_
    exact .ite (fun _ => (noCrash_pure ()).safe_looks (looks_pure ())) fun _ =>
      (noCrash_require _ _).safe_looks (looks_require _ _)
  unfold updateGlobalDynamicData
  refine (noCrash_headBlockTime.safe_looks looks_headBlockTime).bind fun now => ?_
  refine .ite (fun _ => ?_) fun _ => ?_
  · refine ((noCrash_getSlotAtTime _).safe_looks (looks_getSlotAtTime _)).bind fun slot => ?_
    exact ((noCrash_pure _).safe_looks (looks_pure _)).bind fun missed => htail missed
  · exact ((noCrash_pure _).safe_looks (looks_pure _)).bind fun missed => htail missed

/-- Of the collected values there are as many as names. -/
theorem collected_ne_nil {β : Type} {f : Witness → β} {names : List String} {out : List β}
    (h : (Action.foldEach names [] fun acc name => do
      let w ← getWitness name
      pure (acc ++ [f w]) : Act n (List β)).run d = .ok out d') (hne : names ≠ []) : out ≠ [] := by
  obtain ⟨_, ws, hws, rfl⟩ := collectWitnesses_ok h
  rw [List.nil_append]
  intro hnil
  rw [List.map_eq_nil_iff.mp hnil] at hws
  cases hws
  exact hne rfl

/-- **The element that is selected for irreversibility.** -/
theorem updateLastIrreversibleBlock_not_crash (hs : Scheduled d.store) :
    (updateLastIrreversibleBlock : Act n Unit).run d ≠ .thrown (.crash noWitnesses) d' := by
  obtain ⟨o, ho, hne⟩ := hs
  intro hr
  unfold updateLastIrreversibleBlock at hr
  obtain hr | ⟨p, d₁, hp, h1⟩ := Action.bind_thrown.mp hr
  · exact (noCrash_get _ _).never _ _ hr
  obtain ⟨_, rfl⟩ := Action.get_ok.mp hp
  split at h1
  · exact (noCrash_write (by decide)).never _ _ h1
  obtain hr | ⟨o', d₁, ho', h2⟩ := Action.bind_thrown.mp h1
  · exact (noCrash_get _ _).never _ _ hr
  obtain ⟨ho', rfl⟩ := Action.get_ok.mp ho'
  obtain rfl : o' = o := Option.some.inj (ho'.symm.trans ho)
  obtain hr | ⟨nums, d₂, hnums, h3⟩ := Action.bind_thrown.mp h2
  · exact (noCrash_collectWitnesses _ _ _).never _ _ hr
  have hpos : 0 < nums.length := List.length_pos_of_ne_nil (collected_ne_nil hnums hne)
  have hoffset : (percent100 - irreversibleThreshold) * nums.length / percent100 < nums.length := by
    have hthreshold : irreversibleThreshold = 5100 := rfl
    have hpercent : percent100 = 10000 := rfl
    rw [hthreshold, hpercent]
    omega
  obtain ⟨num, hnum⟩ := Ranks.exists_rank hoffset
  unfold Ranks.rank at hnum
  dsimp only at h3
  rw [hnum] at h3
  dsimp only at h3
  split at h3
  · exact (noCrash_write (by decide)).never _ _ h3
  · cases h3

/-- **The feed of fewer witnesses than asked for is no feed.** -/
theorem noCrash_updateMedianFeed : NoCrash noWitnesses (updateMedianFeed : Act n Unit) := by
  unfold updateMedianFeed
  refine noCrash_headBlockNum.bind fun num => .ite (fun _ => ?_) fun _ => noCrash_pure _
  refine noCrash_headBlockTime.bind fun now => (noCrash_get _ _).bind fun o => ?_
  refine (noCrash_collectWitnesses _ _ _).bind fun feeds => ?_
  cases medianPrice feeds with
  | none => exact noCrash_pure _
  | some median => exact noCrash_write (by decide)

theorem medianWitness_not_crash {active : List Witness} (hne : active ≠ [])
    (le : Witness → Witness → Bool) {e : Exn} : medianWitness active le ≠ .error e := by
  unfold medianWitness
  dsimp only
  have hlen : (active.insertionSort fun a b => le a b = true).length = active.length :=
    List.length_insertionSort _ _
  have hpos : 0 < active.length := List.length_pos_of_ne_nil hne
  rw [List.getElem?_eq_getElem (by rw [hlen]; omega)]
  nofun

/-- **The medians of the scheduled witnesses.** -/
theorem updateMedianWitnessProps_not_crash (hs : Scheduled d.store) :
    (updateMedianWitnessProps : Act n Unit).run d ≠ .thrown (.crash noWitnesses) d' := by
  obtain ⟨o, ho, hne⟩ := hs
  intro hr
  unfold updateMedianWitnessProps at hr
  obtain hr | ⟨o', d₁, ho', h1⟩ := Action.bind_thrown.mp hr
  · exact (noCrash_get _ _).never _ _ hr
  obtain ⟨ho', rfl⟩ := Action.get_ok.mp ho'
  obtain rfl : o' = o := Option.some.inj (ho'.symm.trans ho)
  obtain hr | ⟨active, d₂, hactive, h2⟩ := Action.bind_thrown.mp h1
  · exact (noCrash_collectWitnesses _ _ _).never _ _ hr
  have hmedian : ∀ {le}, NoCrash noWitnesses
      (Action.lift (medianWitness active le) : Act n Witness) :=
    noCrash_lift (medianWitness_not_crash (collected_ne_nil (f := id) hactive hne) _)
  refine NoCrash.never ?_ _ _ h2
  refine hmedian.bind fun fee => hmedian.bind fun spFee => ?_
  refine (noCrash_write (by decide)).bind fun _ => ?_
  refine hmedian.bind fun size => hmedian.bind fun rate => ?_
  exact noCrash_write (by decide)

/-! ## 3. The update of the schedule -/

theorem div128_not_crash (a b : Nat) (why : String) : div128 a b ≠ .error (.crash why) := by
  unfold div128
  split <;> nofun

theorem noCrash_updateProcessed (time : Nat) (processed : List (Nat × Witness)) :
    NoCrash noWitnesses (updateProcessed time processed : Act n Bool) := by
  induction processed with
  | nil => exact noCrash_pure _
  | cons r rest ih =>
    unfold updateProcessed
    refine (noCrash_lift (div128_not_crash _ _ _)).bind fun lap => .ite (fun _ => ?_) fun _ => ?_
    · exact noCrash_pure _
    · exact (noCrash_write (by decide)).bind fun _ => ih

theorem noCrash_resetVirtualScheduleTime :
    NoCrash noWitnesses (resetVirtualScheduleTime : Act n Unit) := by
  unfold resetVirtualScheduleTime
  refine (noCrash_write (by decide)).bind fun _ => (noCrash_read _).bind fun witnesses => ?_
  exact .forEach fun _ => noCrash_modifyWith (by decide) fun _ => div128_not_crash _ _ _

/-- The end of an update: the schedule is replaced, then the medians are taken. -/
theorem noCrash_replaceSchedule {names : List String} (hne : names ≠ [])
    {f : WitnessSchedule → WitnessSchedule} {hkey}
    (hf : ∀ o, (f o).currentShuffledWitnesses = names) :
    NoCrash noWitnesses (do
      Action.modify (S := chainSchema) Kind.witnessSchedule 0 f hkey
      updateMedianWitnessProps : Act n Unit) := by
  refine ⟨fun d d' hr => ?_⟩
  obtain hr | ⟨_, d₁, h1, h2⟩ := Action.bind_thrown.mp hr
  · exact (noCrash_write (by decide)).never _ _ hr
  · obtain ⟨o, _, hfree, e⟩ := modify_store h1
    refine updateMedianWitnessProps_not_crash ⟨f o, ?_, (hf o).symm ▸ hne⟩ h2
    rw [e, Store.get_write_self, if_pos rfl]

theorem shuffleFrom_ne_nil {nowHi size left : Nat} {l : List String} (hne : l ≠ []) :
    shuffleFrom nowHi size left l ≠ [] := fun hnil =>
  hne (List.perm_nil.mp (hnil ▸ (shuffleFrom_perm nowHi size left l).symm))

/-- **An update that finds somebody does not look into an empty list.** -/
theorem updateWitnessSchedule4_not_crash (hs : Signable d.store) :
    (updateWitnessSchedule4 : Act n Unit).run d ≠ .thrown (.crash noWitnesses) d' := by
  intro hr
  unfold updateWitnessSchedule4 at hr
  obtain hr | ⟨hf3, d₁, hhf3, hr⟩ := Action.bind_thrown.mp hr
  · exact ((noCrash_get _ _).bind fun _ => noCrash_pure _).never _ _ hr
  obtain ⟨rfl, rfl⟩ := hasHardfork_ok hhf3
  obtain hr | ⟨witnesses, d₂, hrows, hr⟩ := Action.bind_thrown.mp hr
  · exact (noCrash_read _).never _ _ hr
  cases hrows
  obtain hr | ⟨o, d₂, ho, hr⟩ := Action.bind_thrown.mp hr
  · exact (noCrash_get _ _).never _ _ hr
  obtain ⟨_, rfl⟩ := Action.get_ok.mp ho
  dsimp only at hr
  have hactive := (activeWitnesses_ne_nil o.currentVirtualTime).mpr hs
  unfold activeWitnesses leadingWitnesses votedWitnesses at hactive
  generalize runners _ _ _ _ o.currentVirtualTime = lead at hr hactive
  obtain ⟨time, processed, added⟩ := lead
  dsimp only at hr hactive
  refine NoCrash.never ?_ _ _ hr
  refine (noCrash_updateProcessed _ _).bind fun reset => ?_
  refine .ite (fun _ => noCrash_resetVirtualScheduleTime.bind fun _ => ?_) fun _ => ?_
  all_goals
    refine (noCrash_require _ _).bind fun _ => ?_
    refine ((noCrash_collectWitnesses _ _ _).bind fun _ => noCrash_pure _).bind fun votes => ?_
    split
    all_goals
      refine (noCrash_write (by decide)).bind fun _ => ?_
      refine noCrash_headBlockTime.bind fun now => noCrash_headBlockNum.bind fun num => ?_
      exact noCrash_replaceSchedule (shuffleFrom_ne_nil hactive) fun _ => rfl

/-- **Nothing is scheduled where nobody is found.** -/
theorem signable_of_updateWitnessSchedule4
    (hr : (updateWitnessSchedule4 : Act n Unit).run d = .ok () d') :
    Signable d.store ∧ Scheduled d'.store := by
  obtain ⟨d₁, d₂, d₃, d₄, o, reset, ballots, names, block, hsch⟩ := updateWitnessSchedule4_ok hr
  obtain ⟨o', ho', hnames, _, hne⟩ := hsch.after
  refine ⟨(activeWitnesses_ne_nil o.currentVirtualTime).mp fun hnil => hne ?_,
    o', ho', hnames.symm ▸ hne⟩
  exact List.perm_nil.mp (hnil ▸ hsch.shuffled)

/-! ## 4. Runs -/

theorem ChainStep.scheduled [Fc] {ok : Store chainSchema → Operation → Prop}
    (h : ChainStep ok s t) (hs : Scheduled s) : Scheduled t := by
  cases h with
  | @operation d d' u clock n push op _ ha _ hr =>
    have hchanges := (composed_evaluate clock push ha).steps.step hr
    cases op with
    | proposalUpdate o => cases ha
    | _ =>
      refine hs.of_changes hchanges ?_ ?_ ?_
      all_goals simp +decide [Operation.parts]
  | @routine d d' u n r hr =>
    have hchanges := (Routine.composed_act r).steps.step hr
    cases r with
    | witnessSchedule =>
      obtain ⟨_, _, ⟨_, rfl⟩ | ⟨_, h4⟩⟩ := witnessSchedule_ok hr
      · exact hs
      · exact (signable_of_updateWitnessSchedule4 h4).2
    | _ =>
      refine hs.of_changes hchanges ?_ ?_ ?_
      all_goals simp +decide [Routine.parts]

section

variable [Fc] {g : GenesisState} {past : Past} {m : Moment}

theorem Timeline.scheduled (h : Timeline g past m) : Scheduled m.store := by
  refine h.reached.invariant (fun {u d} hg => ?_) fun hst => hst.scheduled
  exact ⟨_, genesis_schedule hg, List.cons_ne_nil _ _⟩

/-- When an update of the schedule is due after hardfork 3, some witness has a key. -/
def Updatable (s : Store chainSchema) : Prop :=
  s.props.headBlockNumber % maxMiners = 0 → s.passed hardfork03 = true →
    ∃ i, ∃ w : Witness, s.get Kind.witness i = some w ∧ w.signingKey ≠ 0

omit [Fc] in
theorem updateWitnessSchedule_not_crash (hs : Rostered d.store) (hsched : Scheduled d.store)
    (hkey : Updatable d.store) :
    (updateWitnessSchedule : Act n Unit).run d ≠ .thrown (.crash noWitnesses) d' := by
  intro hr
  unfold updateWitnessSchedule at hr
  obtain hr | ⟨num, d₁, hnum, hr⟩ := Action.bind_thrown.mp hr
  · exact noCrash_headBlockNum.never _ _ hr
  obtain ⟨p, hp, hpure⟩ := bind_getDgp_ok.mp hnum
  cases hpure
  split at hr
  · rename_i hturn
    rw [← Store.props_of_get hp] at hturn
    exact updateWitnessSchedule4_not_crash ((signable_iff hs hsched).mpr (hkey hturn)) hr
  · cases hr

/-- **Somebody is scheduled in every moment**, and no look at the schedule crashes on an empty
list; an update does so only, and then does not return, where hardfork 3 is applied and no witness
has a key. -/
theorem schedule_usable (ht : Timeline g past m) :
    Scheduled m.store ∧
    ∀ (n : Nat) (d d' : Database chainSchema), d.store = m.store →
      (∀ slotNum, (getScheduledWitness slotNum : Act n String).run d ≠
        .thrown (.crash "no scheduled witnesses") d') ∧
      (∀ skip b, (updateGlobalDynamicData skip b : Act n Unit).run d ≠
        .thrown (.crash "no scheduled witnesses") d') ∧
      (updateLastIrreversibleBlock : Act n Unit).run d ≠
        .thrown (.crash "no scheduled witnesses") d' ∧
      (updateMedianFeed : Act n Unit).run d ≠ .thrown (.crash "no scheduled witnesses") d' ∧
      (updateMedianWitnessProps : Act n Unit).run d ≠
        .thrown (.crash "no scheduled witnesses") d' ∧
      (Updatable m.store → (updateWitnessSchedule : Act n Unit).run d ≠
        .thrown (.crash "no scheduled witnesses") d') ∧
      (¬Updatable m.store → ∀ u, (updateWitnessSchedule : Act n Unit).run d ≠ .ok u d') := by
  have hs := ht.scheduled
  refine ⟨hs, fun n d d' hd => ?_⟩
  rw [← hd] at hs ⊢
  have hroster : Rostered d.store := hd ▸ ht.rostered
  refine ⟨fun slotNum => (safe_getScheduledWitness slotNum).never hs,
    fun skip b => (safe_updateGlobalDynamicData skip b).never hs,
    updateLastIrreversibleBlock_not_crash hs, noCrash_updateMedianFeed.never _ _,
    updateMedianWitnessProps_not_crash hs, updateWitnessSchedule_not_crash hroster hs,
    fun hkey u hr => ?_⟩
  obtain ⟨p, hp, ⟨hturn, _⟩ | ⟨_, h4⟩⟩ := witnessSchedule_ok hr
  · rw [← Store.props_of_get hp] at hturn
    exact hkey fun h => absurd h hturn
  · exact hkey fun _ => (signable_iff hroster hs).mp (signable_of_updateWitnessSchedule4 h4).1

end

section

attribute [local instance] sampleFc

/-- After hardfork 3, a third round without operations but those of its last block: every witness
takes back its key. -/
def nullKeys : Payload :=
  { operations := (initMinerName :: minerNames).map (signWith 0), signatures := [1, 7] }

def crashesUnscheduled {α : Type} : Outcome chainSchema α → Bool
  | .thrown (.crash why) _ => decide (why = "no scheduled witnesses")
  | _ => false

/-- **The update after all keys are gone** looks into an empty list, in block 63. -/
theorem schedule_unusable : ∃ (past : Past) (d d' : Database chainSchema) (rest : List Routine),
    Timeline minersGenesis past ⟨d.store, .witnessSchedule :: rest⟩ ∧
      (updateWitnessSchedule : Act 0 Unit).run d =
        .thrown (.crash "no scheduled witnesses") d' := by
  obtain ⟨u, d, hr, hb, hcrash⟩ := Returns.exists
    (p := fun d => crashesUnscheduled ((updateWitnessSchedule : Act 0 Unit).run d))
    (show Returns _ (begun minersGenesis (hardforkPayloads ++ List.replicate 20 {}) nullKeys 5) = true
      by decide +kernel)
  obtain ⟨past, wit, b, ht⟩ := Timeline.begun hr hb
  cases hrun : (updateWitnessSchedule : Act 0 Unit).run d with
  | ok _ _ =>
    rw [hrun] at hcrash
    cases hcrash
  | thrown e d' =>
    rw [hrun] at hcrash
    cases e with
    | crash why =>
      obtain rfl := of_decide_eq_true hcrash
      exact ⟨past, d, d', _, ht, hrun⟩
    | assert | overflow => cases hcrash

/-- The init miner is scheduled after the hardforks. -/
theorem schedule_usable_miners : ∃ (d : Database chainSchema) (past : Past),
    founded minersGenesis hardforkPayloads = .ok () d ∧
      Timeline minersGenesis past ⟨d.store, []⟩ ∧ Updatable d.store ∧ Scheduled d.store ∧
      ∀ d', (updateWitnessSchedule : Act 0 Unit).run d ≠
        .thrown (.crash "no scheduled witnesses") d' := by
  obtain ⟨d, hr, hb, _, hkey⟩ := exists_hardforkRun
  obtain ⟨w, hw, he⟩ := Option.map_eq_some_iff.mp hkey
  obtain ⟨⟨past, ht⟩, _⟩ := Timeline.founded hr hb
  have hupdatable : Updatable d.store := fun _ _ => ⟨0, w, hw, by rw [he]; decide⟩
  obtain ⟨hs, hall⟩ := schedule_usable ht
  exact ⟨d, past, hr, ht, hupdatable, hs, fun d' => (hall 0 d d' rfl).2.2.2.2.2.1 hupdatable⟩

end

end MuseChain
