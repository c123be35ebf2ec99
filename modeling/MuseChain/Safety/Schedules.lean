/-
  File:      MuseChain/Safety/Schedules.lean
  Subject:   What an update of the witness schedule does, and who is scheduled.

  * `collectWitnesses_ok`: the loops over the scheduled witnesses collect one value of each.
  * `activeWitnesses s`: the witnesses that an update schedules. Their names differ
    (`activeWitnesses_nodup`), and each is that of a witness.
  * `Scheduling d d'`: an update, cut into its parts (`updateWitnessSchedule4_ok`).
  * `Rostered s`: the scheduled names differ, and are those of witnesses.
-/
import MuseChain.Safety.Tallies
import MuseChain.Safety.ChainRuns

namespace MuseChain

variable {n : Nat} {d d' : Database chainSchema} {u : Unit}

/-! ## 1. Witnesses by name -/

/-- The witness with a name. -/
def IsNamed (s : Store chainSchema) (name : String) (w : Witness) : Prop :=
  ∃ i, s.get Kind.witness i = some w ∧ w.owner = name

theorem witness_unique {s : Store chainSchema} {i j : Nat} {a b : Witness}
    (ha : s.get Kind.witness i = some a) (hb : s.get Kind.witness j = some b)
    (h : a.owner = b.owner) : i = j := by
  by_contra hij
  have := s.unique Kind.witness i j a b hij ha hb
  simp [Schema.clashes, Kind.unique, h] at this

theorem IsNamed.unique {s : Store chainSchema} {name : String} {w w' : Witness}
    (h : IsNamed s name w) (h' : IsNamed s name w') : w = w' := by
  obtain ⟨i, hi, hn⟩ := h
  obtain ⟨j, hj, hn'⟩ := h'
  obtain rfl := witness_unique hi hj (hn.trans hn'.symm)
  exact Option.some.inj (hi.symm.trans hj)

theorem getWitness_ok {name : String} {w : Witness}
    (h : (getWitness name : Act n Witness).run d = .ok w d') :
    d' = d ∧ IsNamed d.store name w := by
  have hd : d' = d := (looks_getWitness name).of_ok h
  obtain ⟨i, v, hi, hn, hget⟩ := bind_getRow_ok h
  obtain ⟨hw, _⟩ := getObject_ok.mp hget
  obtain rfl : v = w := Option.some.inj (hi.symm.trans hw)
  exact ⟨hd, i, hw, of_decide_eq_true hn⟩

/-- **A loop over names collects a value of each of the witnesses.** -/
theorem collectWitnesses_ok {β : Type} {f : Witness → β} {names : List String} {acc out : List β}
    (h : (Action.foldEach names acc fun acc name => do
      let w ← getWitness name
      pure (acc ++ [f w]) : Act n (List β)).run d = .ok out d') :
    d' = d ∧ ∃ ws, List.Forall₂ (IsNamed d.store) names ws ∧ out = acc ++ ws.map f := by
  induction names generalizing acc d with
  | nil =>
    cases h
    exact ⟨rfl, [], .nil, by simp⟩
  | cons name names ih =>
    obtain ⟨next, d₁, h1, h2⟩ := Action.bind_ok.mp h
    obtain ⟨w, d₂, hw, hpure⟩ := Action.bind_ok.mp h1
    cases hpure
    obtain ⟨rfl, hnamed⟩ := getWitness_ok hw
    obtain ⟨rfl, ws, hws, rfl⟩ := ih h2
    exact ⟨rfl, w :: ws, .cons hnamed hws, by simp⟩

/-- One of the values of a loop is that of one of the names. -/
theorem exists_name {α β : Type} {R : α → β → Prop} {names : List α} {ws : List β}
    (h : List.Forall₂ R names ws) {w : β} (hw : w ∈ ws) : ∃ name ∈ names, R name w := by
  induction h with
  | nil => exact absurd hw List.not_mem_nil
  | @cons name w' names ws hR _ ih =>
    obtain rfl | hw := List.mem_cons.mp hw
    · exact ⟨name, List.mem_cons_self, hR⟩
    · obtain ⟨name', hname, hR'⟩ := ih hw
      exact ⟨name', List.mem_cons_of_mem _ hname, hR'⟩

/-! ## 2. Who is scheduled -/

/-- The highest voted witnesses. -/
def votedWitnesses (s : Store chainSchema) : List (Nat × Witness) :=
  ((byVoteName (s.rows Kind.witness)).filter fun r =>
    !unsignable (s.passed hardfork03) r.2).take maxVotedWitnesses

/-- The running witnesses in the lead: the new virtual time, who was processed, who is added. -/
def leadingWitnesses (s : Store chainSchema) (time : Nat) :
    Nat × List (Nat × Witness) × List String :=
  runners (s.passed hardfork03) ((votedWitnesses s).map (·.1))
    (byScheduleTime (s.rows Kind.witness)) (votedWitnesses s).length time

def activeWitnesses (s : Store chainSchema) (time : Nat) : List String :=
  (votedWitnesses s).map (·.2.owner) ++ (leadingWitnesses s time).2.2

/-- The rows that may be added as runners. -/
def Addable (hf3 : Bool) (voted : List Nat) (r : Nat × Witness) : Bool :=
  !unsignable hf3 r.2 && !decide (r.1 ∈ voted)

/-- Who is added: the first of the rows that may be, until there are enough. -/
theorem runners_added (hf3 : Bool) (voted : List Nat) (l : List (Nat × Witness)) (count time : Nat) :
    (runners hf3 voted l count time).2.2 =
      ((l.filter (Addable hf3 voted)).take (maxMiners - count)).map (·.2.owner) := by
  induction l generalizing count time with
  | nil => simp [runners]
  | cons r rest ih =>
    unfold runners
    split
    · rename_i hfull
      have : maxMiners - count = 0 := by omega
      rw [this]
      rfl
    · rename_i hroom
      split
      · rename_i hskip
        have hno : Addable hf3 voted r = false := by
          unfold Addable
          rw [← Bool.not_or, hskip]
          rfl
        rw [List.filter_cons_of_neg (by simp [hno])]
        exact ih count _
      · rename_i hadd
        have hyes : Addable hf3 voted r = true := by
          unfold Addable
          rw [← Bool.not_or, Bool.eq_false_iff.mpr hadd]
          rfl
        have hroom' : maxMiners - count = (maxMiners - (count + 1)) + 1 := by omega
        rw [List.filter_cons_of_pos hyes, hroom', List.take_succ_cons, List.map_cons]
        exact congrArg _ (ih (count + 1) _)

theorem mem_votedWitnesses {s : Store chainSchema} {r : Nat × Witness}
    (h : r ∈ votedWitnesses s) : s.get Kind.witness r.1 = some r.2 := by
  have h1 := (List.mem_filter.mp (List.mem_of_mem_take h)).1
  exact FMap.mem_rows.mp ((List.perm_insertionSort _ _).mem_iff.mp h1)

theorem nodup_rows (s : Store chainSchema) (k : Kind) : (s.rows k).Nodup :=
  (s.table k).map.sorted.imp fun hlt e => absurd (congrArg Prod.fst e) (Nat.ne_of_lt hlt)

theorem nodup_votedWitnesses (s : Store chainSchema) : (votedWitnesses s).Nodup := by
  have h : (byVoteName (s.rows Kind.witness)).Nodup :=
    (List.perm_insertionSort _ _).nodup_iff.mpr (nodup_rows s Kind.witness)
  exact (h.filter _).sublist (List.take_sublist _ _)

/-- The names of rows that differ differ. -/
theorem owners_nodup {s : Store chainSchema} {l : List (Nat × Witness)} (h : l.Nodup)
    (hl : ∀ r ∈ l, s.get Kind.witness r.1 = some r.2) : (l.map (·.2.owner)).Nodup := by
  refine h.map_on fun r hr r' hr' e => ?_
  have hid := witness_unique (hl r hr) (hl r' hr') e
  refine Prod.ext hid (Option.some.inj ?_)
  rw [← hl r hr, ← hl r' hr', hid]

/-- Those that are added are witnesses that are not voted. -/
theorem mem_added {s : Store chainSchema} {time : Nat} {name : String}
    (h : name ∈ (leadingWitnesses s time).2.2) :
    ∃ r : Nat × Witness, s.get Kind.witness r.1 = some r.2 ∧ r.2.owner = name ∧
      Addable (s.passed hardfork03) ((votedWitnesses s).map (·.1)) r = true := by
  unfold leadingWitnesses at h
  rw [runners_added] at h
  obtain ⟨r, hr, rfl⟩ := List.mem_map.mp h
  obtain ⟨hrow, hadd⟩ := List.mem_filter.mp (List.mem_of_mem_take hr)
  exact ⟨r, FMap.mem_rows.mp ((List.perm_insertionSort _ _).mem_iff.mp hrow), rfl, hadd⟩

/-- **The names of those that are scheduled differ.** -/
theorem activeWitnesses_nodup (s : Store chainSchema) (time : Nat) :
    (activeWitnesses s time).Nodup := by
  unfold activeWitnesses
  refine List.nodup_append.mpr ⟨owners_nodup (nodup_votedWitnesses s) fun r =>
    mem_votedWitnesses, ?_, fun a ha b hb hab => ?_⟩
  · unfold leadingWitnesses
    rw [runners_added]
    have hsorted : (byScheduleTime (s.rows Kind.witness)).Nodup :=
      (List.perm_insertionSort _ _).nodup_iff.mpr (nodup_rows s Kind.witness)
    refine owners_nodup (s := s) ((hsorted.filter _).sublist (List.take_sublist _ _)) fun r hr => ?_
    have hrow := (List.mem_filter.mp (List.mem_of_mem_take hr)).1
    exact FMap.mem_rows.mp ((List.perm_insertionSort _ _).mem_iff.mp hrow)
  · -- a witness that is voted is not added
    subst hab
    obtain ⟨v, hv, rfl⟩ := List.mem_map.mp ha
    obtain ⟨r, hr, hname, hadd⟩ := mem_added hb
    have hid := witness_unique hr (mem_votedWitnesses hv) hname
    unfold Addable at hadd
    simp only [Bool.and_eq_true, Bool.not_eq_true', decide_eq_false_iff_not] at hadd
    exact hadd.2 (hid ▸ List.mem_map_of_mem hv)

theorem mem_activeWitnesses {s : Store chainSchema} {time : Nat} {name : String}
    (h : name ∈ activeWitnesses s time) : ∃ w, IsNamed s name w := by
  rcases List.mem_append.mp h with h | h
  · obtain ⟨r, hr, rfl⟩ := List.mem_map.mp h
    exact ⟨r.2, r.1, mem_votedWitnesses hr, rfl⟩
  · obtain ⟨r, hr, rfl, _⟩ := mem_added h
    exact ⟨r.2, r.1, hr, rfl⟩

theorem swapAt_perm (l : List String) (i j : Nat) : (swapAt l i j).Perm l := by
  unfold swapAt
  split
  · rename_i a b ha hb
    obtain ⟨hi, rfl⟩ := List.getElem?_eq_some_iff.mp ha
    obtain ⟨hj, rfl⟩ := List.getElem?_eq_some_iff.mp hb
    exact List.set_set_perm hi hj
  · exact .refl l

/-- A shuffle loses nobody. -/
theorem shuffleFrom_perm (nowHi size left : Nat) (l : List String) :
    (shuffleFrom nowHi size left l).Perm l := by
  induction left generalizing l with
  | zero => exact .refl l
  | succ left ih => exact (ih _).trans (swapAt_perm l _ _)

/-! ## 3. The update -/

/-- The part of the schedule update about the next hardfork. -/
def voteOnHardfork (votes : List (Version × Nat)) : Act n Unit :=
  match votes.find? fun v => decide (hardforkRequiredWitnesses ≤ votes.count v) with
  | some v =>
      Action.modify (S := chainSchema) Kind.hardforkProperty 0
        fun h : HardforkProperty => { h with nextHardfork := v.1, nextHardforkTime := v.2 }
  | none =>
      Action.modify (S := chainSchema) Kind.hardforkProperty 0
        fun h : HardforkProperty => { h with nextHardfork := h.currentHardforkVersion }

/-- An update of the schedule, cut into its parts: the virtual times (`d` to `d₂`), the vote on
the next hardfork (to `d₃`), the new schedule (to `d₄`) and the median properties. -/
structure Scheduling (n : Nat) (d d₁ d₂ d₃ d₄ d' : Database chainSchema) (o : WitnessSchedule)
    (reset : Bool) (ballots : List (Version × Nat)) (names : List String) (block : Nat) : Prop where
  schedule : d.store.get Kind.witnessSchedule 0 = some o
  processed : (updateProcessed (leadingWitnesses d.store o.currentVirtualTime).1
    (leadingWitnesses d.store o.currentVirtualTime).2.1 : Act n Bool).run d = .ok reset d₁
  restarted : ((if reset = true then resetVirtualScheduleTime else pure ()) : Act n Unit).run d₁ =
    .ok () d₂
  votes : ∃ ws : List Witness,
    List.Forall₂ (IsNamed d₂.store) o.currentShuffledWitnesses ws ∧
    ballots.Perm (ws.map fun w => (w.hardforkVersionVote, w.hardforkTimeVote))
  hardfork : (voteOnHardfork ballots : Act n Unit).run d₂ = .ok () d₃
  shuffled : names.Perm (activeWitnesses d.store o.currentVirtualTime)
  replaced : (Action.modify (S := chainSchema) Kind.witnessSchedule 0 (fun o' : WitnessSchedule =>
    { o' with
      currentShuffledWitnesses := names
      currentVirtualTime := if reset = true then 0
        else (leadingWitnesses d.store o.currentVirtualTime).1
      nextShuffleBlockNum := block }) : Act n Unit).run d₃ = .ok () d₄
  median : (updateMedianWitnessProps : Act n Unit).run d₄ = .ok () d'

theorem hardforkVotes_ok {names : List String} {votes : List (Version × Nat)}
    (h : (hardforkVotes names : Act n (List (Version × Nat))).run d = .ok votes d') :
    d' = d ∧ ∃ ws : List Witness, List.Forall₂ (IsNamed d.store) names ws ∧
      votes.Perm (ws.map fun w => (w.hardforkVersionVote, w.hardforkTimeVote)) := by
  unfold hardforkVotes at h
  obtain ⟨l, d₁, h1, h2⟩ := Action.bind_ok.mp h
  cases h2
  obtain ⟨rfl, ws, hws, rfl⟩ := collectWitnesses_ok h1
  exact ⟨rfl, ws, hws, List.perm_insertionSort _ _⟩

/-- A step that is taken or not, and what comes after it. -/
theorem ite_bind_ok {β : Type} {c : Prop} [Decidable c] {x : Act n Unit} {f : Unit → Act n β}
    {b : β} (h : (if c then x >>= f else f ()).run d = .ok b d') :
    ∃ d₁, ((if c then x else pure ()) : Act n Unit).run d = .ok () d₁ ∧
      (f ()).run d₁ = .ok b d' := by
  split at h
  · rename_i hc
    obtain ⟨_, d₁, h1, h2⟩ := Action.bind_ok.mp h
    rw [if_pos hc]
    exact ⟨d₁, h1, h2⟩
  · rename_i hc
    rw [if_neg hc]
    exact ⟨d, rfl, h⟩

/-- The schedule, with the time that the shuffle is seeded with. -/
theorem updateWitnessSchedule4_parts
    (h : (updateWitnessSchedule4 : Act n Unit).run d = .ok () d') :
    ∃ d₁ d₂ d₃ d₄ o reset ballots names block,
      Scheduling n d d₁ d₂ d₃ d₄ d' o reset ballots names block ∧
      ∃ p : DynamicGlobalProperty, d₃.store.get Kind.dynamicGlobalProperty 0 = some p ∧
        names = shuffleFrom (u64 (p.time * 4294967296))
          (activeWitnesses d.store o.currentVirtualTime).length
          (activeWitnesses d.store o.currentVirtualTime).length
          (activeWitnesses d.store o.currentVirtualTime) := by
  unfold updateWitnessSchedule4 at h
  replace h := bind_hasHardfork_ok h
  obtain ⟨witnesses, d₀, hrows, h⟩ := Action.bind_ok.mp h
  cases hrows
  dsimp only at h
  obtain ⟨o, ho, hr⟩ := Action.bind_get_ok.mp h
  clear h
  generalize hlead : runners _ _ _ _ o.currentVirtualTime = lead at hr
  have hlead : leadingWitnesses d.store o.currentVirtualTime = lead := hlead
  obtain ⟨time, processed, added⟩ := lead
  dsimp only at hr
  obtain ⟨reset, d₁, hproc, h1⟩ := Action.bind_ok.mp hr
  obtain ⟨d₂, hreset, h2⟩ := ite_bind_ok h1
  obtain ⟨_, h3⟩ := Action.bind_require_ok.mp h2
  obtain ⟨ballots, e₂, hballots, h4⟩ := Action.bind_ok.mp h3
  obtain ⟨rfl, hws⟩ := hardforkVotes_ok hballots
  have hactive : activeWitnesses d.store o.currentVirtualTime =
      (votedWitnesses d.store).map (·.2.owner) ++ added := by
    unfold activeWitnesses
    rw [hlead]
  obtain ⟨d₃, d₄, block, p, hvote, hp, hreplace, hmedian⟩ :
      ∃ d₃ d₄ block, ∃ p : DynamicGlobalProperty,
        (voteOnHardfork ballots : Act n Unit).run e₂ = .ok () d₃ ∧
        d₃.store.get Kind.dynamicGlobalProperty 0 = some p ∧
        (Action.modify (S := chainSchema) Kind.witnessSchedule 0 (fun o' : WitnessSchedule =>
          { o' with
            currentShuffledWitnesses := shuffleFrom (u64 (p.time * 4294967296))
              (activeWitnesses d.store o.currentVirtualTime).length
              (activeWitnesses d.store o.currentVirtualTime).length
              (activeWitnesses d.store o.currentVirtualTime)
            currentVirtualTime := if reset = true then 0 else time
            nextShuffleBlockNum := block }) : Act n Unit).run d₃ = .ok () d₄ ∧
        (updateMedianWitnessProps : Act n Unit).run d₄ = .ok () d' := by
    unfold voteOnHardfork
    rw [hactive]
    cases hfind : ballots.find? fun v => decide (hardforkRequiredWitnesses ≤ ballots.count v)
    all_goals
      rw [hfind] at h4
      obtain ⟨_, d₃, hvote, h5⟩ := Action.bind_ok.mp h4
      obtain ⟨p, hp, h6⟩ := bind_headBlockTime_ok h5
      obtain ⟨num, e₄, hnum, h7⟩ := Action.bind_ok.mp h6
      obtain rfl := looks_headBlockNum.of_ok hnum
      obtain ⟨_, d₄, hreplace, hmedian⟩ := Action.bind_ok.mp h7
      exact ⟨_, d₄, _, p, hvote, hp, hreplace, hmedian⟩
  refine ⟨d₁, e₂, d₃, d₄, o, reset, ballots, _, block, ⟨ho, ?_, hreset, hws, hvote,
    shuffleFrom_perm _ _ _ _, ?_, hmedian⟩, p, hp, rfl⟩
  · rw [hlead]
    exact hproc
  · rw [hlead]
    exact hreplace

theorem updateWitnessSchedule4_ok
    (h : (updateWitnessSchedule4 : Act n Unit).run d = .ok () d') :
    ∃ d₁ d₂ d₃ d₄ o reset ballots names block,
      Scheduling n d d₁ d₂ d₃ d₄ d' o reset ballots names block := by
  obtain ⟨d₁, d₂, d₃, d₄, o, reset, ballots, names, block, hparts, _⟩ :=
    updateWitnessSchedule4_parts h
  exact ⟨d₁, d₂, d₃, d₄, o, reset, ballots, names, block, hparts⟩

theorem medianWitness_ok {active : List Witness} {le : Witness → Witness → Bool} {w : Witness}
    (h : medianWitness active le = .ok w) : w ∈ active := by
  unfold medianWitness at h
  dsimp only at h
  split at h
  · rename_i v hv
    cases h
    exact (List.perm_insertionSort _ _).mem_iff.mp (List.mem_of_getElem? hv)
  · cases h

/-- The median properties are those of scheduled witnesses, and the schedule stays. -/
theorem updateMedianWitnessProps_ok (h : (updateMedianWitnessProps : Act n Unit).run d = .ok u d') :
    ∃ o o' : WitnessSchedule, d.store.get Kind.witnessSchedule 0 = some o ∧
      d'.store.get Kind.witnessSchedule 0 = some o' ∧
      o'.currentShuffledWitnesses = o.currentShuffledWitnesses ∧
      o'.currentVirtualTime = o.currentVirtualTime ∧ o.currentShuffledWitnesses ≠ [] := by
  unfold updateMedianWitnessProps at h
  obtain ⟨o, ho, h1⟩ := Action.bind_get_ok.mp h
  obtain ⟨active, d₁, hactive, h2⟩ := Action.bind_ok.mp h1
  obtain ⟨rfl, ws, hws, rfl⟩ := collectWitnesses_ok (f := id) hactive
  obtain ⟨fee, hfee, h3⟩ := Action.bind_lift_ok.mp h2
  obtain ⟨spFee, _, h4⟩ := Action.bind_lift_ok.mp h3
  obtain ⟨_, d₂, hmodify, h5⟩ := Action.bind_ok.mp h4
  obtain ⟨size, _, h6⟩ := Action.bind_lift_ok.mp h5
  obtain ⟨rate, _, h7⟩ := Action.bind_lift_ok.mp h6
  obtain ⟨o₁, ho₁, hf, e⟩ := modify_store hmodify
  obtain rfl : o₁ = o := Option.some.inj (ho₁.symm.trans ho)
  obtain ⟨p, _, _, _, hf', e'⟩ := modifyWith_store h7
  have hsame : d'.store.get Kind.witnessSchedule 0 = d₂.store.get Kind.witnessSchedule 0 := by
    rw [e', Store.get_write_ne _ (show Kind.witnessSchedule ≠ Kind.dynamicGlobalProperty by decide)]
  rw [e, Store.get_write_self, if_pos rfl] at hsame
  refine ⟨o₁, _, ho, hsame, rfl, rfl, fun hnil => ?_⟩
  rw [hnil] at hws
  cases hws
  exact absurd (medianWitness_ok hfee) List.not_mem_nil

/-- The routine: an update of the schedule, or nothing. -/
theorem witnessSchedule_ok (h : (updateWitnessSchedule : Act n Unit).run d = .ok u d') :
    ∃ p : DynamicGlobalProperty, d.store.get Kind.dynamicGlobalProperty 0 = some p ∧
      (p.headBlockNumber % maxMiners ≠ 0 ∧ d' = d ∨ p.headBlockNumber % maxMiners = 0 ∧
        (updateWitnessSchedule4 : Act n Unit).run d = .ok () d') := by
  unfold updateWitnessSchedule at h
  obtain ⟨num, d₁, hnum, h1⟩ := Action.bind_ok.mp h
  obtain ⟨p, hp, hpure⟩ := bind_getDgp_ok.mp hnum
  cases hpure
  refine ⟨p, hp, ?_⟩
  split at h1
  · rename_i hturn
    exact .inr ⟨hturn, h1⟩
  · rename_i hturn
    cases h1
    exact .inl ⟨hturn, rfl⟩

/-! ## 4. The roster -/

/-- The scheduled names differ, and each is that of a witness. -/
def Rostered (s : Store chainSchema) : Prop :=
  ∀ o : WitnessSchedule, s.get Kind.witnessSchedule 0 = some o →
    o.currentShuffledWitnesses.Nodup ∧
    ∀ name ∈ o.currentShuffledWitnesses, ∃ w, IsNamed s name w

section

variable {l : List Part} {s t : Store chainSchema}

/-- No witness goes, and none gets another name. -/
theorem IsNamed.stays (h : Obeys (changes l) s t) (hg : .gone .witness ∉ l)
    (hi : .witness .identity ∉ l) {name : String} {w : Witness} (hw : IsNamed s name w) :
    ∃ w', IsNamed t name w' ∧ Same l Kind.witness w w' := by
  obtain ⟨i, hget, hname⟩ := hw
  obtain ⟨a, b, ha, hb, hab⟩ | ⟨hn, _⟩ | ⟨_, _, hn, _⟩ := changes_cases (h Kind.witness i) hg
  · obtain rfl : a = w := Option.some.inj (ha.symm.trans hget)
    have hv := Or.resolve_left (hab .identity) hi
    have howner : a.owner = b.owner := congrArg Prod.fst hv
    exact ⟨b, ⟨i, hb, howner.symm.trans hname⟩, hab⟩
  · exact nomatch hget.symm.trans hn
  · exact nomatch hget.symm.trans hn

/-- A group of fields of a witness, as it was before. -/
theorem witness_before (h : Obeys (changes l) s t) (hm : .made .witness ∉ l)
    (hg : .gone .witness ∉ l) {f : WitnessField} (hf : .witness f ∉ l) {i : Nat} {b : Witness}
    (hb : t.get Kind.witness i = some b) :
    ∃ a : Witness, s.get Kind.witness i = some a ∧ a.view f = b.view f := by
  obtain ⟨a, b', ha, hb', hab⟩ | ⟨_, hn⟩ | ⟨_, _, _, _, hmade, _⟩ :=
    changes_cases (h Kind.witness i) hg
  · obtain rfl : b' = b := Option.some.inj (hb'.symm.trans hb)
    exact ⟨a, ha, Or.resolve_left (hab f) hf⟩
  · exact nomatch hb.symm.trans hn
  · exact absurd hmade hm

/-- The same witnesses, as they were before. -/
theorem roll_before (h : Obeys (changes l) s t) (hm : .made .witness ∉ l)
    (hg : .gone .witness ∉ l) (hi : .witness .identity ∉ l) {f : WitnessField}
    (hf : .witness f ∉ l) {names : List String} {ws : List Witness}
    (hws : List.Forall₂ (IsNamed t) names ws) :
    ∃ vs : List Witness, List.Forall₂ (IsNamed s) names vs ∧
      vs.map (Witness.view f) = ws.map (Witness.view f) := by
  induction hws with
  | nil => exact ⟨[], .nil, rfl⟩
  | cons hw _ ih =>
    obtain ⟨vs, hvs, hmap⟩ := ih
    obtain ⟨i, hb, rfl⟩ := hw
    obtain ⟨a, ha, hid⟩ := witness_before h hm hg hi hb
    obtain ⟨a', ha', hview⟩ := witness_before h hm hg hf hb
    obtain rfl : a = a' := Option.some.inj (ha.symm.trans ha')
    refine ⟨a :: vs, .cons ⟨i, ha, congrArg Prod.fst hid⟩ hvs, ?_⟩
    rw [List.map_cons, List.map_cons, hview, hmap]

theorem schedule_stays (h : Obeys (changes l) s t) (hm : .made .witnessSchedule ∉ l)
    (hg : .gone .witnessSchedule ∉ l) (hw : .whole .witnessSchedule ∉ l) (i : Nat) :
    t.get Kind.witnessSchedule i = s.get Kind.witnessSchedule i :=
  get_of_unchanged h hm hg fun _ _ hab => Or.resolve_left hab hw

/-- The parts that the roster is taken from. -/
def Part.rostered : Part → Bool
  | .gone .witness | .witness .identity | .made .witnessSchedule | .gone .witnessSchedule
  | .whole .witnessSchedule => true
  | _ => false

theorem not_mem_of_false {f : Part → Bool} (h : ∀ p ∈ l, f p = false) {p : Part}
    (hp : f p = true) : p ∉ l := fun hm => by
  rw [h p hm] at hp
  cases hp

theorem Rostered.of_changes (hs : Rostered s) (h : Obeys (changes l) s t)
    (hl : ∀ p ∈ l, p.rostered = false) : Rostered t := by
  intro o ho
  rw [schedule_stays h (not_mem_of_false hl rfl) (not_mem_of_false hl rfl)
    (not_mem_of_false hl rfl)] at ho
  obtain ⟨hnodup, hnames⟩ := hs o ho
  refine ⟨hnodup, fun name hname => ?_⟩
  obtain ⟨w, hw⟩ := hnames name hname
  obtain ⟨w', hw', _⟩ := hw.stays h (not_mem_of_false hl rfl) (not_mem_of_false hl rfl)
  exact ⟨w', hw'⟩

end

/-- The new schedule, as it stands after the update. -/
theorem Scheduling.after {d₁ d₂ d₃ d₄ : Database chainSchema} {o : WitnessSchedule} {reset : Bool}
    {ballots : List (Version × Nat)} {names : List String} {block : Nat}
    (h : Scheduling n d d₁ d₂ d₃ d₄ d' o reset ballots names block) :
    ∃ o' : WitnessSchedule, d'.store.get Kind.witnessSchedule 0 = some o' ∧
      o'.currentShuffledWitnesses = names ∧
      o'.currentVirtualTime = (if reset = true then 0
        else (leadingWitnesses d.store o.currentVirtualTime).1) ∧ names ≠ [] := by
  obtain ⟨a, ha, hf, e⟩ := modify_store h.replaced
  obtain ⟨o₁, o₂, ho₁, ho₂, h1, h2, hne⟩ := updateMedianWitnessProps_ok h.median
  rw [e, Store.get_write_self, if_pos rfl] at ho₁
  cases ho₁
  exact ⟨o₂, ho₂, h1, h2, hne⟩

theorem Rostered.witnessSchedule (h : (updateWitnessSchedule : Act n Unit).run d = .ok u d')
    (hs : Rostered d.store) : Rostered d'.store := by
  obtain ⟨_, _, ⟨_, rfl⟩ | ⟨_, h4⟩⟩ := witnessSchedule_ok h
  · exact hs
  · have hchanges : Obeys (changes scheduleParts) d.store d'.store :=
      (composed_updateWitnessSchedule4 (List.Subset.refl _)).steps.step h4
    obtain ⟨d₁, d₂, d₃, d₄, o, reset, ballots, names, block, hsch⟩ := updateWitnessSchedule4_ok h4
    obtain ⟨o', ho', hnames, _, _⟩ := hsch.after
    intro o'' ho''
    obtain rfl : o' = o'' := Option.some.inj (ho'.symm.trans ho'')
    rw [hnames]
    refine ⟨hsch.shuffled.nodup_iff.mpr (activeWitnesses_nodup ..), fun name hname => ?_⟩
    obtain ⟨w, hw⟩ := mem_activeWitnesses (hsch.shuffled.mem_iff.mp hname)
    obtain ⟨w', hw', _⟩ := hw.stays hchanges (by decide) (by decide)
    exact ⟨w', hw'⟩

theorem ChainStep.rostered [Fc] {ok : Store chainSchema → Operation → Prop}
    {s t : Store chainSchema} (h : ChainStep ok s t) (hs : Rostered s) : Rostered t := by
  cases h with
  | @operation d d' u clock n push op _ ha _ hr =>
    refine hs.of_changes ((composed_evaluate clock push ha).steps.step hr) ?_
    cases op with
    | proposalUpdate o => cases ha
    | _ => simp +decide [Operation.parts]
  | @routine d d' u n r hr =>
    cases r with
    | witnessSchedule => exact hs.witnessSchedule hr
    | _ =>
      exact hs.of_changes ((Routine.composed_act _).steps.step hr) (by simp +decide [Routine.parts])

end MuseChain
