/-
  File:      MuseChain/Safety/Selection.lean
  Subject:   Whom an update of the witness schedule selects, and the shuffle of them.

  * `Selected s active`: the names of the highest voted candidates, then those of the candidates
    that are next by virtual time, in the order of the two indexes.
  * `Shuffled now active names`: the names after the swaps, each of two places of the list.
  * **`schedule_selected`**: the schedule that an update leaves is the selection, shuffled; and
    from sound objects an update returns.
-/
import MuseChain.Lib.Ranks
import MuseChain.Safety.Schedules
import MuseChain.Safety.Endings
import Mathlib.Data.Char
import Mathlib.Data.List.Lex

namespace MuseChain

open Ranks (IsFirst isFirst_take_filter)

variable {n : Nat} {d d' : Database chainSchema} {s : Store chainSchema}

/-! ## 1. The two orders -/

/-- The order by_vote_name: more votes, then the smaller name. -/
def Outvotes (a b : Nat × Witness) : Prop :=
  b.2.votes < a.2.votes ∨ a.2.votes = b.2.votes ∧ nameLt a.2.owner b.2.owner = true

/-- The order by_schedule_time: the earlier virtual time, then the smaller id. -/
def Precedes (a b : Nat × Witness) : Prop :=
  a.2.virtualScheduledTime < b.2.virtualScheduledTime ∨
    a.2.virtualScheduledTime = b.2.virtualScheduledTime ∧ a.1 < b.1

theorem nameLt_false {a b : String} : nameLt a b = false ↔ b.toList ≤ a.toList := by
  unfold nameLt
  rw [decide_eq_false_iff_not, not_lt]

theorem nameLt_of_not {a b : String} (h : nameLt b a = false) (hne : a ≠ b) :
    nameLt a b = true :=
  decide_eq_true (lt_of_le_of_ne (nameLt_false.mp h) fun e => hne (String.toList_inj.mp e))

theorem byVoteName_sorted (s : Store chainSchema) :
    (byVoteName (s.rows Kind.witness)).Pairwise Outvotes := by
  let ahead : Nat × Witness → Nat × Witness → Prop := fun a b =>
    b.2.votes < a.2.votes ∨ (a.2.votes = b.2.votes ∧ nameLt b.2.owner a.2.owner = false)
  have htotal : Std.Total ahead := ⟨fun a b => by
    rcases lt_trichotomy a.2.votes b.2.votes with h | h | h
    · exact .inr (.inl h)
    · rcases le_total a.2.owner.toList b.2.owner.toList with hn | hn
      · exact .inl (.inr ⟨h, nameLt_false.mpr hn⟩)
      · exact .inr (.inr ⟨h.symm, nameLt_false.mpr hn⟩)
    · exact .inl (.inl h)⟩
  have htrans : IsTrans (Nat × Witness) ahead := ⟨fun a b c hab hbc => by
    rcases hab with hab | ⟨hab, hn⟩ <;> rcases hbc with hbc | ⟨hbc, hn'⟩
    · exact .inl (hbc.trans hab)
    · exact .inl (hbc ▸ hab)
    · exact .inl (hab ▸ hbc)
    · have hle := (nameLt_false.mp hn).trans (nameLt_false.mp hn')
      exact .inr ⟨hab.trans hbc, nameLt_false.mpr hle⟩⟩
  have hperm : (byVoteName (s.rows Kind.witness)).Perm (s.rows Kind.witness) :=
    List.perm_insertionSort _ _
  have hsorted : (byVoteName (s.rows Kind.witness)).Pairwise ahead :=
    List.pairwise_insertionSort ahead _
  have howners : (byVoteName (s.rows Kind.witness)).Pairwise fun a b => a.2.owner ≠ b.2.owner :=
    List.pairwise_map.mp (owners_nodup (hperm.nodup_iff.mpr (nodup_rows s Kind.witness))
      fun r hr => FMap.mem_rows.mp (hperm.mem_iff.mp hr))
  refine (hsorted.and howners).imp fun {a b} h => ?_
  obtain ⟨hvotes | ⟨hvotes, hname⟩, hne⟩ := h
  · exact .inl hvotes
  · exact .inr ⟨hvotes, nameLt_of_not hname hne⟩

theorem byScheduleTime_strict (s : Store chainSchema) :
    (byScheduleTime (s.rows Kind.witness)).Pairwise Precedes := by
  let before : Nat × Witness → Nat × Witness → Prop := fun a b =>
    a.2.virtualScheduledTime < b.2.virtualScheduledTime ∨
      (a.2.virtualScheduledTime = b.2.virtualScheduledTime ∧ a.1 ≤ b.1)
  have htotal : Std.Total before := ⟨fun a b => by unfold before; omega⟩
  have htrans : IsTrans (Nat × Witness) before :=
    ⟨fun a b c hab hbc => by unfold before at *; omega⟩
  have hperm : (byScheduleTime (s.rows Kind.witness)).Perm (s.rows Kind.witness) :=
    List.perm_insertionSort _ _
  have hsorted : (byScheduleTime (s.rows Kind.witness)).Pairwise before :=
    List.pairwise_insertionSort before _
  have hids : (byScheduleTime (s.rows Kind.witness)).Pairwise fun a b => a.1 ≠ b.1 := by
    refine hperm.symm.pairwise ?_ fun hne => hne.symm
    exact (s.table Kind.witness).map.sorted.imp fun hlt => Nat.ne_of_lt hlt
  refine (hsorted.and hids).imp fun {a b} h => ?_
  obtain ⟨htime | ⟨htime, hid⟩, hne⟩ := h
  · exact .inl htime
  · exact .inr ⟨htime, lt_of_le_of_ne hid hne⟩

/-! ## 2. The selection -/

/-- The witnesses that count: after hardfork 3 those that have a signing key. -/
def candidates (s : Store chainSchema) : List (Nat × Witness) :=
  (s.rows Kind.witness).filter fun r => !unsignable (s.passed hardfork03) r.2

/-- The highest voted candidates, then the next ones by virtual time. -/
def Selected (s : Store chainSchema) (active : List String) : Prop :=
  ∃ voted added : List (Nat × Witness),
    IsFirst Outvotes maxVotedWitnesses (candidates s) voted ∧
    IsFirst Precedes (maxMiners - voted.length)
      ((candidates s).filter fun r => !decide (r.1 ∈ voted.map (·.1))) added ∧
    active = (voted ++ added).map (·.2.owner) ∧ active.Nodup ∧ active.length ≤ maxMiners

theorem activeWitnesses_selected (s : Store chainSchema) (time : Nat) :
    Selected s (activeWitnesses s time) := by
  have hvoted : IsFirst Outvotes maxVotedWitnesses (candidates s) (votedWitnesses s) :=
    isFirst_take_filter (byVoteName_sorted s) (List.perm_insertionSort _ _) _ _
  have hadded := isFirst_take_filter (byScheduleTime_strict s) (List.perm_insertionSort _ _)
    (Addable (s.passed hardfork03) ((votedWitnesses s).map (·.1)))
    (maxMiners - (votedWitnesses s).length)
  have hfew : (votedWitnesses s).length ≤ maxMiners :=
    (List.length_take_le _ _).trans (show maxVotedWitnesses ≤ maxMiners by decide)
  have hactive := activeWitnesses_nodup s time
  unfold activeWitnesses leadingWitnesses at hactive ⊢
  rw [runners_added, ← List.map_append] at hactive ⊢
  refine ⟨votedWitnesses s, _, hvoted, ?_, rfl, hactive, ?_⟩
  · unfold candidates
    rw [List.filter_filter]
    convert hadded using 2
    funext r
    exact Bool.and_comm _ _
  · have htake := List.length_take_le (maxMiners - (votedWitnesses s).length)
      ((byScheduleTime (s.rows Kind.witness)).filter
        (Addable (s.passed hardfork03) ((votedWitnesses s).map (·.1))))
    rw [List.length_map, List.length_append]
    omega

/-! ## 3. The shuffle -/

/-- The place that pass `i` of the shuffle swaps with. -/
def swapPlace (nowHi size i : Nat) : Nat := i + shuffleKey nowHi i % (size - i)

/-- The names after the shuffle at `now`: swaps of two places each, of which none is outside. -/
def Shuffled (now : Nat) (active names : List String) : Prop :=
  names = (List.range active.length).foldl
    (fun l i => swapAt l i (swapPlace (u64 (now * 4294967296)) active.length i)) active ∧
  names.Perm active ∧
  ∀ i < active.length, i ≤ swapPlace (u64 (now * 4294967296)) active.length i ∧
    swapPlace (u64 (now * 4294967296)) active.length i < active.length

/-- The passes of the shuffle, from one on. -/
theorem shuffleFrom_eq_foldl (nowHi size left : Nat) (l : List String) (h : left ≤ size) :
    shuffleFrom nowHi size left l = (List.range' (size - left) left).foldl
      (fun l i => swapAt l i (swapPlace nowHi size i)) l := by
  induction left generalizing l with
  | zero => rfl
  | succ left ih =>
    have hnext : size - left = size - (left + 1) + 1 := by omega
    have hrest : size - (size - (left + 1)) = left + 1 := by omega
    rw [shuffleFrom, ih _ (by omega), List.range'_succ, List.foldl_cons, hnext]
    unfold swapPlace
    rw [hrest]

theorem shuffleFrom_shuffled (now : Nat) (active : List String) :
    Shuffled now active
      (shuffleFrom (u64 (now * 4294967296)) active.length active.length active) := by
  refine ⟨?_, shuffleFrom_perm _ _ _ _, fun i hi => ?_⟩
  · rw [shuffleFrom_eq_foldl _ _ _ _ le_rfl, Nat.sub_self, ← List.range_eq_range']
  · have hmod := Nat.mod_lt (shuffleKey (u64 (now * 4294967296)) i)
      (show active.length - i > 0 by omega)
    unfold swapPlace
    omega

/-! ## 4. An update returns -/

/-- What a chain keeps true: the objects of the schedule are there, the scheduled names are of
witnesses, the votes are numbers of shares, and somebody can be scheduled. -/
structure Schedulable (s : Store chainSchema) : Prop where
  props : ∃ p : DynamicGlobalProperty, s.get Kind.dynamicGlobalProperty 0 = some p
  forks : ∃ h : HardforkProperty, s.get Kind.hardforkProperty 0 = some h
  schedule : ∃ o : WitnessSchedule, s.get Kind.witnessSchedule 0 = some o ∧
    ∀ name ∈ o.currentShuffledWitnesses, ∃ w, IsNamed s name w
  votes : ∀ i (w : Witness), s.get Kind.witness i = some w → 0 ≤ w.votes ∧ w.votes < int64Max
  candidate : candidates s ≠ []

theorem lap_ok {votes : Int} (h : 0 ≤ votes ∧ votes < int64Max) :
    ∃ lap, div128 virtualScheduleLapLength2 (uint128OfInt (votes + 1)) = .ok lap := by
  obtain ⟨h0, h1⟩ := h
  have hne : uint128OfInt (votes + 1) ≠ 0 := by
    unfold uint128OfInt
    unfold int64Max at h1
    omega
  exact ⟨_, if_neg hne⟩

theorem getWitness_runs {name : String} (h : ∃ w, IsNamed d.store name w) :
    ∃ w, (getWitness name : Act n Witness).run d = .ok w d := by
  obtain ⟨w, i, hi, hname⟩ := h
  have hdone : Finishes (getWitness name : Act n Witness) d fun _ => True := by
    unfold getWitness
    refine finishes_getRow ⟨i, w, hi, decide_eq_true hname⟩ fun j w' hj _ => ?_
    exact ⟨w', d, Action.get_ok.mpr ⟨hj, rfl⟩, trivial⟩
  obtain ⟨w', e, hr, _⟩ := hdone
  obtain rfl := (looks_getWitness name).of_ok hr
  exact ⟨w', hr⟩

theorem collectWitnesses_runs {β : Type} (f : Witness → β) {names : List String} (acc : List β)
    (h : ∀ name ∈ names, ∃ w, IsNamed d.store name w) :
    ∃ out, (Action.foldEach names acc fun acc name => do
      let w ← getWitness name
      pure (acc ++ [f w]) : Act n (List β)).run d = .ok out d := by
  induction names generalizing acc with
  | nil => exact ⟨acc, rfl⟩
  | cons name names ih =>
    obtain ⟨w, hw⟩ := getWitness_runs (n := n) (h name List.mem_cons_self)
    obtain ⟨out, hout⟩ := ih (acc ++ [f w]) fun name hn => h name (List.mem_cons_of_mem _ hn)
    exact ⟨out, Action.bind_ok.mpr ⟨_, d, Action.bind_ok.mpr ⟨w, d, hw, rfl⟩, hout⟩⟩

theorem medianWitness_runs {active : List Witness} (le : Witness → Witness → Bool)
    (h : active ≠ []) : ∃ w, medianWitness active le = .ok w := by
  have hlen : (active.insertionSort fun a b => le a b = true).length / 2 <
      (active.insertionSort fun a b => le a b = true).length := by
    rw [List.length_insertionSort]
    have := List.length_pos_iff.mpr h
    omega
  unfold medianWitness
  dsimp only
  rw [List.getElem?_eq_getElem hlen]
  exact ⟨_, rfl⟩

theorem updateProcessed_finishes (time : Nat) {l : List (Nat × Witness)}
    (h : ∀ r ∈ l, (0 ≤ r.2.votes ∧ r.2.votes < int64Max) ∧
      ∃ w : Witness, d.store.get Kind.witness r.1 = some w) :
    Finishes (updateProcessed time l : Act n Bool) d fun _ => True := by
  induction l generalizing d with
  | nil => exact finishes_pure trivial
  | cons r rest ih =>
    obtain ⟨hvotes, w, hw⟩ := h r List.mem_cons_self
    obtain ⟨lap, hlap⟩ := lap_ok hvotes
    unfold updateProcessed
    refine finishes_lift hlap (finishes_ite (fun _ => finishes_pure trivial) fun _ => ?_)
    refine Finishes.bind (R := fun t => ∃ new : Witness, ∃ hf,
      t = d.store.write Kind.witness r.1 new hf) (finishes_modifyWith hw rfl fun hf => ⟨_, hf, rfl⟩)
      fun _ e hwrite => ih fun r' hr' => ?_
    obtain ⟨new, hf, he⟩ := hwrite
    obtain ⟨hvotes', w', hw'⟩ := h r' (List.mem_cons_of_mem _ hr')
    refine ⟨hvotes', ?_⟩
    rw [he, Store.get_write_self]
    split
    · exact ⟨new, rfl⟩
    · exact ⟨w', hw'⟩

theorem resetVirtualScheduleTime_finishes (hs : ∃ o, d.store.get Kind.witnessSchedule 0 = some o)
    (hv : ∀ i (w : Witness), d.store.get Kind.witness i = some w →
      0 ≤ w.votes ∧ w.votes < int64Max) :
    Finishes (resetVirtualScheduleTime : Act n Unit) d fun _ => True := by
  obtain ⟨o, ho⟩ := hs
  unfold resetVirtualScheduleTime
  refine Finishes.bind (R := fun t => ∀ i, t.get Kind.witness i = d.store.get Kind.witness i)
    (finishes_modifyWith ho rfl fun hf i => Store.get_write_ne _
      (show Kind.witness ≠ Kind.witnessSchedule by decide) ..) fun _ e he => ?_
  refine finishes_bind (a := e.store.rows Kind.witness) (e := e) rfl ?_
  refine Finishes.mono (R := fun t => ∀ r ∈ e.store.rows Kind.witness, ∃ w : Witness,
    t.get Kind.witness r.1 = some w ∧ 0 ≤ w.votes ∧ w.votes < int64Max)
    (finishes_forEach (fun r hr => ?_) fun r hr e' h => ?_) fun _ _ => trivial
  · have hget : e.store.get Kind.witness r.1 = some r.2 := FMap.mem_rows.mp hr
    exact ⟨r.2, hget, hv r.1 r.2 ((he r.1).symm.trans hget)⟩
  · obtain ⟨w, hw, hvotes⟩ := h r hr
    obtain ⟨lap, hlap⟩ := lap_ok hvotes
    refine finishes_modifyWith hw hlap fun hf r' hr' => ?_
    obtain ⟨w', hw', hvotes'⟩ := h r' hr'
    rw [Store.get_write_self]
    split
    · exact ⟨_, rfl, hvotes⟩
    · exact ⟨w', hw', hvotes'⟩

theorem updateMedianWitnessProps_finishes {o : WitnessSchedule}
    (ho : d.store.get Kind.witnessSchedule 0 = some o)
    (hp : ∃ p : DynamicGlobalProperty, d.store.get Kind.dynamicGlobalProperty 0 = some p)
    (hnames : ∀ name ∈ o.currentShuffledWitnesses, ∃ w, IsNamed d.store name w)
    (hne : o.currentShuffledWitnesses ≠ []) :
    Finishes (updateMedianWitnessProps : Act n Unit) d fun _ => True := by
  obtain ⟨p, hp⟩ := hp
  obtain ⟨active, hactive⟩ := collectWitnesses_runs (n := n) id [] hnames
  have hactive' : active ≠ [] := by
    obtain ⟨_, ws, hws, rfl⟩ := collectWitnesses_ok hactive
    rintro hnil
    rw [List.nil_append, List.map_id] at hnil
    rw [hnil] at hws
    exact hne (List.forall₂_nil_right_iff.mp hws)
  unfold updateMedianWitnessProps
  refine finishes_getObject ho (finishes_bind hactive ?_)
  obtain ⟨fee, hfee⟩ := medianWitness_runs (fun a b =>
    decide (a.props.accountCreationFee.amount ≤ b.props.accountCreationFee.amount)) hactive'
  obtain ⟨spFee, hspFee⟩ := medianWitness_runs (fun a b =>
    decide (a.props.streamingPlatformUpdateFee.amount ≤
      b.props.streamingPlatformUpdateFee.amount)) hactive'
  obtain ⟨size, hsize⟩ := medianWitness_runs (fun a b =>
    decide (a.props.maximumBlockSize ≤ b.props.maximumBlockSize)) hactive'
  obtain ⟨rate, hrate⟩ := medianWitness_runs (fun a b =>
    decide (a.props.mbdInterestRate ≤ b.props.mbdInterestRate)) hactive'
  refine finishes_lift hfee (finishes_lift hspFee ?_)
  refine Finishes.bind (R := fun t => t.get Kind.dynamicGlobalProperty 0 = some p)
    (finishes_modifyWith ho rfl fun hf => (Store.get_write_ne _
      (show Kind.dynamicGlobalProperty ≠ Kind.witnessSchedule by decide) ..).trans hp)
    fun _ e he => ?_
  refine finishes_lift hsize (finishes_lift hrate ?_)
  exact finishes_modifyWith he rfl fun _ => trivial

theorem voteOnHardfork_finishes (ballots : List (Version × Nat))
    (h : ∃ p : HardforkProperty, d.store.get Kind.hardforkProperty 0 = some p) :
    Finishes (voteOnHardfork ballots : Act n Unit) d fun t =>
      ∀ k i, k ≠ Kind.hardforkProperty → t.get k i = d.store.get k i := by
  obtain ⟨p, hp⟩ := h
  unfold voteOnHardfork
  split
  all_goals exact finishes_modifyWith hp rfl fun hf k i hk => Store.get_write_ne _ hk ..

theorem active_ne_nil (hc : candidates s ≠ []) (time : Nat) : activeWitnesses s time ≠ [] := by
  have hvoted : votedWitnesses s ≠ [] := by
    have hperm : ((byVoteName (s.rows Kind.witness)).filter fun r =>
        !unsignable (s.passed hardfork03) r.2).Perm (candidates s) :=
      (List.perm_insertionSort _ _).filter _
    have hpos := List.length_pos_iff.mpr hc
    refine List.length_pos_iff.mp ?_
    unfold votedWitnesses
    rw [List.length_take, hperm.length_eq]
    exact lt_min (show 0 < maxVotedWitnesses by decide) hpos
  unfold activeWitnesses
  simp [hvoted]

/-- What does not go stays. -/
theorem exists_of_changes {l : List Part} {t : Store chainSchema} {k : Kind} {i : Nat}
    (h : Obeys (changes l) s t) (hg : .gone k ∉ l) (hi : ∃ a, s.get k i = some a) :
    ∃ b, t.get k i = some b := by
  obtain ⟨a, ha⟩ := hi
  obtain ⟨_, b, _, hb, _⟩ | ⟨hn, _⟩ | ⟨_, _, hn, _⟩ := changes_cases (h k i) hg
  · exact ⟨b, hb⟩
  · exact nomatch ha.symm.trans hn
  · exact nomatch ha.symm.trans hn

theorem processed_subset (hf3 : Bool) (voted : List Nat) (l : List (Nat × Witness))
    (count time : Nat) : (runners hf3 voted l count time).2.1 ⊆ l := by
  induction l generalizing count time with
  | nil => exact List.Subset.refl _
  | cons r rest ih =>
    unfold runners
    split
    · exact List.nil_subset _
    · split
      · exact List.cons_subset_cons r (ih count _)
      · exact List.cons_subset_cons r (ih (count + 1) _)

theorem updateWitnessSchedule4_finishes (hs : Schedulable d.store) :
    Finishes (updateWitnessSchedule4 : Act n Unit) d fun _ => True := by
  obtain ⟨⟨p, hp⟩, hforks, ⟨o, ho, hnames⟩, hvotes, hcandidate⟩ := hs
  have hselected := activeWitnesses_selected d.store o.currentVirtualTime
  have hne := active_ne_nil hcandidate o.currentVirtualTime
  unfold updateWitnessSchedule4
  refine finishes_passed hforks (finishes_bind (a := d.store.rows Kind.witness) (e := d) rfl ?_)
  dsimp only
  refine finishes_getObject ho ?_
  generalize hlead : runners _ _ _ _ o.currentVirtualTime = lead
  have hlead : leadingWitnesses d.store o.currentVirtualTime = lead := hlead
  obtain ⟨time, processed, added⟩ := lead
  have hprocessed : ∀ r ∈ processed, d.store.get Kind.witness r.1 = some r.2 := by
    intro r hr
    have hsubset : (leadingWitnesses d.store o.currentVirtualTime).2.1 ⊆
      byScheduleTime (d.store.rows Kind.witness) := processed_subset ..
    rw [hlead] at hsubset
    exact FMap.mem_rows.mp ((List.perm_insertionSort _ _).mem_iff.mp (hsubset hr))
  have hactive : activeWitnesses d.store o.currentVirtualTime =
      (votedWitnesses d.store).map (·.2.owner) ++ added := by
    unfold activeWitnesses
    rw [hlead]
  have hnamed : ∀ name ∈ activeWitnesses d.store o.currentVirtualTime,
    ∃ w, IsNamed d.store name w := fun name => mem_activeWitnesses
  rw [hactive] at hselected hne hnamed
  obtain ⟨_, _, _, _, _, _, hfew⟩ := hselected
  dsimp only
  -- the virtual times
  obtain ⟨reset, e₁, hr₁, _, hchanged₁⟩ := (updateProcessed_finishes (n := n) time fun r hr =>
    ⟨hvotes r.1 r.2 (hprocessed r hr), r.2, hprocessed r hr⟩).steps
      (composed_updateProcessed time processed (List.Subset.refl _)).steps
  refine finishes_bind hr₁ ?_
  have ho₁ : e₁.store.get Kind.witnessSchedule 0 = some o :=
    (schedule_stays hchanged₁ (by decide) (by decide) (by decide) 0).trans ho
  have hvotes₁ : ∀ i (w : Witness), e₁.store.get Kind.witness i = some w →
      0 ≤ w.votes ∧ w.votes < int64Max := fun i w hw => by
    obtain ⟨v, hv, hsame⟩ := witness_before (f := .votes) hchanged₁ (by decide) (by decide)
      (by decide) hw
    have hsame : v.votes = w.votes := hsame
    exact hsame ▸ hvotes i v hv
  have hreset : Finishes ((if reset = true then resetVirtualScheduleTime else pure ()) : Act n Unit) e₁
      fun _ => True :=
    finishes_ite (fun _ => resetVirtualScheduleTime_finishes ⟨o, ho₁⟩ hvotes₁) fun _ => finishes_pure trivial
  have hcomposed : Composed [.whole .witnessSchedule, .witness .virtual]
      ((if reset = true then resetVirtualScheduleTime else pure ()) : Act n Unit) :=
    composed_ite (fun _ => composed_resetVirtualScheduleTime (List.Subset.refl _))
      fun _ => composed_of_looks (looks_pure _)
  refine finishes_ite_bind (hreset.steps hcomposed.steps) fun e₂ ⟨_, hchanged₂⟩ => ?_
  -- what the rest needs is still there
  have hchanged : Obeys (changes [.whole .witnessSchedule, .witness .virtual]) d.store e₂.store :=
    fun k i => (changes _).trans k _ _ _ (changes_mono (by decide) (hchanged₁ k i)) (hchanged₂ k i)
  have hnamed₂ : ∀ name, (∃ w, IsNamed d.store name w) → ∃ w', IsNamed e₂.store name w' :=
    fun name ⟨w, hw⟩ => by
      obtain ⟨w', hw', _⟩ := hw.stays hchanged (by decide) (by decide)
      exact ⟨w', hw'⟩
  obtain ⟨p₂, hp₂⟩ := exists_of_changes (k := .dynamicGlobalProperty) hchanged (by decide) ⟨p, hp⟩
  obtain ⟨o₂, ho₂⟩ := exists_of_changes (k := .witnessSchedule) hchanged (by decide) ⟨o, ho⟩
  refine finishes_require ?_ ?_
  · exact hfew
  obtain ⟨ballots, hballots⟩ : ∃ ballots,
      (hardforkVotes o.currentShuffledWitnesses : Act n _).run e₂ = .ok ballots e₂ := by
    obtain ⟨votes, hr⟩ := collectWitnesses_runs (n := n)
      (fun w => (w.hardforkVersionVote, w.hardforkTimeVote)) []
      fun name hn => hnamed₂ name (hnames name hn)
    exact ⟨_, Action.bind_ok.mpr ⟨votes, e₂, hr, rfl⟩⟩
  refine finishes_bind hballots ?_
  have hvote := voteOnHardfork_finishes (n := n) ballots
    (exists_of_changes (k := .hardforkProperty) hchanged (by decide) hforks)
  suffices hrest : ∀ e₃ : Database chainSchema,
      (∀ k i, k ≠ Kind.hardforkProperty → e₃.store.get k i = e₂.store.get k i) →
      Finishes (do
        let now ← headBlockTime
        let num ← headBlockNum
        let size := ((votedWitnesses d.store).map (·.2.owner) ++ added).length
        let shuffled := shuffleFrom (u64 (now * 4294967296)) size size
          ((votedWitnesses d.store).map (·.2.owner) ++ added)
        Action.modify (S := chainSchema) Kind.witnessSchedule 0 fun o : WitnessSchedule =>
          { o with
            currentShuffledWitnesses := shuffled
            currentVirtualTime := if reset = true then 0 else time
            nextShuffleBlockNum := u32 (num + size) }
        updateMedianWitnessProps : Act n Unit) e₃ fun _ => True by
    unfold voteOnHardfork at hvote
    split
    all_goals
      rename_i hfind
      rw [hfind] at hvote
      exact hvote.bind fun _ e₃ he₃ => hrest e₃ he₃
  intro e₃ he₃
  have hp₃ := (he₃ Kind.dynamicGlobalProperty 0 (by decide)).trans hp₂
  have ho₃ := (he₃ Kind.witnessSchedule 0 (by decide)).trans ho₂
  refine finishes_bind (a := p₂.time) (e := e₃) (Action.bind_get_ok.mpr ⟨p₂, hp₃, rfl⟩) ?_
  refine finishes_bind (a := p₂.headBlockNumber) (e := e₃) (Action.bind_get_ok.mpr ⟨p₂, hp₃, rfl⟩) ?_
  dsimp only
  refine Finishes.bind (R := fun t => ∃ new hf,
    WitnessSchedule.currentShuffledWitnesses new = shuffleFrom _ _ _ _ ∧
    t = e₃.store.write Kind.witnessSchedule 0 new hf)
    (finishes_modifyWith ho₃ rfl fun hf => ⟨_, hf, rfl, rfl⟩) fun _ e₄ ⟨new, hf, hnew, he₄⟩ => ?_
  have hother : ∀ {k : Kind} i, k ≠ Kind.witnessSchedule →
      e₄.store.get k i = e₃.store.get k i := fun i hk => by
    rw [he₄, Store.get_write_ne _ hk]
  refine updateMedianWitnessProps_finishes (o := new) ?_
    ⟨p₂, (hother 0 (by decide)).trans hp₃⟩ (fun name hname => ?_) ?_
  · rw [he₄, Store.get_write_self, if_pos rfl]
  · rw [hnew] at hname
    have hmem := (shuffleFrom_perm _ _ _ _).mem_iff.mp hname
    obtain ⟨w, i, hw, hi⟩ := hnamed₂ name (hnamed name hmem)
    exact ⟨w, i, (hother i (by decide)).trans ((he₃ _ i (by decide)).trans hw), hi⟩
  · rw [hnew]
    exact fun hnil => hne (List.perm_nil.mp (hnil ▸ (shuffleFrom_perm _ _ _ _).symm))

/-! ## 5. The schedule -/

/-- The time stays until the shuffle. -/
theorem Scheduling.time {d₁ d₂ d₃ d₄ : Database chainSchema} {o : WitnessSchedule}
    {reset : Bool} {ballots : List (Version × Nat)} {names : List String} {block : Nat}
    (h : Scheduling n d d₁ d₂ d₃ d₄ d' o reset ballots names block) {p : DynamicGlobalProperty}
    (hp : d₃.store.get Kind.dynamicGlobalProperty 0 = some p) :
    ∃ p₀ : DynamicGlobalProperty, d.store.get Kind.dynamicGlobalProperty 0 = some p₀ ∧
      p₀.time = p.time := by
  have hcomposed : Composed [.whole .witnessSchedule, .witness .virtual]
      ((if reset = true then resetVirtualScheduleTime else pure ()) : Act n Unit) :=
    composed_ite (fun _ => composed_resetVirtualScheduleTime (List.Subset.refl _))
      fun _ => composed_of_looks (looks_pure _)
  have hvote : Composed [.whole .hardforkProperty] (voteOnHardfork ballots : Act n Unit) := by
    unfold voteOnHardfork
    split <;> exact composed_modify fun _ => .inl (by decide)
  have hl : Obeys (changes [.whole .witnessSchedule, .witness .virtual, .whole .hardforkProperty])
      d.store d₃.store := fun k i => by
    have h₁ := (composed_updateProcessed _ _ (List.Subset.refl _)).steps.step h.processed k i
    have h₂ := hcomposed.steps.step h.restarted k i
    have h₃ := hvote.steps.step h.hardfork k i
    exact (changes _).trans k _ _ _ ((changes _).trans k _ _ _
      (changes_mono (by decide) h₁) (changes_mono (by decide) h₂)) (changes_mono (by decide) h₃)
  obtain ⟨a, b, ha, hb, hab⟩ | ⟨_, hn⟩ | ⟨_, _, _, _, hmade, _⟩ :=
    changes_cases (hl Kind.dynamicGlobalProperty 0) (by decide)
  · cases hb.symm.trans hp
    exact ⟨a, ha, Or.resolve_left (hab .time) (by decide)⟩
  · exact nomatch hp.symm.trans hn
  · exact absurd hmade (by decide)

/-- **The schedule that an update leaves is the selection, shuffled**, and an update returns. -/
theorem schedule_selected (d : Database chainSchema) :
    (∀ d', (updateWitnessSchedule4 : Act n Unit).run d = .ok () d' →
      ∃ (o : WitnessSchedule) (p : DynamicGlobalProperty) (active : List String),
        d'.store.get Kind.witnessSchedule 0 = some o ∧
        d.store.get Kind.dynamicGlobalProperty 0 = some p ∧
        Selected d.store active ∧ Shuffled p.time active o.currentShuffledWitnesses) ∧
    (Schedulable d.store → ∃ d', (updateWitnessSchedule4 : Act n Unit).run d = .ok () d') := by
  refine ⟨fun d' h => ?_, fun hs => ?_⟩
  · obtain ⟨d₁, d₂, d₃, d₄, o, reset, ballots, names, block, hparts, p₃, hp₃, hnames⟩ :=
      updateWitnessSchedule4_parts h
    obtain ⟨o', ho', hshuffled, _, _⟩ := hparts.after
    obtain ⟨p, hp, htime⟩ := hparts.time hp₃
    refine ⟨o', p, activeWitnesses d.store o.currentVirtualTime, ho', hp,
      activeWitnesses_selected _ _, ?_⟩
    rw [hshuffled, hnames, htime]
    exact shuffleFrom_shuffled _ _
  · obtain ⟨_, d', hr, _⟩ := updateWitnessSchedule4_finishes (n := n) hs
    exact ⟨d', hr⟩

section

attribute [local instance] sampleFc

/-- The accounts temp and miners become witnesses, and the init miner votes for temp. -/
def candidatesStart : Database chainSchema :=
  [Operation.witnessUpdate ⟨tempAccount, "temp", 8, {}, Asset.muse 0⟩,
    .witnessUpdate ⟨minerAccount, "miners", 9, {}, Asset.muse 0⟩,
    .accountWitnessVote initMinerName tempAccount true].foldl
    (fun d op => ((applyOperation 0 0 op).run d).db)
    (Node.genesis { sampleGenesis with initialVestingBalances := [⟨3, 1000⟩] }).db

theorem schedulable_candidatesStart : Schedulable candidatesStart.store := by
  have hstate : (candidatesStart.store.get Kind.dynamicGlobalProperty 0).isSome = true ∧
      (candidatesStart.store.get Kind.hardforkProperty 0).isSome = true ∧
      (candidatesStart.store.get Kind.witnessSchedule 0).map
        (fun o : WitnessSchedule => o.currentShuffledWitnesses) = some [initMinerName] ∧
      (candidatesStart.store.get Kind.witness 0).map (fun w : Witness => w.owner) =
        some initMinerName ∧
      (∀ r ∈ (candidatesStart.store.rows Kind.witness).map fun r : Nat × Witness => r.2.votes,
        0 ≤ r ∧ r < int64Max) ∧
      (candidates candidatesStart.store).length = 3 := by
    decide +kernel
  obtain ⟨hprops, hforks, hschedule, hwitness, hvotes, hcandidates⟩ := hstate
  obtain ⟨o, ho, hnames⟩ := Option.map_eq_some_iff.mp hschedule
  obtain ⟨w, hw, howner⟩ := Option.map_eq_some_iff.mp hwitness
  refine ⟨Option.isSome_iff_exists.mp hprops, Option.isSome_iff_exists.mp hforks,
    ⟨o, ho, fun name hname => ?_⟩, fun i w hi => ?_, fun hnil => ?_⟩
  · rw [hnames] at hname
    obtain rfl := List.mem_singleton.mp hname
    exact ⟨w, 0, hw, howner⟩
  · exact hvotes _ (List.mem_map_of_mem (FMap.mem_rows.mpr hi))
  · rw [hnil] at hcandidates
    cases hcandidates

/-- Three candidates, of whom one is voted for. -/
theorem schedule_selected_candidates : ∃ d' : Database chainSchema,
    (updateWitnessSchedule4 : Act 0 Unit).run candidatesStart = .ok () d' ∧
    ∃ (o : WitnessSchedule) (p : DynamicGlobalProperty) (active : List String),
      d'.store.get Kind.witnessSchedule 0 = some o ∧
      candidatesStart.store.get Kind.dynamicGlobalProperty 0 = some p ∧
      Selected candidatesStart.store active ∧ Shuffled p.time active o.currentShuffledWitnesses ∧
      o.currentShuffledWitnesses = [tempAccount, initMinerName, minerAccount] := by
  obtain ⟨d', hr⟩ := (schedule_selected (n := 0) candidatesStart).2 schedulable_candidatesStart
  obtain ⟨o, p, active, ho, hp, hselected, hshuffled⟩ :=
    (schedule_selected (n := 0) candidatesStart).1 d' hr
  have hnames : (((updateWitnessSchedule4 : Act 0 Unit).run candidatesStart).db.store.get
      Kind.witnessSchedule 0).map (fun o : WitnessSchedule => o.currentShuffledWitnesses) =
        some [tempAccount, initMinerName, minerAccount] := by
    decide +kernel
  rw [hr] at hnames
  obtain ⟨o', ho', hnames⟩ := Option.map_eq_some_iff.mp hnames
  obtain rfl := Option.some.inj (ho'.symm.trans ho)
  exact ⟨d', hr, o', p, active, ho, hp, hselected, hshuffled, hnames⟩

end

end MuseChain
