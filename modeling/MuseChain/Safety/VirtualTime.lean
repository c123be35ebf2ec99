/-
  File:      MuseChain/Safety/VirtualTime.lean
  Subject:   The virtual time of the witness schedule stays inside its 128 bits.

  * `Timed now w`: the lap of a witness ends no earlier than the virtual time, and what it would
    run until then does not exceed the length of a lap. `OnTime`: so it is for every witness.
  * `Witness.restarted`: a change of votes in numbers without a bound; `adjustWitnessVote_exact`:
    the code computes the same.
  * `Rescheduled`: the update of the schedule in numbers without a bound;
    `updateWitnessSchedule4_exact`: the code computes the same.
  * `virtual_time_exact`: in every state reached, and after any votes that an operation changes on
    its way, no position is past a lap and both are exact.
-/
import MuseChain.Safety.Schedules
import MuseChain.Safety.Votes

namespace MuseChain

variable {n : Nat} {d d' : Database chainSchema} {u : Unit}

/-! ## 1. Numbers -/

theorem u128_eq {x : Nat} (h : x < 2 ^ 128) : u128 x = x := Nat.mod_eq_of_lt h

theorem sub128_eq {a b : Nat} (h : b ≤ a) (ha : a < 2 ^ 128) : sub128 a b = a - b := by
  unfold sub128
  have hsum : a + (2 ^ 128 - b) = (a - b) + 2 ^ 128 := by omega
  rw [hsum, u128, Nat.add_mod_right]
  exact Nat.mod_eq_of_lt (by omega)

/-- A sum of two numbers has left the 128 bits exactly when it comes out below the first. -/
theorem u128_add_lt_iff {a b : Nat} (ha : a < 2 ^ 128) (hb : b < 2 ^ 128) :
    u128 (a + b) < a ↔ 2 ^ 128 ≤ a + b := by
  unfold u128
  omega

/-- A sum that has left them is replaced by the largest number. -/
theorem clamped {a b : Nat} (ha : a ≤ virtualScheduleLapLength2)
    (hb : b ≤ virtualScheduleLapLength2) :
    (if u128 (a + b) < a then virtualScheduleLapLength2 else u128 (a + b)) =
      min (a + b) virtualScheduleLapLength2 := by
  unfold virtualScheduleLapLength2 u128 at *
  rw [Nat.min_def]
  split <;> split <;> omega

/-- `w.votes.value + 1` as a divisor is one more than `w.votes.value` as a factor. -/
theorem uint128OfInt_succ {x : Int} (h : uint128OfInt (x + 1) ≠ 0) :
    uint128OfInt (x + 1) = uint128OfInt x + 1 := by
  unfold uint128OfInt at *
  omega

theorem div128_ok {a b q : Nat} (h : div128 a b = .ok q) : b ≠ 0 ∧ q = a / b := by
  unfold div128 at h
  split at h
  · cases h
  · cases h
    exact ⟨‹_›, rfl⟩

/-! ## 2. A witness in its lap -/

/-- The speed of a witness in a lap: one more than its votes, in 128 bits. -/
def Witness.speed (w : Witness) : Nat := uint128OfInt (w.votes + 1)

/-- Its votes in 128 bits. -/
def Witness.weight (w : Witness) : Nat := uint128OfInt w.votes

/-- The position that a witness has at the virtual time `now`. -/
def Witness.positionAt (w : Witness) (now : Nat) : Nat :=
  w.virtualPosition + w.weight * (now - w.virtualLastUpdate)

/-- The lap of the witness is not over at the virtual time `now`. -/
structure Timed (now : Nat) (w : Witness) : Prop where
  updated : w.virtualLastUpdate ≤ now
  due : now ≤ w.virtualScheduledTime
  bounded : w.virtualScheduledTime ≤ virtualScheduleLapLength2
  votes : w.votes ≤ int64Max
  moving : w.speed ≠ 0
  /-- Running to the end of the lap takes the witness no further than its length. -/
  lap : w.virtualPosition + w.speed * (w.virtualScheduledTime - w.virtualLastUpdate) ≤
    virtualScheduleLapLength2

/-- The witness starts a lap at the virtual time `now`, from `position` and with `votes`. -/
def Witness.restarted (w : Witness) (now position : Nat) (votes : Int) : Witness :=
  { w with
    virtualPosition := position
    virtualLastUpdate := now
    votes := votes
    virtualScheduledTime :=
      min (now + (virtualScheduleLapLength2 - position) / uint128OfInt (votes + 1))
        virtualScheduleLapLength2 }

section

variable {now : Nat} {w : Witness}

theorem Timed.positionAt_le (h : Timed now w) : w.positionAt now ≤ virtualScheduleLapLength2 := by
  have hspeed : w.speed = w.weight + 1 := uint128OfInt_succ h.moving
  have hrun : now - w.virtualLastUpdate ≤ w.virtualScheduledTime - w.virtualLastUpdate :=
    Nat.sub_le_sub_right h.due _
  calc w.positionAt now
      ≤ w.virtualPosition + w.weight * (w.virtualScheduledTime - w.virtualLastUpdate) :=
        Nat.add_le_add_left (Nat.mul_le_mul_left _ hrun) _
    _ ≤ w.virtualPosition + w.speed * (w.virtualScheduledTime - w.virtualLastUpdate) := by
        rw [hspeed]
        exact Nat.add_le_add_left (Nat.mul_le_mul_right _ (Nat.le_succ _)) _
    _ ≤ virtualScheduleLapLength2 := h.lap

/-- No number on the way to the position leaves the 128 bits. -/
theorem Timed.exact_position (h : Timed now w) (hnow : now ≤ virtualScheduleLapLength2) :
    u128 (w.virtualPosition + u128 (uint128OfInt w.votes * sub128 now w.virtualLastUpdate)) =
      w.positionAt now := by
  have hpos := h.positionAt_le
  unfold Witness.positionAt Witness.weight virtualScheduleLapLength2 at *
  rw [sub128_eq h.updated (by omega), u128_eq (x := uint128OfInt w.votes * _) (by omega),
    u128_eq (by omega)]

/-- The same with the votes as a signed number. -/
theorem Timed.position_le (h : Timed now w) :
    (w.virtualPosition : Int) + w.votes * ((now : Int) - w.virtualLastUpdate) ≤
      virtualScheduleLapLength2 := by
  have hle : w.votes ≤ w.weight := by
    have hvotes := h.votes
    unfold Witness.weight uint128OfInt
    unfold int64Max at hvotes
    omega
  have hrun : ((now - w.virtualLastUpdate : Nat) : Int) = (now : Int) - w.virtualLastUpdate :=
    Int.natCast_sub h.updated
  have hpos := h.positionAt_le
  unfold Witness.positionAt at hpos
  have hmul : w.votes * ((now : Int) - w.virtualLastUpdate) ≤
      w.weight * ((now : Int) - w.virtualLastUpdate) :=
    Int.mul_le_mul_of_nonneg_right hle (by have := h.updated; omega)
  have hcast : ((w.virtualPosition + w.weight * (now - w.virtualLastUpdate) : Nat) : Int) =
      w.virtualPosition + w.weight * ((now : Int) - w.virtualLastUpdate) := by
    rw [Int.natCast_add, Int.natCast_mul, hrun]
  omega

/-- A new lap is timed. -/
theorem timed_restarted {position : Nat} {votes : Int} (hnow : now ≤ virtualScheduleLapLength2)
    (hpos : position ≤ virtualScheduleLapLength2) (hvotes : votes ≤ int64Max)
    (hspeed : uint128OfInt (votes + 1) ≠ 0) : Timed now (w.restarted now position votes) := by
  refine ⟨le_rfl, ?_, Nat.min_le_right _ _, hvotes, hspeed, ?_⟩
  · exact Nat.le_min.mpr ⟨Nat.le_add_right _ _, hnow⟩
  · have hrun : (w.restarted now position votes).virtualScheduledTime - now ≤
        (virtualScheduleLapLength2 - position) / uint128OfInt (votes + 1) :=
      Nat.sub_le_iff_le_add'.mpr (Nat.min_le_left _ _)
    have hmul := Nat.mul_le_mul_left (uint128OfInt (votes + 1)) hrun
    have hdiv := Nat.mul_div_le (virtualScheduleLapLength2 - position) (uint128OfInt (votes + 1))
    change position + uint128OfInt (votes + 1) * _ ≤ _
    exact (Nat.add_le_add_left (hmul.trans hdiv) _).trans (by omega)

end

/-! ## 3. A change of votes -/

/-- The virtual time. -/
def virtualTime (s : Store chainSchema) : Nat :=
  ((s.get Kind.witnessSchedule 0).map WitnessSchedule.currentVirtualTime).getD 0

/-- Every witness is in its lap. -/
def OnTime (s : Store chainSchema) : Prop :=
  virtualTime s ≤ virtualScheduleLapLength2 ∧
    ∀ i (w : Witness), s.get Kind.witness i = some w → Timed (virtualTime s) w

/-- **`adjust_witness_vote` computes what it would in numbers without a bound.** The witness runs to
the virtual time and starts a lap there with its new votes; a scheduled time that is too large is
the largest one. -/
theorem adjustWitnessVote_exact {i : Nat} {delta : Int} (hs : OnTime d.store)
    (hr : (adjustWitnessVote i delta : Act n Unit).run d = .ok u d') :
    ∃ (w : Witness) (hf : d.store.free Kind.witness i
        (w.restarted (virtualTime d.store) (w.positionAt (virtualTime d.store))
          (w.votes + delta)) = true),
      d.store.get Kind.witness i = some w ∧ w.votes + delta ≤ int64Max ∧
      uint128OfInt (w.votes + delta + 1) ≠ 0 ∧
      d'.store = d.store.write Kind.witness i
        (w.restarted (virtualTime d.store) (w.positionAt (virtualTime d.store))
          (w.votes + delta)) hf := by
  obtain ⟨wso, hwso, hr⟩ := bind_getObject_ok.mp hr
  obtain ⟨p, _, hr⟩ := bind_getDgp_ok.mp hr
  obtain ⟨w, v, hg, hv, hf, e⟩ := modifyWith_store hr
  obtain ⟨votes, hvotes, hv⟩ := except_bind_ok.mp hv
  obtain ⟨_, hv⟩ := check_bind_ok.mp hv
  obtain ⟨lap, hlap, hv⟩ := except_bind_ok.mp hv
  cases hv
  obtain ⟨rfl, _, hmax⟩ := safe_ok.mp hvotes
  obtain ⟨hspeed, rfl⟩ := div128_ok hlap
  have htime : virtualTime d.store = wso.currentVirtualTime := by
    unfold virtualTime
    rw [hwso]
    rfl
  have hw := hs.2 i w hg
  have hnow := hs.1
  rw [htime] at hw hnow ⊢
  have hposition := hw.exact_position hnow
  rw [hposition, sub128_eq hw.positionAt_le (by decide)] at e hf
  have hlap : (virtualScheduleLapLength2 - w.positionAt wso.currentVirtualTime) /
      uint128OfInt (w.votes + delta + 1) ≤ virtualScheduleLapLength2 :=
    (Nat.div_le_self _ _).trans (Nat.sub_le _ _)
  rw [clamped hnow hlap] at e hf
  exact ⟨w, hf, hg, hmax, hspeed, e⟩

/-! ## 4. What operations do to the witnesses -/

/-- Where a witness stands in its lap, with its votes. -/
def Witness.standing (w : Witness) : Int × Nat × Nat × Nat :=
  (w.votes, w.virtualLastUpdate, w.virtualPosition, w.virtualScheduledTime)

/-- Where a new witness stands. -/
def atStart : Int × Nat × Nat × Nat := (0, 0, 0, virtualScheduleLapLength2)

/-- No witness moves, and new ones are at the start. -/
structure Unmoved (s t : Store chainSchema) : Prop where
  time : virtualTime t = virtualTime s
  witnesses : ∀ i (w' : Witness), t.get Kind.witness i = some w' →
    w'.standing = atStart ∨
      ∃ w : Witness, s.get Kind.witness i = some w ∧ w'.standing = w.standing

/-- One change of the votes of a witness, or of other things. -/
inductive VoteStep : Store chainSchema → Store chainSchema → Prop
  | adjust {d d' : Database chainSchema} {u : Unit} {n : Nat} (i : Nat) (delta : Int) :
      (adjustWitnessVote i delta : Act n Unit).run d = .ok u d' → VoteStep d.store d'.store
  | aside {s t : Store chainSchema} : Unmoved s t → VoteStep s t

/-- Later in the same operation, or in others: votes changed any number of times. -/
def Later : Store chainSchema → Store chainSchema → Prop := Relation.ReflTransGen VoteStep

instance : IsPreorder (Store chainSchema) Later where
  refl _ := .refl
  trans _ _ _ := Relation.ReflTransGen.trans

section

variable {s t : Store chainSchema}

theorem Timed.of_standing {now : Nat} {w w' : Witness} (h : Timed now w)
    (e : w'.standing = w.standing) : Timed now w' := by
  obtain ⟨e1, e2, e3, e4⟩ : w'.votes = w.votes ∧ w'.virtualLastUpdate = w.virtualLastUpdate ∧
      w'.virtualPosition = w.virtualPosition ∧
      w'.virtualScheduledTime = w.virtualScheduledTime := by
    simpa [Witness.standing] using e
  refine ⟨e2 ▸ h.updated, e4 ▸ h.due, e4 ▸ h.bounded, e1 ▸ h.votes, ?_, ?_⟩
  · unfold Witness.speed
    rw [e1]
    exact h.moving
  · unfold Witness.speed
    rw [e1, e2, e3, e4]
    exact h.lap

theorem timed_atStart {now : Nat} {w : Witness} (hnow : now ≤ virtualScheduleLapLength2)
    (e : w.standing = atStart) : Timed now w := by
  have hstart : Timed now ({ owner := "" } : Witness) :=
    ⟨Nat.zero_le _, hnow, le_rfl, by decide, by decide, by decide⟩
  exact hstart.of_standing e

theorem Unmoved.onTime (h : Unmoved s t) (hs : OnTime s) : OnTime t := by
  obtain ⟨hnow, hw⟩ := hs
  refine ⟨h.time ▸ hnow, fun i w' hg => ?_⟩
  rw [h.time]
  rcases h.witnesses i w' hg with e | ⟨w, hg', e⟩
  · exact timed_atStart hnow e
  · exact (hw i w hg').of_standing e

theorem virtualTime_write_witness {i : Nat} {w : Witness}
    (hf : s.free Kind.witness i w = true) :
    virtualTime (s.write Kind.witness i w hf) = virtualTime s := by
  unfold virtualTime
  rw [Store.get_write_ne _ (by decide)]

theorem VoteStep.onTime (h : VoteStep s t) (hs : OnTime s) : OnTime t := by
  cases h with
  | @adjust d d' u n i delta hr =>
    obtain ⟨w, hf, hg, hmax, hspeed, e⟩ := adjustWitnessVote_exact hs hr
    rw [e]
    refine ⟨(virtualTime_write_witness hf).symm ▸ hs.1, fun j w' hw' => ?_⟩
    rw [virtualTime_write_witness hf]
    rw [Store.get_write_self] at hw'
    split at hw'
    · obtain rfl := Option.some.inj hw'
      exact timed_restarted hs.1 (hs.2 i w hg).positionAt_le hmax hspeed
    · exact hs.2 j w' hw'
  | aside h => exact h.onTime hs

theorem Later.onTime (h : Later s t) (hs : OnTime s) : OnTime t := by
  induction h with
  | refl => exact hs
  | tail _ hst ih => exact hst.onTime ih

/-! ## 5. Programs that change votes only -/

/-- Parts that the schedule is made of. -/
def Part.timed : Part → Bool
  | .made .witness | .gone .witness | .witness .votes | .witness .virtual
  | .made .witnessSchedule | .gone .witnessSchedule | .whole .witnessSchedule => true
  | _ => false

theorem not_mem_of_untimed {l : List Part} (h : ∀ p ∈ l, p.timed = false) {p : Part}
    (hp : p.timed = true) : p ∉ l := fun hm => by
  rw [h p hm] at hp
  cases hp

theorem standing_of_changes {l : List Part} (h : Obeys (changes l) s t)
    (hl : ∀ p ∈ l, p.timed = false) : Unmoved s t := by
  have hschedule : t.get Kind.witnessSchedule 0 = s.get Kind.witnessSchedule 0 :=
    get_of_unchanged h (not_mem_of_untimed hl rfl) (not_mem_of_untimed hl rfl)
      fun _ _ hab => Or.resolve_left hab (not_mem_of_untimed hl rfl)
  refine ⟨by unfold virtualTime; rw [hschedule], fun i w' hw' => ?_⟩
  obtain ⟨a, b, ha, hb, hab⟩ | ⟨-, hn⟩ | ⟨a, b, -, -, hmade, -⟩ :=
    changes_cases (h Kind.witness i) (not_mem_of_untimed hl rfl)
  · obtain rfl : b = w' := Option.some.inj (hb.symm.trans hw')
    have hvotes : a.votes = b.votes := Or.resolve_left (hab .votes) (not_mem_of_untimed hl rfl)
    have hvirtual : (a.virtualLastUpdate, a.virtualPosition, a.virtualScheduledTime) =
        (b.virtualLastUpdate, b.virtualPosition, b.virtualScheduledTime) :=
      Or.resolve_left (hab .virtual) (not_mem_of_untimed hl rfl)
    refine .inr ⟨a, ha, ?_⟩
    unfold Witness.standing
    rw [hvotes, hvirtual]
  · cases hn.symm.trans hw'
  · exact absurd hmade (not_mem_of_untimed hl rfl)

end

section

theorem later_aside {α : Type} {l : List Part} {x : Act n α} (h : Composed l x)
    (hl : ∀ p ∈ l, p.timed = false) : Steps Later x :=
  h.steps.mono fun _ _ hst => .single (.aside (standing_of_changes hst hl))

/-- What is done besides the votes. -/
abbrev calmParts : List Part :=
  [.account .vests, .account .score, .account .proxied, .account .proxy, .account .withdrawal,
    .account .witnessCount, .account .platformCount, .account .challenges, .account .muse,
    .platform .votes, .props .fund, .props .shares, .made .witnessVote, .gone .witnessVote,
    .gone .streamingPlatformVote] ++ supplyParts

theorem later_calm {α : Type} {x : Act n α} (h : Composed calmParts x) : Steps Later x :=
  later_aside h (by decide)

theorem later_adjustWitnessVote (i : Nat) (delta : Int) :
    Steps Later (adjustWitnessVote i delta : Act n Unit) :=
  ⟨fun hr => .single (.adjust i delta hr)⟩

theorem later_adjustWitnessVotes (acc : Nat) (delta : Int) :
    Steps Later (adjustWitnessVotes acc delta : Act n Unit) := by
  unfold adjustWitnessVotes
  exact (looks_read _).steps_bind fun votes =>
    steps_forEach fun v => later_adjustWitnessVote _ _

theorem later_adjustProxiedFrom (left acc : Nat) (delta : Int) :
    Steps Later (adjustProxiedFrom left acc delta : Act n Unit) := by
  induction left generalizing acc delta with
  | zero =>
    unfold adjustProxiedFrom
    repeat' first
      | exact later_adjustWitnessVotes _ _ | with_reducible apply steps_bind
      | with_reducible apply steps_ite | intro _
      | (solve | refine later_calm ?_; simp +decide)
  | succ left ih =>
    unfold adjustProxiedFrom
    repeat' first
      | exact later_adjustWitnessVotes _ _ | exact ih _ _ | with_reducible apply steps_bind
      | with_reducible apply steps_ite | intro _
      | (solve | refine later_calm ?_; simp +decide)
      | exact later_calm (composed_modifyWith fun _ _ f => by cases f <;> simp +decide)

theorem later_adjustProxiedDeltasFrom (left acc : Nat) (deltas : List Int) :
    Steps Later (adjustProxiedDeltasFrom left acc deltas : Act n Unit) := by
  induction left generalizing acc deltas with
  | zero =>
    unfold adjustProxiedDeltasFrom
    repeat' first
      | exact later_adjustWitnessVotes _ _ | with_reducible apply steps_bind
      | with_reducible apply steps_ite | intro _
      | (solve | refine later_calm ?_; simp +decide)
  | succ left ih =>
    unfold adjustProxiedDeltasFrom
    repeat' first
      | exact later_adjustWitnessVotes _ _ | exact ih _ _ | with_reducible apply steps_bind
      | with_reducible apply steps_ite | intro _
      | (solve | refine later_calm ?_; simp +decide)
      | exact later_calm (composed_modifyWith fun _ _ f => by cases f <;> simp +decide)

theorem later_createVesting (toAccount : Nat) (muse : Asset) :
    Steps Later (createVesting toAccount muse : Act n Asset) := by
  unfold createVesting
  repeat' first
    | exact later_adjustProxiedFrom _ _ _ | with_reducible apply steps_bind | intro _
    | (solve | refine later_calm ?_; simp +decide)
    | exact later_calm (composed_modifyWith fun _ _ f => by cases f <;> simp +decide)

theorem later_depositVests (toWithdraw : Int) (routes : List (Nat × WithdrawVestingRoute))
    (deposited : Int) : Steps Later (depositVests toWithdraw routes deposited : Act n Int) := by
  induction routes generalizing deposited with
  | nil => exact (looks_pure _).steps
  | cons r rest ih =>
    obtain ⟨i, r⟩ := r
    unfold depositVests
    repeat' first
      | exact later_adjustProxiedFrom _ _ _ | exact ih _ | with_reducible apply steps_bind
      | with_reducible apply steps_ite | intro _
      | (solve | refine later_calm ?_; simp +decide)
      | exact later_calm (composed_modifyWith fun _ _ f => by cases f <;> simp +decide)

theorem later_processVestingWithdrawal (acc : Nat) :
    Steps Later (processVestingWithdrawal acc : Act n Unit) := by
  unfold processVestingWithdrawal
  repeat' first
    | exact later_adjustProxiedFrom _ _ _ | exact later_depositVests _ _ _
    | with_reducible apply steps_bind | with_reducible apply steps_ite | intro _
    | (solve | refine later_calm ?_; simp +decide)
    | exact later_calm (composed_modifyWith fun _ _ f => by cases f <;> simp +decide)

theorem deposits_later : Deposits Later where
  create := later_createVesting
  withdraw _ _ _ h := (later_processVestingWithdrawal _).step h
  beside h := later_aside h (by decide)

theorem later_accountWitnessVote (account witness : String) (approve : Bool) :
    Steps Later (accountWitnessVote account witness approve : Act n Unit) := by
  unfold accountWitnessVote
  repeat' first
    | exact later_adjustWitnessVote _ _ | with_reducible apply steps_bind
    | with_reducible apply steps_ite | intro _
    | (solve | refine later_calm ?_; simp +decide)
    | exact later_calm (.create (by decide) trivial)
    | exact later_calm (.remove (by decide))
    | exact (looks_findRow _ _).steps
    | split

theorem later_accountWitnessProxy (account proxy : String) :
    Steps Later (accountWitnessProxy account proxy : Act n Unit) := by
  unfold accountWitnessProxy
  repeat' first
    | exact later_adjustProxiedDeltasFrom _ _ _ | with_reducible apply steps_bind
    | with_reducible apply steps_ite | intro _
    | (solve | refine later_calm ?_; simp +decide)
    | exact later_calm (composed_modify fun _ f => by cases f <;> simp +decide)

/-- A witness is created at the start of its first lap. -/
theorem later_createWitness {w : Witness} (hw : w.standing = atStart) :
    Steps Later (Action.create (S := chainSchema) Kind.witness w : Act n Nat) := by
  refine ⟨fun {d i d'} hr => .single (.aside ?_)⟩
  obtain ⟨rfl, hn, hf, e⟩ := create_store hr
  refine ⟨?_, fun j w' hw' => ?_⟩
  · rw [e]
    unfold virtualTime
    rw [Store.get_setNextId, Store.get_write_ne _ (by decide)]
  · rw [e, Store.get_setNextId, Store.get_write_self] at hw'
    split at hw'
    · obtain rfl := Option.some.inj hw'
      exact .inl hw
    · exact .inr ⟨w', hw', rfl⟩

theorem later_witnessUpdate (o : WitnessUpdateOp) :
    Steps Later (witnessUpdate o : Act n Unit) := by
  have hmodify : ∀ i, Steps Later (Action.modify (S := chainSchema) Kind.witness i
      (fun w : Witness => { w with url := o.url, signingKey := o.blockSigningKey, props := o.props })
      : Act n Unit) := fun i =>
    later_aside (l := [.witness .signing]) (composed_modify fun _ f => by cases f <;> simp +decide)
      (by decide)
  unfold witnessUpdate
  repeat' first
    | exact hmodify _ | exact later_createWitness rfl | with_reducible apply steps_bind
    | intro _ | (solve | refine later_calm ?_; simp +decide) | split

/-- **Operations change votes one after the other, and nothing else of the schedule.** -/
theorem later_evaluate [Fc] {clock : Nat} {push : Nat → Act n Unit} {op : Operation}
    (ha : op.approves = false) : Steps Later (evaluate clock push op) := by
  cases op with
  | contentUpdate o => exact deposits_later.contentUpdate o
  | transferToVesting sender receiver amount => exact deposits_later.transferToVesting _ _ _
  | accountCreate o => exact deposits_later.accountCreate o
  | challengeAuthority challenger challenged requireOwner =>
    exact deposits_later.challengeAuthority _ _ _
  | accountWitnessVote account witness approve => exact later_accountWitnessVote _ _ _
  | accountWitnessProxy account proxy => exact later_accountWitnessProxy _ _
  | witnessUpdate o => exact later_witnessUpdate o
  | proposalUpdate o => cases ha
  | _ =>
    exact later_aside (composed_evaluate clock push ha) (by simp +decide [Operation.parts])

theorem later_act [Fc] {r : Routine} (hr : r ≠ .witnessSchedule) :
    Steps Later (r.act : Act n Unit) := by
  cases r with
  | pay => exact deposits_later.payBlock
  | witnessSchedule => exact absurd rfl hr
  | _ => exact later_aside (Routine.composed_act _) (by simp +decide [Routine.parts])

end

/-! ## 6. The update of the schedule -/

/-- Where the witness with an id stands. -/
def standingAt (s : Store chainSchema) (i : Nat) : Option (Int × Nat × Nat × Nat) :=
  (s.get Kind.witness i).map Witness.standing

/-- Where a witness stands that starts a lap at the virtual time `now`. -/
def Witness.newLap (now : Nat) (w : Witness) : Int × Nat × Nat × Nat :=
  (w.votes, now, 0, now + virtualScheduleLapLength2 / w.speed)

/-- A lap that starts at the virtual time `now` does not end in 128 bits. -/
def Overruns (now : Nat) (w : Witness) : Prop :=
  virtualScheduleLapLength2 < now + virtualScheduleLapLength2 / w.speed

theorem standingAt_write {s : Store chainSchema} {i : Nat} {w : Witness}
    (hf : s.free Kind.witness i w = true) (j : Nat) :
    standingAt (s.write Kind.witness i w hf) j =
      if j = i then some w.standing else standingAt s j := by
  unfold standingAt
  rw [Store.get_write_self]
  split <;> rfl

theorem lap_le (w : Witness) : virtualScheduleLapLength2 / w.speed ≤ virtualScheduleLapLength2 :=
  Nat.div_le_self _ _

theorem overruns_iff {now : Nat} {w : Witness} (hnow : now ≤ virtualScheduleLapLength2) :
    u128 (now + virtualScheduleLapLength2 / w.speed) < now ↔ Overruns now w := by
  have hlap := lap_le w
  unfold Overruns
  generalize virtualScheduleLapLength2 / w.speed = lap at *
  rw [u128_add_lt_iff (by unfold virtualScheduleLapLength2 at *; omega)
    (by unfold virtualScheduleLapLength2 at *; omega)]
  unfold virtualScheduleLapLength2
  omega

/-- **The loop over the processed witnesses stops at the first lap that does not end in 128 bits**,
and starts a lap for each of them when there is none. -/
theorem updateProcessed_ok {now : Nat} (hnow : now ≤ virtualScheduleLapLength2)
    {l : List (Nat × Witness)} (hl : (l.map (·.1)).Nodup)
    (hget : ∀ r ∈ l, d.store.get Kind.witness r.1 = some r.2) {reset : Bool}
    (h : (updateProcessed now l : Act n Bool).run d = .ok reset d') :
    (reset = true ∧ ∃ r ∈ l, Overruns now r.2) ∨
      (reset = false ∧ (∀ r ∈ l, ¬Overruns now r.2) ∧
        ∀ i, standingAt d'.store i =
          if i ∈ l.map (·.1) then (d.store.get Kind.witness i).map (Witness.newLap now)
          else standingAt d.store i) := by
  induction l generalizing d with
  | nil =>
    cases h
    exact .inr ⟨rfl, fun r hr => absurd hr List.not_mem_nil, fun i => rfl⟩
  | cons r rest ih =>
    unfold updateProcessed at h
    obtain ⟨lap, hlap, h⟩ := Action.bind_lift_ok.mp h
    obtain ⟨-, rfl⟩ := div128_ok hlap
    dsimp only at h
    split at h
    · rename_i hlt
      cases h
      exact .inl ⟨rfl, r, List.mem_cons_self, (overruns_iff hnow).mp hlt⟩
    rename_i hge
    have hno : ¬Overruns now r.2 := fun hover => hge ((overruns_iff hnow).mpr hover)
    have htime : u128 (now + virtualScheduleLapLength2 / uint128OfInt (r.2.votes + 1)) =
        now + virtualScheduleLapLength2 / r.2.speed := by
      refine u128_eq ?_
      unfold Overruns virtualScheduleLapLength2 at hno
      change now + _ / r.2.speed < _
      unfold virtualScheduleLapLength2
      omega
    rw [htime] at h
    obtain ⟨_, d₁, hwrite, h⟩ := Action.bind_ok.mp h
    obtain ⟨w, hw, hf, e⟩ := modify_store hwrite
    obtain rfl : w = r.2 := Option.some.inj (hw.symm.trans (hget r List.mem_cons_self))
    obtain ⟨hnotin, hnodup⟩ := List.nodup_cons.mp hl
    have hother : ∀ i, i ≠ r.1 → d₁.store.get Kind.witness i = d.store.get Kind.witness i := by
      intro i hne
      rw [e, Store.get_write_self, if_neg hne]
    have hget' : ∀ r' ∈ rest, d₁.store.get Kind.witness r'.1 = some r'.2 := fun r' hr' => by
      rw [hother r'.1 fun he => hnotin (List.mem_map.mpr ⟨r', hr', he⟩)]
      exact hget r' (List.mem_cons_of_mem _ hr')
    rcases ih hnodup hget' h with ⟨hreset, r', hr', hover⟩ | ⟨hreset, hnone, hall⟩
    · exact .inl ⟨hreset, r', List.mem_cons_of_mem _ hr', hover⟩
    refine .inr ⟨hreset, fun r' hr' => ?_, fun i => ?_⟩
    · rcases List.mem_cons.mp hr' with rfl | hr'
      · exact hno
      · exact hnone r' hr'
    · rw [hall i, List.map_cons]
      by_cases hi : i = r.1
      · subst hi
        rw [if_neg hnotin, if_pos List.mem_cons_self, hw, e, standingAt_write, if_pos rfl]
        rfl
      · unfold standingAt
        rw [hother i hi]
        simp only [List.mem_cons, hi, false_or]

/-- The loop of the reset starts a lap at 0 for each of the witnesses. -/
theorem resetEach_ok {l : List (Nat × Witness)} (hl : (l.map (·.1)).Nodup)
    (h : (Action.forEach l fun r =>
      Action.modifyWith (S := chainSchema) Kind.witness r.1
        (fun w : Witness => div128 virtualScheduleLapLength2 (uint128OfInt (w.votes + 1)))
        fun (w : Witness) x =>
          { w with virtualPosition := 0, virtualLastUpdate := 0, virtualScheduledTime := x }
        : Act n Unit).run d = .ok u d') (i : Nat) :
    standingAt d'.store i =
      if i ∈ l.map (·.1) then (d.store.get Kind.witness i).map (Witness.newLap 0)
      else standingAt d.store i := by
  induction l generalizing d with
  | nil =>
    cases h
    rfl
  | cons r rest ih =>
    obtain ⟨_, d₁, hwrite, h⟩ := Action.bind_ok.mp h
    obtain ⟨w, x, hw, hx, hf, e⟩ := modifyWith_store hwrite
    obtain ⟨-, rfl⟩ := div128_ok hx
    obtain ⟨hnotin, hnodup⟩ := List.nodup_cons.mp hl
    rw [ih hnodup h, List.map_cons]
    by_cases hi : i = r.1
    · subst hi
      rw [if_neg hnotin, if_pos List.mem_cons_self, hw, e, standingAt_write, if_pos rfl]
      simp [Witness.newLap, Witness.standing, Witness.speed]
    · have hother : d₁.store.get Kind.witness i = d.store.get Kind.witness i := by
        rw [e, Store.get_write_self, if_neg hi]
      unfold standingAt
      rw [hother]
      simp only [List.mem_cons, hi, false_or]

theorem ids_nodup (s : Store chainSchema) : ((s.rows Kind.witness).map (·.1)).Nodup :=
  List.pairwise_map.mpr ((s.table Kind.witness).map.sorted.imp Nat.ne_of_lt)

/-- **The reset starts a lap at 0 for every witness.** -/
theorem resetVirtualScheduleTime_ok
    (h : (resetVirtualScheduleTime : Act n Unit).run d = .ok u d') (i : Nat) :
    standingAt d'.store i = (d.store.get Kind.witness i).map (Witness.newLap 0) := by
  unfold resetVirtualScheduleTime at h
  obtain ⟨_, d₁, hmodify, h⟩ := Action.bind_ok.mp h
  obtain ⟨o, _, hf, e⟩ := modify_store hmodify
  have hsame : ∀ j, d₁.store.get Kind.witness j = d.store.get Kind.witness j := fun j => by
    rw [e, Store.get_write_ne _ (by decide)]
  replace h := Action.bind_read_ok.mp h
  rw [resetEach_ok (ids_nodup _) h i, hsame i]
  split
  · rfl
  · rename_i hnone
    -- a witness that there is has a row
    unfold standingAt
    rw [hsame i]
    cases hw : d.store.get Kind.witness i with
    | none => rfl
    | some w =>
      refine absurd (List.mem_map.mpr ⟨(i, w), FMap.mem_rows.mpr ?_, rfl⟩) hnone
      exact (hsame i).trans hw

theorem byScheduleTime_sorted (l : List (Nat × Witness)) :
    (byScheduleTime l).Pairwise fun a b => a.2.virtualScheduledTime ≤ b.2.virtualScheduledTime := by
  let before : Nat × Witness → Nat × Witness → Prop := fun a b =>
    a.2.virtualScheduledTime < b.2.virtualScheduledTime ∨
      (a.2.virtualScheduledTime = b.2.virtualScheduledTime ∧ a.1 ≤ b.1)
  have : Std.Total before := ⟨fun a b => by unfold before; omega⟩
  have : IsTrans (Nat × Witness) before := ⟨fun a b c hab hbc => by unfold before at *; omega⟩
  refine (List.pairwise_insertionSort before l).imp fun {a b} h => ?_
  unfold before at h
  omega

/-- **The runners**: the new virtual time is past the laps that were over, and not past those of
the witnesses that were not processed. -/
theorem runners_time (hf3 : Bool) (voted : List Nat) (l : List (Nat × Witness)) (count time : Nat)
    (hsorted : l.Pairwise fun a b => a.2.virtualScheduledTime ≤ b.2.virtualScheduledTime)
    (htime : ∀ r ∈ l, time ≤ r.2.virtualScheduledTime) :
    ∃ rest, l = (runners hf3 voted l count time).2.1 ++ rest ∧
      time ≤ (runners hf3 voted l count time).1 ∧
      ((runners hf3 voted l count time).1 = time ∨
        ∃ r ∈ l, (runners hf3 voted l count time).1 = r.2.virtualScheduledTime) ∧
      ∀ r ∈ rest, (runners hf3 voted l count time).1 ≤ r.2.virtualScheduledTime := by
  induction l generalizing count time with
  | nil => exact ⟨[], rfl, le_rfl, .inl rfl, fun r hr => absurd hr List.not_mem_nil⟩
  | cons r l ih =>
    obtain ⟨hfirst, hsorted⟩ := List.pairwise_cons.mp hsorted
    have hr := htime r List.mem_cons_self
    -- what the rest of the list gives, from the time of this witness on
    have hstep : ∀ count, ∃ rest, l = (runners hf3 voted l count r.2.virtualScheduledTime).2.1 ++
        rest ∧ time ≤ (runners hf3 voted l count r.2.virtualScheduledTime).1 ∧
        ((runners hf3 voted l count r.2.virtualScheduledTime).1 = time ∨
          ∃ r' ∈ r :: l, (runners hf3 voted l count r.2.virtualScheduledTime).1 =
            r'.2.virtualScheduledTime) ∧
        ∀ r' ∈ rest, (runners hf3 voted l count r.2.virtualScheduledTime).1 ≤
          r'.2.virtualScheduledTime := by
      intro count
      obtain ⟨rest, hl, hle, hmem, hrest⟩ := ih count r.2.virtualScheduledTime hsorted hfirst
      refine ⟨rest, hl, hr.trans hle, .inr ?_, hrest⟩
      rcases hmem with heq | ⟨r', hr', heq⟩
      · exact ⟨r, List.mem_cons_self, heq⟩
      · exact ⟨r', List.mem_cons_of_mem _ hr', heq⟩
    unfold runners
    split
    · exact ⟨r :: l, rfl, le_rfl, .inl rfl, htime⟩
    · split
      · obtain ⟨rest, hl, h⟩ := hstep count
        exact ⟨rest, congrArg (r :: ·) hl, h⟩
      · obtain ⟨rest, hl, h⟩ := hstep (count + 1)
        exact ⟨rest, congrArg (r :: ·) hl, h⟩

/-- What an update of the schedule does to the virtual time and to the witnesses, in numbers without
a bound. -/
structure Rescheduled (s t : Store chainSchema) (now : Nat) (processed : List (Nat × Witness)) :
    Prop where
  /-- Without an overrun the processed witnesses start a lap at the new time. -/
  runs : (∀ r ∈ processed, ¬Overruns now r.2) → virtualTime t = now ∧
    ∀ i, standingAt t i =
      if i ∈ processed.map (·.1) then (s.get Kind.witness i).map (Witness.newLap now)
      else standingAt s i
  /-- With one everybody starts again at 0. -/
  overruns : (∃ r ∈ processed, Overruns now r.2) → virtualTime t = 0 ∧
    ∀ i, standingAt t i = (s.get Kind.witness i).map (Witness.newLap 0)

theorem standingAt_of_changes {l : List Part} {s t : Store chainSchema} (h : Obeys (changes l) s t)
    (hm : .made .witness ∉ l) (hg : .gone .witness ∉ l) (hv : .witness .votes ∉ l)
    (ht : .witness .virtual ∉ l) (i : Nat) : standingAt t i = standingAt s i := by
  unfold standingAt
  obtain ⟨a, b, ha, hb, hab⟩ | ⟨ha, hb⟩ | ⟨a, b, -, -, hmade, -⟩ :=
    changes_cases (h Kind.witness i) hg
  · have hvotes : a.votes = b.votes := Or.resolve_left (hab .votes) hv
    have hvirtual : (a.virtualLastUpdate, a.virtualPosition, a.virtualScheduledTime) =
        (b.virtualLastUpdate, b.virtualPosition, b.virtualScheduledTime) :=
      Or.resolve_left (hab .virtual) ht
    rw [ha, hb]
    exact congrArg some (Prod.ext hvotes.symm hvirtual.symm)
  · rw [ha, hb]
  · exact absurd hmade hm

theorem Timed.later {old now : Nat} {w : Witness} (h : Timed old w) (hold : old ≤ now)
    (hdue : now ≤ w.virtualScheduledTime) : Timed now w :=
  ⟨h.updated.trans hold, hdue, h.bounded, h.votes, h.moving, h.lap⟩

/-- A witness that starts a lap that ends in 128 bits. -/
theorem timed_newLap {old now : Nat} {w w' : Witness} (h : Timed old w)
    (hnow : now ≤ virtualScheduleLapLength2) (hno : ¬Overruns now w)
    (e : w'.standing = w.newLap now) : Timed now w' := by
  have hw : Timed now (w.restarted now 0 w.votes) :=
    timed_restarted hnow (Nat.zero_le _) h.votes h.moving
  refine hw.of_standing (e.trans ?_)
  unfold Overruns at hno
  have hmin : min (now + virtualScheduleLapLength2 / w.speed) virtualScheduleLapLength2 =
      now + virtualScheduleLapLength2 / w.speed := Nat.min_eq_left (Nat.le_of_not_lt hno)
  simp only [Witness.newLap, Witness.standing, Witness.restarted, Nat.sub_zero]
  exact congrArg (fun x => (w.votes, now, 0, x)) hmin.symm

theorem not_overruns_zero (w : Witness) : ¬Overruns 0 w := by
  have := lap_le w
  unfold Overruns
  omega

/-- What an update starts from: the new virtual time and those whose laps are over. -/
structure Leading (s : Store chainSchema) (now : Nat) (processed : List (Nat × Witness)) : Prop where
  nodup : (processed.map (·.1)).Nodup
  rows : ∀ r ∈ processed, s.get Kind.witness r.1 = some r.2
  later : virtualTime s ≤ now
  bounded : now ≤ virtualScheduleLapLength2
  others : ∀ i (w : Witness), s.get Kind.witness i = some w → i ∉ processed.map (·.1) →
    now ≤ w.virtualScheduledTime

theorem leading_of_onTime {s : Store chainSchema} (hs : OnTime s) :
    Leading s (leadingWitnesses s (virtualTime s)).1 (leadingWitnesses s (virtualTime s)).2.1 := by
  have hperm : (byScheduleTime (s.rows Kind.witness)).Perm (s.rows Kind.witness) :=
    List.perm_insertionSort _ _
  have hrow : ∀ r ∈ byScheduleTime (s.rows Kind.witness), s.get Kind.witness r.1 = some r.2 :=
    fun r hr => FMap.mem_rows.mp (hperm.mem_iff.mp hr)
  obtain ⟨rest, hl, hle, hmem, hrest⟩ := runners_time (s.passed hardfork03)
    ((votedWitnesses s).map (·.1)) (byScheduleTime (s.rows Kind.witness))
    (votedWitnesses s).length (virtualTime s) (byScheduleTime_sorted _)
    fun r hr => (hs.2 r.1 r.2 (hrow r hr)).due
  unfold leadingWitnesses
  refine ⟨?_, fun r hr => hrow r (hl ▸ List.mem_append_left _ hr), hle, ?_, fun i w hw hi => ?_⟩
  · have hall : ((byScheduleTime (s.rows Kind.witness)).map (·.1)).Nodup :=
      (hperm.map _).nodup_iff.mpr (ids_nodup s)
    rw [hl, List.map_append] at hall
    exact (List.nodup_append.mp hall).1
  · rcases hmem with heq | ⟨r, hr, heq⟩
    · exact heq.le.trans hs.1
    · exact heq.le.trans (hs.2 r.1 r.2 (hrow r hr)).bounded
  · have hin : (i, w) ∈ byScheduleTime (s.rows Kind.witness) :=
      hperm.mem_iff.mpr (FMap.mem_rows.mpr hw)
    rw [hl] at hin
    rcases List.mem_append.mp hin with hin | hin
    · exact absurd (List.mem_map_of_mem hin) hi
    · exact hrest (i, w) hin

/-- After the loops, the update leaves the witnesses where they are. -/
theorem Scheduling.standing {d₁ d₂ d₃ d₄ : Database chainSchema} {o : WitnessSchedule}
    {reset : Bool} {ballots : List (Version × Nat)} {names : List String} {block : Nat}
    (h : Scheduling n d d₁ d₂ d₃ d₄ d' o reset ballots names block) (i : Nat) :
    standingAt d'.store i = standingAt d₂.store i := by
  have hvote : Composed [.whole .hardforkProperty] (voteOnHardfork ballots : Act n Unit) := by
    unfold voteOnHardfork
    split <;> exact composed_modify fun _ => .inl (by decide)
  have hreplaced : Obeys (changes [.whole .witnessSchedule]) d₃.store d₄.store :=
    (composed_modify (k := .witnessSchedule) fun _ => Or.inl (by decide)).steps.step h.replaced
  have hmedian : Obeys (changes [.whole .witnessSchedule, .props .rate, .props .blockSize])
      d₄.store d'.store := (composed_updateMedianWitnessProps (by decide)).steps.step h.median
  rw [standingAt_of_changes hmedian (by decide) (by decide) (by decide) (by decide),
    standingAt_of_changes hreplaced (by decide) (by decide) (by decide) (by decide),
    standingAt_of_changes (hvote.steps.step h.hardfork) (by decide) (by decide) (by decide)
      (by decide)]

/-- **The update of the schedule computes what it would in numbers without a bound**, and knows when
a lap does not end in 128 bits. -/
theorem updateWitnessSchedule4_exact (hs : OnTime d.store)
    (h : (updateWitnessSchedule4 : Act n Unit).run d = .ok () d') :
    Rescheduled d.store d'.store (leadingWitnesses d.store (virtualTime d.store)).1
      (leadingWitnesses d.store (virtualTime d.store)).2.1 := by
  have hlead := leading_of_onTime hs
  obtain ⟨d₁, d₂, d₃, d₄, o, reset, ballots, names, block, hsch⟩ := updateWitnessSchedule4_ok h
  obtain ⟨o', ho', -, hcvt, -⟩ := hsch.after
  have hold : virtualTime d.store = o.currentVirtualTime := by
    unfold virtualTime
    rw [hsch.schedule]
    rfl
  have htime : virtualTime d'.store = o'.currentVirtualTime := by
    unfold virtualTime
    rw [ho']
    rfl
  have hprocessed := hsch.processed
  have hrestarted := hsch.restarted
  rw [hcvt] at htime
  rw [← hold] at hprocessed htime
  rcases updateProcessed_ok hlead.bounded hlead.nodup hlead.rows hprocessed with
    ⟨rfl, hover⟩ | ⟨rfl, hnone, hall⟩
  · refine ⟨fun hno => ?_, fun _ => ⟨htime, fun i => ?_⟩⟩
    · obtain ⟨r, hr, hrover⟩ := hover
      exact absurd hrover (hno r hr)
    · rw [if_pos rfl] at hrestarted
      rw [hsch.standing, resetVirtualScheduleTime_ok hrestarted]
      -- the loop that stopped changed no votes
      have hloop : Obeys (changes [.witness .virtual]) d.store d₁.store :=
        (composed_updateProcessed _ _ (by decide)).steps.step hprocessed
      obtain ⟨a, b, ha, hb, hab⟩ | ⟨ha, hb⟩ | ⟨a, b, -, -, hmade, -⟩ :=
        changes_cases (h := hloop Kind.witness i) (by decide)
      · have hvotes : a.votes = b.votes := Or.resolve_left (hab .votes) (by decide)
        rw [ha, hb]
        simp only [Option.map_some, Witness.newLap, Witness.speed, hvotes]
      · rw [ha, hb]
      · exact absurd hmade (by decide)
  · refine ⟨fun _ => ⟨htime, fun i => ?_⟩, fun ⟨r, hr, hrover⟩ => absurd hrover (hnone r hr)⟩
    obtain rfl : d₂ = d₁ := by
      rw [if_neg (by decide)] at hrestarted
      cases hrestarted
      rfl
    rw [hsch.standing, hall]

/-- After an update every witness is in its lap. -/
theorem Rescheduled.onTime {s t : Store chainSchema} {now : Nat} {processed : List (Nat × Witness)}
    (h : Rescheduled s t now processed) (hlead : Leading s now processed) (hs : OnTime s) :
    OnTime t := by
  by_cases hover : ∃ r ∈ processed, Overruns now r.2
  · obtain ⟨htime, hall⟩ := h.overruns hover
    refine ⟨htime ▸ Nat.zero_le _, fun i w' hw' => ?_⟩
    have hi := hall i
    unfold standingAt at hi
    rw [hw'] at hi
    obtain ⟨w, hw, e⟩ := Option.map_eq_some_iff.mp hi.symm
    rw [htime]
    exact timed_newLap (hs.2 i w hw) (Nat.zero_le _) (not_overruns_zero w) e.symm
  · have hno : ∀ r ∈ processed, ¬Overruns now r.2 := fun r hr hr' => hover ⟨r, hr, hr'⟩
    obtain ⟨htime, hall⟩ := h.runs hno
    refine ⟨htime ▸ hlead.bounded, fun i w' hw' => ?_⟩
    have hi := hall i
    rw [htime]
    unfold standingAt at hi
    rw [hw'] at hi
    split at hi
    · rename_i hin
      obtain ⟨w, hw, e⟩ := Option.map_eq_some_iff.mp hi.symm
      obtain ⟨r, hr, rfl⟩ := List.mem_map.mp hin
      obtain rfl : r.2 = w := Option.some.inj ((hlead.rows r hr).symm.trans hw)
      exact timed_newLap (hs.2 r.1 r.2 hw) hlead.bounded (hno r hr) e.symm
    · rename_i hout
      obtain ⟨w, hw, e⟩ := Option.map_eq_some_iff.mp hi.symm
      exact ((hs.2 i w hw).later hlead.later (hlead.others i w hw hout)).of_standing e.symm

/-! ## 7. Every state -/

theorem onTime_emptyStore : OnTime emptyStore :=
  ⟨Nat.zero_le _, fun _ _ hw => by cases hw⟩

/-- The schedule is created at the virtual time 0. -/
theorem later_createSchedule {o : WitnessSchedule} (ho : o.currentVirtualTime = 0) :
    Steps Later (Action.create (S := chainSchema) Kind.witnessSchedule o : Act n Nat) := by
  refine ⟨fun {d i d'} hr => .single (.aside ?_)⟩
  obtain ⟨rfl, hn, hf, e⟩ := create_store hr
  refine ⟨?_, fun j w' hw' => ?_⟩
  · rw [e]
    unfold virtualTime
    rw [Store.get_setNextId, Store.get_write_self]
    split
    · rename_i h0
      rw [← h0] at hn
      rw [hn]
      exact ho
    · rfl
  · rw [e, Store.get_setNextId, Store.get_write_ne _ (by decide)] at hw'
    exact .inr ⟨w', hw', rfl⟩

theorem later_createOther {k : Kind} {a : k.Object} (hw : Kind.witness ≠ k)
    (hs : Kind.witnessSchedule ≠ k) :
    Steps Later (Action.create (S := chainSchema) k a : Act n Nat) := by
  refine ⟨fun {d i d'} hr => .single (.aside ?_)⟩
  obtain ⟨rfl, hn, hf, e⟩ := create_store hr
  refine ⟨?_, fun j w' hw' => .inr ⟨w', ?_, rfl⟩⟩
  · rw [e]
    unfold virtualTime
    rw [Store.get_setNextId, Store.get_write_ne _ hs]
  · rw [e, Store.get_setNextId, Store.get_write_ne _ hw] at hw'
    exact hw'

/-- **In the genesis every witness is in its lap.** -/
theorem onTime_genesis [Fc] {g : GenesisState}
    (h : (initGenesis g).run emptyDatabase = .ok u d) : OnTime d.store := by
  have hvesting : ∀ v, Steps Later (importVesting v) := fun v => by
    refine later_aside (l := [.account .vests, .props .shares]) ?_ (by decide)
    unfold importVesting modifyDgp
    refine .bind (by simp) fun _ => ?_
    refine .bind (composed_modifyWith fun _ _ f => by cases f <;> simp +decide) fun _ => ?_
    exact composed_modifyWith fun _ _ f => by cases f <;> simp +decide
  have hbalance : ∀ b, Steps Later (importBalance b) := fun b => by
    refine later_aside (l := [.made .balance, .props .supply, .asset .supply]) ?_ (by decide)
    unfold importBalance
    refine .bind (.create (by decide) trivial) fun _ => ?_
    refine .bind (composed_modifyWith fun _ _ f => by cases f <;> simp +decide) fun _ => ?_
    simp +decide
  have hsteps : Steps Later (initGenesis g) := by
    unfold initGenesis initAccounts initGlobals importAccount
    repeat' first
      | exact hvesting _ | exact hbalance _ | exact deposits_later.accountCreate _
      | exact later_createWitness rfl | exact later_createSchedule rfl
      | exact later_createOther (by decide) (by decide)
      | with_reducible apply steps_bind | with_reducible apply steps_forEach
      | intro _ | (solve | refine later_calm ?_; simp +decide)
  exact (hsteps.step h).onTime onTime_emptyStore

/-- The virtual time neither wraps nor is it past a lap. -/
structure ExactTimes (t : Store chainSchema) : Prop where
  inLap : ∀ i (w : Witness), t.get Kind.witness i = some w →
    w.virtualLastUpdate ≤ virtualTime t ∧ virtualTime t ≤ w.virtualScheduledTime ∧
      (w.virtualPosition : Int) + w.votes * ((virtualTime t : Int) - w.virtualLastUpdate) ≤
        virtualScheduleLapLength2
  /-- The product and the sum that `adjust_witness_vote` forms, with the votes in 128 bits. -/
  position : ∀ i (w : Witness), t.get Kind.witness i = some w →
    w.virtualPosition + uint128OfInt w.votes * (virtualTime t - w.virtualLastUpdate) ≤
      virtualScheduleLapLength2
  /-- A change of votes starts a lap where the witness is, and clamps the scheduled time exactly
  when it is too large. -/
  adjusts : ∀ {n : Nat} {d d' : Database chainSchema} {u : Unit} {i : Nat} {delta : Int},
    d.store = t → (adjustWitnessVote i delta : Act n Unit).run d = .ok u d' →
    ∃ w : Witness, t.get Kind.witness i = some w ∧ d'.store.get Kind.witness i =
      some (w.restarted (virtualTime t) (w.positionAt (virtualTime t)) (w.votes + delta))
  /-- An update resets the virtual time exactly when a scheduled time is too large. -/
  reschedules : ∀ {n : Nat} {d d' : Database chainSchema}, d.store = t →
    (updateWitnessSchedule4 : Act n Unit).run d = .ok () d' →
    Rescheduled t d'.store (leadingWitnesses t (virtualTime t)).1
      (leadingWitnesses t (virtualTime t)).2.1

theorem OnTime.exactTimes {t : Store chainSchema} (h : OnTime t) : ExactTimes t where
  inLap i w hw := ⟨(h.2 i w hw).updated, (h.2 i w hw).due, (h.2 i w hw).position_le⟩
  position i w hw := (h.2 i w hw).positionAt_le
  adjusts := by
    rintro n d d' u i delta rfl hr
    obtain ⟨w, hf, hw, -, -, e⟩ := adjustWitnessVote_exact h hr
    exact ⟨w, hw, by rw [e, Store.get_write_self, if_pos rfl]⟩
  reschedules := by
    rintro n d d' rfl hr
    exact updateWitnessSchedule4_exact h hr

section

variable [Fc] {ok : Store chainSchema → Operation → Prop} {g : GenesisState}
  {s t : Store chainSchema}

/-- **Every step of the chain keeps the witnesses in their laps.** -/
theorem ChainStep.onTime (h : ChainStep ok s t) (hs : OnTime s) : OnTime t := by
  cases h with
  | operation clock n push op hv ha hop hr => exact ((later_evaluate ha).step hr).onTime hs
  | routine n r hr =>
    by_cases hr' : r = .witnessSchedule
    · subst hr'
      obtain ⟨-, -, ⟨-, rfl⟩ | ⟨-, h4⟩⟩ := witnessSchedule_ok hr
      · exact hs
      · exact (updateWitnessSchedule4_exact hs h4).onTime (leading_of_onTime hs) hs
    · exact ((later_act hr').step hr).onTime hs

theorem Reached.onTime (h : Reached ok g s) : OnTime s :=
  h.invariant onTime_genesis ChainStep.onTime

/-- **The virtual time never wraps**: in every state reached, and on the way of every operation,
which changes the votes of witnesses one after the other. -/
theorem virtual_time_exact (hs : Reached ok g s) (ht : Later s t) : ExactTimes t :=
  (ht.onTime hs.onTime).exactTimes

end

section

attribute [local instance] sampleFc

/-- Alice votes for the init miner with her 1000 vesting shares. -/
def aliceVoted : Database chainSchema :=
  evaluated (.accountWitnessVote "alice" initMinerName true) aliceStart

theorem virtual_time_exact_alice :
    standingAt aliceVoted.store 0 =
        some (1000, 0, 0, virtualScheduleLapLength2 / 1001) ∧
      ExactTimes aliceVoted.store :=
  ⟨by decide +kernel, virtual_time_exact (((reached_aliceStart fun _ _ => True).evaluated
    (by decide) rfl trivial (by decide +kernel))) .refl⟩

end

end MuseChain
