/-
  File:      MuseChain/Safety/SlotTimes.lean
  Subject:   The time of a slot and the slot of a time are inverse to each other.

  The slots begin at the multiples of the block interval after the head, or after the genesis when
  there is no block. A time belongs to the last slot that begins before or at it.
-/
import MuseChain.Safety.Endings
import MuseChain.Safety.Slots
import Mathlib.Order.Bounds.Defs

namespace MuseChain

variable {n : Nat} {d : Database chainSchema} {p : DynamicGlobalProperty} {slot time : Nat}

namespace DynamicGlobalProperty

/-- The time that the slots are counted from. -/
def slotBase (p : DynamicGlobalProperty) : Nat :=
  if p.headBlockNumber = 0 then p.time else p.time / blockInterval * blockInterval

/-- The slot begins within the 32-bit time. -/
def Begins (p : DynamicGlobalProperty) (slot : Nat) : Prop :=
  p.slotBase + slot * blockInterval < 2 ^ 32

theorem slotTime_eq (hslot : 1 ≤ slot) (h : p.Begins slot) :
    p.slotTime slot = p.slotBase + slot * blockInterval := by
  unfold Begins slotBase at h
  unfold slotTime slotBase u32
  rw [if_neg (by omega)]
  split at h
  · rename_i hfirst
    rw [if_pos hfirst, if_pos hfirst, Nat.mod_eq_of_lt h]
  · rename_i hfirst
    rw [if_neg hfirst, if_neg hfirst, Nat.mod_eq_of_lt h]

theorem slotAt_eq (h : p.Begins 1) (htime : time < 2 ^ 32) :
    p.slotAt time = (time - p.slotBase) / blockInterval := by
  have hfirst := slotTime_eq le_rfl h
  unfold Begins at h
  unfold slotAt u32
  rw [hfirst]
  unfold blockInterval at *
  split
  all_goals omega

/-- The slots that begin by a time. -/
def slotsBy (p : DynamicGlobalProperty) (time : Nat) : Set Nat :=
  {slot | 1 ≤ slot ∧ p.Begins slot ∧ p.slotTime slot ≤ time}

theorem mem_slotsBy (htime : time < 2 ^ 32) :
    slot ∈ p.slotsBy time ↔ 1 ≤ slot ∧ p.slotBase + slot * blockInterval ≤ time := by
  refine ⟨fun ⟨hpos, hbegins, hle⟩ => ⟨hpos, slotTime_eq hpos hbegins ▸ hle⟩, fun ⟨hpos, hle⟩ => ?_⟩
  have hbegins : p.Begins slot := lt_of_le_of_lt hle htime
  exact ⟨hpos, hbegins, (slotTime_eq hpos hbegins).trans_le hle⟩

/-- **The slot of a time is the last one that begins by it**, if there is one. -/
theorem slotAt_greatest (h : p.Begins 1) (htime : time < 2 ^ 32) :
    IsGreatest (p.slotsBy time) (p.slotAt time) ∨ p.slotsBy time = ∅ ∧ p.slotAt time = 0 := by
  rw [slotAt_eq h htime]
  by_cases hsome : p.slotBase + blockInterval ≤ time
  · refine .inl ⟨(mem_slotsBy htime).mpr ?_, fun slot hslot => ?_⟩
    · unfold blockInterval at *
      omega
    · obtain ⟨_, hle⟩ := (mem_slotsBy htime).mp hslot
      unfold blockInterval at *
      omega
  · refine .inr ⟨Set.eq_empty_iff_forall_notMem.mpr fun slot hslot => ?_, ?_⟩
    · obtain ⟨hpos, hle⟩ := (mem_slotsBy htime).mp hslot
      unfold blockInterval at *
      omega
    · unfold blockInterval at *
      omega

/-- **The slot of the time of a slot is the slot.** -/
theorem slotAt_slotTime (hslot : 1 ≤ slot) (h : p.Begins slot) :
    p.slotAt (p.slotTime slot) = slot := by
  have hfirst : p.Begins 1 := by
    unfold Begins blockInterval at *
    omega
  rw [slotTime_eq hslot h, slotAt_eq hfirst h]
  unfold blockInterval
  omega

/-- **The first slot begins at the next multiple of the interval.** -/
theorem slotTime_least (hgenesis : p.headBlockNumber = 0 → blockInterval ∣ p.time)
    (h : p.Begins 1) :
    IsLeast {time | blockInterval ∣ time ∧ p.time < time} (p.slotTime 1) := by
  have hbase : p.slotBase = p.time / blockInterval * blockInterval := by
    unfold slotBase
    split
    · rename_i hfirst
      exact (Nat.div_mul_cancel (hgenesis hfirst)).symm
    · rfl
  rw [slotTime_eq le_rfl h, hbase]
  unfold blockInterval
  refine ⟨⟨by omega, by omega⟩, fun time ⟨hdvd, hlt⟩ => ?_⟩
  omega

end DynamicGlobalProperty

theorem getSlotTime_run (hp : d.store.get Kind.dynamicGlobalProperty 0 = some p) (slot : Nat) :
    (getSlotTime slot : Act n Nat).run d = .ok (p.slotTime slot) d := by
  refine bind_getDgp_ok.mpr ⟨p, hp, ?_⟩
  unfold DynamicGlobalProperty.slotTime
  split
  · rfl
  · split
    · rfl
    · rfl

theorem getSlotAtTime_run (hp : d.store.get Kind.dynamicGlobalProperty 0 = some p) (time : Nat) :
    (getSlotAtTime time : Act n Nat).run d = .ok (p.slotAt time) d := by
  refine Action.bind_ok.mpr ⟨_, d, getSlotTime_run hp 1, ?_⟩
  unfold DynamicGlobalProperty.slotAt
  split
  · rfl
  · rfl

/-- **Slot times and slot numbers are inverse**, whatever the time of the head. -/
theorem slot_times_inverse (hp : d.store.get Kind.dynamicGlobalProperty 0 = some p)
    (hgenesis : p.headBlockNumber = 0 → blockInterval ∣ p.time) (hfirst : p.Begins 1) :
    ∃ slotTime slotAt : Nat → Nat,
      (∀ slot, (getSlotTime slot : Act n Nat).run d = .ok (slotTime slot) d) ∧
      (∀ time, (getSlotAtTime time : Act n Nat).run d = .ok (slotAt time) d) ∧
      (∀ time < 2 ^ 32,
        let slots := {slot | 1 ≤ slot ∧ p.Begins slot ∧ slotTime slot ≤ time}
        IsGreatest slots (slotAt time) ∨ slots = ∅ ∧ slotAt time = 0) ∧
      (∀ slot, 1 ≤ slot → p.Begins slot → slotAt (slotTime slot) = slot) ∧
      IsLeast {time | blockInterval ∣ time ∧ p.time < time} (slotTime 1) :=
  ⟨p.slotTime, p.slotAt, getSlotTime_run hp, getSlotAtTime_run hp,
    fun _ htime => p.slotAt_greatest hfirst htime, fun _ hslot h => p.slotAt_slotTime hslot h,
    p.slotTime_least hgenesis hfirst⟩

/-! ## The head is moved -/

/-- An update by the only scheduled witness. -/
theorem finishes_globalDynamicData [Fc] {b : SignedBlock} {p : DynamicGlobalProperty}
    {o : WitnessSchedule} {h : HardforkProperty} {Q : Store chainSchema → Prop}
    (hp : d.store.get Kind.dynamicGlobalProperty 0 = some p)
    (ho : d.store.get Kind.witnessSchedule 0 = some o)
    (hh : d.store.get Kind.hardforkProperty 0 = some h)
    (hnames : o.currentShuffledWitnesses = [b.witness])
    {wit : Nat} (hw : (getWitnessId b.witness : Act n Nat).run d = .ok wit d)
    (hroom : sub32 b.blockNum p.lastIrreversibleBlockNum < maxUndoHistory)
    (hQ : ∀ hf, Q (d.store.write Kind.dynamicGlobalProperty 0
      (nextProperties b (p.missedBefore b) p) hf)) :
    Finishes (updateGlobalDynamicData {} b : Act n Unit) d Q := by
  have hrest : Finishes (do
      Action.forEach (List.range (p.missedBefore b)) fun i => countMissed b i
      modifyDgp (fun q => .ok (nextProperties b (p.missedBefore b) q)) fun _ q => q
      let q ← getDynamicGlobalProperties
      if ({} : Skip).undoHistoryCheck then pure ()
      else
        Action.require (sub32 q.headBlockNumber q.lastIrreversibleBlockNum < maxUndoHistory)
          "Please add a checkpoint if you would like to continue applying blocks beyond this point."
      : Act n Unit) d Q := by
    refine finishes_bind (countMissed_own hp ho hh hnames hw _) ?_
    have hmove : Finishes (modifyDgp (fun q => .ok (nextProperties b (p.missedBefore b) q))
        fun _ q => q : Act n Unit) d fun t => Q t ∧
          t.get Kind.dynamicGlobalProperty 0 = some (nextProperties b (p.missedBefore b) p) :=
      finishes_modifyWith hp rfl fun hf => ⟨hQ hf, by rw [Store.get_write_self, if_pos rfl]⟩
    refine hmove.bind fun _ e ⟨hdone, hnext⟩ => finishes_getDgp hnext ?_
    rw [if_neg (by decide)]
    exact ⟨(), e, Action.require_ok.mpr ⟨hroom, rfl⟩, hdone⟩
  unfold updateGlobalDynamicData
  refine finishes_bind (Action.bind_get_ok.mpr ⟨p, hp, rfl⟩) ?_
  dsimp only
  split
  · rename_i htime
    refine finishes_bind (getSlotAtTime_run hp _) (finishes_bind rfl ?_)
    have hmissed : p.missedBefore b = sub32 (p.slotAt b.timestamp) 1 := if_pos htime
    rw [← hmissed]
    exact hrest
  · rename_i htime
    refine finishes_bind rfl ?_
    have hmissed : p.missedBefore b = 0 := if_neg htime
    rw [← hmissed]
    exact hrest

theorem getWitnessId_run {name : String} {w : Witness} (h : IsNamed d.store name w) :
    ∃ wit, (getWitnessId name : Act n Nat).run d = .ok wit d := by
  obtain ⟨i, hi, hname⟩ := h
  obtain ⟨wit, e, hr, _⟩ : Finishes ((getWitnessId name : Act n Nat) >>= fun wit => pure wit) d
      fun _ => True :=
    finishes_getRow ⟨i, w, hi, decide_eq_true hname⟩ fun wit _ _ _ => finishes_pure trivial
  obtain ⟨wit', e', hr, hpure⟩ := Action.bind_ok.mp hr
  obtain rfl := (looks_getWitnessId name).of_ok hr
  exact ⟨wit', hr⟩

section

attribute [local instance] sampleFc

/-- A block of the init miner without transactions. -/
def minerBlock (previous : BlockId) (timestamp : Nat) : SignedBlock where
  toSignedBlockHeader := { sampleHeader previous 0 with timestamp := timestamp }
  transactions := []

/-- After a block in the middle of the second slot. -/
theorem slot_times_inverse_second : ∃ slotTime slotAt : Nat → Nat,
    (∀ slot, (getSlotTime slot : Act 0 Nat).run slotFirst = .ok (slotTime slot) slotFirst) ∧
      (∀ time, (getSlotAtTime time : Act 0 Nat).run slotFirst = .ok (slotAt time) slotFirst) ∧
      slotAt (slotTime 5) = 5 := by
  obtain ⟨_, _, ⟨_, _, _, hhead⟩, _⟩ := slots_run
  obtain ⟨p, hp, hclock⟩ := Option.map_eq_some_iff.mp hhead
  obtain ⟨hnum, htime⟩ := Prod.mk.inj hclock
  have hbase : p.slotBase = genesisTime + 6 := by
    unfold DynamicGlobalProperty.slotBase
    rw [hnum, htime]
    decide
  have hbegins : ∀ slot, slot ≤ 5 → p.Begins slot := by
    intro slot hslot
    unfold DynamicGlobalProperty.Begins genesisTime blockInterval at *
    omega
  have hinverse := slot_times_inverse (n := 0) hp (fun h0 => by omega) (hbegins 1 (by decide))
  obtain ⟨slotTime, slotAt, hslotTime, hslotAt, _, hback, _⟩ := hinverse
  exact ⟨slotTime, slotAt, hslotTime, hslotAt, hback 5 (by decide) (hbegins 5 le_rfl)⟩

end

end MuseChain
