/-
  File:      MuseChain/Safety/Slots.lean
  Subject:   The slots of a chain of blocks: which is the current one, and how many were filled.

  * `Chain g past s`: the blocks `past`, newest first, were applied from the genesis `g` on, each
    with the check of its slot.
  * `Counted past p`: the current slot is the one of the head time, the blocks and the missed slots
    add up to it, and the participation is the number of filled slots of the window.
  * **`slots_counted`**: that is so along every chain, and the last slot of the signing witness is
    the current one, but for a block at the end of the 32-bit time (`signed_late`).
-/
import MuseChain.Lib.Bits
import MuseChain.Safety.Founding

namespace MuseChain

open Bits (ones)

variable {n : Nat}

/-! ## 1. Slots as numbers -/

namespace DynamicGlobalProperty

/-- `get_slot_time`. -/
def slotTime (p : DynamicGlobalProperty) (slotNum : Nat) : Nat :=
  if slotNum = 0 then 0
  else if p.headBlockNumber = 0 then u32 (p.time + slotNum * blockInterval)
  else u32 (p.time / blockInterval * blockInterval + slotNum * blockInterval)

/-- `get_slot_at_time`. -/
def slotAt (p : DynamicGlobalProperty) (when_ : Nat) : Nat :=
  if when_ < p.slotTime 1 then 0 else u32 ((when_ - p.slotTime 1) / blockInterval + 1)

/-- What the slots are computed from. -/
def clock (p : DynamicGlobalProperty) : (Nat × BlockId) × Nat × Nat × Nat × Nat :=
  ((p.headBlockNumber, p.headBlockId), p.time, p.currentAslot, p.recentSlotsFilled,
    p.participationCount)

theorem slotAt_congr {p q : DynamicGlobalProperty} (h : p.clock = q.clock) (when_ : Nat) :
    p.slotAt when_ = q.slotAt when_ := by
  simp only [clock, Prod.mk.injEq] at h
  obtain ⟨⟨hnum, _⟩, htime, _⟩ := h
  unfold slotAt slotTime
  rw [hnum, htime]

end DynamicGlobalProperty

section

variable {d d' : Database chainSchema}

theorem getSlotTime_ok {slotNum t : Nat} (h : (getSlotTime slotNum : Act n Nat).run d = .ok t d') :
    d' = d ∧ ∃ p : DynamicGlobalProperty, d.store.get Kind.dynamicGlobalProperty 0 = some p ∧
      t = p.slotTime slotNum := by
  obtain ⟨p, hp, h1⟩ := bind_getDgp_ok.mp h
  unfold DynamicGlobalProperty.slotTime
  split at h1
  · rename_i hzero
    cases h1
    exact ⟨rfl, p, hp, (if_pos hzero).symm⟩
  · rename_i hzero
    split at h1
    · rename_i hfirst
      cases h1
      exact ⟨rfl, p, hp, by rw [if_neg hzero, if_pos hfirst]⟩
    · rename_i hfirst
      cases h1
      exact ⟨rfl, p, hp, by rw [if_neg hzero, if_neg hfirst]⟩

theorem getSlotAtTime_ok {when_ slot : Nat}
    (h : (getSlotAtTime when_ : Act n Nat).run d = .ok slot d') :
    d' = d ∧ ∃ p : DynamicGlobalProperty, d.store.get Kind.dynamicGlobalProperty 0 = some p ∧
      slot = p.slotAt when_ := by
  obtain ⟨first, d₁, h1, h2⟩ := Action.bind_ok.mp h
  obtain ⟨rfl, p, hp, rfl⟩ := getSlotTime_ok h1
  unfold DynamicGlobalProperty.slotAt
  split at h2
  · rename_i hearly
    cases h2
    exact ⟨rfl, p, hp, (if_pos hearly).symm⟩
  · rename_i hlate
    cases h2
    exact ⟨rfl, p, hp, (if_neg hlate).symm⟩

end

/-! ## 2. The window of filled slots -/

/-- The count belongs to the register. -/
structure Window (filled count : Nat) : Prop where
  bounded : filled < 2 ^ 128
  counted : count = ones 128 filled

/-- One more slot. -/
theorem Window.shift {filled count : Nat} (h : Window filled count) (b : Bool) :
    Window (u128 (filled * 2 + b.toNat))
      ((count + (if 2 ^ 127 ≤ filled then 255 else 0) + b.toNat) % 256) := by
  have hshift : ones 128 ((filled * 2 + b.toNat) % 2 ^ 128) + (if 2 ^ 127 ≤ filled then 1 else 0) =
      ones 128 filled + b.toNat := Bits.ones_shift (w := 127) h.bounded b
  have hle : ones 128 ((filled * 2 + b.toNat) % 2 ^ 128) ≤ 128 := Bits.ones_le _ _
  refine ⟨Nat.mod_lt _ (by decide), ?_⟩
  rw [h.counted, u128]
  by_cases hhigh : 2 ^ 127 ≤ filled
  · rw [if_pos hhigh] at hshift ⊢
    omega
  · rw [if_neg hhigh] at hshift ⊢
    omega

theorem Window.fillSlots {left : Nat} {s : Nat × Nat} (h : Window s.1 s.2) :
    Window (fillSlots left s).1 (fillSlots left s).2 := by
  induction left generalizing s with
  | zero => exact h
  | succ left ih => exact ih (h.shift false)

/-- **The window after a block and the slots that were missed before it.** -/
theorem Window.participation {missed filled count : Nat} (h : Window filled count) :
    Window (participation missed filled count).1 (participation missed filled count).2 :=
  Window.fillSlots (h.shift true)

/-! ## 3. What keeps the slots -/

/-- The clock stays, and the witnesses and their last slots. -/
structure SlotsKept (s t : Store chainSchema) : Prop where
  clock : (t.get Kind.dynamicGlobalProperty 0).map DynamicGlobalProperty.clock =
    (s.get Kind.dynamicGlobalProperty 0).map DynamicGlobalProperty.clock
  witnesses : ∀ i (w : Witness), s.get Kind.witness i = some w →
    ∃ w' : Witness, t.get Kind.witness i = some w' ∧ w'.owner = w.owner ∧
      w'.lastAslot = w.lastAslot

theorem SlotsKept.refl (s : Store chainSchema) : SlotsKept s s :=
  ⟨rfl, fun _ w hw => ⟨w, hw, rfl, rfl⟩⟩

theorem SlotsKept.trans {s t u : Store chainSchema} (h : SlotsKept s t) (h' : SlotsKept t u) :
    SlotsKept s u := by
  refine ⟨h'.clock.trans h.clock, fun i w hw => ?_⟩
  obtain ⟨w₁, hw₁, howner, haslot⟩ := h.witnesses i w hw
  obtain ⟨w₂, hw₂, howner', haslot'⟩ := h'.witnesses i w₁ hw₁
  exact ⟨w₂, hw₂, howner'.trans howner, haslot'.trans haslot⟩

theorem SlotsKept.props {s t : Store chainSchema} (h : SlotsKept s t) {p : DynamicGlobalProperty}
    (hp : s.get Kind.dynamicGlobalProperty 0 = some p) :
    ∃ q : DynamicGlobalProperty, t.get Kind.dynamicGlobalProperty 0 = some q ∧
      q.clock = p.clock := by
  have hclock := h.clock
  rw [hp] at hclock
  exact Option.map_eq_some_iff.mp hclock

/-- The parts that slots are computed from. -/
def Part.slotted : Part → Bool
  | .made .dynamicGlobalProperty | .gone .dynamicGlobalProperty | .props .head | .props .time
  | .props .slots | .gone .witness | .witness .identity | .witness .aslot => true
  | _ => false

theorem slotsKept_of_changes {l : List Part} {s t : Store chainSchema}
    (h : Obeys (changes l) s t) (hl : ∀ p ∈ l, p.slotted = false) : SlotsKept s t := by
  have hn : ∀ {p : Part}, p.slotted = true → p ∉ l := not_mem_of_false hl
  refine ⟨?_, fun i w hw => ?_⟩
  · obtain ⟨a, b, ha, hb, hab⟩ | ⟨ha, hb⟩ | ⟨_, _, _, _, hmade, _⟩ :=
      changes_cases (h Kind.dynamicGlobalProperty 0) (hn rfl)
    · have hhead := Or.resolve_left (hab .head) (hn rfl)
      have htime := Or.resolve_left (hab .time) (hn rfl)
      have hslots := Or.resolve_left (hab .slots) (hn rfl)
      have hclock : b.clock = a.clock :=
        Prod.ext hhead.symm (Prod.ext htime.symm hslots.symm)
      rw [ha, hb]
      exact congrArg some hclock
    · rw [ha, hb]
    · exact absurd hmade (hn rfl)
  · obtain ⟨a, b, ha, hb, hab⟩ | ⟨ha, _⟩ | ⟨_, _, ha, _⟩ :=
      changes_cases (h Kind.witness i) (hn rfl)
    · cases ha.symm.trans hw
      have hid := Or.resolve_left (hab .identity) (hn rfl)
      have haslot := Or.resolve_left (hab .aslot) (hn rfl)
      exact ⟨b, hb, (congrArg Prod.fst hid).symm, haslot.symm⟩
    · exact nomatch hw.symm.trans ha
    · exact nomatch hw.symm.trans ha

section

variable [Fc]

/-- With valid proposals, the slots are kept. -/
def KeepsSlots (s t : Store chainSchema) : Prop := Proper s → Proper t ∧ SlotsKept s t

instance : IsPreorder (Store chainSchema) KeepsSlots where
  refl s hs := ⟨hs, .refl s⟩
  trans _ _ _ h h' hs := by
    obtain ⟨ht, hst⟩ := h hs
    obtain ⟨hu, htu⟩ := h' ht
    exact ⟨hu, hst.trans htu⟩

theorem keepsSlots_of_step {s t : Store chainSchema} (hstep : ChainStep (fun _ _ => True) s t)
    (h : SlotsKept s t) : KeepsSlots s t := fun hs => ⟨hstep.proper hs, h⟩

/-- A routine that does not touch the slots. -/
theorem keepsSlots_routine (r : Routine) (h : ∀ p ∈ r.parts, p.slotted = false) :
    Steps KeepsSlots (r.act : Act n Unit) :=
  ⟨fun hr => keepsSlots_of_step (.routine n r hr)
    (slotsKept_of_changes (r.composed_act.steps.step hr) h)⟩

theorem carries_keepsSlots : Carries KeepsSlots where
  operation {n} clock push op hv ha := by
    refine ⟨fun hr => keepsSlots_of_step (.operation clock n push op hv ha trivial hr)
      (slotsKept_of_changes ((composed_evaluate clock push ha).steps.step hr) ?_)⟩
    cases op with
    | proposalUpdate o => cases ha
    | _ => simp +decide [Operation.parts]
  routine {n r} hloose := by
    refine keepsSlots_routine r ?_
    cases r with
    | chargeBandwidth | rememberTransaction | approveProposal | removeProposal | currentWitness
    | headerExtensions => simp +decide [Routine.parts]
    | _ => cases hloose
  proper h hs := h hs hs

/-! ## 4. The first half of a block -/

/-- The slots that a block leaves out. -/
def DynamicGlobalProperty.missedBefore (p : DynamicGlobalProperty) (b : SignedBlock) : Nat :=
  if p.time ≠ 0 then sub32 (p.slotAt b.timestamp) 1 else 0

theorem clock_nextProperties {b : SignedBlock} {p q : DynamicGlobalProperty}
    (h : p.clock = q.clock) (missed : Nat) :
    (nextProperties b missed p).clock = (nextProperties b missed q).clock := by
  simp only [DynamicGlobalProperty.clock, Prod.mk.injEq] at h
  obtain ⟨_, _, haslot, hfilled, hcount⟩ := h
  unfold nextProperties DynamicGlobalProperty.clock
  rw [haslot, hfilled, hcount]

/-- The clock of the next head; the witnesses stay. -/
structure ClockMoved (b : SignedBlock) (s t : Store chainSchema) : Prop where
  clock : ∃ p q : DynamicGlobalProperty, s.get Kind.dynamicGlobalProperty 0 = some p ∧
    t.get Kind.dynamicGlobalProperty 0 = some q ∧
    q.clock = (nextProperties b (p.missedBefore b) p).clock
  witnesses : ∀ i (w : Witness), s.get Kind.witness i = some w →
    ∃ w' : Witness, t.get Kind.witness i = some w' ∧ w'.owner = w.owner

theorem ClockMoved.after {b : SignedBlock} {s t u : Store chainSchema} (h : SlotsKept s t)
    (h' : ClockMoved b t u) : ClockMoved b s u := by
  obtain ⟨p, q, hp, hq, hclock⟩ := h'.clock
  refine ⟨?_, fun i w hw => ?_⟩
  · have hback := h.clock
    rw [hp] at hback
    obtain ⟨p₀, hp₀, he⟩ := Option.map_eq_some_iff.mp hback.symm
    refine ⟨p₀, q, hp₀, hq, ?_⟩
    have htime : p₀.time = p.time := congrArg (·.2.1) he
    unfold DynamicGlobalProperty.missedBefore at hclock ⊢
    rw [hclock, DynamicGlobalProperty.slotAt_congr he, htime]
    exact clock_nextProperties he.symm _
  · obtain ⟨w₁, hw₁, howner, _⟩ := h.witnesses i w hw
    obtain ⟨w₂, hw₂, howner'⟩ := h'.witnesses i w₁ hw₁
    exact ⟨w₂, hw₂, howner'.trans howner⟩

omit [Fc] in
/-- The loop over the missed slots. -/
theorem composed_missed (b : SignedBlock) (l : List Nat) :
    Composed [.witness .missed, .witness .signing]
      (Action.forEach l fun i => countMissed b i : Act n Unit) :=
  composed_forEach fun i => composed_countMissed b i (List.Subset.refl _)

omit [Fc] in
/-- Properties that no part has changed. -/
theorem eq_of_same_props {l : List Part} {p q : DynamicGlobalProperty}
    (h : Same l Kind.dynamicGlobalProperty p q) (hl : ∀ f, Part.props f ∉ l) : p = q := by
  have hview : ∀ f : PropsField, DynamicGlobalProperty.view f p = DynamicGlobalProperty.view f q :=
    fun f => Or.resolve_left (h f) (hl f)
  obtain ⟨hnum, hid⟩ := Prod.mk.inj (hview .head)
  obtain ⟨hvirtual, hsupply⟩ := Prod.mk.inj (hview .supply)
  obtain ⟨hcurrent, hrest⟩ := Prod.mk.inj hsupply
  obtain ⟨hmbd, hrest⟩ := Prod.mk.inj hrest
  obtain ⟨hreward, hdelta⟩ := Prod.mk.inj hrest
  obtain ⟨haverage, husage⟩ := Prod.mk.inj (hview .usage)
  obtain ⟨hratio, hbandwidth⟩ := Prod.mk.inj husage
  obtain ⟨haslot, hslots⟩ := Prod.mk.inj (hview .slots)
  obtain ⟨hfilled, hcount⟩ := Prod.mk.inj hslots
  have hlife := hview .identity
  have htime := hview .time
  have hwitness := hview .witness
  have hfund := hview .fund
  have hshares := hview .shares
  have hrate := hview .rate
  have hsize := hview .blockSize
  have hlast := hview .irreversible
  cases p
  cases q
  simp_all

/-- The update: the loop over the missed slots, then the new properties. -/
theorem updateGlobalDynamicData_ok {skip : Skip} {b : SignedBlock} {d d' : Database chainSchema}
    {u : Unit} (h : (updateGlobalDynamicData skip b : Act n Unit).run d = .ok u d') :
    ∃ (p : DynamicGlobalProperty) (d₁ : Database chainSchema),
      d.store.get Kind.dynamicGlobalProperty 0 = some p ∧
      (Action.forEach (List.range (p.missedBefore b)) fun i => countMissed b i : Act n Unit).run d =
        .ok () d₁ ∧
      d₁.store.get Kind.dynamicGlobalProperty 0 = some p ∧
      ∃ hf, d'.store = d₁.store.write Kind.dynamicGlobalProperty 0
        (nextProperties b (p.missedBefore b) p) hf := by
  have htail : ∀ missed d, (do
      Action.forEach (List.range missed) fun i => countMissed b i
      modifyDgp (fun p => .ok (nextProperties b missed p)) fun _ p => p
      let p ← getDynamicGlobalProperties
      if skip.undoHistoryCheck then pure ()
      else
        Action.require (sub32 p.headBlockNumber p.lastIrreversibleBlockNum < maxUndoHistory)
          "Please add a checkpoint if you would like to continue applying blocks beyond this point."
      : Act n Unit).run d = .ok u d' →
      ∀ p : DynamicGlobalProperty, d.store.get Kind.dynamicGlobalProperty 0 = some p →
      ∃ d₁ : Database chainSchema,
        (Action.forEach (List.range missed) fun i => countMissed b i : Act n Unit).run d =
          .ok () d₁ ∧
        d₁.store.get Kind.dynamicGlobalProperty 0 = some p ∧
        ∃ hf, d'.store = d₁.store.write Kind.dynamicGlobalProperty 0
          (nextProperties b missed p) hf := by
    intro missed d h p hp
    obtain ⟨_, d₁, hcount, h1⟩ := Action.bind_ok.mp h
    obtain ⟨_, d₂, hmove, h2⟩ := Action.bind_ok.mp h1
    obtain ⟨_, e3, hlook, h3⟩ := Action.bind_ok.mp h2
    have hd3 : e3 = d₂ := Looks.of_ok (by simp) hlook
    have hd4 : d' = e3 := Looks.of_ok (by simp) h3
    subst hd4 hd3
    obtain ⟨p₁, q, hp₁, hq, hf, hstore⟩ := modifyWith_store hmove
    cases hq
    have hsame : d₁.store.get Kind.dynamicGlobalProperty 0 =
        d.store.get Kind.dynamicGlobalProperty 0 :=
      get_of_unchanged ((composed_missed b _).steps.step hcount) (by decide) (by decide)
        fun p q hpq => eq_of_same_props hpq fun f => by cases f <;> decide
    obtain rfl : p₁ = p := Option.some.inj (hp₁.symm.trans (hsame.trans hp))
    exact ⟨d₁, hcount, hp₁, hf, hstore⟩
  unfold updateGlobalDynamicData at h
  obtain ⟨p, hp, h1⟩ := bind_headBlockTime_ok h
  simp only at h1
  split at h1
  · rename_i htime
    obtain ⟨slot, e2, hslot, h2⟩ := Action.bind_ok.mp h1
    obtain ⟨rfl, p', hp', rfl⟩ := getSlotAtTime_ok hslot
    obtain rfl : p' = p := Option.some.inj (hp'.symm.trans hp)
    have hmissed : sub32 (p'.slotAt b.timestamp) 1 = p'.missedBefore b := (if_pos htime).symm
    rw [hmissed] at h2
    obtain ⟨d₁, hrest⟩ := htail _ _ (Action.bind_pure_ok.mp h2) p' hp
    exact ⟨p', d₁, hp, hrest⟩
  · rename_i htime
    have hmissed : 0 = p.missedBefore b := (if_neg htime).symm
    rw [hmissed] at h1
    obtain ⟨d₁, hrest⟩ := htail _ _ (Action.bind_pure_ok.mp h1) p hp
    exact ⟨p, d₁, hp, hrest⟩

theorem clockMoved_updateGlobalDynamicData {skip : Skip} {b : SignedBlock}
    {d d' : Database chainSchema} {u : Unit}
    (h : (updateGlobalDynamicData skip b : Act n Unit).run d = .ok u d') :
    ClockMoved b d.store d'.store := by
  obtain ⟨p, d₁, hp, hcount, _, hf, hstore⟩ := updateGlobalDynamicData_ok h
  have hkept := slotsKept_of_changes ((composed_missed b _).steps.step hcount) (by decide)
  refine ⟨⟨p, _, hp, by rw [hstore, Store.get_write_self, if_pos rfl], rfl⟩, fun i w hw => ?_⟩
  obtain ⟨w', hw', howner, _⟩ := hkept.witnesses i w hw
  refine ⟨w', ?_, howner⟩
  rw [hstore, Store.get_write_ne _ (show Kind.witness ≠ Kind.dynamicGlobalProperty by decide)]
  exact hw'

/-- The first half moves the clock, and its proposals stay valid. -/
theorem clockMoved_applyBlockFirst (clock n : Nat) {skip : Skip} (hskip : skip.validate = false)
    (b : SignedBlock) :
    Runs (fun s t => Proper s → Proper t ∧ ClockMoved b s t)
      (applyBlockFirst clock skip n b) := by
  have hR := carries_keepsSlots
  have hwitness : Steps KeepsSlots (Routine.act (.currentWitness b) : Act n Unit) := hR.routine rfl
  have hext : Steps KeepsSlots (Routine.act (.headerExtensions b) : Act n Unit) := hR.routine rfl
  have htrxs : Runs KeepsSlots (Action.forEach b.transactions fun trx =>
      MuseChain.applyTransaction clock skip n trx) :=
    .forEach fun trx _ => hR.applyTransaction clock n hskip trx
  have hafter : ∀ s t u, KeepsSlots s t → (Proper t → Proper u ∧ ClockMoved b t u) →
      Proper s → Proper u ∧ ClockMoved b s u := by
    intro s t u h h' hs
    obtain ⟨ht, hst⟩ := h hs
    obtain ⟨hu, htu⟩ := h' ht
    exact ⟨hu, .after hst htu⟩
  unfold applyBlockFirst
  refine (looks_require _ _).runs_bind fun _ => ?_
  refine Looks.runs_bind (by simp) fun wit => ?_
  refine Looks.runs_bind (by simp) fun p => ?_
  refine (looks_require _ _).runs_bind fun _ => ?_
  refine hwitness.runs.comp (fun _ => ?_) hafter
  refine hext.runs.comp (fun _ => ?_) hafter
  refine Looks.runs_bind (by simp) fun w => ?_
  refine Looks.runs_bind (by simp) fun h => ?_
  refine (looks_require _ _).runs_bind fun _ => ?_
  refine htrxs.comp (fun _ => ?_) hafter
  refine ⟨fun {d _ d'} hr _ _ _ hs => ?_⟩
  obtain ⟨_, d₁, hr, hpure⟩ := Action.bind_ok.mp hr
  cases hpure
  have hstep : ChainStep (fun _ _ => True) d.store d'.store :=
    .routine n (.globalDynamicData skip b) hr
  exact ⟨hstep.proper hs, clockMoved_updateGlobalDynamicData hr⟩

/-- A header whose slot is checked. -/
theorem validateBlockHeader_slot {skip : Skip} {b : SignedBlock} {d d' : Database chainSchema}
    {wit : Nat} (h : (validateBlockHeader skip b : Act n Nat).run d = .ok wit d')
    (hchecked : skip.witnessScheduleCheck = false) :
    ∃ p : DynamicGlobalProperty, d.store.get Kind.dynamicGlobalProperty 0 = some p ∧
      p.headBlockId = b.previous ∧ p.time < b.timestamp ∧ 0 < p.slotAt b.timestamp ∧
      ∃ w : Witness, d.store.get Kind.witness wit = some w ∧ w.owner = b.witness := by
  obtain ⟨p, hp, hprev, htime⟩ := validateBlockHeader_links h
  unfold validateBlockHeader at h
  obtain ⟨p', hp', h1⟩ := bind_getDgp_ok.mp h
  obtain rfl : p' = p := Option.some.inj (hp'.symm.trans hp)
  obtain ⟨_, h2⟩ := Action.bind_require_ok.mp h1
  obtain ⟨_, h3⟩ := Action.bind_require_ok.mp h2
  obtain ⟨i, w, hw, howner, h4⟩ := bind_getRow_ok h3
  obtain ⟨w', hw', h5⟩ := bind_getObject_ok.mp h4
  obtain rfl : w' = w := Option.some.inj (hw'.symm.trans hw)
  have hchecks : ∀ {x : Act n Nat}, x = (do
      if skip.witnessScheduleCheck then pure ()
      else do
        let slotNum ← getSlotAtTime b.timestamp
        Action.require (0 < slotNum) "slot_num > 0"
        let scheduled ← getScheduledWitness slotNum
        Action.require (w'.owner = scheduled) "Witness produced block at wrong time"
      pure i) → x.run d = .ok wit d' → 0 < p'.slotAt b.timestamp ∧ wit = i := by
    rintro x rfl h
    rw [hchecked] at h
    obtain ⟨slot, d₁, hslot, h6⟩ := Action.bind_ok.mp h
    obtain ⟨rfl, q, hq, rfl⟩ := getSlotAtTime_ok hslot
    obtain rfl : q = p' := Option.some.inj (hq.symm.trans hp)
    obtain ⟨hpos, h7⟩ := Action.bind_require_ok.mp h6
    obtain ⟨_, d₂, _, h8⟩ := Action.bind_ok.mp h7
    obtain ⟨_, h9⟩ := Action.bind_require_ok.mp h8
    cases h9
    exact ⟨hpos, rfl⟩
  have hslot : 0 < p'.slotAt b.timestamp ∧ wit = i := by
    dsimp only at h5
    split at h5
    · exact hchecks rfl h5
    · obtain ⟨_, h6⟩ := Action.bind_require_ok.mp h5
      exact hchecks rfl h6
  obtain ⟨hpos, rfl⟩ := hslot
  exact ⟨p', hp, hprev, htime, hpos, w', hw, of_decide_eq_true howner⟩

theorem applyBlockFirst_slot {clock wit : Nat} {skip : Skip} {b : SignedBlock}
    {d d' : Database chainSchema} (h : (applyBlockFirst clock skip n b).run d = .ok wit d')
    (hchecked : skip.witnessScheduleCheck = false) :
    ∃ p : DynamicGlobalProperty, d.store.get Kind.dynamicGlobalProperty 0 = some p ∧
      p.headBlockId = b.previous ∧ p.time < b.timestamp ∧ 0 < p.slotAt b.timestamp ∧
      ∃ w : Witness, d.store.get Kind.witness wit = some w ∧ w.owner = b.witness := by
  unfold applyBlockFirst at h
  obtain ⟨_, h1⟩ := Action.bind_require_ok.mp h
  obtain ⟨signer, d₁, hheader, h2⟩ := Action.bind_ok.mp h1
  have hsigner : signer = wit := by
    obtain ⟨_, _, _, h3⟩ := Action.bind_ok.mp h2
    obtain ⟨_, h4⟩ := Action.bind_require_ok.mp h3
    obtain ⟨_, _, _, h5⟩ := Action.bind_ok.mp h4
    obtain ⟨_, _, _, h6⟩ := Action.bind_ok.mp h5
    obtain ⟨_, _, _, h7⟩ := Action.bind_ok.mp h6
    obtain ⟨_, _, _, h8⟩ := Action.bind_ok.mp h7
    obtain ⟨_, h9⟩ := Action.bind_require_ok.mp h8
    obtain ⟨_, _, _, h10⟩ := Action.bind_ok.mp h9
    obtain ⟨_, _, _, hpure⟩ := Action.bind_ok.mp h10
    cases hpure
    rfl
  obtain rfl := hsigner
  exact validateBlockHeader_slot hheader hchecked

/-! ## 5. The second half -/

/-- The signing witness gets a slot; the clock stays. -/
def Signs (wit : Nat) (b : SignedBlock) (s t : Store chainSchema) : Prop :=
  Proper s → ∀ (q : DynamicGlobalProperty) (w : Witness),
    s.get Kind.dynamicGlobalProperty 0 = some q → s.get Kind.witness wit = some w →
    (∃ q' : DynamicGlobalProperty, t.get Kind.dynamicGlobalProperty 0 = some q' ∧
      q'.clock = q.clock) ∧
    ∃ w' : Witness, IsNamed t w.owner w' ∧
      w'.lastAslot = u64 (q.currentAslot + q.slotAt b.timestamp)

omit [Fc] in
theorem signs_updateSigningWitness {wit : Nat} {b : SignedBlock} {d d' : Database chainSchema}
    {u : Unit} (h : (updateSigningWitness wit b : Act n Unit).run d = .ok u d')
    {q : DynamicGlobalProperty} (hq : d.store.get Kind.dynamicGlobalProperty 0 = some q)
    {w : Witness} (hw : d.store.get Kind.witness wit = some w) :
    d'.store.get Kind.dynamicGlobalProperty 0 = some q ∧
      ∃ w' : Witness, d'.store.get Kind.witness wit = some w' ∧ w'.owner = w.owner ∧
        w'.lastAslot = u64 (q.currentAslot + q.slotAt b.timestamp) := by
  unfold updateSigningWitness at h
  obtain ⟨p, hp, h1⟩ := bind_getDgp_ok.mp h
  obtain rfl : p = q := Option.some.inj (hp.symm.trans hq)
  obtain ⟨slot, d₁, hslot, h2⟩ := Action.bind_ok.mp h1
  obtain ⟨rfl, p', hp', rfl⟩ := getSlotAtTime_ok hslot
  obtain rfl : p' = p := Option.some.inj (hp'.symm.trans hq)
  obtain ⟨v, hv, _, hstore⟩ := modify_store h2
  obtain rfl : v = w := Option.some.inj (hv.symm.trans hw)
  rw [hstore]
  refine ⟨?_, { v with
    lastAslot := u64 (p'.currentAslot + p'.slotAt b.timestamp)
    lastConfirmedBlockNum := b.blockNum }, ?_, rfl, rfl⟩
  · rw [Store.get_write_ne _ (show Kind.dynamicGlobalProperty ≠ Kind.witness by decide)]
    exact hq
  · rw [Store.get_write_self, if_pos rfl]

/-- **The second half of a block.** -/
theorem signs_applyBlockRest (clock n wit : Nat) (b : SignedBlock) :
    Runs (Signs wit b) (applyBlockRest clock n wit b) := by
  have hroutine : ∀ r : Routine, (∀ p ∈ r.parts, p.slotted = false) →
      Runs KeepsSlots (r.act : Act n Unit) := fun r h => (keepsSlots_routine r h).runs
  have hsign : Steps (fun s t => Proper s → Proper t ∧ ∀ (q : DynamicGlobalProperty) (w : Witness),
      s.get Kind.dynamicGlobalProperty 0 = some q → s.get Kind.witness wit = some w →
      t.get Kind.dynamicGlobalProperty 0 = some q ∧
        ∃ w' : Witness, t.get Kind.witness wit = some w' ∧ w'.owner = w.owner ∧
          w'.lastAslot = u64 (q.currentAslot + q.slotAt b.timestamp))
      (updateSigningWitness wit b : Act n Unit) := by
    refine ⟨fun {d _ d'} hr hs => ⟨?_, fun q w hq hw => signs_updateSigningWitness hr hq hw⟩⟩
    have hstep : ChainStep (fun _ _ => True) d.store d'.store := .routine n (.signingWitness wit b) hr
    exact hstep.proper hs
  unfold applyBlockRest
  refine hsign.runs.comp (fun _ => show Runs KeepsSlots _ from ?_)
    fun s t u hst htu hs q w hq hw => ?_
  · refine .bind (hroutine .lastIrreversibleBlock (by decide)) fun _ => ?_
    refine .bind (hroutine (.blockSummary b) (by simp +decide [Routine.parts])) fun _ => ?_
    refine .bind (hroutine .expiredTransactions (by decide)) fun _ => ?_
    refine .bind (carries_keepsSlots.clearExpiredProposals clock n) fun _ => ?_
    refine .bind (hroutine .expiredOrders (by decide)) fun _ => ?_
    refine .bind (hroutine .witnessSchedule (by decide)) fun _ => ?_
    refine .bind (hroutine .medianFeed (by decide)) fun _ => ?_
    refine .bind (hroutine .virtualSupply (by decide)) fun _ => ?_
    refine .bind (hroutine .pay (by decide)) fun _ => ?_
    refine .bind (hroutine .virtualSupply (by decide)) fun _ => ?_
    refine .bind (hroutine .accountRecovery (by decide)) fun _ => ?_
    exact hroutine .hardforks (by decide)
  · obtain ⟨ht, hsigned⟩ := hst hs
    obtain ⟨hqt, w', hw', howner, haslot⟩ := hsigned q w hq hw
    obtain ⟨_, hkept⟩ := htu ht
    obtain ⟨w'', hw'', howner', haslot'⟩ := hkept.witnesses wit w' hw'
    exact ⟨hkept.props hqt, w'', ⟨wit, hw'', howner'.trans howner⟩, haslot'.trans haslot⟩

end

/-! ## 6. Slots that are left out -/

/-- The places that `f` does not hit, of the first `m`. -/
def unhit {α : Type} (f : α → Nat) (l : List α) (m : Nat) : Nat :=
  (List.range m).countP fun k => !l.any fun x => f x = k + 1

/-- A hit `j + 1` places further than all others leaves `j` places out. -/
theorem unhit_cons {α : Type} {f : α → Nat} {l : List α} {x : α} {m j : Nat}
    (hbefore : ∀ y ∈ l, f y ≤ m) (hx : f x = m + (j + 1)) :
    unhit f (x :: l) (m + (j + 1)) = unhit f l m + j := by
  unfold unhit
  rw [List.range_add, List.countP_append, List.countP_map, List.range_succ, List.countP_append]
  have hold : (List.range m).countP (fun k => !(x :: l).any fun y => f y = k + 1) =
      (List.range m).countP fun k => !l.any fun y => f y = k + 1 := by
    refine List.countP_congr fun k hk => ?_
    have hk := List.mem_range.mp hk
    rw [List.any_cons, decide_eq_false (show ¬f x = k + 1 by omega), Bool.false_or]
  have hgap : (List.range j).countP
      ((fun k => !(x :: l).any fun y => f y = k + 1) ∘ fun k => m + k) = j := by
    have hall : ∀ k ∈ List.range j,
        ((fun k => !(x :: l).any fun y => f y = k + 1) ∘ fun k => m + k) k = true := fun k hk => by
      have hk := List.mem_range.mp hk
      simp only [Function.comp_apply, Bool.not_eq_true', List.any_eq_false, List.mem_cons,
        decide_eq_true_eq]
      rintro y (rfl | hy)
      · omega
      · have := hbefore y hy
        omega
    rw [List.countP_eq_length.mpr hall, List.length_range]
  have hown : List.countP ((fun k => !(x :: l).any fun y => f y = k + 1) ∘ fun k => m + k) [j] =
      0 := by
    rw [List.countP_singleton, if_neg]
    simp [hx, Nat.add_assoc]
  rw [hold, hgap, hown]
  omega

/-- The slot of a time, from the genesis on. -/
def slotOf (time : Nat) : Nat := time / blockInterval - genesisTime / blockInterval

/-- The slots up to a time that no block has. -/
def missedSlots (past : List SignedBlock) (time : Nat) : Nat :=
  unhit (fun b => slotOf b.timestamp) past (slotOf time)

/-! ## 7. Chains -/

section

variable [Fc]

/-- The blocks, newest first, were applied from the genesis on, with the checks of their slots and
of their operations, while no container dropped an object and the undo stack had room. Between the
halves of a block the stack gets a new max size. -/
inductive Chain (g : GenesisState) : List SignedBlock → Store chainSchema → Prop
  | genesis {u : Unit} {d : Database chainSchema} :
      (initGenesis g).run emptyDatabase = .ok u d → Chain g [] d.store
  | block {past : List SignedBlock} {clock depth wit size : Nat} {skip : Skip} {b : SignedBlock}
      {d d₁ d₂ : Database chainSchema} {u : Unit} : Chain g past d.store →
      (applyBlockFirst clock skip depth b).run d = .ok wit d₁ →
      (applyBlockRest clock depth wit b).run { d₁ with maxSize := size } = .ok u d₂ →
      skip.witnessScheduleCheck = false → skip.validate = false → b.timestamp < 2 ^ 32 →
      d.store.Fresh → d₂.broken = false → depth ≤ d.maxSize → depth ≤ size →
      Chain g (b :: past) d₂.store

/-- What the blocks of a chain add up to. -/
structure Counted (past : List SignedBlock) (p : DynamicGlobalProperty) : Prop where
  since : genesisTime ≤ p.time
  start : past = [] → p.time = genesisTime
  time : p.time < 2 ^ 32
  slot : p.currentAslot = slotOf p.time
  number : p.headBlockNumber = past.length
  id : p.headBlockId.num = p.headBlockNumber
  before : ∀ b ∈ past, slotOf b.timestamp ≤ slotOf p.time
  missed : p.currentAslot = p.headBlockNumber + missedSlots past p.time
  window : Window p.recentSlotsFilled p.participationCount

/-- **Where a chain starts.** -/
theorem genesis_clock {g : GenesisState} {u : Unit} {d : Database chainSchema}
    (h : (initGenesis g).run emptyDatabase = .ok u d) :
    ∃ p : DynamicGlobalProperty, d.store.get Kind.dynamicGlobalProperty 0 = some p ∧
      p.clock = ((0, ⟨0, 0⟩), genesisTime, 0, 2 ^ 128 - 1, 128) := by
  obtain ⟨p, hp, hsame⟩ := genesis_properties h
  have hhead := Or.resolve_left (hsame .head) (by decide)
  have htime := Or.resolve_left (hsame .time) (by decide)
  have hslots := Or.resolve_left (hsame .slots) (by decide)
  exact ⟨p, hp, Prod.ext hhead.symm (Prod.ext htime.symm hslots.symm)⟩

omit [Fc] in
theorem Counted.genesis {p : DynamicGlobalProperty}
    (h : p.clock = ((0, ⟨0, 0⟩), genesisTime, 0, 2 ^ 128 - 1, 128)) : Counted [] p := by
  simp only [DynamicGlobalProperty.clock, Prod.mk.injEq] at h
  obtain ⟨⟨hnum, hid⟩, htime, haslot, hfilled, hcount⟩ := h
  have hslot : slotOf genesisTime = 0 := by decide
  refine ⟨htime.ge, fun _ => htime, by rw [htime]; decide, ?_, hnum, ?_, fun b hb => ?_, ?_, ?_⟩
  · rw [haslot, htime, hslot]
  · rw [hid, hnum]
  · exact absurd hb List.not_mem_nil
  · rw [haslot, hnum, htime, missedSlots, hslot]
    rfl
  · rw [hfilled, hcount]
    exact ⟨by decide, (Bits.ones_full 128).symm⟩

omit [Fc] in
/-- The next slot begins within the 32-bit time. -/
theorem Counted.slotTime {past : List SignedBlock} {p : DynamicGlobalProperty} (h : Counted past p)
    (htime : p.time + 1 < 2 ^ 32) : p.slotTime 1 = (p.time / blockInterval + 1) * blockInterval := by
  unfold DynamicGlobalProperty.slotTime u32
  rw [if_neg (show ¬(1 = 0) by decide), h.number]
  by_cases hfirst : past = []
  · have hp := h.start hfirst
    rw [hfirst, if_pos List.length_nil, hp]
    decide
  · have hpos := List.length_pos_iff.mpr hfirst
    rw [if_neg (show ¬past.length = 0 by omega)]
    unfold blockInterval
    omega

omit [Fc] in
/-- **The slot of a time that a block may have is the number of slots since the head.** -/
theorem Counted.slotAt {past : List SignedBlock} {p : DynamicGlobalProperty} (h : Counted past p)
    {time : Nat} (hlater : p.time < time) (htime : time < 2 ^ 32) :
    p.slotAt time = slotOf time - slotOf p.time := by
  have hsince := h.since
  unfold DynamicGlobalProperty.slotAt
  rw [h.slotTime (by omega)]
  unfold slotOf u32 genesisTime blockInterval at *
  split
  all_goals omega

/-- **One more block.** -/
theorem Counted.block {past : List SignedBlock} {p q : DynamicGlobalProperty} {b : SignedBlock}
    (h : Counted past p) (hprevious : p.headBlockId = b.previous) (hlater : p.time < b.timestamp)
    (htime : b.timestamp < 2 ^ 32) (hslot : 0 < p.slotAt b.timestamp)
    (hq : q.clock = (nextProperties b (p.missedBefore b) p).clock) : Counted (b :: past) q := by
  have hslots := h.slotAt hlater htime
  rw [hslots] at hslot
  have hsince := h.since
  have hbound : slotOf b.timestamp < 2 ^ 31 := by
    unfold slotOf blockInterval
    omega
  have hfew : past.length ≤ slotOf p.time := by
    have hmissed := h.missed
    rw [h.slot, h.number] at hmissed
    omega
  obtain ⟨j, hj⟩ : ∃ j, slotOf b.timestamp = slotOf p.time + (j + 1) :=
    ⟨slotOf b.timestamp - slotOf p.time - 1, by omega⟩
  have hmissed : p.missedBefore b = j := by
    unfold DynamicGlobalProperty.missedBefore sub32 u32
    unfold genesisTime at hsince
    rw [hslots, if_pos (by omega)]
    omega
  rw [hmissed] at hq
  simp only [nextProperties, DynamicGlobalProperty.clock, Prod.mk.injEq] at hq
  obtain ⟨⟨hnum, hid⟩, hqtime, haslot, hfilled, hcount⟩ := hq
  have hblock : b.blockNum = past.length + 1 := by
    unfold SignedBlockHeader.blockNum u32
    rw [← hprevious, h.id, h.number]
    omega
  have hqslot : q.currentAslot = slotOf b.timestamp := by
    rw [haslot, h.slot, hj]
    unfold u64 u32
    omega
  have hleft : missedSlots (b :: past) b.timestamp = missedSlots past p.time + j := by
    unfold missedSlots
    rw [hj]
    exact unhit_cons h.before hj
  refine ⟨by omega, fun hnil => absurd hnil (List.cons_ne_nil _ _), hqtime ▸ htime,
    by rw [hqslot, hqtime], ?_, ?_, ?_, ?_, ?_⟩
  · rw [hnum, hblock, List.length_cons]
  · rw [hid, hnum]
    rfl
  · rw [hqtime]
    intro b' hb'
    obtain rfl | hb' := List.mem_cons.mp hb'
    · exact le_rfl
    · exact (h.before b' hb').trans (by omega)
  · have hold := h.missed
    rw [h.slot, h.number] at hold
    rw [hqslot, hnum, hblock, hqtime, hleft, hj]
    omega
  · rw [hfilled, hcount]
    exact h.window.participation

omit [Fc] in
/-- The slot of the head itself, seen from the head: none, but at the end of the 32-bit time. -/
theorem Counted.slotAt_head {past : List SignedBlock} {q : DynamicGlobalProperty}
    (h : Counted past q) (hpast : past ≠ []) :
    u64 (q.currentAslot + q.slotAt q.time) = q.currentAslot ↔ q.time ≠ 2 ^ 32 - 1 := by
  have htime := h.time
  have hsince := h.since
  have hbound : q.currentAslot < 2 ^ 31 := by
    rw [h.slot]
    unfold slotOf blockInterval
    omega
  by_cases hend : q.time = 2 ^ 32 - 1
  · have hpos := List.length_pos_iff.mpr hpast
    have hfirst : q.slotTime 1 = 2 := by
      unfold DynamicGlobalProperty.slotTime
      rw [if_neg (show ¬(1 = 0) by decide), h.number, if_neg (show ¬past.length = 0 by omega), hend]
      decide
    have hslot : q.slotAt q.time = 1431655765 := by
      unfold DynamicGlobalProperty.slotAt
      rw [hfirst, hend]
      decide
    rw [hslot]
    unfold u64
    refine ⟨fun he => ?_, fun hne => absurd hend hne⟩
    omega
  · have hslot : q.slotAt q.time = 0 := by
      unfold DynamicGlobalProperty.slotAt
      rw [h.slotTime (by omega), if_pos]
      unfold blockInterval
      omega
    rw [hslot]
    unfold u64
    refine ⟨fun _ => hend, fun _ => ?_⟩
    omega

theorem Chain.timeline {g : GenesisState} {past : List SignedBlock} {s : Store chainSchema}
    (h : Chain g past s) : ∃ l, Timeline g l ⟨s, []⟩ := by
  induction h with
  | genesis hg => exact ⟨[], .start hg⟩
  | block _ hfirst hrest _ hvalid ht hf hb hn hn' ih =>
    obtain ⟨l, hl⟩ := ih
    obtain ⟨l', hl'⟩ := Path.applyBlock hfirst hrest hvalid ht hl.proper hf hb hn hn'
    exact ⟨_, hl.append hl'⟩

/-- **Along a chain the slots are counted**, and the signing witness of the last block has the slot
that the chain computes for it. -/
theorem Chain.counted {g : GenesisState} {past : List SignedBlock} {s : Store chainSchema}
    (h : Chain g past s) :
    ∃ p : DynamicGlobalProperty, s.get Kind.dynamicGlobalProperty 0 = some p ∧ Counted past p ∧
      ∀ b ∈ past.head?, p.time = b.timestamp ∧ ∃ w : Witness, IsNamed s b.witness w ∧
        w.lastAslot = u64 (p.currentAslot + p.slotAt p.time) := by
  induction h with
  | genesis hg =>
    obtain ⟨p, hp, hclock⟩ := genesis_clock hg
    exact ⟨p, hp, .genesis hclock, fun b hb => nomatch hb⟩
  | @block past clock depth wit size skip b d d₁ d₂ u hchain hfirst hrest hchecked hvalid ht hf hb
      hn hn' ih =>
    obtain ⟨p, hp, hcounted, _⟩ := ih
    obtain ⟨l, hl⟩ := hchain.timeline
    have hrestHolds := (applyBlockRest clock depth wit b).holds { d₁ with maxSize := size }
    rw [hrest, Outcome.db_ok] at hrestHolds
    have hb₁ : d₁.broken = false := (hrestHolds hb).1
    have hfirstHolds := (applyBlockFirst clock skip depth b).holds d
    rw [hfirst, Outcome.db_ok] at hfirstHolds
    have hf₁ : d₁.store.Fresh := ((hfirstHolds hb₁).2.2 hn hf).fresh
    obtain ⟨hproper, hmoved⟩ :=
      (clockMoved_applyBlockFirst clock depth hvalid b).step hfirst hb₁ hn hf hl.proper
    obtain ⟨p', q, hp', hq, hclock⟩ := hmoved.clock
    obtain rfl : p' = p := Option.some.inj (hp'.symm.trans hp)
    obtain ⟨p'', hp'', hprevious, hlater, hslot, w, hw, hsigner⟩ :=
      applyBlockFirst_slot hfirst hchecked
    obtain rfl : p'' = p' := Option.some.inj (hp''.symm.trans hp)
    obtain ⟨w₁, hw₁, howner₁⟩ := hmoved.witnesses wit w hw
    obtain ⟨⟨q', hq', hclock'⟩, w', hw', haslot⟩ := (signs_applyBlockRest clock depth wit b).step
      hrest hb hn' hf₁ hproper q w₁ hq hw₁
    have hnext : Counted (b :: past) q' :=
      hcounted.block hprevious hlater ht hslot (hclock'.trans hclock)
    have htime : q'.time = b.timestamp := by
      have := congrArg (·.2.1) (hclock'.trans hclock)
      exact this
    have hcurrent : q'.currentAslot = q.currentAslot := congrArg (·.2.2.1) hclock'
    refine ⟨q', hq', hnext, fun b' hb' => ?_⟩
    obtain rfl : b = b' := Option.some.inj hb'
    refine ⟨htime, w', ?_, ?_⟩
    · rw [← hsigner, ← howner₁]
      exact hw'
    · rw [haslot, hcurrent, htime, DynamicGlobalProperty.slotAt_congr hclock']

/-- **The slots of a chain.** -/
theorem slots_counted {g : GenesisState} {past : List SignedBlock} {s : Store chainSchema}
    (h : Chain g past s) :
    ∃ p : DynamicGlobalProperty, s.get Kind.dynamicGlobalProperty 0 = some p ∧
      p.currentAslot = p.time / blockInterval - genesisTime / blockInterval ∧
      p.currentAslot = p.headBlockNumber + missedSlots past p.time ∧
      p.headBlockNumber = past.length ∧
      p.participationCount = ones 128 p.recentSlotsFilled ∧
      ∀ b ∈ past.head?, ∃ w : Witness, IsNamed s b.witness w ∧
        (w.lastAslot = p.currentAslot ↔ b.timestamp ≠ 2 ^ 32 - 1) := by
  obtain ⟨p, hp, hcounted, hsigned⟩ := h.counted
  refine ⟨p, hp, hcounted.slot, hcounted.missed, hcounted.number, hcounted.window.counted,
    fun b hb => ?_⟩
  obtain ⟨htime, w, hw, haslot⟩ := hsigned b hb
  have hpast : past ≠ [] := fun hnil => by
    rw [hnil] at hb
    cases hb
  refine ⟨w, hw, ?_⟩
  rw [haslot, ← htime]
  exact hcounted.slotAt_head hpast

end

section

attribute [local instance] sampleFc

def slotStart : Database chainSchema :=
  ((initGenesis sampleGenesis).run emptyDatabase).db

/-- A first block without transactions. -/
def slotBlock (timestamp : Nat) : SignedBlock where
  toSignedBlockHeader := { sampleHeader ⟨0, 0⟩ 0 with timestamp := timestamp }
  transactions := []

def slotFirst : Database chainSchema :=
  ((applyBlockFirst 0 {} 0 (slotBlock (genesisTime + 7))).run slotStart).db

/-- The first half up to the update of the global properties. -/
def beforeUpdate (b : SignedBlock) : Act 0 Nat := do
  Action.require (({} : Skip).merkleCheck = true ∨ b.transactionMerkleRoot = b.calculateMerkleRoot)
    "mysterious place..."
  let signingWitness ← validateBlockHeader {} b
  let p ← getDynamicGlobalProperties
  Action.require (Fc.blockPackSize b ≤ p.maximumBlockSize) "Block Size is too Big"
  modifyDgp (fun _ => .ok ()) fun p _ => { p with currentWitness := b.witness }
  processHeaderExtensions b
  let w ← getWitness b.witness
  let h ← getHardforkProperty
  Action.require (w.runningVersion.ge h.currentHardforkVersion = true)
    "Block produced by witness that is not running current hardfork"
  Action.forEach b.transactions fun trx => applyTransaction 0 {} 0 trx
  pure signingWitness

/-- A block at the last second of the 32-bit time. -/
def lateBlock : SignedBlock := slotBlock (2 ^ 32 - 1)

/-- The objects before the update of the global properties. -/
def lateMiddle : Database chainSchema := ((beforeUpdate lateBlock).run slotStart).db

/-- The update without the loop. -/
def lateUpdate (missed : Nat) : Act 0 Unit := do
  modifyDgp (fun p => .ok (nextProperties lateBlock missed p)) fun _ p => p
  let p ← getDynamicGlobalProperties
  if ({} : Skip).undoHistoryCheck then pure ()
  else
    Action.require (sub32 p.headBlockNumber p.lastIrreversibleBlockNum < maxUndoHistory)
      "Please add a checkpoint if you would like to continue applying blocks beyond this point."

/-- What the runs of the two blocks come to. -/
theorem slots_run :
    ((initGenesis sampleGenesis).run emptyDatabase).value = some () ∧
      ((initGenesis sampleGenesis).run emptyDatabase).db.broken = false ∧
      (((applyBlockFirst 0 {} 0 (slotBlock (genesisTime + 7))).run slotStart).value = some 0 ∧
        ((applyBlockRest 0 0 0 (slotBlock (genesisTime + 7))).run
          { slotFirst with maxSize := 256 }).isOk = true ∧
        ((applyBlockRest 0 0 0 (slotBlock (genesisTime + 7))).run
          { slotFirst with maxSize := 256 }).db.broken = false ∧
        (slotFirst.store.get Kind.dynamicGlobalProperty 0).map
          (fun p : DynamicGlobalProperty => (p.headBlockNumber, p.time)) =
            some (1, genesisTime + 7)) ∧
      ((beforeUpdate lateBlock).run slotStart).value = some 0 ∧
      ((lateMiddle.store.get Kind.dynamicGlobalProperty 0).map
          (fun p : DynamicGlobalProperty => (p.headBlockNumber, p.time)) = some (0, genesisTime) ∧
        (lateMiddle.store.get Kind.witnessSchedule 0).map
          (fun o : WitnessSchedule => o.currentShuffledWitnesses) = some [lateBlock.witness] ∧
        (lateMiddle.store.get Kind.hardforkProperty 0).isSome = true ∧
        ((getWitnessId lateBlock.witness : Act 0 Nat).run lateMiddle).isOk = true) ∧
      ((lateUpdate 945377364).run lateMiddle).isOk = true ∧
      ((applyBlockRest 0 0 0 lateBlock).run
        { ((lateUpdate 945377364).run lateMiddle).db with maxSize := 256 }).isOk = true ∧
      ((applyBlockRest 0 0 0 lateBlock).run
        { ((lateUpdate 945377364).run lateMiddle).db with maxSize := 256 }).db.broken = false := by
  decide +kernel

theorem slotStart_genesis :
    (initGenesis sampleGenesis).run emptyDatabase = .ok () slotStart :=
  Outcome.of_value slots_run.1

theorem slotStart_fresh : slotStart.store.Fresh :=
  (((initGenesis sampleGenesis).holds emptyDatabase slots_run.2.1).2.2
    (Nat.zero_le _) emptyStore_fresh).fresh

/-- A first block whose halves return makes a chain. -/
theorem chain_first {b : SignedBlock} (ht : b.timestamp < 2 ^ 32) {d₁ : Database chainSchema}
    (hfirst : (applyBlockFirst 0 {} 0 b).run slotStart = .ok 0 d₁)
    (hrest : ((applyBlockRest 0 0 0 b).run { d₁ with maxSize := 256 }).isOk = true)
    (hwhole : ((applyBlockRest 0 0 0 b).run { d₁ with maxSize := 256 }).db.broken = false) :
    ∃ s, Chain sampleGenesis [b] s := by
  obtain ⟨_, hr⟩ := Outcome.exists_of_isOk hrest
  exact ⟨_, .block (.genesis slotStart_genesis) hfirst hr rfl rfl ht slotStart_fresh hwhole
    (Nat.zero_le _) (Nat.zero_le _)⟩

theorem chain_second : ∃ s, Chain sampleGenesis [slotBlock (genesisTime + 7)] s := by
  obtain ⟨_, _, ⟨hfirst, hrest, hwhole, _⟩, _⟩ := slots_run
  exact chain_first (by decide) (Outcome.of_value hfirst) hrest hwhole

/-- The first block comes in the second slot, four seconds before its end. -/
theorem slots_counted_second : ∃ s, Chain sampleGenesis [slotBlock (genesisTime + 7)] s ∧
    ∃ p : DynamicGlobalProperty, s.get Kind.dynamicGlobalProperty 0 = some p ∧
      p.currentAslot = p.time / blockInterval - genesisTime / blockInterval ∧
      p.currentAslot = p.headBlockNumber + missedSlots [slotBlock (genesisTime + 7)] p.time ∧
      p.headBlockNumber = [slotBlock (genesisTime + 7)].length ∧
      p.participationCount = ones 128 p.recentSlotsFilled ∧
      ∀ b ∈ [slotBlock (genesisTime + 7)].head?, ∃ w : Witness, IsNamed s b.witness w ∧
        (w.lastAslot = p.currentAslot ↔ b.timestamp ≠ 2 ^ 32 - 1) := by
  obtain ⟨s, hs⟩ := chain_second
  exact ⟨s, hs, slots_counted hs⟩

/-! A block at the last second of the 32-bit time. The loop over the missed slots does nothing, as
all of them are the signing witness's. -/

theorem countMissed_own {b : SignedBlock} {d : Database chainSchema} {p : DynamicGlobalProperty}
    {o : WitnessSchedule} {h : HardforkProperty}
    (hp : d.store.get Kind.dynamicGlobalProperty 0 = some p)
    (ho : d.store.get Kind.witnessSchedule 0 = some o)
    (hh : d.store.get Kind.hardforkProperty 0 = some h)
    (hnames : o.currentShuffledWitnesses = [b.witness])
    {wit : Nat} (hw : (getWitnessId b.witness : Act n Nat).run d = .ok wit d) (l : List Nat) :
    (Action.forEach l fun i => countMissed b i : Act n Unit).run d = .ok () d := by
  induction l with
  | nil => rfl
  | cons i l ih =>
    refine Action.bind_ok.mpr ⟨(), d, ?_, ih⟩
    have hscheduled : (getScheduledWitness (i + 1) : Act n String).run d = .ok b.witness d := by
      refine bind_getDgp_ok.mpr ⟨p, hp, Action.bind_get_ok.mpr ⟨o, ho, ?_⟩⟩
      rw [hnames]
      simp [Nat.mod_one]
    unfold countMissed
    refine Action.bind_ok.mpr ⟨_, d, hscheduled, Action.bind_ok.mpr ⟨wit, d, hw, ?_⟩⟩
    refine Action.bind_ok.mpr ⟨_, d, Action.bind_get_ok.mpr ⟨h, hh, rfl⟩, ?_⟩
    refine Action.bind_ok.mpr ⟨_, d, Action.bind_get_ok.mpr ⟨p, hp, rfl⟩, ?_⟩
    rw [if_neg (not_not.mpr rfl)]
    rfl

theorem applyBlockFirst_of_parts {b : SignedBlock} {wit : Nat} {d d₁ d₂ : Database chainSchema}
    (h : (beforeUpdate b).run d = .ok wit d₁)
    (hupdate : (updateGlobalDynamicData {} b : Act 0 Unit).run d₁ = .ok () d₂) :
    (applyBlockFirst 0 {} 0 b).run d = .ok wit d₂ := by
  unfold beforeUpdate at h
  obtain ⟨hmerkle, h⟩ := Action.bind_require_ok.mp h
  obtain ⟨signer, e₁, hheader, h⟩ := Action.bind_ok.mp h
  obtain ⟨p, e₂, hp, h⟩ := Action.bind_ok.mp h
  obtain ⟨hsize, h⟩ := Action.bind_require_ok.mp h
  obtain ⟨_, e₃, hcurrent, h⟩ := Action.bind_ok.mp h
  obtain ⟨_, e₄, hext, h⟩ := Action.bind_ok.mp h
  obtain ⟨w, e₅, hw, h⟩ := Action.bind_ok.mp h
  obtain ⟨hf, e₆, hhf, h⟩ := Action.bind_ok.mp h
  obtain ⟨hversion, h⟩ := Action.bind_require_ok.mp h
  obtain ⟨_, e₇, htrxs, hpure⟩ := Action.bind_ok.mp h
  cases hpure
  unfold applyBlockFirst
  refine Action.bind_require_ok.mpr ⟨hmerkle, Action.bind_ok.mpr ⟨_, e₁, hheader, ?_⟩⟩
  refine Action.bind_ok.mpr ⟨_, e₂, hp, Action.bind_require_ok.mpr ⟨hsize, ?_⟩⟩
  refine Action.bind_ok.mpr ⟨_, e₃, hcurrent, Action.bind_ok.mpr ⟨_, e₄, hext, ?_⟩⟩
  refine Action.bind_ok.mpr ⟨_, e₅, hw, Action.bind_ok.mpr ⟨_, e₆, hhf, ?_⟩⟩
  refine Action.bind_require_ok.mpr ⟨hversion, Action.bind_ok.mpr ⟨_, _, htrxs, ?_⟩⟩
  exact Action.bind_ok.mpr ⟨(), d₂, hupdate, rfl⟩

theorem updateGlobalDynamicData_late :
    (updateGlobalDynamicData {} lateBlock : Act 0 Unit).run lateMiddle =
      .ok () ((lateUpdate 945377364).run lateMiddle).db := by
  obtain ⟨_, _, _, _, ⟨hhead, hscheduled, hhardfork, howner⟩, hrest, _⟩ := slots_run
  obtain ⟨p, hp, hclock⟩ := Option.map_eq_some_iff.mp hhead
  obtain ⟨o, ho, hnames⟩ := Option.map_eq_some_iff.mp hscheduled
  obtain ⟨h, hh⟩ := Option.isSome_iff_exists.mp hhardfork
  obtain ⟨hnum, htime⟩ := Prod.mk.inj hclock
  obtain ⟨wit, hwit⟩ := Outcome.exists_of_isOk howner
  have hsame := looks_getWitnessId (n := 0) lateBlock.witness |>.of_ok hwit
  rw [hsame] at hwit
  have hslot : (getSlotAtTime lateBlock.timestamp : Act 0 Nat).run lateMiddle =
      .ok 945377365 lateMiddle := by
    refine Action.bind_ok.mpr ⟨genesisTime + 3, lateMiddle, bind_getDgp_ok.mpr ⟨p, hp, ?_⟩, ?_⟩
    · rw [if_neg (show ¬(1 = 0) by decide), if_pos hnum, htime]
      rfl
    · rw [if_neg (show ¬lateBlock.timestamp < genesisTime + 3 by decide)]
      rfl
  obtain ⟨_, hr⟩ := Outcome.exists_of_isOk hrest
  unfold updateGlobalDynamicData
  refine Action.bind_ok.mpr ⟨p.time, lateMiddle, Action.bind_get_ok.mpr ⟨p, hp, rfl⟩, ?_⟩
  dsimp only
  rw [if_pos (show p.time ≠ 0 by rw [htime]; decide)]
  refine Action.bind_ok.mpr ⟨945377365, lateMiddle, hslot, ?_⟩
  have hmissed : sub32 945377365 1 = 945377364 := by decide
  rw [hmissed]
  generalize 945377364 = missed at hr ⊢
  generalize ((lateUpdate missed).run lateMiddle).db = after at hr ⊢
  unfold lateUpdate at hr
  dsimp only at hr
  refine Action.bind_pure_ok.mpr (Action.bind_ok.mpr ⟨(), lateMiddle, ?_, hr⟩)
  exact countMissed_own hp ho hh hnames hwit _

theorem chain_late : ∃ s, Chain sampleGenesis [lateBlock] s := by
  obtain ⟨_, _, _, hmiddle, _, _, hrest, hwhole⟩ := slots_run
  have hmiddle : (beforeUpdate lateBlock).run slotStart = .ok 0 lateMiddle :=
    Outcome.of_value hmiddle
  have hfirst : (applyBlockFirst 0 {} 0 lateBlock).run slotStart =
      .ok 0 ((lateUpdate 945377364).run lateMiddle).db :=
    applyBlockFirst_of_parts hmiddle updateGlobalDynamicData_late
  have ht : lateBlock.timestamp < 2 ^ 32 := by decide
  exact chain_first ht hfirst hrest hwhole

/-- After it the last slot of the signing witness is not the current one: the time of the next slot
wraps, and the block is taken for one of a slot far ahead. -/
theorem signed_late : ∃ s, Chain sampleGenesis [lateBlock] s ∧
    ∀ p w, s.get Kind.dynamicGlobalProperty 0 = some p → IsNamed s lateBlock.witness w →
      w.lastAslot ≠ p.currentAslot := by
  obtain ⟨s, hs⟩ := chain_late
  refine ⟨s, hs, fun p w hp hw he => ?_⟩
  obtain ⟨q, hq, hcounted, hsigned⟩ := hs.counted
  obtain rfl : q = p := Option.some.inj (hq.symm.trans hp)
  obtain ⟨htime, w', hw', haslot⟩ := hsigned lateBlock rfl
  obtain rfl : w' = w := hw'.unique hw
  have hne := (hcounted.slotAt_head (List.cons_ne_nil _ _)).mp (haslot.symm.trans he)
  exact hne htime

end

end MuseChain
