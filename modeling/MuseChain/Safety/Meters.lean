/-
  File:      MuseChain/Safety/Meters.lean
  Subject:   The averages that limit the transactions of an account.

  * `Meter`: the average of all transactions and that of the market, each with its charge.
  * `averageBandwidth_exact`: for an average that fits and a size up to `maxChargeable` no product
    of 64 bits wraps, and the average is the one of the formula in account_object.hpp.
  * **`split_charges`**: after a charge up to that size a second one at the same head time is
    accepted, whatever its size, and leaves the average as it was: it is weighted with the 0
    seconds that have passed.
-/
import MuseChain.Safety.Bandwidth
import MuseChain.Safety.Endings

namespace MuseChain

variable {n : Nat} {d d' d₁ : Database chainSchema} {u : Unit}

/-! ## 1. The average -/

/-- The largest size of a transaction whose average can be weighted with a whole window. -/
def maxChargeable : Nat := (2 ^ 64 - 1) / (bandwidthAverageWindowSeconds * bandwidthPrecision)

/-- An average that can be weighted with a whole window. -/
def Fits (average : Nat) : Prop := average * bandwidthAverageWindowSeconds < 2 ^ 64

/-- What account_object.hpp says that the average becomes. -/
def meteredAverage (average delta size : Nat) : Nat :=
  if bandwidthAverageWindowSeconds ≤ delta then size * bandwidthPrecision
  else
    (average * (bandwidthAverageWindowSeconds - delta) + delta * (size * bandwidthPrecision)) /
      bandwidthAverageWindowSeconds

/-- The products of an update, and their sum, are below 2^64. -/
structure NoWrap (average delta size : Nat) : Prop where
  new : size * bandwidthPrecision < 2 ^ 64
  oldWeight : average * (bandwidthAverageWindowSeconds - delta) < 2 ^ 64
  newWeight : delta < bandwidthAverageWindowSeconds → delta * (size * bandwidthPrecision) < 2 ^ 64
  sum : delta < bandwidthAverageWindowSeconds →
    average * (bandwidthAverageWindowSeconds - delta) + delta * (size * bandwidthPrecision) < 2 ^ 64

section

variable {average delta size new since now : Nat}

theorem fits_of_chargeable (h : size ≤ maxChargeable) : Fits (size * bandwidthPrecision) := by
  unfold Fits
  unfold maxChargeable bandwidthAverageWindowSeconds bandwidthPrecision at *
  omega

/-- **A charge leaves an average that fits**, whatever it was before. -/
theorem fits_averageBandwidth {delta : Int} (h : Fits new) :
    Fits (averageBandwidth average delta (u64 new)) := by
  unfold averageBandwidth
  split
  · exact (Nat.mul_le_mul_right _ (u64_le new)).trans_lt h
  · exact (Nat.div_mul_le_self _ _).trans_lt (u64_lt _)

/-- No time has passed. -/
theorem averageBandwidth_zero (h : Fits average) : averageBandwidth average 0 new = average := by
  unfold Fits at h
  unfold averageBandwidth
  rw [if_neg (by decide)]
  have hold : uint64OfInt (bandwidthAverageWindowSeconds - 0) = bandwidthAverageWindowSeconds := rfl
  have hnew : uint64OfInt 0 = 0 := rfl
  rw [hold, hnew]
  dsimp only
  rw [Nat.zero_mul, u64_of_lt (by decide : 0 < 2 ^ 64), Nat.add_zero, u64_of_lt h, u64_of_lt h]
  exact Nat.mul_div_cancel _ (by decide)

/-- The weights of the old average and of the new one make a whole window. -/
theorem noWrap_of_fits (haverage : Fits average) (hsize : size ≤ maxChargeable) :
    NoWrap average delta size := by
  have hnew : size * bandwidthPrecision * bandwidthAverageWindowSeconds < 2 ^ 64 :=
    fits_of_chargeable hsize
  have hold : average * bandwidthAverageWindowSeconds < 2 ^ 64 := haverage
  have hsum : delta < bandwidthAverageWindowSeconds →
      average * (bandwidthAverageWindowSeconds - delta) + delta * (size * bandwidthPrecision) <
        2 ^ 64 := by
    intro hdelta
    generalize size * bandwidthPrecision = x at hnew
    generalize bandwidthAverageWindowSeconds = w at *
    obtain ⟨k, rfl⟩ := Nat.exists_eq_add_of_lt hdelta
    have hweight : delta + k + 1 - delta = k + 1 := by omega
    rw [hweight]
    -- both are at most the larger one, for the whole window
    rcases le_total average x with hle | hle
    · calc average * (k + 1) + delta * x ≤ x * (k + 1) + delta * x :=
            Nat.add_le_add_right (Nat.mul_le_mul_right _ hle) _
        _ = x * (delta + k + 1) := by ring
        _ < 2 ^ 64 := hnew
    · calc average * (k + 1) + delta * x ≤ average * (k + 1) + delta * average :=
            Nat.add_le_add_left (Nat.mul_le_mul_left _ hle) _
        _ = average * (delta + k + 1) := by ring
        _ < 2 ^ 64 := hold
  refine ⟨?_, ?_, fun hdelta => ?_, hsum⟩
  · exact (Nat.le_mul_of_pos_right _ (by decide)).trans_lt hnew
  · exact (Nat.mul_le_mul_left _ (Nat.sub_le _ _)).trans_lt hold
  · exact (Nat.le_add_left _ _).trans_lt (hsum hdelta)

/-- **Where nothing wraps, the average is that of the documented formula.** -/
theorem averageBandwidth_exact (h : NoWrap average (now - since) size) (htime : since ≤ now) :
    averageBandwidth average (elapsed now since) (u64 (size * bandwidthPrecision)) =
      meteredAverage average (now - since) size := by
  have helapsed : elapsed now since = (now - since : Nat) := by
    unfold elapsed
    omega
  unfold averageBandwidth meteredAverage
  rw [helapsed, u64_of_lt h.new]
  by_cases hdelta : bandwidthAverageWindowSeconds ≤ now - since
  · rw [if_pos hdelta, if_pos (by exact_mod_cast hdelta)]
  · have hlt : now - since < bandwidthAverageWindowSeconds := Nat.not_le.mp hdelta
    have hsmall : bandwidthAverageWindowSeconds < 2 ^ 64 := by decide
    rw [if_neg hdelta, if_neg (by exact_mod_cast hdelta), ← Nat.cast_sub hlt.le,
      uint64OfInt_natCast, uint64OfInt_natCast, u64_of_lt (hlt.trans hsmall),
      u64_of_lt ((Nat.sub_le _ _).trans_lt hsmall)]
    dsimp only
    rw [u64_of_lt h.oldWeight, u64_of_lt (h.newWeight hlt), u64_of_lt (h.sum hlt)]

end

/-! ## 2. The charges -/

/-- The averages that are kept of an account. -/
inductive Meter where
  | plain
  | market
  deriving DecidableEq

namespace Meter

def average : Meter → Account → Nat
  | .plain, a => a.averageBandwidth
  | .market, a => a.averageMarketBandwidth

def updated : Meter → Account → Nat
  | .plain, a => a.lastBandwidthUpdate
  | .market, a => a.lastMarketBandwidthUpdate

def charge (m : Meter) (acc size : Nat) : Act n Unit :=
  match m with
  | .plain => updateAccountBandwidth acc size
  | .market => updateAccountMarketBandwidth acc size

/-- The account may have an average. -/
def Allows : Meter → DynamicGlobalProperty → Account → Nat → Prop
  | .plain, p, a, average =>
      checkBandwidth (if 0 < a.vestingShares.amount then uint128OfInt a.vestingShares.amount else 1)
        average p.maxVirtualBandwidth p.totalVestingShares.amount = .ok ()
  | .market, p, a, average =>
      0 < a.vestingShares.amount ∧ checkBandwidth (uint128OfInt a.vestingShares.amount) average
        (p.maxVirtualBandwidth / 10) p.totalVestingShares.amount = .ok ()

/-- The average after a charge, as the code computes it. -/
def next (m : Meter) (p : DynamicGlobalProperty) (a : Account) (size : Nat) : Nat :=
  averageBandwidth (m.average a) (elapsed p.time (m.updated a)) (u64 (size * bandwidthPrecision))

/-- What a charge does to an account. -/
structure Charged (m : Meter) (p : DynamicGlobalProperty) (size : Nat) (a a' : Account) : Prop where
  average : m.average a' = m.next p a size
  updated : m.updated a' = p.time
  vests : a'.vestingShares = a.vestingShares
  allowed : m.Allows p a (m.next p a size)

end Meter

variable {m : Meter} {acc size : Nat} {p : DynamicGlobalProperty} {a a' : Account}

theorem charge_ok (hp : d.store.get Kind.dynamicGlobalProperty 0 = some p)
    (h : (m.charge acc size : Act n Unit).run d = .ok u d') :
    (¬0 < p.totalVestingShares.amount ∧ d'.store = d.store) ∨
    (0 < p.totalVestingShares.amount ∧ ∃ a a' hf, d.store.get Kind.account acc = some a ∧
      d'.store = d.store.write Kind.account acc a' hf ∧ m.Charged p size a a') := by
  cases m with
  | plain =>
    unfold Meter.charge updateAccountBandwidth at h
    obtain ⟨q, hq, h⟩ := bind_getDgp_ok.mp h
    obtain rfl := Option.some.inj (hq.symm.trans hp)
    dsimp only at h
    split at h
    · rename_i htotal
      obtain ⟨a, v, ha, hv, hf, hstore⟩ := modifyWith_store h
      obtain ⟨_, hallowed, hv⟩ := except_bind_ok.mp hv
      cases hv
      exact .inr ⟨htotal, a, _, hf, ha, hstore, rfl, rfl, rfl, hallowed⟩
    · rename_i htotal
      cases h
      exact .inl ⟨htotal, rfl⟩
  | market =>
    unfold Meter.charge updateAccountMarketBandwidth at h
    obtain ⟨q, hq, h⟩ := bind_getDgp_ok.mp h
    obtain rfl := Option.some.inj (hq.symm.trans hp)
    dsimp only at h
    split at h
    · rename_i htotal
      obtain ⟨a, v, ha, hv, hf, hstore⟩ := modifyWith_store h
      obtain ⟨hvests, hv⟩ := check_bind_ok.mp hv
      obtain ⟨_, hallowed, hv⟩ := except_bind_ok.mp hv
      cases hv
      exact .inr ⟨htotal, a, _, hf, ha, hstore, rfl, rfl, rfl, hvests, hallowed⟩
    · rename_i htotal
      cases h
      exact .inl ⟨htotal, rfl⟩

theorem charge_finishes (hp : d.store.get Kind.dynamicGlobalProperty 0 = some p)
    (ha : d.store.get Kind.account acc = some a)
    (hallowed : 0 < p.totalVestingShares.amount → m.Allows p a (m.next p a size)) :
    ∃ u d', (m.charge acc size : Act n Unit).run d = .ok u d' := by
  have hfinishes : Finishes (m.charge acc size : Act n Unit) d fun _ => True := by
    cases m with
    | plain =>
      unfold Meter.charge updateAccountBandwidth
      refine finishes_getDgp hp (finishes_ite (fun htotal => ?_) fun _ => finishes_pure trivial)
      exact finishes_modifyWith ha (except_bind_ok.mpr ⟨(), hallowed htotal, rfl⟩) fun _ => trivial
    | market =>
      unfold Meter.charge updateAccountMarketBandwidth
      refine finishes_getDgp hp (finishes_ite (fun htotal => ?_) fun _ => finishes_pure trivial)
      obtain ⟨hvests, hcheck⟩ := hallowed htotal
      exact finishes_modifyWith ha
        (check_bind_ok.mpr ⟨hvests, except_bind_ok.mpr ⟨(), hcheck, rfl⟩⟩) fun _ => trivial
  obtain ⟨u, d', hrun, -⟩ := hfinishes
  exact ⟨u, d', hrun⟩

/-- What is allowed depends on the vests of the account only. -/
theorem Meter.Allows.of_vests {average : Nat} (h : m.Allows p a average)
    (hvests : a'.vestingShares = a.vestingShares) : m.Allows p a' average := by
  cases m with
  | plain =>
    unfold Meter.Allows at h ⊢
    dsimp only at h ⊢
    rw [hvests]
    exact h
  | market =>
    unfold Meter.Allows at h ⊢
    dsimp only at h ⊢
    rw [hvests]
    exact h

/-- The account after a charge, and its average. -/
theorem charged (hp : d.store.get Kind.dynamicGlobalProperty 0 = some p)
    (ha : d.store.get Kind.account acc = some a)
    (h : (m.charge acc size : Act n Unit).run d = .ok u d') :
    ∃ a', d'.store.get Kind.account acc = some a' ∧
      d'.store.get Kind.dynamicGlobalProperty 0 = some p ∧
      (¬0 < p.totalVestingShares.amount ∧ a' = a ∨
        0 < p.totalVestingShares.amount ∧ m.Charged p size a a') := by
  obtain ⟨htotal, hstore⟩ | ⟨htotal, b, a', hf, hb, hstore, hcharged⟩ := charge_ok hp h
  · rw [hstore]
    exact ⟨a, ha, hp, .inl ⟨htotal, rfl⟩⟩
  · obtain rfl : b = a := Option.some.inj (hb.symm.trans ha)
    refine ⟨a', ?_, ?_, .inr ⟨htotal, hcharged⟩⟩
    · rw [hstore, Store.get_write_self, if_pos rfl]
    · rw [hstore, Store.get_write_ne (S := chainSchema) _ (by decide)]
      exact hp

/-! ## 3. Two charges -/

/-- **A second charge at the same head time adds nothing.** After a charge of a size up to
`maxChargeable`, a second one of any size is accepted and leaves the average that the first one
left. While the average fits, no product of a charge up to that size wraps, and the average is the
documented one; every such charge leaves an average that fits. -/
theorem split_charges {s₁ s₂ : Nat} (hp : d.store.get Kind.dynamicGlobalProperty 0 = some p)
    (ha : d.store.get Kind.account acc = some a) (hsize : s₁ ≤ maxChargeable)
    (h : (m.charge acc s₁ : Act n Unit).run d = .ok u d₁) :
    ∃ u₂ d₂ a₁ a₂, (m.charge acc s₂ : Act n Unit).run d₁ = .ok u₂ d₂ ∧
      d₁.store.get Kind.account acc = some a₁ ∧ d₂.store.get Kind.account acc = some a₂ ∧
      m.average a₂ = m.average a₁ ∧
      (0 < p.totalVestingShares.amount → Fits (m.average a₁)) ∧
      (0 < p.totalVestingShares.amount → Fits (m.average a) → m.updated a ≤ p.time →
        NoWrap (m.average a) (p.time - m.updated a) s₁ ∧
          m.average a₁ = meteredAverage (m.average a) (p.time - m.updated a) s₁) := by
  obtain ⟨a₁, ha₁, hp₁, ⟨htotal, rfl⟩ | ⟨htotal, hcharged⟩⟩ := charged hp ha h
  · -- nothing is charged while there are no vests
    obtain ⟨u₂, d₂, h₂⟩ : ∃ u d', (m.charge acc s₂ : Act n Unit).run d₁ = .ok u d' :=
      charge_finishes hp₁ ha₁ fun hpos => absurd hpos htotal
    obtain ⟨a₂, ha₂, -, ⟨-, rfl⟩ | ⟨hpos, -⟩⟩ := charged hp₁ ha₁ h₂
    · exact ⟨u₂, d₂, a₂, a₂, h₂, ha₁, ha₂, rfl, fun hpos => absurd hpos htotal,
        fun hpos => absurd hpos htotal⟩
    · exact absurd hpos htotal
  · have hfits : Fits (m.average a₁) := by
      rw [hcharged.average]
      exact fits_averageBandwidth (fits_of_chargeable hsize)
    have hzero : elapsed p.time (m.updated a₁) = 0 := by
      rw [hcharged.updated]
      exact Int.sub_self _
    have hnext : m.next p a₁ s₂ = m.average a₁ := by
      unfold Meter.next
      rw [hzero]
      exact averageBandwidth_zero hfits
    have hallowed : m.Allows p a₁ (m.next p a₁ s₂) := by
      rw [hnext, hcharged.average]
      exact hcharged.allowed.of_vests hcharged.vests
    obtain ⟨u₂, d₂, h₂⟩ := charge_finishes (n := n) hp₁ ha₁ fun _ => hallowed
    obtain ⟨a₂, ha₂, -, ⟨hnone, -⟩ | ⟨-, hcharged₂⟩⟩ := charged hp₁ ha₁ h₂
    · exact absurd htotal hnone
    · refine ⟨u₂, d₂, a₁, a₂, h₂, ha₁, ha₂, hcharged₂.average.trans hnext, fun _ => hfits,
        fun _ hbefore htime => ?_⟩
      have hwrap : NoWrap (m.average a) (p.time - m.updated a) s₁ := noWrap_of_fits hbefore hsize
      exact ⟨hwrap, hcharged.average.trans (averageBandwidth_exact hwrap htime)⟩

section

attribute [local instance] sampleFc

/-- The init miner has vests, and the first block is made. -/
def vestedStart : Database chainSchema :=
  ((do transferToVesting initMinerName "" ⟨1000, museSymbol⟩
       updateGlobalDynamicData {} (slotBlock (genesisTime + 3)) : Act 0 Unit).run scheduledStart).db

/-- The average of the init miner after some charges. -/
def averageAfter (m : Meter) (sizes : List Nat) : Option Nat :=
  match (Action.forEach sizes fun size => m.charge 3 size : Act 0 Unit).run vestedStart with
  | .ok _ d => (d.store.get Kind.account 3).map fun a : Account => m.average a
  | .thrown _ _ => none

def chargedStart : Outcome chainSchema Unit :=
  (Meter.plain.charge 3 1000 : Act 0 Unit).run vestedStart

/-- The averages after one charge and after two, as the code computes them. -/
theorem charges_run :
    (averageAfter .plain [1000, 1000] = some 1000000000 ∧
      averageAfter .plain [2000] = some 2000000000) ∧
    (averageAfter .market [1000, 1000] = some 1000000000 ∧
      averageAfter .market [2000] = some 2000000000) ∧
    chargedStart.isOk = true ∧
    (vestedStart.store.get Kind.account 3).isSome = true ∧
    (vestedStart.store.get Kind.dynamicGlobalProperty 0).isSome = true := by
  decide +kernel

/-- **Two charges of 1000 bytes count as one**, and not as one of 2000 bytes. -/
theorem split_charges_evade :
    (∃ x y, averageAfter .plain [1000, 1000] = some x ∧ averageAfter .plain [2000] = some y ∧
      x + 1 < y) ∧
    ∃ x y, averageAfter .market [1000, 1000] = some x ∧ averageAfter .market [2000] = some y ∧
      x + 1 < y := by
  obtain ⟨⟨htwo, hone⟩, ⟨htwo', hone'⟩, -⟩ := charges_run
  exact ⟨⟨_, _, htwo, hone, by decide⟩, _, _, htwo', hone', by decide⟩

theorem split_charges_vested :
    ∃ u₂ d₂ a₁ a₂, (Meter.plain.charge 3 1000 : Act 0 Unit).run chargedStart.db = .ok u₂ d₂ ∧
      chargedStart.db.store.get Kind.account 3 = some a₁ ∧ d₂.store.get Kind.account 3 = some a₂ ∧
      Meter.plain.average a₂ = Meter.plain.average a₁ := by
  obtain ⟨-, -, hok, hacc, hprops⟩ := charges_run
  obtain ⟨_, hr⟩ := Outcome.exists_of_isOk hok
  obtain ⟨a, ha⟩ := Option.isSome_iff_exists.mp hacc
  obtain ⟨p, hp⟩ := Option.isSome_iff_exists.mp hprops
  have hsplit := @split_charges 0 _ _ _ .plain 3 p a _ 1000 hp ha (by decide) hr
  obtain ⟨u₂, d₂, a₁, a₂, h₂, ha₁, ha₂, hsame, -⟩ := hsplit
  exact ⟨u₂, d₂, a₁, a₂, h₂, ha₁, ha₂, hsame⟩

end

end MuseChain
