/-
  File:      MuseChain/Safety/VestingPrice.lean
  Subject:   What a vesting share is worth: it never falls, but for a deposit whose shares do not fit
             in an int64.

  * `IsPool s P`: the vesting fund of the state and its shares.
  * `createVesting_pool`, `processVestingWithdrawal_left`: what a deposit and a withdrawal with all its
    routes do to it.
  * **`vesting_price_kept_iff`**: when the ratio of the two does not fall.
-/
import MuseChain.Lib.Pool
import MuseChain.Safety.Deeds
import MuseChain.Safety.OrderBook
import Mathlib.Algebra.Order.Field.Basic

namespace MuseChain

variable {n : Nat}

/-! ## 1. The fund -/

/-- The vesting fund and its shares. -/
def IsPool (s : Store chainSchema) (P : Pool) : Prop :=
  ∃ p : DynamicGlobalProperty, s.get Kind.dynamicGlobalProperty 0 = some p ∧
    p.totalVestingFundMuse = Asset.muse P.fund ∧ p.totalVestingShares = Asset.vests P.shares

/-- The vesting fund is left alone. -/
def PoolKept (s t : Store chainSchema) : Prop := ∀ P, IsPool s P → IsPool t P

instance : IsPreorder (Store chainSchema) PoolKept where
  refl _ _ h := h
  trans _ _ _ h h' P hP := h' P (h P hP)

instance : Calm PoolKept where
  of_aside h P := by
    rintro ⟨p, hp, hfund, hshares⟩
    have hkeep : Keep DynamicGlobalProperty.ledger (fun _ => False) _ _ :=
      h Kind.dynamicGlobalProperty 0
    rw [hp] at hkeep
    obtain ⟨q, hq, hledger⟩ := hkeep.of_some
    exact ⟨q, hq, (congrArg Ledger.totalVestingFundMuse hledger).symm.trans hfund,
      (congrArg Ledger.totalVestingShares hledger).symm.trans hshares⟩

theorem poolKept_of_untouched {s t : Store chainSchema}
    (h : Untouched (S := chainSchema) Kind.dynamicGlobalProperty s t) : PoolKept s t := by
  rintro P ⟨p, hp, hP⟩
  exact ⟨p, (congrFun (show t.get Kind.dynamicGlobalProperty = s.get Kind.dynamicGlobalProperty
    from h) 0).trans hp, hP⟩

theorem poolKept_modifyAccount {β : Type} {acc : Nat} {f : Account → Except Exn β}
    {upd : Account → β → Account} {hkey : ∀ a b, chainSchema.SameKey Kind.account a (upd a b)} :
    Steps PoolKept (Action.modifyWith (S := chainSchema) Kind.account acc f upd hkey : Act n Unit) :=
  (untouched_modifyWith (by decide)).mono fun _ _ => poolKept_of_untouched

section

variable {d d' : Database chainSchema} {P : Pool}

theorem IsPool.price (hP : IsPool d.store P) (hf : 0 < P.fund) (hs : 0 < P.shares)
    {p : DynamicGlobalProperty} (hp : d.store.get Kind.dynamicGlobalProperty 0 = some p) :
    p.getVestingSharePrice = ⟨Asset.vests P.shares, Asset.muse P.fund⟩ := by
  obtain ⟨q, hq, hfund, hshares⟩ := hP
  obtain rfl : p = q := Option.some.inj (hp.symm.trans hq)
  unfold DynamicGlobalProperty.getVestingSharePrice
  rw [hfund, hshares, if_neg]
  rintro (h | h)
  · exact absurd h (ne_of_gt hf)
  · exact absurd h (ne_of_gt hs)

/-- MUSE are turned into shares by the shares over the fund; the result is cut to 64 bits. -/
theorem muse_mul_price (hP : IsPool d.store P) (hf : Ample P.fund) (hs : Ample P.shares) {m : Int}
    (h0 : 0 ≤ m) (hm : m ≤ int64Max) {p : DynamicGlobalProperty}
    (hp : d.store.get Kind.dynamicGlobalProperty 0 = some p) {r : Asset}
    (h : (Asset.muse m).mul p.getVestingSharePrice = .ok r) :
    m * P.shares / P.fund < 2 ^ 64 ∧
      r = Asset.vests (int64OfNat (m * P.shares / P.fund).toNat) := by
  have e := Price.mul128_ediv h0 hm hs hf
  rw [hP.price hf.1 hs.1 hp, Asset.mul_quote (a := Asset.muse m)
    (p := ⟨Asset.vests P.shares, Asset.muse P.fund⟩) (show museSymbol ≠ vestsSymbol by decide) rfl]
    at h
  obtain ⟨x, hx, h⟩ := except_bind_ok.mp h
  cases h
  unfold Price.scale at hx
  rw [if_neg (show ¬(Asset.muse P.fund).amount ≤ 0 from not_le.mpr hf.1)] at hx
  dsimp only at hx
  split at hx
  · rename_i hlt
    cases hx
    have hlt' : Price.mul128 m P.shares / uint128OfInt P.fund < 2 ^ 64 := hlt
    refine ⟨by omega, ?_⟩
    rw [← e, Int.toNat_natCast]
    rfl
  · cases hx

/-- Shares are turned into MUSE by the fund over the shares. -/
theorem vests_mul_price (hP : IsPool d.store P) (hsound : P.Sound) (hf : P.fund ≤ int64Max)
    (hs : P.shares ≤ int64Max) {x : Int} (h0 : 0 ≤ x) (hx : x ≤ P.shares)
    {p : DynamicGlobalProperty} (hp : d.store.get Kind.dynamicGlobalProperty 0 = some p) {r : Asset}
    (h : (Asset.vests x).mul p.getVestingSharePrice = .ok r) :
    r = Asset.muse (x * P.fund / P.shares) := by
  rcases hsound.shares.lt_or_eq with hpos | hzero
  · have hfund := hsound.backed hpos
    rw [hP.price hfund hpos hp] at h
    rw [Asset.mul_base (a := Asset.vests x) (p := ⟨Asset.vests P.shares, Asset.muse P.fund⟩) rfl,
      show (Asset.vests x).amount = x from rfl,
      show (Asset.muse P.fund).amount = P.fund from rfl,
      show (Asset.vests P.shares).amount = P.shares from rfl,
      Price.scale_of_fits h0 (le_trans hx hs) ⟨hfund, hf⟩ ⟨hpos, hs⟩
        (le_trans (P.redeem_le hsound.fund hpos hx) hf)] at h
    exact (Except.ok.inj h).symm
  · -- no share is left: the first price is asked, for nothing
    have hx0 : x = 0 := by omega
    obtain ⟨q, hq, _, hshares⟩ := hP
    obtain rfl : p = q := Option.some.inj (hp.symm.trans hq)
    have hnone : p.totalVestingShares.amount = 0 := by
      rw [hshares]
      exact hzero.symm
    unfold DynamicGlobalProperty.getVestingSharePrice at h
    rw [if_pos (.inr hnone), hx0] at h
    rw [hx0, zero_mul, Int.zero_ediv]
    exact (Except.ok.inj h).symm

/-! ## 2. Deposits -/

theorem createVesting_pool (hP : IsPool d.store P) (hf : Ample P.fund) (hs : Ample P.shares)
    {acc : Nat} {m : Int} (h0 : 0 ≤ m) (hm : m ≤ int64Max) {r : Asset}
    (h : (createVesting acc (Asset.muse m) : Act n Asset).run d = .ok r d') :
    m * P.shares / P.fund < 2 ^ 64 ∧ IsPool d'.store
      ⟨P.fund + m, P.shares + int64OfNat (m * P.shares / P.fund).toNat⟩ := by
  obtain ⟨p, hp, h⟩ := bind_getDgp_ok.mp h
  obtain ⟨newVesting, hmul, h⟩ := Action.bind_lift_ok.mp h
  obtain ⟨hlt, rfl⟩ := muse_mul_price hP hf hs h0 hm hp hmul
  obtain ⟨_, d₁, h1, h⟩ := Action.bind_ok.mp h
  obtain ⟨_, d₂, h2, h⟩ := Action.bind_ok.mp h
  obtain ⟨_, d₃, h3, h⟩ := Action.bind_ok.mp h
  obtain ⟨_, d₄, h4, h⟩ := Action.bind_ok.mp h
  cases h
  obtain ⟨q, hq, hfund, hshares⟩ := poolKept_modifyAccount.step h1 P hP
  obtain ⟨q', x, hq', hx, hfree, e⟩ := modifyWith_store h2
  obtain rfl : q = q' := Option.some.inj (hq.symm.trans hq')
  obtain ⟨fund, hfund', hx⟩ := except_bind_ok.mp hx
  obtain ⟨shares, hshares', hx⟩ := except_bind_ok.mp hx
  cases hx
  rw [hfund] at hfund'
  rw [hshares] at hshares'
  obtain ⟨_, rfl⟩ := Asset.add_ok hfund'
  obtain ⟨_, rfl⟩ := Asset.add_ok hshares'
  have hpool : IsPool d₂.store
      ⟨P.fund + m, P.shares + int64OfNat (m * P.shares / P.fund).toNat⟩ := by
    rw [e]
    exact ⟨_, by rw [Store.get_write_self, if_pos rfl], rfl, rfl⟩
  have hvotes : PoolKept d₂.store d₃.store := (steps_adjustProxiedWitnessVotes _ _).step h3
  have hscore : PoolKept d₃.store d'.store := (steps_recursiveRecalculateScore _ _).step h4
  exact ⟨hlt, hscore _ (hvotes _ hpool)⟩

/-! ## 3. Withdrawals -/

theorem routeShare_of_amount {v : Int} (h0 : 0 ≤ v) (hv : v ≤ int64Max) {percent : Nat}
    (hp : percent ≤ percent100) {x : Int} (h : routeShare v percent = .ok x) : 0 ≤ x := by
  rw [routeShare_eq h hp h0 hv]
  exact Int.ediv_nonneg (mul_nonneg h0 (Int.natCast_nonneg _)) (Int.natCast_nonneg _)

theorem depositVests_pool {v : Int} (h0 : 0 ≤ v) (hv : v ≤ int64Max)
    {l : List (Nat × WithdrawVestingRoute)} (hl : ∀ r ∈ l, r.2.percent ≤ percent100)
    {deposited asVests : Int} (h : (depositVests v l deposited : Act n Int).run d = .ok asVests d') :
    PoolKept d.store d'.store ∧ deposited ≤ asVests := by
  induction l generalizing d deposited with
  | nil =>
    cases h
    exact ⟨fun _ hP => hP, le_rfl⟩
  | cons r l ih =>
    obtain ⟨i, r⟩ := r
    have hl' : ∀ r ∈ l, r.2.percent ≤ percent100 := fun r hr => hl r (List.mem_cons_of_mem _ hr)
    unfold depositVests at h
    split at h
    · obtain ⟨x, hx, h⟩ := Action.bind_lift_ok.mp h
      obtain ⟨sum, hsum, h⟩ := Action.bind_lift_ok.mp h
      obtain ⟨rfl, _⟩ := safe_ok.mp hsum
      have hpos := routeShare_of_amount h0 hv (hl _ List.mem_cons_self) hx
      dsimp only at h
      split at h
      · obtain ⟨_, d₁, h1, h⟩ := Action.bind_ok.mp h
        obtain ⟨_, d₂, h2, h⟩ := Action.bind_ok.mp h
        obtain ⟨_, d₃, h3, h⟩ := Action.bind_ok.mp h
        have hshares : PoolKept d.store d₁.store := poolKept_modifyAccount.step h1
        have hvotes : PoolKept d₁.store d₂.store := (steps_adjustProxiedWitnessVotes _ _).step h2
        have hscore : PoolKept d₂.store d₃.store := (steps_recursiveRecalculateScore _ _).step h3
        obtain ⟨hrest, hle⟩ := ih hl' h
        refine ⟨fun P hP => hrest P (hscore P (hvotes P (hshares P hP))), by omega⟩
      · obtain ⟨hrest, hle⟩ := ih hl' h
        exact ⟨hrest, by omega⟩
    · exact ih hl' h

theorem takeFromVestingFund_pool (hP : IsPool d.store P) {paid x : Int} {u : Unit}
    (h : (takeFromVestingFund (Asset.muse paid) x : Act n Unit).run d = .ok u d') :
    IsPool d'.store ⟨P.fund - paid, P.shares - x⟩ := by
  obtain ⟨q, hq, hfund, hshares⟩ := hP
  unfold takeFromVestingFund modifyDgp at h
  obtain ⟨q', y, hq', hy, hfree, e⟩ := modifyWith_store h
  obtain rfl : q = q' := Option.some.inj (hq.symm.trans hq')
  obtain ⟨fund, hfund', hy⟩ := except_bind_ok.mp hy
  obtain ⟨shares, hshares', hy⟩ := except_bind_ok.mp hy
  cases hy
  rw [hfund] at hfund'
  obtain ⟨_, rfl⟩ := Asset.sub_ok hfund'
  obtain ⟨rfl, _⟩ := safe_ok.mp hshares'
  rw [e]
  refine ⟨_, by rw [Store.get_write_self, if_pos rfl], rfl, ?_⟩
  show ({ q.totalVestingShares with amount := q.totalVestingShares.amount - x } : Asset) = _
  rw [hshares]
  rfl

/-- One conversion of shares, when there are as many. -/
theorem convert_left (hP : IsPool d.store P) (hsound : P.Sound) (hf : P.fund ≤ int64Max)
    (hs : P.shares ≤ int64Max) {x : Int} (h0 : 0 ≤ x) (hx : x ≤ P.shares)
    {p : DynamicGlobalProperty} (hp : d.store.get Kind.dynamicGlobalProperty 0 = some p)
    {converted : Asset} (hmul : (Asset.vests x).mul p.getVestingSharePrice = .ok converted)
    {e e' : Database chainSchema} (hkept : PoolKept d.store e.store) {u : Unit}
    (h : (takeFromVestingFund converted x : Act n Unit).run e = .ok u e') :
    IsPool e'.store (P.redeem x) ∧ P.Left (P.redeem x) := by
  obtain rfl := vests_mul_price hP hsound hf hs h0 hx hp hmul
  exact ⟨takeFromVestingFund_pool (hkept P hP) h, P.left_redeem hsound h0 hx⟩

theorem depositMuse_le {v : Int} (h0 : 0 ≤ v) (hv : v ≤ int64Max)
    {l : List (Nat × WithdrawVestingRoute)} (hl : ∀ r ∈ l, r.2.percent ≤ percent100)
    {start stop : Int × Asset} (h : (depositMuse v l start : Act n (Int × Asset)).run d = .ok stop d') :
    start.1 ≤ stop.1 := by
  induction l generalizing d start with
  | nil =>
    cases h
    exact le_rfl
  | cons r l ih =>
    obtain ⟨i, r⟩ := r
    obtain ⟨deposited, total⟩ := start
    have hl' : ∀ r ∈ l, r.2.percent ≤ percent100 := fun r hr => hl r (List.mem_cons_of_mem _ hr)
    unfold depositMuse at h
    split at h
    · exact ih hl' h
    · obtain ⟨x, hx, h⟩ := Action.bind_lift_ok.mp h
      obtain ⟨sum, hsum, h⟩ := Action.bind_lift_ok.mp h
      obtain ⟨rfl, _⟩ := safe_ok.mp hsum
      obtain ⟨p, _, h⟩ := bind_getDgp_ok.mp h
      obtain ⟨converted, _, h⟩ := Action.bind_lift_ok.mp h
      obtain ⟨total', _, h⟩ := Action.bind_lift_ok.mp h
      have hpos := routeShare_of_amount h0 hv (hl _ List.mem_cons_self) hx
      have hrest : ∀ e : Database chainSchema, (depositMuse v l (deposited + x, total') :
          Act n (Int × Asset)).run e = .ok stop d' → deposited ≤ stop.1 := by
        intro e he
        have hle : deposited + x ≤ stop.1 := ih hl' he
        omega
      dsimp only at h
      split at h
      · obtain ⟨_, d₁, _, h⟩ := Action.bind_ok.mp h
        obtain ⟨_, d₂, _, h⟩ := Action.bind_ok.mp h
        exact hrest d₂ h
      · exact hrest d h

/-- The routes that take MUSE: whatever they take together is redeemed, when there is as much. -/
theorem depositMuse_pool {v : Int} (h0 : 0 ≤ v) (hv : v ≤ int64Max)
    {l : List (Nat × WithdrawVestingRoute)} (hl : ∀ r ∈ l, r.2.percent ≤ percent100)
    (hP : IsPool d.store P) (hsound : P.Sound) (hf : P.fund ≤ int64Max) (hs : P.shares ≤ int64Max)
    {start stop : Int × Asset} (h : (depositMuse v l start : Act n (Int × Asset)).run d = .ok stop d')
    (hfits : stop.1 - start.1 ≤ P.shares) :
    ∃ Q, IsPool d'.store Q ∧ P.Left Q ∧ Q.shares = P.shares - (stop.1 - start.1) := by
  induction l generalizing d P start with
  | nil =>
    cases h
    exact ⟨P, hP, .refl hsound, by omega⟩
  | cons r l ih =>
    obtain ⟨i, r⟩ := r
    obtain ⟨deposited, total⟩ := start
    have hl' : ∀ r ∈ l, r.2.percent ≤ percent100 := fun r hr => hl r (List.mem_cons_of_mem _ hr)
    unfold depositMuse at h
    split at h
    · exact ih hl' hP hsound hf hs h hfits
    · obtain ⟨x, hx, h⟩ := Action.bind_lift_ok.mp h
      obtain ⟨sum, hsum, h⟩ := Action.bind_lift_ok.mp h
      obtain ⟨rfl, _⟩ := safe_ok.mp hsum
      obtain ⟨p, hp, h⟩ := bind_getDgp_ok.mp h
      obtain ⟨converted, hmul, h⟩ := Action.bind_lift_ok.mp h
      obtain ⟨total', _, h⟩ := Action.bind_lift_ok.mp h
      have hpos := routeShare_of_amount h0 hv (hl _ List.mem_cons_self) hx
      dsimp only at h hfits
      split at h
      · obtain ⟨_, d₁, h1, h⟩ := Action.bind_ok.mp h
        obtain ⟨_, d₂, h2, h⟩ := Action.bind_ok.mp h
        have hle : deposited + x ≤ stop.1 := depositMuse_le h0 hv hl' h
        have hkept : PoolKept d.store d₁.store := poolKept_modifyAccount.step h1
        obtain ⟨hpool, hleft⟩ :=
          convert_left hP hsound hf hs hpos (by omega) hp hmul hkept h2
        have hshares : (P.redeem x).shares = P.shares - x := rfl
        obtain ⟨Q, hQ, hleft', hQs⟩ := ih hl' hpool hleft.sound (le_trans hleft.fund hf)
          (le_trans hleft.shares hs) h (by dsimp only; omega)
        exact ⟨Q, hQ, hleft.trans hleft', by dsimp only at hQs; omega⟩
      · have hx0 : x = 0 := by omega
        subst hx0
        rw [add_zero] at h
        have hrest := ih hl' hP hsound hf hs h hfits
        exact hrest

theorem withdrawRoutesOf_percent {acc : Nat} {l : List (Nat × WithdrawVestingRoute)}
    (hroutes : ∀ i (r : WithdrawVestingRoute), d.store.get Kind.withdrawVestingRoute i = some r →
      r.fromAccount = acc → r.percent ≤ percent100)
    (h : (withdrawRoutesOf acc : Act n (List (Nat × WithdrawVestingRoute))).run d = .ok l d') :
    d' = d ∧ ∀ r ∈ l, r.2.percent ≤ percent100 := by
  cases h
  refine ⟨rfl, fun r hr => ?_⟩
  obtain ⟨hmem, hfrom⟩ := List.mem_filter.mp ((List.mem_insertionSort _).mp hr)
  rw [Bool.and_eq_true] at hfrom
  exact hroutes r.1 r.2 (FMap.mem_rows.mp hmem) (of_decide_eq_true hfrom.1)

/-- **A withdrawal redeems shares that are there**, in whatever parts. -/
theorem processVestingWithdrawal_left (hP : IsPool d.store P) (hsound : P.Sound)
    (hf : P.fund ≤ int64Max) (hs : P.shares ≤ int64Max) {acc : Nat} {a : Account}
    (ha : d.store.get Kind.account acc = some a) {v : Int} (hv : withdrawalDue a = .ok v)
    (h0 : 0 ≤ v) (hfits : v ≤ P.shares)
    (hroutes : ∀ i (r : WithdrawVestingRoute), d.store.get Kind.withdrawVestingRoute i = some r →
      r.fromAccount = acc → r.percent ≤ percent100) {u : Unit}
    (h : (processVestingWithdrawal acc : Act n Unit).run d = .ok u d') :
    ∃ Q, IsPool d'.store Q ∧ P.Left Q := by
  have hmax : v ≤ int64Max := le_trans hfits hs
  obtain ⟨a', ha', h⟩ := bind_getAccount_ok.mp h
  obtain rfl : a = a' := Option.some.inj (ha.symm.trans ha')
  obtain ⟨v', hv', h⟩ := Action.bind_lift_ok.mp h
  obtain rfl : v = v' := Except.ok.inj (hv.symm.trans hv')
  obtain ⟨routes, d₁, h1, h⟩ := Action.bind_ok.mp h
  obtain ⟨hsame, hl⟩ := withdrawRoutesOf_percent hroutes h1
  rw [hsame] at h
  obtain ⟨asVests, d₂, h2, h⟩ := Action.bind_ok.mp h
  obtain ⟨hvests, hasVests⟩ := depositVests_pool h0 hmax hl h2
  obtain ⟨⟨asMuse, total⟩, d₃, h3, h⟩ := Action.bind_ok.mp h
  obtain ⟨rest, hrest, h⟩ := Action.bind_lift_ok.mp h
  obtain ⟨rfl, _⟩ := safe_ok.mp hrest
  obtain ⟨toConvert, hto, h⟩ := Action.bind_lift_ok.mp h
  obtain ⟨rfl, _⟩ := safe_ok.mp hto
  obtain ⟨hleft0, h⟩ := Action.bind_require_ok.mp h
  obtain ⟨p, hp, h⟩ := bind_getDgp_ok.mp h
  obtain ⟨converted, hmul, h⟩ := Action.bind_lift_ok.mp h
  obtain ⟨_, d₄, h4, h⟩ := Action.bind_ok.mp h
  obtain ⟨_, d₅, h5, h⟩ := Action.bind_ok.mp h
  obtain ⟨Q, hQ, hleft, hQs⟩ :=
    depositMuse_pool h0 hmax hl (hvests P hP) hsound hf hs h3 (by dsimp only; omega)
  dsimp only at hQs
  obtain ⟨hpool, hleft'⟩ := convert_left hQ hleft.sound (le_trans hleft.fund hf)
    (le_trans hleft.shares hs) hleft0 (by omega) hp hmul (poolKept_modifyAccount.step h4) h5
  have hrest : PoolKept d₅.store d'.store := by
    split at h
    · obtain ⟨_, d₆, h6, h⟩ := Action.bind_ok.mp h
      have hvotes : PoolKept d₅.store d₆.store := (steps_adjustProxiedWitnessVotes _ _).step h6
      have hscore : PoolKept d₆.store d'.store := (steps_recursiveRecalculateScore _ _).step h
      exact fun P hP => hscore P (hvotes P hP)
    · cases h
      exact fun _ hP => hP
  exact ⟨_, hrest _ hpool, hleft.trans hleft'⟩

/-! ## 4. The price of a share -/

/-- No share is worth less, and something is in the fund as long as there are shares. -/
def PriceKept (P Q : Pool) : Prop :=
  (Q.shares ≠ 0 → (P.fund : ℚ) / P.shares ≤ (Q.fund : ℚ) / Q.shares) ∧ 0 ≤ Q.fund ∧
    (0 < Q.shares → 0 < Q.fund)

theorem priceKept_of_left (hs : 0 < P.shares) {Q : Pool} (h : P.Left Q) : PriceKept P Q := by
  refine ⟨fun hne => ?_, h.sound.fund, h.sound.backed⟩
  have hQ : 0 < Q.shares := lt_of_le_of_ne h.sound.shares (Ne.symm hne)
  exact (Pool.keeps_iff_ratio hs hQ).mp h.keeps

/-- A deposit keeps the price when its shares are a number of 63 bits, or so large a number of 64
that the total does not fall below zero. -/
theorem priceKept_deposit_iff (hf : Ample P.fund) (hs : Ample P.shares) {m : Int} (h0 : 0 ≤ m)
    (hlt : m * P.shares / P.fund < 2 ^ 64) :
    PriceKept P ⟨P.fund + m, P.shares + int64OfNat (m * P.shares / P.fund).toNat⟩ ↔
      m * P.shares / P.fund < 2 ^ 63 ∨ 2 ^ 64 ≤ m * P.shares / P.fund + P.shares := by
  have hnew0 : 0 ≤ m * P.shares / P.fund := Int.ediv_nonneg (mul_nonneg h0 hs.1.le) hf.1.le
  have hissue := P.keeps_issue hf.1 m
  unfold Pool.issue at hissue
  have hfund := hf.1
  have hshares := hs.1
  generalize m * P.shares / P.fund = x at *
  by_cases hsmall : x < 2 ^ 63
  · have hcut : int64OfNat x.toNat = x := by
      rw [int64OfNat_of_lt (by omega), Int.toNat_of_nonneg hnew0]
    rw [hcut]
    refine iff_of_true ⟨fun _ => ?_, ?_, fun _ => ?_⟩ (.inl hsmall)
    · exact (Pool.keeps_iff_ratio hs.1 (show 0 < P.shares + x by omega)).mp hissue
    · show 0 ≤ P.fund + m
      omega
    · show 0 < P.fund + m
      omega
  · -- the number is read with its sign
    have hcut : int64OfNat x.toNat = x - 2 ^ 64 := by
      unfold int64OfNat
      rw [Nat.mod_eq_of_lt (by omega), if_neg (by omega)]
      push_cast
      rw [Int.toNat_of_nonneg hnew0]
    rw [hcut]
    unfold PriceKept
    dsimp only
    constructor
    · rintro ⟨hratio, _, _⟩
      refine .inr ?_
      by_contra hneg
      have hbelow : P.shares + (x - 2 ^ 64) < 0 := by omega
      have hleft : (0 : ℚ) < (P.fund : ℚ) / P.shares :=
        div_pos (by exact_mod_cast hf.1) (by exact_mod_cast hs.1)
      have hright : ((P.fund + m : Int) : ℚ) / ((P.shares + (x - 2 ^ 64) : Int) : ℚ) < 0 :=
        div_neg_of_pos_of_neg (by exact_mod_cast (show 0 < P.fund + m by omega))
          (by exact_mod_cast hbelow)
      exact absurd (hratio (ne_of_lt hbelow)) (not_le.mpr (lt_trans hright hleft))
    · rintro (h | h)
      · exact absurd h hsmall
      · refine ⟨fun hne => ?_, by omega, fun _ => by omega⟩
        refine (Pool.keeps_iff_ratio hs.1 (q := ⟨P.fund + m, P.shares + (x - 2 ^ 64)⟩)
          (show 0 < P.shares + (x - 2 ^ 64) by omega)).mp ?_
        show P.fund * (P.shares + (x - 2 ^ 64)) ≤ (P.fund + m) * P.shares
        calc P.fund * (P.shares + (x - 2 ^ 64)) ≤ P.fund * P.shares :=
              mul_le_mul_of_nonneg_left (by omega) hf.1.le
          _ ≤ (P.fund + m) * P.shares := mul_le_mul_of_nonneg_right (by omega) hs.1.le

end

/-- **The price of a vesting share.** A deposit keeps it, and keeps the fund, exactly when its shares
fit in an int64 or wrap to a number that leaves the total at zero or above; a withdrawal always keeps
it, in whatever parts its routes take it. -/
theorem vesting_price_kept_iff (d : Database chainSchema) (P : Pool) (hP : IsPool d.store P)
    (hf : Ample P.fund) (hs : Ample P.shares) :
    (∀ acc (m : Int) r d', 0 ≤ m → m ≤ int64Max →
      (createVesting acc (Asset.muse m) : Act n Asset).run d = .ok r d' →
      ∃ Q, IsPool d'.store Q ∧ (PriceKept P Q ↔
        m * P.shares / P.fund < 2 ^ 63 ∨ 2 ^ 64 ≤ m * P.shares / P.fund + P.shares)) ∧
    (∀ acc (a : Account) v d', d.store.get Kind.account acc = some a → withdrawalDue a = .ok v →
      0 ≤ v → v ≤ P.shares →
      (∀ i (r : WithdrawVestingRoute), d.store.get Kind.withdrawVestingRoute i = some r →
        r.fromAccount = acc → r.percent ≤ percent100) →
      (processVestingWithdrawal acc : Act n Unit).run d = .ok () d' →
      ∃ Q, IsPool d'.store Q ∧ PriceKept P Q) := by
  refine ⟨fun acc m r d' h0 hm h => ?_, fun acc a v d' ha hv h0 hfits hroutes h => ?_⟩
  · obtain ⟨hlt, hQ⟩ := createVesting_pool hP hf hs h0 hm h
    exact ⟨_, hQ, priceKept_deposit_iff hf hs h0 hlt⟩
  · have hsound : P.Sound := ⟨hf.1.le, hs.1.le, fun _ => hf.1⟩
    obtain ⟨Q, hQ, hleft⟩ :=
      processVestingWithdrawal_left hP hsound hf.2 hs.2 ha hv h0 hfits hroutes h
    exact ⟨Q, hQ, priceKept_of_left hs.1 hleft⟩

section

attribute [local instance] sampleFc

/-- The init miner starts with more MUSE than fit in an int64 as vesting shares. -/
def richGenesis : GenesisState := { sampleGenesis with initSupply := 10000000000000000 }

def richStart : Database chainSchema :=
  ((initGenesis richGenesis).run emptyDatabase).db

/-- It vests one unit of MUSE. -/
def richVested : Database chainSchema :=
  evaluated (.transferToVesting initMinerName "" (Asset.muse 1)) richStart

/-- And withdraws the shares. -/
def richLeaving : Database chainSchema :=
  evaluated (.withdrawVesting initMinerName (Asset.vests 1000)) richVested

theorem richVested_runs :
    ((initGenesis richGenesis).run emptyDatabase).isOk = true ∧
      ((evaluate 0 (fun _ => pure ()) (.transferToVesting initMinerName "" (Asset.muse 1)) :
        Act 0 Unit).run richStart).isOk = true ∧
      (richVested.store.get Kind.dynamicGlobalProperty 0).isSome = true ∧
      (richVested.store.props.totalVestingFundMuse = Asset.muse 1 ∧
        richVested.store.props.totalVestingShares = Asset.vests 1000) ∧
      ((createVesting 3 (Asset.muse 9223372036854776) : Act 0 Asset).run richVested).isOk = true := by
  decide +kernel

theorem richLeaving_runs :
    (richLeaving.store.get Kind.dynamicGlobalProperty 0).isSome = true ∧
      (richLeaving.store.props.totalVestingFundMuse = Asset.muse 1 ∧
        richLeaving.store.props.totalVestingShares = Asset.vests 1000) ∧
      ((createVesting 3 (Asset.muse 5) : Act 0 Asset).run richLeaving).isOk = true ∧
      ((processVestingWithdrawal 3 : Act 0 Unit).run richLeaving).isOk = true ∧
      (richLeaving.store.get Kind.account 3).isSome = true ∧
      (richLeaving.store.get Kind.account 3).map
        (fun a : Account => (withdrawalDue a).toOption) = some (some 76) ∧
      richLeaving.store.rows Kind.withdrawVestingRoute = [] := by
  decide +kernel

theorem reached_richVested (ok : Store chainSchema → Operation → Prop)
    (hok : ok richStart.store (.transferToVesting initMinerName "" (Asset.muse 1))) :
    Reached ok richGenesis richVested.store := by
  obtain ⟨hgenesis, hvest, _⟩ := richVested_runs
  obtain ⟨u, hu⟩ := Outcome.exists_of_isOk hgenesis
  have hstart : Reached ok richGenesis richStart.store := ⟨u, _, hu, .refl⟩
  exact hstart.evaluated (by decide) rfl hok hvest

theorem isPool_of_props {s : Store chainSchema} {P : Pool}
    (hsome : (s.get Kind.dynamicGlobalProperty 0).isSome = true)
    (hprops : s.props.totalVestingFundMuse = Asset.muse P.fund ∧
      s.props.totalVestingShares = Asset.vests P.shares) : IsPool s P := by
  obtain ⟨p, hp⟩ := Option.isSome_iff_exists.mp hsome
  unfold Store.props at hprops
  rw [hp] at hprops
  exact ⟨p, hp, hprops⟩

/-- One unit of MUSE has become a thousand shares. -/
theorem richVested_pool : IsPool richVested.store ⟨1, 1000⟩ :=
  isPool_of_props richVested_runs.2.2.1 richVested_runs.2.2.2.1

theorem richLeaving_pool : IsPool richLeaving.store ⟨1, 1000⟩ :=
  isPool_of_props richLeaving_runs.1 richLeaving_runs.2.1

theorem one_ample : Ample 1 := ⟨by decide, by decide⟩

theorem thousand_ample : Ample 1000 := ⟨by decide, by decide⟩

/-- The init miner vests five units more, or is paid the first part of its withdrawal. -/
theorem vesting_price_kept_leaving :
    (∃ r d' Q, (createVesting 3 (Asset.muse 5) : Act 0 Asset).run richLeaving = .ok r d' ∧
      IsPool d'.store Q ∧ PriceKept ⟨1, 1000⟩ Q) ∧
    ∃ d' Q, (processVestingWithdrawal 3 : Act 0 Unit).run richLeaving = .ok () d' ∧
      IsPool d'.store Q ∧ PriceKept ⟨1, 1000⟩ Q := by
  obtain ⟨hdeposit, hwithdraw⟩ :=
    vesting_price_kept_iff (n := 0) richLeaving ⟨1, 1000⟩ richLeaving_pool one_ample thousand_ample
  obtain ⟨_, _, hvest, hpay, hsome, hdue, hrows⟩ := richLeaving_runs
  constructor
  · obtain ⟨r, hr⟩ := Outcome.exists_of_isOk hvest
    obtain ⟨Q, hQ, hiff⟩ := hdeposit 3 5 r _ (by decide) (by decide) hr
    exact ⟨r, _, Q, hr, hQ, hiff.mpr (.inl (by decide))⟩
  · obtain ⟨_, hr⟩ := Outcome.exists_of_isOk hpay
    obtain ⟨a, ha⟩ := Option.isSome_iff_exists.mp hsome
    rw [ha, Option.map_some, Option.some.injEq] at hdue
    have hv : withdrawalDue a = .ok 76 := except_of_toOption hdue
    obtain ⟨Q, hQ, hkept⟩ := hwithdraw 3 a 76 _ ha hv (by decide) (by decide) (fun i r hi _ => by
      have hmem : (i, r) ∈ richLeaving.store.rows Kind.withdrawVestingRoute := FMap.mem_rows.mpr hi
      rw [hrows] at hmem
      cases hmem) hr
    exact ⟨_, Q, hr, hQ, hkept⟩

/-- The rest of it is too much: the new shares are a negative number. -/
theorem vesting_price_wraps : ∃ (d d' : Database chainSchema) (P Q : Pool) (acc : Nat) (m : Int)
    (r : Asset), Reached (fun _ _ => True) richGenesis d.store ∧ IsPool d.store P ∧ 0 < P.fund ∧
      0 < P.shares ∧ 0 ≤ m ∧
      (createVesting acc (Asset.muse m) : Act 0 Asset).run d = .ok r d' ∧ IsPool d'.store Q ∧
      ¬PriceKept P Q := by
  obtain ⟨_, _, _, _, hwraps⟩ := richVested_runs
  obtain ⟨r, hr⟩ := Outcome.exists_of_isOk hwraps
  obtain ⟨hlt, hQ⟩ :=
    createVesting_pool richVested_pool one_ample thousand_ample (by decide) (by decide) hr
  refine ⟨richVested, _, ⟨1, 1000⟩, _, 3, 9223372036854776, r, reached_richVested _ trivial,
    richVested_pool, by decide, by decide, by decide, hr, hQ, ?_⟩
  rw [priceKept_deposit_iff one_ample thousand_ample (by decide) hlt]
  decide

end

end MuseChain
