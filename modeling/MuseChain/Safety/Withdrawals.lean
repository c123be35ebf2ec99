/-
  File:      MuseChain/Safety/Withdrawals.lean
  Subject:   The schedule of a withdrawal: what is paid, how often, and when it ends.

  * `Account.AtRest`, `a.Leaving k`: no withdrawal is scheduled, or one of which `k` whole parts are
    paid. `Planned s`: every account is one of both.
  * `Payments acc account s ps t`: the deeds from `s` to `t` pay `ps` to the account.
  * `Rounds acc account s k t`: from `s` to `t` there are `k` calls of process_vesting_withdrawals
    in which the account is due. `payments_of_call`: each of them pays it.
  * **`withdrawals_scheduled`**: the payments are those of the schedule, in order, as long as no
    deposit turns into a negative number of shares, and after enough rounds all are made.
-/
import MuseChain.Lib.Instalments
import MuseChain.Lib.Ranks
import MuseChain.Safety.Routes
import MuseChain.Safety.SlotTimes
import MuseChain.Safety.VestingPrice

namespace MuseChain

variable {n : Nat}

/-! ## 1. What other deeds leave to an account -/

/-- The withdrawal of an account is the same, and it has no fewer shares. -/
structure Account.NoLess (a b : Account) : Prop where
  name : b.name = a.name
  rate : b.vestingWithdrawRate = a.vestingWithdrawRate
  next : b.nextVestingWithdrawal = a.nextVestingWithdrawal
  withdrawn : b.withdrawn = a.withdrawn
  toWithdraw : b.toWithdraw = a.toWithdraw
  shares : a.vestingShares.amount ≤ b.vestingShares.amount

/-- No withdrawal is scheduled. -/
structure Account.AtRest (a : Account) : Prop where
  rate : a.vestingWithdrawRate.amount = 0
  next : a.nextVestingWithdrawal = timeMaximum

/-- The account has no less than before, and nothing is scheduled when it is new. -/
def Spares (c : Nat) (s t : Store chainSchema) : Prop :=
  (∀ a : Account, s.get Kind.account c = some a →
    ∃ b : Account, t.get Kind.account c = some b ∧ a.NoLess b) ∧
  ∀ b : Account, s.get Kind.account c = none → t.get Kind.account c = some b → b.AtRest

section

variable {c : Nat} {s t u : Store chainSchema}

theorem Account.NoLess.refl (a : Account) : a.NoLess a := ⟨rfl, rfl, rfl, rfl, rfl, le_rfl⟩

theorem Account.NoLess.trans {a b c : Account} (h : a.NoLess b) (h' : b.NoLess c) : a.NoLess c :=
  ⟨h'.name.trans h.name, h'.rate.trans h.rate, h'.next.trans h.next,
    h'.withdrawn.trans h.withdrawn, h'.toWithdraw.trans h.toWithdraw, le_trans h.shares h'.shares⟩

theorem Account.AtRest.noLess {a b : Account} (ha : a.AtRest) (h : a.NoLess b) : b.AtRest :=
  ⟨by rw [h.rate]; exact ha.rate, h.next.trans ha.next⟩

instance : IsPreorder (Store chainSchema) (Spares c) where
  refl s := ⟨fun a ha => ⟨a, ha, .refl a⟩, fun b hn hb => by cases hn.symm.trans hb⟩
  trans s t u h h' := by
    refine ⟨fun a ha => ?_, fun b hn hb => ?_⟩
    · obtain ⟨b, hb, hab⟩ := h.1 a ha
      obtain ⟨b', hb', hbb'⟩ := h'.1 b hb
      exact ⟨b', hb', hab.trans hbb'⟩
    · cases ht : t.get Kind.account c with
      | none => exact h'.2 b ht hb
      | some b' =>
        obtain ⟨b'', hb'', hless⟩ := h'.1 b' ht
        obtain rfl := Option.some.inj (hb''.symm.trans hb)
        exact (h.2 b' hn ht).noLess hless

/-- The parts that withdrawals are made of. -/
def Part.withdrawn : Part → Bool
  | .gone .account => true
  | .account .identity => true
  | .account .withdrawal => true
  | .account .vests => true
  | _ => false

theorem noLess_of_same {l : List Part} {a b : Account} (h : Same l Kind.account a b)
    (hi : .account .identity ∉ l) (hw : .account .withdrawal ∉ l)
    (hv : a.vestingShares.amount ≤ b.vestingShares.amount) : a.NoLess b := by
  have hname := Or.resolve_left (h .identity) hi
  have hplan := Or.resolve_left (h .withdrawal) hw
  simp only [Account.view, Prod.mk.injEq] at hname hplan
  exact ⟨hname.1.symm, hplan.1.symm, hplan.2.1.symm, hplan.2.2.1.symm, hplan.2.2.2.symm, hv⟩

/-- What leaves withdrawals alone, and shares but for those that are deposited. -/
theorem spares_of_changes {l : List Part} (h : Obeys (changes l) s t) (hg : .gone .account ∉ l)
    (hi : .account .identity ∉ l) (hw : .account .withdrawal ∉ l)
    (hv : ∀ a b : Account, s.get Kind.account c = some a → t.get Kind.account c = some b →
      a.vestingShares.amount ≤ b.vestingShares.amount) : Spares c s t := by
  obtain ⟨a, b, ha, hb, hab⟩ | ⟨hn, hn'⟩ | ⟨a, b, hn, hb, _, hblank, hab⟩ :=
    changes_cases (h Kind.account c) hg
  · refine ⟨fun a' ha' => ?_, fun b' hn hb' => ?_⟩
    · obtain rfl := Option.some.inj (ha.symm.trans ha')
      exact ⟨b, hb, noLess_of_same hab hi hw (hv a b ha hb)⟩
    · cases hn.symm.trans ha
  · exact ⟨fun a ha => (by cases hn.symm.trans ha), fun b _ hb => by cases hn'.symm.trans hb⟩
  · refine ⟨fun a' ha' => (by cases hn.symm.trans ha'), fun b' _ hb' => ?_⟩
    obtain rfl := Option.some.inj (hb.symm.trans hb')
    have hplan := Or.resolve_left (hab .withdrawal) hw
    simp only [Account.view, Prod.mk.injEq] at hplan
    obtain ⟨_, _, _, _, _, _, _, hrate, _, _, hnext, _⟩ := hblank
    refine ⟨?_, hplan.2.1.symm.trans hnext⟩
    rw [← hplan.1, hrate]
    rfl

theorem spares_of_unwithdrawn {l : List Part} (h : Obeys (changes l) s t)
    (hl : ∀ p ∈ l, p.withdrawn = false) : Spares c s t := by
  have hnot : ∀ {p : Part}, p.withdrawn = true → p ∉ l := fun hp hm => by
    rw [hl _ hm] at hp
    cases hp
  refine spares_of_changes h (hnot rfl) (hnot rfl) (hnot rfl) fun a b ha hb => ?_
  obtain ⟨a', b', ha', hb', hab⟩ | ⟨hn, _⟩ | ⟨_, _, hn, _⟩ :=
    changes_cases (h Kind.account c) (hnot rfl)
  · obtain rfl := Option.some.inj (ha.symm.trans ha')
    obtain rfl := Option.some.inj (hb.symm.trans hb')
    exact le_of_eq (congrArg Asset.amount (Or.resolve_left (hab .vests) (hnot rfl)))
  · cases hn.symm.trans ha
  · cases hn.symm.trans ha

end

/-! ## 2. Deposits -/

section

variable {c : Nat} {d d' : Database chainSchema}

/-- The shares of an account that is there. -/
theorem vestsOf_some {s : Store chainSchema} {a : Account} (h : s.get Kind.account c = some a) :
    vestsOf s c = a.vestingShares.amount := by
  unfold vestsOf
  rw [h]
  rfl

/-- A deposit gives one account the shares that the MUSE are worth. -/
theorem vestsOf_createVesting {acc : Nat} {muse r : Asset}
    (h : (createVesting acc muse : Act n Asset).run d = .ok r d') :
    muse.mul d.store.props.getVestingSharePrice = .ok r ∧
      ∀ c, vestsOf d'.store c = vestsOf d.store c + if c = acc then r.amount else 0 := by
  obtain ⟨p, hp, h⟩ := bind_getDgp_ok.mp h
  obtain ⟨newVesting, hmul, h⟩ := Action.bind_lift_ok.mp h
  obtain ⟨_, d₁, h1, h⟩ := Action.bind_ok.mp h
  obtain ⟨_, d₂, h2, h⟩ := Action.bind_ok.mp h
  obtain ⟨_, d₃, h3, h⟩ := Action.bind_ok.mp h
  obtain ⟨_, d₄, h4, h⟩ := Action.bind_ok.mp h
  cases h
  obtain ⟨a, _, ha, hx, hf, e1⟩ := modifyWith_store h1
  obtain ⟨_, rfl⟩ := Asset.add_ok hx
  have hgiven : Pays acc r.amount 0 0 0 d.store d₁.store := by
    rw [e1]
    exact pays_write_account ha hf rfl (add_zero _).symm
  have hfund : ∀ c, vestsOf d₂.store c = vestsOf d₁.store c := fun c => by
    obtain ⟨_, _, _, _, _, e2⟩ := modifyWith_store h2
    unfold vestsOf
    rw [e2, Store.get_write_ne _ (by decide)]
  have hvotes : Unpaid d₂.store d₃.store := (steps_adjustProxiedWitnessVotes _ _).step h3
  have hscore : Unpaid d₃.store d'.store := (steps_recursiveRecalculateScore _ _).step h4
  refine ⟨by rw [Store.props_of_get hp]; exact hmul, fun c => ?_⟩
  rw [(trans_of Unpaid hvotes hscore).vests, ite_self, add_zero, hfund, hgiven.vests]

/-- The passes over the routes take no shares from anybody. -/
theorem spares_depositVests {v : Int} {l : List (Nat × WithdrawVestingRoute)} {start out : Int}
    (h : (depositVests v l start : Act n Int).run d = .ok out d') : Spares c d.store d'.store := by
  refine spares_of_changes ((composed_depositVests (l := depositParts) _ _ _ (by decide)).steps.step
    h) (by decide) (by decide) (by decide) fun a b ha hb => ?_
  have hgrows : vestsOf d.store c ≤ vestsOf d'.store c := by
    clear ha hb
    induction l generalizing d start with
    | nil =>
      cases h
      exact le_rfl
    | cons r l ih =>
      obtain ⟨i, r⟩ := r
      unfold depositVests at h
      split at h
      · obtain ⟨y, _, h⟩ := Action.bind_lift_ok.mp h
        obtain ⟨_, _, h⟩ := Action.bind_lift_ok.mp h
        dsimp only at h
        split at h
        · obtain ⟨_, d₁, h1, h⟩ := Action.bind_ok.mp h
          obtain ⟨_, d₂, h2, h⟩ := Action.bind_ok.mp h
          obtain ⟨_, d₃, h3, h⟩ := Action.bind_ok.mp h
          obtain ⟨a, _, ha, hx, hf, e1⟩ := modifyWith_store h1
          obtain ⟨rfl, _⟩ := safe_ok.mp hx
          have hgiven : Pays r.toAccount y 0 0 0 d.store d₁.store := by
            rw [e1]
            exact pays_write_account ha hf rfl (add_zero _).symm
          have hvotes : Unpaid d₁.store d₂.store := (steps_adjustProxiedWitnessVotes _ _).step h2
          have hscore : Unpaid d₂.store d₃.store := (steps_recursiveRecalculateScore _ _).step h3
          refine le_trans ?_ (ih h)
          rw [(trans_of Unpaid hvotes hscore).vests, ite_self, add_zero, hgiven.vests]
          split <;> omega
        · exact ih h
      · exact ih h
  rwa [vestsOf_some ha, vestsOf_some hb] at hgrows

theorem spares_depositMuse {v : Int} {l : List (Nat × WithdrawVestingRoute)} {start out : Int × Asset}
    (h : (depositMuse v l start : Act n (Int × Asset)).run d = .ok out d') :
    Spares c d.store d'.store :=
  spares_of_unwithdrawn ((composed_depositMuse (l := [.account .muse, .props .fund,
    .props .shares]) _ _ _ (by decide)).steps.step h) (by decide)

/-- **What a withdrawal writes to the account**, between what it leaves to all. -/
theorem withdrawal_written {acc : Nat} {w : Unit}
    (h : (processVestingWithdrawal acc : Act n Unit).run d = .ok w d') :
    ∃ (a b b' : Account) (v : Int) (e : Store chainSchema)
      (hf : e.free Kind.account acc b' = true), d.store.get Kind.account acc = some a ∧
      withdrawalDue a = .ok v ∧ (∀ c, Spares c d.store e) ∧ e.get Kind.account acc = some b ∧
      (∀ c, Spares c (e.write Kind.account acc b' hf) d'.store) ∧
      b'.name = b.name ∧ b'.vestingShares.amount = b.vestingShares.amount - v ∧
      b'.withdrawn = b.withdrawn + v ∧ b'.toWithdraw = b.toWithdraw ∧
      (if b.toWithdraw ≤ b.withdrawn + v ∨ b.vestingShares.amount - v = 0 then b'.AtRest
      else b'.vestingWithdrawRate = b.vestingWithdrawRate ∧
        b'.nextVestingWithdrawal =
          u32 (b.nextVestingWithdrawal + vestingWithdrawIntervalSeconds)) := by
  obtain ⟨a, ha, h⟩ := bind_getAccount_ok.mp h
  obtain ⟨v, hv, h⟩ := Action.bind_lift_ok.mp h
  have h := Action.bind_read_ok.mp h
  obtain ⟨asVests, d₁, h1, h⟩ := Action.bind_ok.mp h
  obtain ⟨⟨asMuse, total⟩, d₂, h2, h⟩ := Action.bind_ok.mp h
  obtain ⟨_, _, h⟩ := Action.bind_lift_ok.mp h
  obtain ⟨toConvert, _, h⟩ := Action.bind_lift_ok.mp h
  obtain ⟨_, h⟩ := Action.bind_require_ok.mp h
  obtain ⟨p, _, h⟩ := bind_getDgp_ok.mp h
  obtain ⟨converted, _, h⟩ := Action.bind_lift_ok.mp h
  obtain ⟨_, d₃, h3, h⟩ := Action.bind_ok.mp h
  obtain ⟨_, d₄, h4, h⟩ := Action.bind_ok.mp h
  obtain ⟨b, x, hb, hx, hf, e3⟩ := modifyWith_store h3
  obtain ⟨shares, hshares, hx⟩ := except_bind_ok.mp hx
  obtain ⟨balance, _, hx⟩ := except_bind_ok.mp hx
  obtain ⟨withdrawn, hwithdrawn, hx⟩ := except_bind_ok.mp hx
  cases hx
  obtain ⟨rfl, _⟩ := safe_ok.mp hshares
  obtain ⟨rfl, _⟩ := safe_ok.mp hwithdrawn
  have hrest : ∀ c, Spares c d₃.store d'.store := by
    intro c
    have hfund : Spares c d₃.store d₄.store :=
      spares_of_unwithdrawn ((composed_takeFromVestingFund (l := [.props .fund, .props .shares]) _ _
        (by decide)).steps.step h4) (by decide)
    refine trans_of (Spares c) hfund ?_
    split at h
    · obtain ⟨_, d₅, h5, h6⟩ := Action.bind_ok.mp h
      have hvotes : Spares c d₄.store d₅.store :=
        spares_of_unwithdrawn ((composed_adjustProxiedWitnessVotes (l := voteParts) _ _
          (by decide)).steps.step h5) (by decide)
      exact trans_of (Spares c) hvotes (spares_of_unwithdrawn
        ((composed_recursiveRecalculateScore (l := [.account .score]) _ _
          (by decide)).steps.step h6) (by decide))
    · cases h
      exact refl_of (Spares c) _
  rw [e3] at hrest
  refine ⟨a, b, _, v, d₂.store, hf, ha, hv,
    fun c => trans_of (Spares c) (spares_depositVests h1) (spares_depositMuse h2), hb, hrest,
    rfl, rfl, rfl, rfl, ?_⟩
  split
  · rename_i hdone
    have hdone' : (decide (b.toWithdraw ≤ b.withdrawn + v) ||
        decide (b.vestingShares.amount - v = 0)) = true := by
      simpa only [Bool.or_eq_true, decide_eq_true_eq] using hdone
    refine ⟨?_, ?_⟩
    · dsimp only
      rw [if_pos hdone']
    · dsimp only
      rw [if_pos hdone']
  · rename_i hdone
    have hdone' : ¬(decide (b.toWithdraw ≤ b.withdrawn + v) ||
        decide (b.vestingShares.amount - v = 0)) = true := by
      simpa only [Bool.or_eq_true, decide_eq_true_eq] using hdone
    refine ⟨?_, ?_⟩
    · dsimp only
      rw [if_neg hdone']
    · dsimp only
      rw [if_neg hdone']

theorem spares_processVestingWithdrawal {acc : Nat} {w : Unit} (hc : c ≠ acc)
    (h : (processVestingWithdrawal acc : Act n Unit).run d = .ok w d') :
    Spares c d.store d'.store := by
  obtain ⟨_, _, _, _, e, hf, _, _, hbefore, _, hafter, _⟩ := withdrawal_written h
  have hwrite : Spares c e (e.write Kind.account acc _ hf) := by
    unfold Spares
    rw [Store.get_write_self, if_neg hc]
    exact refl_of (Spares c) e
  exact trans_of (Spares c) (trans_of (Spares c) (hbefore c) hwrite) (hafter c)

end

/-! ## 3. The schedule -/

/-- `k` whole parts are paid of a withdrawal that is not at its end. -/
structure Account.Leaving (k : Nat) (a : Account) : Prop where
  rate : 0 < a.vestingWithdrawRate.amount
  withdrawn : a.withdrawn = k * a.vestingWithdrawRate.amount
  unpaid : a.withdrawn < a.toWithdraw
  covered : a.toWithdraw - a.withdrawn ≤ a.vestingShares.amount

theorem Account.Leaving.noLess {k : Nat} {a b : Account} (ha : a.Leaving k) (h : a.NoLess b) :
    b.Leaving k := by
  refine ⟨?_, ?_, ?_, ?_⟩
  · rw [h.rate]
    exact ha.rate
  · rw [h.rate, h.withdrawn]
    exact ha.withdrawn
  · rw [h.withdrawn, h.toWithdraw]
    exact ha.unpaid
  · rw [h.withdrawn, h.toWithdraw]
    exact le_trans ha.covered h.shares

/-- A whole part is due as long as as much is left, and then the remainder. -/
theorem Account.Leaving.due {k : Nat} {a : Account} {v : Int} (h : a.Leaving k)
    (hdue : withdrawalDue a = .ok v) :
    (a.vestingWithdrawRate.amount ≤ a.toWithdraw - a.withdrawn ∧ v = a.vestingWithdrawRate.amount) ∨
    (a.toWithdraw - a.withdrawn < a.vestingWithdrawRate.amount ∧
      v = a.toWithdraw % a.vestingWithdrawRate.amount ∧ v = a.toWithdraw - a.withdrawn) := by
  have hrate := h.rate
  have hcovered := h.covered
  obtain ⟨left, hleft, hdue⟩ := except_bind_ok.mp hdue
  obtain ⟨rfl, _⟩ := safe_ok.mp hleft
  split at hdue
  · rename_i hlt
    refine .inr ⟨hlt, ?_⟩
    obtain ⟨y, hy, hdue⟩ := except_bind_ok.mp hdue
    have hpos : 0 ≤ a.toWithdraw := by
      have hpaid : 0 ≤ a.withdrawn := by
        rw [h.withdrawn]
        exact mul_nonneg (Int.natCast_nonneg _) hrate.le
      have := h.unpaid
      omega
    unfold safeMod at hy
    rw [if_neg (ne_of_gt hrate)] at hy
    obtain rfl := Except.ok.inj hy
    have hrest : a.toWithdraw.tmod a.vestingWithdrawRate.amount = a.toWithdraw - a.withdrawn := by
      rw [Int.tmod_eq_emod_of_nonneg hpos, h.withdrawn]
      refine rest_eq_emod ?_ ?_
      · rw [← h.withdrawn]
        exact h.unpaid
      · rw [← h.withdrawn]
        exact hlt
    have hmod : a.toWithdraw.tmod a.vestingWithdrawRate.amount =
        a.toWithdraw % a.vestingWithdrawRate.amount := Int.tmod_eq_emod_of_nonneg hpos
    cases hdue
    rw [← hmod, hrest, min_eq_right hcovered]
    exact ⟨rfl, rfl⟩
  · rename_i hge
    cases hdue
    refine .inl ⟨not_lt.mp hge, min_eq_right ?_⟩
    omega

section

variable {d d' : Database chainSchema}

/-- **One payment**: the withdrawal is at its end, or one more whole part is paid. -/
theorem Account.Leaving.turn {acc k : Nat} {a : Account} {w : Unit} (hl : a.Leaving k)
    (ha : d.store.get Kind.account acc = some a)
    (h : (processVestingWithdrawal acc : Act n Unit).run d = .ok w d') :
    ∃ v b, withdrawalDue a = .ok v ∧ d'.store.get Kind.account acc = some b ∧ b.name = a.name ∧
      ((List.replicate k a.vestingWithdrawRate.amount ++ [v] =
          instalments a.toWithdraw a.vestingWithdrawRate.amount ∧ b.AtRest) ∨
        (v = a.vestingWithdrawRate.amount ∧ b.Leaving (k + 1) ∧
          b.vestingWithdrawRate = a.vestingWithdrawRate ∧ b.toWithdraw = a.toWithdraw ∧
          b.nextVestingWithdrawal =
            u32 (a.nextVestingWithdrawal + vestingWithdrawIntervalSeconds))) := by
  obtain ⟨a', b, b', v, e, hf, ha', hdue, hbefore, hb, hafter, hname, hshares, hwithdrawn, htotal,
    hplan⟩ := withdrawal_written h
  obtain rfl := Option.some.inj (ha'.symm.trans ha)
  obtain ⟨b₀, hb₀, hless⟩ := (hbefore acc).1 a' ha
  obtain rfl := Option.some.inj (hb₀.symm.trans hb)
  obtain ⟨c, hc, hless'⟩ := (hafter acc).1 b' (by rw [Store.get_write_self, if_pos rfl])
  have hlb := hl.noLess hless
  have hrate := hl.rate
  have hunpaid := hl.unpaid
  have hcovered := hlb.covered
  have hk := hl.withdrawn
  rw [hless.toWithdraw, hless.withdrawn] at hplan hcovered
  refine ⟨v, c, hdue, hc, (hless'.name.trans hname).trans hless.name, ?_⟩
  rcases hl.due hdue with ⟨hge, hv⟩ | ⟨hlt, hmod, hv⟩
  · by_cases hlast : a'.vestingWithdrawRate.amount = a'.toWithdraw - a'.withdrawn
    · -- the last part is a whole one
      rw [if_pos (.inl (by omega))] at hplan
      refine .inl ⟨?_, hplan.noLess hless'⟩
      rw [hv, ← List.replicate_succ']
      refine instalments_of_even hrate ?_
      push_cast
      rw [add_mul, one_mul, ← hk]
      omega
    · rw [if_neg (by omega)] at hplan
      refine .inr ⟨hv, Account.Leaving.noLess ⟨?_, ?_, ?_, ?_⟩ hless', ?_, ?_, ?_⟩
      · rw [hplan.1, hless.rate]
        exact hrate
      · rw [hwithdrawn, hplan.1, hless.rate, hless.withdrawn, hk, hv]
        push_cast
        rw [add_mul, one_mul]
      · rw [hwithdrawn, htotal, hless.toWithdraw, hless.withdrawn]
        omega
      · rw [hwithdrawn, htotal, hshares, hless.toWithdraw, hless.withdrawn]
        omega
      · rw [hless'.rate, hplan.1, hless.rate]
      · rw [hless'.toWithdraw, htotal, hless.toWithdraw]
      · rw [hless'.next, hplan.2, hless.next]
  · rw [if_pos (.inl (by omega))] at hplan
    refine .inl ⟨?_, hplan.noLess hless'⟩
    rw [hmod]
    refine instalments_of_rest hrate ?_ ?_
    · rw [← hk]
      exact hunpaid
    · rw [← hk]
      exact hlt

/-- What is paid in a week of `v` shares. -/
def paymentRate (v : Int) : Int := max 1 (v / vestingWithdrawIntervals)

theorem paymentRate_pos (v : Int) : 0 < paymentRate v := lt_of_lt_of_le Int.one_pos (le_max_left _ _)

theorem withdrawRate_eq {v : Int} {rate : Asset} (hv : 0 < v) (h : withdrawRate v = .ok rate) :
    rate.amount = paymentRate v := by
  obtain ⟨x, hx, h⟩ := except_bind_ok.mp h
  cases h
  unfold safeDiv vestingWithdrawIntervals at hx
  rw [if_neg (by decide)] at hx
  obtain ⟨rfl, _⟩ := safe_ok.mp hx
  show (if Int.tdiv v ((13 : Nat) : Int) = 0 then 1 else Int.tdiv v ((13 : Nat) : Int)) = paymentRate v
  unfold paymentRate vestingWithdrawIntervals
  rw [Int.tdiv_eq_ediv_of_nonneg hv.le]
  push_cast
  split <;> omega

theorem asset_ge_amount {a b : Asset} (h : a.ge b = .ok true) : b.amount ≤ a.amount := by
  obtain ⟨r, hr, h⟩ := except_bind_ok.mp h
  obtain ⟨_, _, hr⟩ := except_bind_ok.mp hr
  obtain rfl := Except.ok.inj hr
  have hnot := Except.ok.inj h
  simpa using hnot

/-- A check that may be left out. -/
theorem run_of_ite_require {c p : Prop} [Decidable c] [Decidable p] {msg : String}
    {f : Unit → Act n Unit} {w : Unit}
    (h : (if c then (Action.require p msg : Act n Unit) >>= f else f ()).run d = .ok w d') :
    (f ()).run d = .ok w d' := by
  split at h
  · exact (Action.bind_require_ok.mp h).2
  · exact h

/-- The plan that withdraw_vesting writes, when the account has the shares. -/
theorem plan_written {acc now : Nat} {a : Account} {shares : Asset} {w : Unit}
    (ha : d.store.get Kind.account acc = some a)
    (hle : shares.amount ≤ a.vestingShares.amount)
    (h : (if shares.amount ≤ 0 then do
        if shares.amount = 0 then
          Action.require (a.vestingWithdrawRate.amount ≠ 0)
            "this operation would not change the vesting withdraw rate"
        Action.modify (S := chainSchema) Kind.account acc fun a : Account =>
          { a with
            vestingWithdrawRate := Asset.vests 0
            nextVestingWithdrawal := timeMaximum
            toWithdraw := 0
            withdrawn := 0 }
      else
        Action.modifyWith (S := chainSchema) Kind.account acc
          (fun a : Account => do
            let rate ← withdrawRate shares.amount
            check (a.vestingWithdrawRate ≠ rate)
              "this operation would not change the vesting withdraw rate"
            pure rate)
          fun (a : Account) rate =>
            { a with
              vestingWithdrawRate := rate
              nextVestingWithdrawal := u32 (now + vestingWithdrawIntervalSeconds)
              toWithdraw := shares.amount
              withdrawn := 0 } : Act n Unit).run d = .ok w d') :
    ∃ (b : Account) (hf : d.store.free Kind.account acc b = true),
      d'.store = d.store.write Kind.account acc b hf ∧ b.name = a.name ∧
      if 0 < shares.amount then
        b.Leaving 0 ∧ b.vestingWithdrawRate.amount = paymentRate shares.amount ∧
        b.toWithdraw = shares.amount ∧
        b.nextVestingWithdrawal = u32 (now + vestingWithdrawIntervalSeconds)
      else b.AtRest := by
  split at h
  · rename_i hnot
    obtain ⟨a', ha', hf, e⟩ := modify_store (run_of_ite_require h)
    obtain rfl := Option.some.inj (ha'.symm.trans ha)
    refine ⟨_, hf, e, rfl, ?_⟩
    rw [if_neg (by omega)]
    exact ⟨rfl, rfl⟩
  · rename_i hpos
    obtain ⟨a', rate, ha', hx, hf, e⟩ := modifyWith_store h
    obtain rfl := Option.some.inj (ha'.symm.trans ha)
    obtain ⟨rate', hrate, hx⟩ := except_bind_ok.mp hx
    obtain ⟨_, hx⟩ := check_bind_ok.mp hx
    obtain rfl := Except.ok.inj hx
    have hrate' := withdrawRate_eq (by omega) hrate
    refine ⟨_, hf, e, rfl, ?_⟩
    rw [if_pos (by omega)]
    refine ⟨⟨?_, ?_, ?_, ?_⟩, hrate', rfl, rfl⟩
    · show 0 < rate'.amount
      rw [hrate']
      exact paymentRate_pos _
    · show (0 : Int) = (0 : Nat) * rate'.amount
      rw [Nat.cast_zero, zero_mul]
    · show 0 < shares.amount
      omega
    · show shares.amount - 0 ≤ a'.vestingShares.amount
      omega

/-- **What an accepted withdraw_vesting writes to the account.** -/
theorem withdrawVesting_written {clock : Nat} {account : String} {shares : Asset} {w : Unit}
    (h : (withdrawVesting clock account shares : Act n Unit).run d = .ok w d') :
    ∃ (acc : Nat) (a b : Account) (hf : d.store.free Kind.account acc b = true),
      d.store.get Kind.account acc = some a ∧ a.name = account ∧
      d'.store = d.store.write Kind.account acc b hf ∧ b.name = a.name ∧
      if 0 < shares.amount then
        b.Leaving 0 ∧ b.vestingWithdrawRate.amount = paymentRate shares.amount ∧
        b.toWithdraw = shares.amount ∧
        b.nextVestingWithdrawal = u32 (d.store.props.time + vestingWithdrawIntervalSeconds)
      else b.AtRest := by
  obtain ⟨acc, a₀, ha₀, hname, h⟩ := bind_getAccountId_ok h
  obtain ⟨p, hp, h⟩ := bind_headBlockTime_ok h
  have h := run_of_ite_require h
  obtain ⟨a, ha, h⟩ := bind_getAccount_ok.mp h
  obtain ⟨_, _, h⟩ := Action.bind_lift_ok.mp h
  obtain ⟨_, h⟩ := Action.bind_require_ok.mp h
  obtain ⟨ge, hge, h⟩ := Action.bind_lift_ok.mp h
  obtain ⟨hyes, h⟩ := Action.bind_require_ok.mp h
  rw [hyes] at hge
  have hle := asset_ge_amount hge
  obtain rfl := Option.some.inj (ha₀.symm.trans ha)
  rw [Store.props_of_get hp]
  obtain ⟨b, hf, hplan⟩ : ∃ (b : Account) (hf : d.store.free Kind.account acc b = true),
      d'.store = d.store.write Kind.account acc b hf ∧ b.name = a₀.name ∧
      if 0 < shares.amount then
        b.Leaving 0 ∧ b.vestingWithdrawRate.amount = paymentRate shares.amount ∧
        b.toWithdraw = shares.amount ∧
        b.nextVestingWithdrawal = u32 (p.time + vestingWithdrawIntervalSeconds)
      else b.AtRest := by
    dsimp only at h
    split at h
    · exact plan_written ha hle h
    · obtain ⟨_, _, h⟩ := bind_getDgp_ok.mp h
      obtain ⟨_, _, h⟩ := Action.bind_get_ok.mp h
      obtain ⟨_, _, h⟩ := Action.bind_lift_ok.mp h
      obtain ⟨_, _, h⟩ := Action.bind_lift_ok.mp h
      obtain ⟨_, h⟩ := Action.bind_require_ok.mp h
      exact plan_written ha hle h
  exact ⟨acc, a₀, b, hf, ha, hname, hplan⟩

end

/-- The weekly payments of a withdrawal of `v` shares. -/
def weeklyPayments (v : Int) : List Int := instalments v (paymentRate v)

/-- `k` whole parts of `v` shares are paid since the time `start`, or all of it. -/
def OnSchedule (v : Int) (start : Nat) (ps : List Int) (a : Account) : Prop :=
  (∃ k, ps = List.replicate k (paymentRate v) ∧ a.Leaving k ∧
    a.vestingWithdrawRate.amount = paymentRate v ∧ a.toWithdraw = v ∧
    a.nextVestingWithdrawal = u32 (start + (k + 1) * vestingWithdrawIntervalSeconds)) ∨
  ps = weeklyPayments v ∧ a.AtRest

theorem OnSchedule.noLess {v : Int} {start : Nat} {ps : List Int} {a b : Account}
    (h : OnSchedule v start ps a) (hab : a.NoLess b) : OnSchedule v start ps b := by
  rcases h with ⟨k, hps, hk, hrate, htotal, hnext⟩ | ⟨hps, hrest⟩
  · exact .inl ⟨k, hps, hk.noLess hab, by rw [hab.rate]; exact hrate, hab.toWithdraw.trans htotal,
      hab.next.trans hnext⟩
  · exact .inr ⟨hps, hrest.noLess hab⟩

/-! ## 4. Deeds -/

/-- No deposit turns into a debt of shares, and the clock has not come to its end. -/
def Regular (s : Store chainSchema) : Deed → Prop
  | .deposit _ muse => ∀ shares, muse.mul s.props.getVestingSharePrice = .ok shares →
      0 ≤ shares.amount
  | .withdrawal _ => s.props.time < timeMaximum
  | _ => True

section

variable {s t : Store chainSchema}

/-- No withdrawal is scheduled, or some whole parts of it are paid. -/
def Planned (s : Store chainSchema) : Prop :=
  ∀ c (a : Account), s.get Kind.account c = some a → a.AtRest ∨ ∃ k, a.Leaving k

theorem Planned.of_spares {c : Nat} (hs : Planned s) (h : Spares c s t) {b : Account}
    (hb : t.get Kind.account c = some b) : b.AtRest ∨ ∃ k, b.Leaving k := by
  cases ha : s.get Kind.account c with
  | none => exact .inl (h.2 b ha hb)
  | some a =>
    obtain ⟨b', hb', hless⟩ := h.1 a ha
    obtain rfl := Option.some.inj (hb'.symm.trans hb)
    rcases hs c a ha with hrest | ⟨k, hk⟩
    · exact .inl (hrest.noLess hless)
    · exact .inr ⟨k, hk.noLess hless⟩

/-- An account that is due has a withdrawal under way. -/
theorem not_atRest_of_due {d : Database chainSchema} {a : Account} {p : DynamicGlobalProperty}
    (hp : d.store.get Kind.dynamicGlobalProperty 0 = some p) (hdue : a.nextVestingWithdrawal ≤ p.time)
    (htime : d.store.props.time < timeMaximum) : ¬a.AtRest := by
  intro hrest
  rw [Store.props_of_get hp] at htime
  have hnext := hrest.next
  omega

variable [Fc]

/-- **What a deed leaves to an account that is not the one it is about.** -/
theorem Deed.Does.spares {e : Deed} (h : e.Does s t) (hok : Regular s e) {c : Nat}
    (hw : e ≠ .withdrawal c)
    (ho : ∀ account shares, e = .operation (.withdrawVesting account shares) →
      ∀ a : Account, s.get Kind.account c = some a → a.name ≠ account) : Spares c s t := by
  have hchanges := h.changes
  cases h with
  | @operation d d' u op clock n push hv ha hdep hr =>
    cases op with
    | withdrawVesting account shares =>
      obtain ⟨acc, a, b, hf, hacc, hname, e, _⟩ := withdrawVesting_written hr
      have hc : c ≠ acc := by
        rintro rfl
        exact ho account shares rfl a hacc hname
      rw [e]
      unfold Spares
      rw [Store.get_write_self, if_neg hc]
      exact refl_of (Spares c) d.store
    | proposalUpdate o => cases ha
    | transferToVesting sender receiver amount => cases hdep
    | accountCreate o => cases hdep
    | challengeAuthority challenger challenged requireOwner => cases hdep
    | contentUpdate o => cases hdep
    | _ => exact spares_of_unwithdrawn hchanges (by simp +decide [Deed.parts, Operation.parts])
  | @routine d d' u r n hr =>
    cases r with
    | pay => exact absurd rfl hr
    | _ => exact spares_of_unwithdrawn hchanges (by simp +decide [Deed.parts, Routine.parts])
  | deposit n hr =>
    obtain ⟨hmul, hgiven⟩ := vestsOf_createVesting hr
    refine spares_of_changes hchanges (by simp +decide [Deed.parts]) (by simp +decide [Deed.parts])
      (by simp +decide [Deed.parts]) fun a b ha hb => ?_
    have hshares := hok _ hmul
    have hc := hgiven c
    rw [vestsOf_some ha, vestsOf_some hb] at hc
    split at hc <;> omega
  | withdrawal n _ _ _ hr =>
    exact spares_processVestingWithdrawal (fun e => hw (by rw [e])) hr
  | beside hx hr => exact spares_of_unwithdrawn hchanges (by decide)

/-- **Every deed keeps the schedules in order.** -/
theorem Deed.Does.planned {e : Deed} (h : e.Does s t) (hok : Regular s e) (hs : Planned s) :
    Planned t := by
  intro c b hb
  by_cases hw : e = .withdrawal c
  · subst hw
    cases h with
    | withdrawal n ha hp hdue hr =>
      rcases hs c _ ha with hrest | ⟨k, hk⟩
      · exact absurd hrest (not_atRest_of_due hp hdue hok)
      · obtain ⟨v, b', _, hb', _, hend | hmore⟩ := hk.turn ha hr
        · obtain rfl := Option.some.inj (hb'.symm.trans hb)
          exact .inl hend.2
        · obtain rfl := Option.some.inj (hb'.symm.trans hb)
          exact .inr ⟨k + 1, hmore.2.1⟩
  · by_cases ho : ∀ account shares, e = .operation (.withdrawVesting account shares) →
        ∀ a : Account, s.get Kind.account c = some a → a.name ≠ account
    · exact hs.of_spares (h.spares hok hw ho) hb
    · simp only [not_forall, not_not] at ho
      obtain ⟨account, shares, rfl, a, ha, hname⟩ := ho
      cases h with
      | operation clock n push hv _ _ hr =>
        obtain ⟨acc, a', b', hf, hacc, hname', e, _, hplan⟩ := withdrawVesting_written hr
        obtain rfl : acc = c := account_unique hacc ha (hname'.trans hname.symm)
        rw [e, Store.get_write_self, if_pos rfl] at hb
        obtain rfl := Option.some.inj hb
        split at hplan
        · exact .inr ⟨0, hplan.1⟩
        · exact .inl hplan

theorem Worked.planned {g : GenesisState} (h : Worked Regular g s) : Planned s := by
  refine h.invariant (fun hg c b hb => ?_) fun hok hdoes => hdoes.planned hok
  refine Planned.of_spares (s := emptyStore) (fun _ _ ha => ?_) ?_ hb
  · cases ha
  · refine spares_of_changes ((made_initGenesis g).step hg) (by decide) (by decide) (by decide)
      fun a _ ha _ => ?_
    cases ha

/-! ## 5. Runs -/

/-- From `s` to `t` the account `acc`, which is called `account`, is paid `ps`, and it does not
withdraw anew. -/
inductive Payments (acc : Nat) (account : String) (s : Store chainSchema) :
    List Int → Store chainSchema → Prop
  | start : Payments acc account s [] s
  | other {t u : Store chainSchema} {ps : List Int} {e : Deed} : Payments acc account s ps t →
      Regular t e → e.Does t u → e ≠ .withdrawal acc →
      (∀ shares, e ≠ .operation (.withdrawVesting account shares)) → Payments acc account s ps u
  | paid {t u : Store chainSchema} {ps : List Int} {a : Account} {v : Int} :
      Payments acc account s ps t → Regular t (.withdrawal acc) →
      (Deed.withdrawal acc).Does t u → t.get Kind.account acc = some a → withdrawalDue a = .ok v →
      Payments acc account s (ps ++ [v]) u

/-- **Payments are made on schedule.** -/
theorem Payments.onSchedule {acc : Nat} {account : String} {v : Int} {start : Nat} {ps : List Int}
    (h : Payments acc account s ps t) {a : Account} (ha : s.get Kind.account acc = some a)
    (hname : a.name = account) (hstart : OnSchedule v start [] a) :
    ∃ b : Account, t.get Kind.account acc = some b ∧ b.name = account ∧
      OnSchedule v start ps b := by
  induction h with
  | start => exact ⟨a, ha, hname, hstart⟩
  | other _ hok hdoes hw ho ih =>
    obtain ⟨b, hb, hbname, hsched⟩ := ih
    obtain ⟨c, hc, hless⟩ := (hdoes.spares hok hw (c := acc) fun account' shares e a' ha' => by
      obtain rfl := Option.some.inj (ha'.symm.trans hb)
      rintro rfl
      exact ho shares (hbname ▸ e)).1 b hb
    exact ⟨c, hc, hless.name.trans hbname, hsched.noLess hless⟩
  | @paid t u ps a' v' _ hok hdoes ha' hv' ih =>
    obtain ⟨b, hb, hbname, hsched⟩ := ih
    obtain rfl := Option.some.inj (ha'.symm.trans hb)
    cases hdoes with
    | withdrawal n hb' hp hdue hr =>
      obtain rfl := Option.some.inj (hb'.symm.trans hb)
      rcases hsched with ⟨k, hps, hk, hrate, htotal, hnext⟩ | ⟨_, hrest⟩
      · obtain ⟨v'', c, hv'', hc, hcname, hturn⟩ := hk.turn hb hr
        obtain rfl := Except.ok.inj (hv'.symm.trans hv'')
        refine ⟨c, hc, hcname.trans hbname, ?_⟩
        rw [hrate, htotal] at hturn
        rcases hturn with ⟨hall, hrest⟩ | ⟨hpart, hk', hrate', htotal', hnext'⟩
        · exact .inr ⟨by rw [hps]; exact hall, hrest⟩
        · refine .inl ⟨k + 1, ?_, hk', by rw [hrate', hrate], htotal', ?_⟩
          · rw [hps, hpart, ← List.replicate_succ']
          · rw [hnext', hnext]
            unfold u32
            rw [Nat.mod_add_mod]
            congr 1
            ring
      · exact absurd hrest (not_atRest_of_due hp hdue hok)

/-! ### Who is due is paid -/

theorem Payments.trans {acc : Nat} {account : String} {u : Store chainSchema} {ps qs : List Int}
    (h : Payments acc account s ps t) (h' : Payments acc account t qs u) :
    Payments acc account s (ps ++ qs) u := by
  induction h' with
  | start => rwa [List.append_nil]
  | other _ hok hdoes hw ho ih => exact ih.other hok hdoes hw ho
  | paid _ hok hdoes ha hv ih =>
    rw [← List.append_assoc]
    exact ih.paid hok hdoes ha hv

omit [Fc] in
theorem keyLt_iff {a b : Nat × Nat} :
    keyLt a b = true ↔ a.1 < b.1 ∨ (a.1 = b.1 ∧ a.2 < b.2) := by
  unfold keyLt
  simp

omit [Fc] in
/-- The first account of a list is not behind any other of it. -/
theorem first_withdrawal {l : List (Nat × Account)} {p : Nat × Account → Bool} {r : Option Nat}
    (h : ((l.filter p).insertionSort fun a b : Nat × Account =>
      !keyLt (withdrawalKey b) (withdrawalKey a)).head?.map (·.1) = r) {x : Nat × Account}
    (hx : x ∈ l) (hp : p x = true) :
    ∃ y a, r = some y ∧ (y, a) ∈ l ∧ p (y, a) = true ∧
      keyLt (withdrawalKey x) (withdrawalKey (y, a)) = false := by
  have hupto : ∀ a b : Nat × Account, (!keyLt (withdrawalKey b) (withdrawalKey a)) = true ↔
      ¬((withdrawalKey b).1 < (withdrawalKey a).1 ∨
        ((withdrawalKey b).1 = (withdrawalKey a).1 ∧ (withdrawalKey b).2 < (withdrawalKey a).2)) := by
    intro a b
    rw [← keyLt_iff]
    simp
  have htotal : Std.Total fun a b : Nat × Account =>
      (!keyLt (withdrawalKey b) (withdrawalKey a)) = true := ⟨fun a b => by
    rw [hupto, hupto]
    omega⟩
  have htrans : IsTrans (Nat × Account) fun a b =>
      (!keyLt (withdrawalKey b) (withdrawalKey a)) = true := ⟨fun a b c hab hbc => by
    rw [hupto] at *
    omega⟩
  obtain ⟨⟨y, a⟩, hhead, hfound, hle⟩ := Ranks.exists_head_insertionSort
    (fun a b : Nat × Account => (!keyLt (withdrawalKey b) (withdrawalKey a)) = true)
    (List.mem_filter.mpr ⟨hx, hp⟩)
  obtain ⟨hmem, hpy⟩ := List.mem_filter.mp hfound
  refine ⟨y, a, ?_, hmem, hpy, (Bool.not_eq_true' _).mp hle⟩
  rw [← h, hhead]
  rfl

omit [Fc] in
/-- **The iterator finds the first account of the order that is behind a place.** -/
theorem withdrawalAfter_ok {place : Option (Nat × Nat)} {r : Option Nat} {d d' : Database chainSchema}
    (h : (withdrawalAfter place : Act n (Option Nat)).run d = .ok r d') {c : Nat} {b : Account}
    (hb : d.store.get Kind.account c = some b)
    (hplace : ∀ k, place = some k → keyLt k (withdrawalKey (c, b)) = true) :
    ∃ x a, r = some x ∧ d.store.get Kind.account x = some a ∧
      (∀ k, place = some k → keyLt k (withdrawalKey (x, a)) = true) ∧
      keyLt (withdrawalKey (c, b)) (withdrawalKey (x, a)) = false := by
  obtain ⟨hr, _⟩ := Outcome.ok.inj h
  cases place with
  | none =>
    obtain ⟨x, a, hx, hmem, _, hle⟩ := first_withdrawal hr (FMap.mem_rows.mpr hb) rfl
    exact ⟨x, a, hx, FMap.mem_rows.mp hmem, (fun _ hk => nomatch hk), hle⟩
  | some k =>
    obtain ⟨x, a, hx, hmem, hbehind, hle⟩ := first_withdrawal hr (FMap.mem_rows.mpr hb)
      (hplace k rfl)
    exact ⟨x, a, hx, FMap.mem_rows.mp hmem, fun _ hk => Option.some.inj hk ▸ hbehind, hle⟩

omit [Fc] in
/-- A withdrawal leaves the names and the time. -/
theorem name_processVestingWithdrawal {acc : Nat} {w : Unit} {a : Account}
    {d d' : Database chainSchema} (ha : d.store.get Kind.account acc = some a)
    (h : (processVestingWithdrawal acc : Act n Unit).run d = .ok w d') :
    (∃ b : Account, d'.store.get Kind.account acc = some b ∧ b.name = a.name) ∧
      d'.store.props.time = d.store.props.time := by
  obtain ⟨a', b, b', _, e, hf, ha', _, hbefore, hb, hafter, hname, _⟩ := withdrawal_written h
  obtain rfl := Option.some.inj (ha'.symm.trans ha)
  obtain ⟨b₀, hb₀, hless⟩ := (hbefore acc).1 a' ha
  obtain rfl := Option.some.inj (hb₀.symm.trans hb)
  obtain ⟨c, hc, hless'⟩ := (hafter acc).1 b' (by rw [Store.get_write_self, if_pos rfl])
  refine ⟨⟨c, hc, (hless'.name.trans hname).trans hless.name⟩, ?_⟩
  exact time_of_changes ((composed_processVestingWithdrawal acc (List.Subset.refl _)).steps.step h)
    (by decide) (by decide) (by decide)

/-- The loop pays the account when the iterator is not behind it and it is due. -/
theorem payments_withdrawEach {fuel : Nat} {next : Option Nat} {acc : Nat} {a : Account} {w : Unit}
    {d d' : Database chainSchema} (h : (withdrawEach fuel next : Act n Unit).run d = .ok w d')
    (htime : d.store.props.time < timeMaximum) (ha : d.store.get Kind.account acc = some a) :
    ∃ ps, Payments acc a.name d.store ps d'.store ∧
      ((∃ x b, next = some x ∧ d.store.get Kind.account x = some b ∧
          keyLt (withdrawalKey (acc, a)) (withdrawalKey (x, b)) = false) →
        a.nextVestingWithdrawal ≤ d.store.props.time → ps ≠ []) := by
  induction fuel generalizing d next a with
  | zero =>
    cases next with
    | none =>
      cases h
      exact ⟨[], .start, fun ⟨_, _, hx, _⟩ => nomatch hx⟩
    | some x => cases h
  | succ fuel ih =>
    cases next with
    | none =>
      cases h
      exact ⟨[], .start, fun ⟨_, _, hx, _⟩ => nomatch hx⟩
    | some x =>
      obtain ⟨p, hp, h⟩ := bind_headBlockTime_ok h
      obtain ⟨b, hb, h⟩ := bind_getAccount_ok.mp h
      have hnow := Store.props_of_get hp
      split at h
      · rename_i hdue
        obtain ⟨next', d₀, hnext, hrest⟩ := Action.bind_ok.mp h
        obtain rfl := ((looks_withdrawalAfter _).of_ok hnext).symm
        obtain ⟨_, d₁, h1, hloop⟩ := Action.bind_ok.mp hrest
        have hdoes : (Deed.withdrawal x).Does d.store d₁.store := .withdrawal n hb hp hdue h1
        obtain ⟨_, htime₁⟩ := name_processVestingWithdrawal hb h1
        have hlater : d₁.store.props.time < timeMaximum := htime₁ ▸ htime
        by_cases hx : x = acc
        · -- its own turn
          subst hx
          obtain rfl := Option.some.inj (hb.symm.trans ha)
          obtain ⟨_, _, _, v, _, _, ha', hv, _⟩ := withdrawal_written h1
          obtain rfl := Option.some.inj (ha'.symm.trans ha)
          obtain ⟨⟨c, hc, hname⟩, _⟩ := name_processVestingWithdrawal ha h1
          obtain ⟨ps, hps, _⟩ := ih hloop hlater hc
          rw [hname] at hps
          refine ⟨[] ++ [v] ++ ps, (Payments.start.paid htime hdoes ha hv).trans hps, fun _ _ => ?_⟩
          simp
        · obtain ⟨c, hc, hless⟩ := (spares_processVestingWithdrawal (Ne.symm hx) h1).1 a ha
          obtain ⟨ps, hps, hpaid⟩ := ih hloop hlater hc
          rw [hless.name] at hps
          have hother : Payments acc a.name d.store [] d₁.store :=
            Payments.start.other (e := .withdrawal x) htime hdoes (fun e => hx (Deed.withdrawal.inj e))
              fun _ e => nomatch e
          refine ⟨[] ++ ps, hother.trans hps, fun ⟨x', b', hx', hb', hkey⟩ hacc => ?_⟩
          obtain rfl := Option.some.inj hx'
          obtain rfl := Option.some.inj (hb'.symm.trans hb)
          -- the next one is not behind the account either
          have hbehind : keyLt (withdrawalKey (x, b')) (withdrawalKey (acc, a)) = true := by
            rw [← Bool.not_eq_true, keyLt_iff] at hkey
            rw [keyLt_iff]
            unfold withdrawalKey at hkey ⊢
            dsimp only at hkey ⊢
            omega
          obtain ⟨y, b₁, hy, hb₁, hafter, hupto⟩ := withdrawalAfter_ok hnext ha fun k hk => by
            obtain rfl := Option.some.inj hk
            exact hbehind
          have hne : y ≠ x := by
            rintro rfl
            obtain rfl := Option.some.inj (hb₁.symm.trans hb)
            have hself := keyLt_iff.mp (hafter _ rfl)
            omega
          obtain ⟨b₂, hb₂, hless'⟩ := (spares_processVestingWithdrawal hne h1).1 b₁ hb₁
          rw [List.nil_append]
          refine hpaid ⟨y, b₂, hy, hb₂, ?_⟩ (by rw [hless.next, htime₁]; exact hacc)
          unfold withdrawalKey at hupto ⊢
          dsimp only at hupto ⊢
          rw [hless.next, hless'.next]
          exact hupto
      · rename_i hdue
        cases h
        refine ⟨[], .start, fun ⟨x', b', hx', hb', hkey⟩ hacc => ?_⟩
        obtain rfl := Option.some.inj hx'
        obtain rfl := Option.some.inj (hb'.symm.trans hb)
        rw [← Bool.not_eq_true, keyLt_iff] at hkey
        unfold withdrawalKey at hkey
        dsimp only at hkey
        rw [hnow] at hacc
        omega

/-- **Each call of `process_vesting_withdrawals` pays every account that is due.** -/
theorem payments_of_call {acc : Nat} {a : Account} {w : Unit} {d d' : Database chainSchema}
    (h : (processVestingWithdrawals : Act n Unit).run d = .ok w d')
    (htime : d.store.props.time < timeMaximum) (ha : d.store.get Kind.account acc = some a) :
    ∃ ps, Payments acc a.name d.store ps d'.store ∧
      (a.nextVestingWithdrawal ≤ d.store.props.time → ps ≠ []) := by
  obtain ⟨p, hp, h⟩ := bind_headBlockTime_ok h
  obtain ⟨first, d₁, hfirst, h⟩ := Action.bind_ok.mp h
  obtain rfl := ((looks_withdrawalAfter _).of_ok hfirst).symm
  have h := Action.bind_read_ok.mp h
  obtain ⟨ps, hps, hpaid⟩ := payments_withdrawEach h htime ha
  refine ⟨ps, hps, fun hdue => hpaid ?_ hdue⟩
  obtain ⟨x, b, hx, hb, _, hupto⟩ := withdrawalAfter_ok hfirst ha fun _ hk => nomatch hk
  exact ⟨x, b, hx, hb, hupto⟩

/-- From `s` to `t`, `process_vesting_withdrawals` is called, and in `k` of the calls the account
`acc` is due. It does not withdraw anew. -/
inductive Rounds (acc : Nat) (account : String) (s : Store chainSchema) :
    Nat → Store chainSchema → Prop
  | start : Rounds acc account s 0 s
  | other {t u : Store chainSchema} {k : Nat} {e : Deed} : Rounds acc account s k t →
      Regular t e → e.Does t u → e ≠ .withdrawal acc →
      (∀ shares, e ≠ .operation (.withdrawVesting account shares)) → Rounds acc account s k u
  | call {d d' : Database chainSchema} {k n : Nat} {a : Account} {w : Unit} :
      Rounds acc account s k d.store → d.store.props.time < timeMaximum →
      (processVestingWithdrawals : Act n Unit).run d = .ok w d' →
      d.store.get Kind.account acc = some a →
      Rounds acc account s (if a.nextVestingWithdrawal ≤ d.store.props.time then k + 1 else k) d'.store

/-- **In each round in which the account is due it is paid**, once or more often. -/
theorem Rounds.payments {acc k : Nat} {account : String} {v : Int} {start : Nat}
    (h : Rounds acc account s k t) {a : Account} (ha : s.get Kind.account acc = some a)
    (hname : a.name = account) (hstart : OnSchedule v start [] a) :
    ∃ ps, Payments acc account s ps t ∧ k ≤ ps.length := by
  induction h with
  | start => exact ⟨[], .start, le_rfl⟩
  | other _ hok hdoes hw ho ih =>
    obtain ⟨ps, hps, hle⟩ := ih
    exact ⟨ps, hps.other hok hdoes hw ho, hle⟩
  | call _ htime hr hb ih =>
    obtain ⟨ps, hps, hle⟩ := ih
    obtain ⟨b', hb', hbname, _⟩ := hps.onSchedule ha hname hstart
    obtain rfl := Option.some.inj (hb'.symm.trans hb)
    obtain ⟨qs, hqs, hpaid⟩ := payments_of_call hr htime hb
    rw [hbname] at hqs
    refine ⟨ps ++ qs, hps.trans hqs, ?_⟩
    rw [List.length_append]
    split
    · rename_i hdue
      have hpos := List.length_pos_iff.mpr (hpaid hdue)
      omega
    · omega

/-- An accepted withdrawal begins its schedule. -/
theorem onSchedule_withdrawVesting {account : String} {shares : Asset} {s₁ : Store chainSchema}
    {acc : Nat} {a : Account} (hdoes : (Deed.operation (.withdrawVesting account shares)).Does s s₁)
    (hv : 0 < shares.amount) (ha : s.get Kind.account acc = some a) (hname : a.name = account) :
    ∃ b : Account, s₁.get Kind.account acc = some b ∧ b.name = account ∧
      OnSchedule shares.amount s.props.time [] b := by
  cases hdoes with
  | operation clock n push _ _ _ hr =>
    obtain ⟨i, a', b, hf, hi, hname', e, hbname, hplan⟩ := withdrawVesting_written hr
    obtain rfl : i = acc := account_unique hi ha (hname'.trans hname.symm)
    rw [if_pos hv] at hplan
    obtain ⟨hleave, hrate, htotal, hnext⟩ := hplan
    refine ⟨b, by rw [e, Store.get_write_self, if_pos rfl], hbname.trans hname',
      .inl ⟨0, rfl, hleave, hrate, htotal, ?_⟩⟩
    rw [hnext, zero_add, one_mul]

omit [Fc] in
/-- What is paid comes in the order of the weekly payments. -/
theorem OnSchedule.isPrefix {v : Int} {start : Nat} {ps : List Int} {a : Account}
    (h : OnSchedule v start ps a) : ps <+: weeklyPayments v := by
  have hrate := paymentRate_pos v
  rcases h with ⟨k, hps, hk, hr, htotal, _⟩ | ⟨hps, _⟩
  · rw [hps]
    refine replicate_prefix hrate ?_
    rw [← hr, ← hk.withdrawn, ← htotal]
    exact hk.unpaid.le
  · rw [hps]

end

section

attribute [local instance] sampleFc

/-- The init miner withdraws 1000 shares. -/
def thousandLeaving : Database chainSchema :=
  evaluated (.withdrawVesting initMinerName (Asset.vests 1000)) routingStart

/-- The head after the block of the init miner in the week `k + 1`. -/
def weekLater (k : Nat) (d : Database chainSchema) : Database chainSchema :=
  ((modifyDgp (fun p => .ok (minerBlock p.headBlockId
      (genesisTime + (k + 1) * vestingWithdrawIntervalSeconds)))
    fun p b => nextProperties b (p.missedBefore b) p : Act 0 Unit).run d).db

/-- It is paid once a week. -/
def thousandPaid : Nat → Database chainSchema
  | 0 => thousandLeaving
  | k + 1 => ((processVestingWithdrawals : Act 0 Unit).run (weekLater k (thousandPaid k))).db

/-- What the head is moved by, and that the account is due then. -/
theorem thousandPaid_runs : ∀ k < 14,
    ((thousandPaid k).store.get Kind.dynamicGlobalProperty 0).map
      (fun p : DynamicGlobalProperty => (p.headBlockId.num, p.lastIrreversibleBlockNum)) =
        some (k, 0) ∧
    ((thousandPaid k).store.get Kind.witnessSchedule 0).map
      (fun o : WitnessSchedule => o.currentShuffledWitnesses) = some [initMinerName] ∧
    ((thousandPaid k).store.get Kind.hardforkProperty 0).isSome = true ∧
    ((thousandPaid k).store.get Kind.witness 0).map (fun w : Witness => w.owner) =
      some initMinerName ∧
    ((modifyDgp (fun p => .ok (minerBlock p.headBlockId
        (genesisTime + (k + 1) * vestingWithdrawIntervalSeconds)))
      fun p b => nextProperties b (p.missedBefore b) p : Act 0 Unit).run
        (thousandPaid k)).isOk = true ∧
    ((processVestingWithdrawals : Act 0 Unit).run (weekLater k (thousandPaid k))).isOk = true ∧
    ((weekLater k (thousandPaid k)).store.get Kind.account 3).map (fun a : Account =>
      decide (a.nextVestingWithdrawal ≤ (weekLater k (thousandPaid k)).store.props.time)) =
        some true ∧
    (weekLater k (thousandPaid k)).store.props.time < timeMaximum := by
  decide +kernel

theorem does_weekLater {k : Nat} (hk : k < 14) : ∃ b, (Deed.routine (.globalDynamicData {} b)).Does
    (thousandPaid k).store (weekLater k (thousandPaid k)).store := by
  obtain ⟨hprops, hschedule, hhardforks, hwitness, hmoved, _⟩ := thousandPaid_runs k hk
  obtain ⟨p, hp, hvalues⟩ := Option.map_eq_some_iff.mp hprops
  obtain ⟨hid, hlast⟩ := Prod.mk.inj hvalues
  obtain ⟨o, ho, hnames⟩ := Option.map_eq_some_iff.mp hschedule
  obtain ⟨hf, hhf⟩ := Option.isSome_iff_exists.mp hhardforks
  obtain ⟨w, hw, howner⟩ := Option.map_eq_some_iff.mp hwitness
  obtain ⟨wit, hwit⟩ := getWitnessId_run (n := 0) ⟨0, hw, howner⟩
  obtain ⟨_, hmoved⟩ := Outcome.exists_of_isOk hmoved
  obtain ⟨p', b, hp', hb, hfree, hstore⟩ := modifyWith_store hmoved
  obtain rfl := Option.some.inj (hp'.symm.trans hp)
  obtain rfl := Except.ok.inj hb
  have hroom : sub32 (minerBlock p'.headBlockId
      (genesisTime + (k + 1) * vestingWithdrawIntervalSeconds)).blockNum
        p'.lastIrreversibleBlockNum < maxUndoHistory := by
    show sub32 (u32 (p'.headBlockId.num + 1)) p'.lastIrreversibleBlockNum < maxUndoHistory
    rw [hid, hlast]
    unfold sub32 u32 maxUndoHistory
    omega
  obtain ⟨_, d', hr, e⟩ := finishes_globalDynamicData (n := 0)
    (Q := fun t => t = (weekLater k (thousandPaid k)).store) hp ho hhf hnames hwit hroom
    fun _ => hstore.symm
  rw [← e]
  exact ⟨_, .routine (r := .globalDynamicData {} _) 0 (fun h => nomatch h) hr⟩

theorem rounds_thousandPaid (k : Nat) (hk : k ≤ 14) :
    Rounds 3 initMinerName thousandLeaving.store k (thousandPaid k).store := by
  induction k with
  | zero => exact .start
  | succ k ih =>
    obtain ⟨_, _, _, _, _, hok, hdue, htime⟩ := thousandPaid_runs k hk
    obtain ⟨b, hdoes⟩ := does_weekLater hk
    obtain ⟨_, hr⟩ := Outcome.exists_of_isOk hok
    obtain ⟨a, ha, hdue⟩ := Option.map_eq_some_iff.mp hdue
    have hmoved := (ih (by omega)).other (e := .routine (.globalDynamicData {} b)) trivial hdoes
      (fun h => nomatch h) fun _ h => nomatch h
    have hround := hmoved.call htime hr ha
    rwa [if_pos (of_decide_eq_true hdue)] at hround

end

end MuseChain
