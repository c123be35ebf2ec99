/-
  File:      MuseChain/Safety/VoteSteps.lean
  Subject:   Steps that move vesting shares keep the polls sound.

  * `Kept K`: sound polls, with shares and withdrawal rates that fit an `int64_t`. `StayKept K`:
    they stay so.
  * Vesting shares that an account gets or gives away (`revested`, `settled_adjustProxied`), and
    with them `create_vesting`, the withdrawals and all that pays in vesting shares.
-/
import MuseChain.Safety.Deposits
import MuseChain.Safety.Tallies

namespace MuseChain

variable {n : Nat} {d d' : Database chainSchema} {u : Unit} {K : Poll → Prop}

/-! ## 1. Sound polls -/

/-- Sound polls, and numbers that fit their type. -/
structure Kept (K : Poll → Prop) (s : Store chainSchema) : Prop where
  sound : Polls.Sound K (polls s)
  range : ∀ x, int64Min ≤ (polls s).level x 0 ∧ (polls s).level x 0 ≤ int64Max
  rates : ∀ i (a : Account), s.get Kind.account i = some a →
    0 ≤ a.vestingWithdrawRate.amount ∧ a.vestingWithdrawRate.amount ≤ int64Max

/-- What is kept stays. -/
def StayKept (K : Poll → Prop) (s t : Store chainSchema) : Prop := Kept K s → Kept K t

instance : IsPreorder (Store chainSchema) (StayKept K) where
  refl _ h := h
  trans _ _ _ h h' hs := h' (h hs)

/-- The rates of the accounts that were there. -/
theorem rates_of_changes {l : List Part} {s t : Store chainSchema} (h : Obeys (changes l) s t)
    (hg : .gone .account ∉ l) (hw : .account .withdrawal ∉ l)
    (hs : ∀ i (a : Account), s.get Kind.account i = some a →
      0 ≤ a.vestingWithdrawRate.amount ∧ a.vestingWithdrawRate.amount ≤ int64Max) :
    ∀ i (a : Account), t.get Kind.account i = some a →
      0 ≤ a.vestingWithdrawRate.amount ∧ a.vestingWithdrawRate.amount ≤ int64Max := by
  intro i b hb
  have hsame : ∀ {a b : Account}, Same l Kind.account a b →
      b.vestingWithdrawRate = a.vestingWithdrawRate := by
    intro a b hab
    exact (congrArg (·.1) (Or.resolve_left (hab .withdrawal) hw)).symm
  obtain ⟨a, b', ha, hb', hab⟩ | ⟨_, hn⟩ | ⟨a, b', _, hb', _, hblank, hab⟩ :=
    changes_cases (h Kind.account i) hg
  · obtain rfl : b' = b := Option.some.inj (hb'.symm.trans hb)
    rw [hsame hab]
    exact hs i a ha
  · cases hn.symm.trans hb
  · obtain rfl : b' = b := Option.some.inj (hb'.symm.trans hb)
    obtain ⟨_, _, _, _, _, _, _, hrate, _⟩ := hblank
    rw [hsame hab, hrate]
    exact ⟨le_refl _, by decide⟩

theorem Kept.of_changes {l : List Part} {s t : Store chainSchema} (hs : Kept K s)
    (h : Obeys (changes l) s t) (hl : ∀ p ∈ l, p.polled = false) (hw : .account .withdrawal ∉ l) :
    Kept K t := by
  have hg := grown_polls h hl
  exact ⟨hs.sound.grown hg (distinct_polls t), fun x => by rw [hg.level]; exact hs.range x,
    rates_of_changes h (not_mem_of_unpolled hl rfl) hw hs.rates⟩

/-- A program that does not write to what the polls are taken from. -/
theorem kept_of_composed {α : Type} {l : List Part} {x : Act n α} (h : Composed l x)
    (hl : ∀ p ∈ l, p.polled = false) (hw : .account .withdrawal ∉ l) : Steps (StayKept K) x :=
  h.steps.mono fun _ _ hst hs => hs.of_changes hst hl hw

/-- The vesting shares that the accounts hold. -/
abbrev Polls.held (P : Polls) : Int := ∑ i ∈ P.nodes, P.level i 0

def Polls.setShares (P : Polls) (x : Int) : Polls := { P with shares := x }

theorem Polls.Steady.setShares {P : Polls} (h : P.Steady K) (x : Int) : (P.setShares x).Steady K :=
  h.of_alike ⟨fun _ => rfl, fun _ _ => rfl, rfl, rfl⟩

theorem Polls.Due.setShares {P : Polls} {corr : Nat → Nat → Int} {lag : Nat → Int}
    (h : Polls.Due K corr lag P) (x : Int) : Polls.Due K corr lag (P.setShares x) :=
  ⟨h.off, h.tallied⟩

theorem polls_write_props {s : Store chainSchema} {p : DynamicGlobalProperty}
    (hf : s.free Kind.dynamicGlobalProperty 0 p = true) :
    polls (s.write Kind.dynamicGlobalProperty 0 p hf) =
      (polls s).setShares p.totalVestingShares.amount := by
  refine Polls.ext ?_ (funext fun k => ?_) (funext fun k => ?_) ?_ ?_
  · simp only [polls, Polls.setShares]
    rw [table_write_ne (by decide)]
  · cases k <;> simp only [polls, Polls.setShares] <;> rw [table_write_ne (by decide)]
  · cases k <;> simp only [polls, Polls.setShares] <;> rw [table_write_ne (by decide)]
  · simp only [polls, Polls.setShares]
    rw [table_write_ne (by decide)]
  · simp only [polls, Polls.setShares]
    unfold Store.props
    rw [Store.get_write_self, if_pos rfl]
    rfl

theorem shares_of_props {s : Store chainSchema} {p : DynamicGlobalProperty}
    (h : s.get Kind.dynamicGlobalProperty 0 = some p) :
    (polls s).shares = p.totalVestingShares.amount := by
  simp only [polls]
  unfold Store.props
  rw [h]
  rfl

/-! ## 2. Vesting shares come and go -/

/-- The polls while vesting shares move: all but the count of all shares is right, and account
`acc` has `w` more than it had. -/
structure VestsMoved (K : Poll → Prop) (acc : Nat) (w : Int) (P Q : Polls) : Prop where
  steady : Q.Steady K
  nodes : Q.nodes = P.nodes
  vests : ∀ x, Q.level x 0 = P.level x 0 + Forest.only acc w x
  shares : Q.shares = P.shares
  routes : Q.routes = P.routes

theorem VestsMoved.held {acc : Nat} {w : Int} {P Q : Polls} (h : VestsMoved K acc w P Q)
    (hacc : acc ∈ P.nodes) : Q.held = P.held + w := by
  unfold Polls.held
  rw [h.nodes]
  simp only [h.vests, Forest.only]
  rw [Finset.sum_add_distrib, Finset.sum_ite_eq', if_pos hacc]

theorem VestsMoved.range {acc : Nat} {w : Int} {P Q : Polls} (h : VestsMoved K acc w P Q)
    (hP : ∀ x, int64Min ≤ P.level x 0 ∧ P.level x 0 ≤ int64Max)
    (hw : int64Min ≤ P.level acc 0 + w ∧ P.level acc 0 + w ≤ int64Max) (x : Nat) :
    int64Min ≤ Q.level x 0 ∧ Q.level x 0 ≤ int64Max := by
  rw [h.vests]
  unfold Forest.only
  split
  · rename_i e
    rw [e]
    exact hw
  · rw [add_zero]
    exact hP x

/-- **What an account gets is pending.** -/
theorem revested {s : Store chainSchema} {acc : Nat} {a b : Account} {w : Int}
    (hs : (polls s).Steady K) (he : Polls.Even K (polls s))
    (ha : s.get Kind.account acc = some a) (hf : s.free Kind.account acc b = true)
    (hb : b.ballot = { a.ballot with vests := a.vestingShares.amount + w }) :
    VestsMoved K acc w (polls s) (polls (s.write Kind.account acc b hf)) ∧
      Polls.Pending K (fun _ _ => 0) (fun _ => 0) (atLevel 0 w) acc
        (polls (s.write Kind.account acc b hf)) := by
  have hfix : b.ballot.fixed = a.ballot.fixed := by
    rw [hb]
    rfl
  have hlevel : ∀ j ≤ Polls.depth, b.ballot.level j = a.ballot.level j + atLevel 0 w j := by
    intro j _
    rw [hb]
    cases j with
    | zero => rfl
    | succ j => exact (add_zero _).symm
  have halike := Polls.alike_setAccount (get_ballot_some ha) hfix
  have hraised := Polls.raised_setAccount hs.distinct (get_ballot_some ha) hfix hlevel
  rw [polls_write_account]
  refine ⟨⟨hs.of_alike halike, halike.links.nodes, fun x => ?_, rfl, rfl⟩,
    he.raised hs.distinct (get_ballot_some ha) hfix hlevel fun _ => rfl⟩
  unfold Forest.only
  split
  · rename_i e
    rw [e]
    exact hraised.self 0 (Nat.zero_le _)
  · rename_i e
    rw [add_zero]
    exact congrFun (hraised.other x e) 0

/-- **What is pending is settled.** -/
theorem settled_adjustProxied {acc : Nat} {w : Int}
    (hr : (adjustProxiedWitnessVotes acc w : Act n Unit).run d = .ok u d')
    (hs : (polls d.store).Steady K)
    (h : Polls.Pending K (fun _ _ => 0) (fun _ => 0) (atLevel 0 w) acc (polls d.store)) :
    VestsMoved K acc 0 (polls d.store) (polls d'.store) ∧ Polls.Even K (polls d'.store) := by
  obtain ⟨hdue, hl⟩ := due_adjustProxiedFrom hr hs (le_refl _) h
  refine ⟨⟨hs.of_alike hl.alike, hl.alike.links.nodes, fun x => ?_, hl.shares, hl.alike.routes⟩,
    hdue⟩
  rw [hl.vests]
  unfold Forest.only
  rw [ite_self, add_zero]

theorem VestsMoved.trans {acc : Nat} {w w' : Int} {P Q R : Polls} (h : VestsMoved K acc w P Q)
    (h' : VestsMoved K acc w' Q R) : VestsMoved K acc (w + w') P R := by
  refine ⟨h'.steady, h'.nodes.trans h.nodes, fun x => ?_, h'.shares.trans h.shares,
    h'.routes.trans h.routes⟩
  rw [h'.vests, h.vests]
  unfold Forest.only
  split
  · omega
  · omega

theorem Asset.add_range {a b c : Asset} (h : a.add b = .ok c) :
    int64Min ≤ c.amount ∧ c.amount ≤ int64Max := by
  obtain ⟨_, _, h⟩ := except_bind_ok.mp h
  obtain ⟨x, hx, h⟩ := except_bind_ok.mp h
  cases h
  obtain ⟨rfl, h1, h2⟩ := safe_ok.mp hx
  exact ⟨h1, h2⟩

theorem polls_recursiveRecalculateScore {acc : Nat} {delta : Int}
    (hr : (recursiveRecalculateScore acc delta : Act n Unit).run d = .ok u d') :
    polls d'.store = polls d.store :=
  polls_eq ((composed_recursiveRecalculateScore (l := [.account .score]) acc delta
    (by decide)).steps.step hr) (by decide) (by decide)

/-- **`create_vesting` keeps the polls sound.** -/
theorem kept_createVesting (toAccount : Nat) (muse : Asset) :
    Steps (StayKept K) (createVesting toAccount muse : Act n Asset) := by
  refine ⟨fun {d v d'} hr hkept => ?_⟩
  have hrates := rates_of_changes ((composed_createVesting (l := vestingParts) toAccount muse
    (by decide)).steps.step hr) (by decide) (by decide) hkept.rates
  unfold createVesting at hr
  obtain ⟨p, hp, hr⟩ := bind_getDgp_ok.mp hr
  obtain ⟨newVesting, _, hr⟩ := Action.bind_lift_ok.mp hr
  obtain ⟨_, d₁, h1, hr⟩ := Action.bind_ok.mp hr
  obtain ⟨_, d₂, h2, hr⟩ := Action.bind_ok.mp hr
  obtain ⟨_, d₃, h3, hr⟩ := Action.bind_ok.mp hr
  obtain ⟨_, d₄, h4, hr⟩ := Action.bind_ok.mp hr
  cases hr
  obtain ⟨a, x, ha, hx, hf, e1⟩ := modifyWith_store h1
  obtain ⟨p', y, hp', hy, hf', e2⟩ := modifyWith_store h2
  have hrange := Asset.add_range hx
  obtain ⟨_, rfl⟩ := Asset.add_ok hx
  obtain ⟨fund, _, hy⟩ := except_bind_ok.mp hy
  obtain ⟨shares, hshares, hy⟩ := except_bind_ok.mp hy
  cases hy
  obtain ⟨_, rfl⟩ := Asset.add_ok hshares
  obtain ⟨hm1, hpend⟩ := revested (w := v.amount) hkept.sound.steady hkept.sound.even ha hf rfl
  rw [← e1] at hm1 hpend
  have e2' := congrArg polls e2
  rw [polls_write_props] at e2'
  obtain ⟨hm3, he3⟩ := settled_adjustProxied (K := K) h3
    (by rw [e2']; exact hm1.steady.setShares _) (by rw [e2']; exact hpend.setShares _)
  have hacc : toAccount ∈ (polls d.store).nodes := Polls.mem_nodes.mpr ⟨_, get_ballot_some ha⟩
  have hacc2 : toAccount ∈ (polls d₂.store).nodes := by
    rw [e2']
    exact hm1.nodes ▸ hacc
  have hheld3 := hm3.held hacc2
  have hheld2 : (polls d₂.store).held = (polls d.store).held + v.amount := by
    rw [e2']
    exact hm1.held hacc
  have hown : (polls d.store).level toAccount 0 = a.vestingShares.amount :=
    congrFun (Polls.level_of_get (get_ballot_some ha)) 0
  refine ⟨?_, fun x => ?_, hrates⟩
  all_goals rw [polls_recursiveRecalculateScore h4]
  refine ⟨hm3.steady, he3, ?_⟩
  · change _ = (polls d₃.store).held
    rw [hheld3, hheld2, add_zero, hm3.shares, e2']
    change p'.totalVestingShares.amount + v.amount = _
    rw [← shares_of_props hp', hm1.shares, hkept.sound.shares]
  · rw [hm3.vests]
    unfold Forest.only
    rw [ite_self, add_zero, e2']
    exact hm1.range hkept.range (hown ▸ hrange) x

/-! ## 3. Withdrawals -/

/-- There is no share of a debt: its product leaves 64 bits. -/
theorem routeShare_amount {toWithdraw x : Int} {percent : Nat}
    (h : routeShare toWithdraw percent = .ok x) (hp : 1 ≤ percent ∧ percent ≤ percent100)
    (hr : int64Min ≤ toWithdraw ∧ toWithdraw ≤ int64Max) : 0 ≤ toWithdraw := by
  by_contra hneg
  obtain ⟨y, hy, h⟩ := except_bind_ok.mp h
  unfold toUint64 at hy
  split at hy
  · rename_i hlt
    unfold u128 uint128OfInt percent100 int64Min int64Max at *
    -- of a debt of at most 2^63 at least 2^128 - 2^63 * 10000 would be divided
    have hmod : toWithdraw % 2 ^ 128 = toWithdraw + 2 ^ 128 := by omega
    rw [hmod] at hlt
    have hbound : (-toWithdraw).toNat * percent ≤ 9223372036854775808 * 10000 :=
      Nat.mul_le_mul (by omega) hp.2
    have hsplit : (toWithdraw + 2 ^ 128).toNat * percent =
        2 ^ 128 * percent - (-toWithdraw).toNat * percent := by
      rw [← Nat.sub_mul]
      congr 1
      omega
    have hge : 1 ≤ (-toWithdraw).toNat * percent := Nat.mul_pos (by omega) hp.1
    have hrest : (2 ^ 128 * percent - (-toWithdraw).toNat * percent) % 2 ^ 128 =
        2 ^ 128 - (-toWithdraw).toNat * percent := by
      obtain ⟨r, rfl⟩ := Nat.exists_eq_add_of_le hp.1
      rw [Nat.mul_add, Nat.mul_one, Nat.add_comm, Nat.add_sub_assoc (by omega), Nat.add_comm,
        Nat.add_mul_mod_self_left]
      exact Nat.mod_eq_of_lt (by omega)
    rw [hsplit, hrest] at hlt
    omega
  · cases hy

/-- A share of an amount, without a loss in the machine's numbers. -/
theorem routeShare_eq {toWithdraw x : Int} {percent : Nat}
    (h : routeShare toWithdraw percent = .ok x) (hp : percent ≤ percent100)
    (h0 : 0 ≤ toWithdraw) (hmax : toWithdraw ≤ int64Max) :
    x = toWithdraw * percent / percent100 := by
  obtain ⟨y, hy, h⟩ := except_bind_ok.mp h
  cases h
  unfold toUint64 at hy
  split at hy
  · cases hy
    have hlimit : toWithdraw.toNat ≤ 9223372036854775807 := by
      unfold int64Max at hmax
      omega
    have hself : uint128OfInt toWithdraw = toWithdraw.toNat := by
      unfold uint128OfInt
      congr 1
      omega
    have hprod : toWithdraw.toNat * percent ≤ 9223372036854775807 * 10000 :=
      Nat.mul_le_mul hlimit hp
    have hbound : toWithdraw.toNat * percent ≤ toWithdraw.toNat * 10000 :=
      Nat.mul_le_mul_left _ hp
    have hsmall : toWithdraw.toNat * percent / percent100 < 2 ^ 63 := by
      unfold percent100
      omega
    unfold u128
    rw [hself, Nat.mod_eq_of_lt (by omega), int64OfNat_of_lt hsmall, Int.natCast_ediv,
      Nat.cast_mul, Int.toNat_of_nonneg h0]
  · cases hy

theorem routeShare_nonneg {toWithdraw x : Int} {percent : Nat}
    (h : routeShare toWithdraw percent = .ok x) (hp : 1 ≤ percent ∧ percent ≤ percent100)
    (hr : int64Min ≤ toWithdraw ∧ toWithdraw ≤ int64Max) : 0 ≤ x := by
  have h0 := routeShare_amount h hp hr
  rw [routeShare_eq h hp.2 h0 hr.2]
  exact Int.ediv_nonneg (mul_nonneg h0 (Int.natCast_nonneg _)) (Int.natCast_nonneg _)

/-- What the first pass of a withdrawal keeps. -/
structure Deposited (K : Poll → Prop) (w : Int) (P Q : Polls) : Prop where
  steady : Q.Steady K
  even : Polls.Even K Q
  range : ∀ x, int64Min ≤ Q.level x 0 ∧ Q.level x 0 ≤ int64Max
  nodes : Q.nodes = P.nodes
  held : Q.held = P.held + w
  shares : Q.shares = P.shares

/-- **The first pass deposits what it says.** -/
theorem deposited_depositVests {toWithdraw : Int}
    (ht : int64Min ≤ toWithdraw ∧ toWithdraw ≤ int64Max)
    {routes : List (Nat × WithdrawVestingRoute)}
    (hl : ∀ r ∈ routes, 1 ≤ r.2.percent ∧ r.2.percent ≤ percent100) {start out : Int}
    (hr : (depositVests toWithdraw routes start : Act n Int).run d = .ok out d')
    (hs : (polls d.store).Steady K) (he : Polls.Even K (polls d.store))
    (hrange : ∀ x, int64Min ≤ (polls d.store).level x 0 ∧ (polls d.store).level x 0 ≤ int64Max) :
    start ≤ out ∧ Deposited K (out - start) (polls d.store) (polls d'.store) := by
  induction routes generalizing d start with
  | nil =>
    cases hr
    exact ⟨le_refl _, hs, he, hrange, rfl, by omega, rfl⟩
  | cons r rest ih =>
    have hrest : ∀ r ∈ rest, 1 ≤ r.2.percent ∧ r.2.percent ≤ percent100 :=
      fun r hr => hl r (List.mem_cons_of_mem _ hr)
    unfold depositVests at hr
    split at hr
    · obtain ⟨x, hx, hr⟩ := Action.bind_lift_ok.mp hr
      obtain ⟨start', hstart, hr⟩ := Action.bind_lift_ok.mp hr
      obtain ⟨rfl, _⟩ := safe_ok.mp hstart
      have hx0 := routeShare_nonneg hx (hl r List.mem_cons_self) ht
      split at hr
      · obtain ⟨_, d₁, h1, hr⟩ := Action.bind_ok.mp hr
        obtain ⟨_, d₂, h2, hr⟩ := Action.bind_ok.mp hr
        obtain ⟨_, d₃, h3, hr⟩ := Action.bind_ok.mp hr
        obtain ⟨a, y, ha, hy, hf, e1⟩ := modifyWith_store h1
        obtain ⟨rfl, hlo, hhi⟩ := safe_ok.mp hy
        obtain ⟨hm1, hpend⟩ := revested (w := x) hs he ha hf rfl
        rw [← e1] at hm1 hpend
        obtain ⟨hm2, he2⟩ := settled_adjustProxied h2 hm1.steady hpend
        have hm := hm1.trans hm2
        rw [add_zero] at hm
        have hown : (polls d.store).level r.2.toAccount 0 = a.vestingShares.amount :=
          congrFun (Polls.level_of_get (get_ballot_some ha)) 0
        have hacc : r.2.toAccount ∈ (polls d.store).nodes :=
          Polls.mem_nodes.mpr ⟨_, get_ballot_some ha⟩
        rw [← polls_recursiveRecalculateScore h3] at hm he2
        obtain ⟨hle, hdep⟩ := ih hrest hr hm.steady he2
          (hm.range hrange (by rw [hown]; exact ⟨hlo, hhi⟩))
        refine ⟨by omega, hdep.steady, hdep.even, hdep.range, hdep.nodes.trans hm.nodes, ?_,
          hdep.shares.trans hm.shares⟩
        rw [hdep.held, hm.held hacc]
        omega
      · obtain rfl : x = 0 := by omega
        obtain ⟨hle, hdep⟩ := ih hrest hr hs he hrange
        exact ⟨by omega, hdep.steady, hdep.even, hdep.range, hdep.nodes,
          by rw [hdep.held]; omega, hdep.shares⟩
    · exact ih hrest hr hs he hrange

/-- An account that votes with what it had. -/
theorem polls_write_same {s : Store chainSchema} {i : Nat} {a b : Account}
    (ha : s.get Kind.account i = some a) (hf : s.free Kind.account i b = true)
    (hb : b.ballot = a.ballot) : polls (s.write Kind.account i b hf) = polls s := by
  rw [polls_write_account, hb]
  refine Polls.ext (FMap.ext_get fun j => ?_) rfl rfl rfl rfl
  rw [Polls.get_setAccount]
  split
  · rename_i e
    rw [e]
    exact (get_ballot_some ha).symm
  · rfl

theorem polls_takeFromVestingFund {converted : Asset} {vests : Int}
    (hr : (takeFromVestingFund converted vests : Act n Unit).run d = .ok u d') :
    polls d'.store = (polls d.store).setShares ((polls d.store).shares - vests) := by
  unfold takeFromVestingFund modifyDgp at hr
  obtain ⟨p, y, hp, hy, hf, e⟩ := modifyWith_store hr
  obtain ⟨fund, _, hy⟩ := except_bind_ok.mp hy
  obtain ⟨shares, hshares, hy⟩ := except_bind_ok.mp hy
  cases hy
  obtain ⟨rfl, _⟩ := safe_ok.mp hshares
  rw [e, polls_write_props, shares_of_props hp]

/-- **The second pass takes what it says from all shares.** -/
theorem polls_depositMuse {toWithdraw : Int}
    (ht : int64Min ≤ toWithdraw ∧ toWithdraw ≤ int64Max)
    {routes : List (Nat × WithdrawVestingRoute)}
    (hl : ∀ r ∈ routes, 1 ≤ r.2.percent ∧ r.2.percent ≤ percent100) {start out : Int × Asset}
    (hr : (depositMuse toWithdraw routes start : Act n (Int × Asset)).run d = .ok out d') :
    start.1 ≤ out.1 ∧
      polls d'.store = (polls d.store).setShares ((polls d.store).shares - (out.1 - start.1)) := by
  induction routes generalizing d start with
  | nil =>
    cases hr
    exact ⟨le_refl _, by rw [sub_self, sub_zero]; rfl⟩
  | cons r rest ih =>
    have hrest : ∀ r ∈ rest, 1 ≤ r.2.percent ∧ r.2.percent ≤ percent100 :=
      fun r hr => hl r (List.mem_cons_of_mem _ hr)
    obtain ⟨deposited, total⟩ := start
    unfold depositMuse at hr
    split at hr
    · exact ih hrest hr
    · obtain ⟨x, hx, hr⟩ := Action.bind_lift_ok.mp hr
      obtain ⟨start', hstart, hr⟩ := Action.bind_lift_ok.mp hr
      obtain ⟨p, _, hr⟩ := bind_getDgp_ok.mp hr
      obtain ⟨converted, _, hr⟩ := Action.bind_lift_ok.mp hr
      obtain ⟨total', _, hr⟩ := Action.bind_lift_ok.mp hr
      obtain ⟨rfl, _⟩ := safe_ok.mp hstart
      have hx0 := routeShare_nonneg hx (hl r List.mem_cons_self) ht
      split at hr
      · obtain ⟨_, d₁, h1, hr⟩ := Action.bind_ok.mp hr
        obtain ⟨_, d₂, h2, hr⟩ := Action.bind_ok.mp hr
        obtain ⟨a, y, ha, _, hf, e1⟩ := modifyWith_store h1
        have hp1 : polls d₁.store = polls d.store := by
          rw [e1]
          exact polls_write_same ha hf rfl
        obtain ⟨hle, hrec⟩ := ih hrest hr
        refine ⟨by dsimp only at hle ⊢; omega, ?_⟩
        rw [hrec, polls_takeFromVestingFund h2, hp1]
        refine Polls.ext rfl rfl rfl rfl ?_
        show (polls d.store).shares - x - (out.1 - (deposited + x)) =
          (polls d.store).shares - (out.1 - deposited)
        omega
      · obtain rfl : x = 0 := by omega
        obtain ⟨hle, hrec⟩ := ih hrest hr
        rw [add_zero] at hle hrec
        exact ⟨hle, hrec⟩

theorem withdrawalDue_range {a : Account} {x : Int} (h : withdrawalDue a = .ok x)
    (hv : int64Min ≤ a.vestingShares.amount ∧ a.vestingShares.amount ≤ int64Max)
    (hrate : 0 ≤ a.vestingWithdrawRate.amount ∧ a.vestingWithdrawRate.amount ≤ int64Max) :
    int64Min ≤ x ∧ x ≤ int64Max := by
  obtain ⟨left, _, h⟩ := except_bind_ok.mp h
  split at h
  · obtain ⟨y, hy, h⟩ := except_bind_ok.mp h
    cases h
    unfold safeMod at hy
    split at hy
    · cases hy
    · rename_i hne
      cases hy
      have := Int.lt_tmod_of_pos a.toWithdraw (b := a.vestingWithdrawRate.amount) (by omega)
      unfold int64Min int64Max at *
      omega
  · cases h
    unfold int64Min int64Max at *
    omega

theorem Polls.Due.of_pending_zero {P : Polls} {corr : Nat → Nat → Int} {lag : Nat → Int} {i : Nat}
    (h : Polls.Pending K corr lag (atLevel 0 0) i P) : Polls.Due K corr lag P := by
  have h0 : ∀ j, atLevel 0 0 j = 0 := fun j => ite_self 0
  refine ⟨fun p hp j hj => ?_, fun k hk => (h.tallied k hk).congr fun x => ?_⟩
  · have := h.off p hp j hj
    unfold Forest.at_ at this
    rw [h0, ite_self, add_zero] at this
    exact this
  · simp only [h0, Finset.sum_const_zero, ite_self, Forest.only, add_zero]

/-- Nothing that a withdrawal does besides changes the rates. -/
theorem rates_of_composed {α : Type} {l : List Part} {x : Act n α} {b : α} (h : Composed l x)
    (hr : x.run d = .ok b d') (hg : .gone .account ∉ l) (hw : .account .withdrawal ∉ l)
    (hs : ∀ i (a : Account), d.store.get Kind.account i = some a →
      0 ≤ a.vestingWithdrawRate.amount ∧ a.vestingWithdrawRate.amount ≤ int64Max) :
    ∀ i (a : Account), d'.store.get Kind.account i = some a →
      0 ≤ a.vestingWithdrawRate.amount ∧ a.vestingWithdrawRate.amount ≤ int64Max :=
  rates_of_changes (h.steps.step hr) hg hw hs

/-- **A withdrawal keeps the polls sound.** -/
theorem kept_processVestingWithdrawal (acc : Nat) :
    Steps (StayKept K) (processVestingWithdrawal acc : Act n Unit) := by
  refine ⟨fun {d _ d'} hr hkept => ?_⟩
  unfold processVestingWithdrawal at hr
  obtain ⟨a, ha, hr⟩ := bind_getAccount_ok.mp hr
  obtain ⟨tw, htw, hr⟩ := Action.bind_lift_ok.mp hr
  have hr := Action.bind_read_ok.mp hr
  obtain ⟨asVests, d₁, h1, hr⟩ := Action.bind_ok.mp hr
  obtain ⟨⟨asMuse, total⟩, d₂, h2, hr⟩ := Action.bind_ok.mp hr
  obtain ⟨x, hx, hr⟩ := Action.bind_lift_ok.mp hr
  obtain ⟨rfl, _⟩ := safe_ok.mp hx
  obtain ⟨toConvert, hconv, hr⟩ := Action.bind_lift_ok.mp hr
  obtain ⟨rfl, _⟩ := safe_ok.mp hconv
  obtain ⟨hpos, hr⟩ := Action.bind_require_ok.mp hr
  obtain ⟨p, hp, hr⟩ := bind_getDgp_ok.mp hr
  obtain ⟨converted, _, hr⟩ := Action.bind_lift_ok.mp hr
  obtain ⟨_, d₃, h3, hr⟩ := Action.bind_ok.mp hr
  obtain ⟨_, d₄, h4, hr⟩ := Action.bind_ok.mp hr
  have hown : (polls d.store).level acc 0 = a.vestingShares.amount :=
    congrFun (Polls.level_of_get (get_ballot_some ha)) 0
  have hrange := withdrawalDue_range htw (hown ▸ hkept.range acc) (hkept.rates acc a ha)
  have hroutes : ∀ r ∈ (((d.store.rows Kind.withdrawVestingRoute).filter
      fun r : Nat × WithdrawVestingRoute =>
        r.2.fromAccount = acc && decide (0 < r.2.toAccount)).insertionSort
          fun a b : Nat × WithdrawVestingRoute => a.2.toAccount ≤ b.2.toAccount),
      1 ≤ r.2.percent ∧ r.2.percent ≤ percent100 := by
    intro r hmem
    have hrow := (List.mem_filter.mp ((List.perm_insertionSort _ _).mem_iff.mp hmem)).1
    refine hkept.sound.steady.routes r.1 r.2.percent ?_
    rw [get_routePercent]
    exact congrArg _ (FMap.mem_rows.mp hrow)
  obtain ⟨hle1, hdep⟩ := deposited_depositVests hrange hroutes h1 hkept.sound.steady
    hkept.sound.even hkept.range
  obtain ⟨hle2, hmuse⟩ := polls_depositMuse hrange hroutes h2
  rw [sub_zero] at hdep
  dsimp only at hle2 hmuse
  rw [sub_zero] at hmuse
  -- the account itself gives away what was withdrawn
  obtain ⟨a', y, ha', hy, hf, e3⟩ := modifyWith_store h3
  obtain ⟨shares, hshares, hy⟩ := except_bind_ok.mp hy
  obtain ⟨balance, _, hy⟩ := except_bind_ok.mp hy
  obtain ⟨withdrawn, _, hy⟩ := except_bind_ok.mp hy
  cases hy
  obtain ⟨rfl, hlo, hhi⟩ := safe_ok.mp hshares
  have hs2 : (polls d₂.store).Steady K := by
    rw [hmuse]
    exact hdep.steady.setShares _
  have he2 : Polls.Even K (polls d₂.store) := by
    rw [hmuse]
    exact hdep.even.setShares _
  have hrange2 : ∀ x, int64Min ≤ (polls d₂.store).level x 0 ∧
      (polls d₂.store).level x 0 ≤ int64Max := by
    rw [hmuse]
    exact hdep.range
  obtain ⟨hm3, hpend⟩ := revested (w := -tw) hs2 he2 ha' hf rfl
  rw [← e3] at hm3 hpend
  have hacc : acc ∈ (polls d₂.store).nodes := Polls.mem_nodes.mpr ⟨_, get_ballot_some ha'⟩
  have hown2 : (polls d₂.store).level acc 0 = a'.vestingShares.amount :=
    congrFun (Polls.level_of_get (get_ballot_some ha')) 0
  have hheld3 := hm3.held hacc
  have hrange3 := hm3.range hrange2 (by rw [hown2]; exact ⟨hlo, hhi⟩)
  have hfund := polls_takeFromVestingFund h4
  have hheld4 : (polls d₄.store).held = (polls d₄.store).shares := by
    rw [hfund]
    show (polls d₃.store).held = (polls d₃.store).shares - (tw - asMuse - asVests)
    rw [hheld3, hm3.shares, hmuse]
    show (polls d₁.store).held + -tw = (polls d₁.store).shares - asMuse - (tw - asMuse - asVests)
    rw [hdep.held, hdep.shares, hkept.sound.shares]
    show (polls d.store).held + asVests + -tw =
      (polls d.store).held - asMuse - (tw - asMuse - asVests)
    omega
  have hrates : ∀ i (b : Account), d₄.store.get Kind.account i = some b →
      0 ≤ b.vestingWithdrawRate.amount ∧ b.vestingWithdrawRate.amount ≤ int64Max := by
    have hr1 := rates_of_composed (composed_depositVests (l := depositParts) _ _ _ (by decide)) h1
      (by decide) (by decide) hkept.rates
    have hr2 := rates_of_composed (composed_depositMuse (l := [.account .muse, .props .fund,
      .props .shares]) _ _ _ (by decide)) h2 (by decide) (by decide) hr1
    refine rates_of_composed (composed_takeFromVestingFund (l := [.props .fund, .props .shares]) _ _
      (by decide)) h4 (by decide) (by decide) fun i b hb => ?_
    rw [e3, Store.get_write_self] at hb
    split at hb
    · cases hb
      dsimp only
      split
      · exact ⟨le_refl 0, show (0 : Int) ≤ int64Max by decide⟩
      · exact hr2 acc a' ha'
    · exact hr2 i b hb
  have hs4 : (polls d₄.store).Steady K := by
    rw [hfund]
    exact hm3.steady.setShares _
  have hpend4 : Polls.Pending K (fun _ _ => 0) (fun _ => 0) (atLevel 0 (-tw)) acc
      (polls d₄.store) := by
    rw [hfund]
    exact hpend.setShares _
  have hrange4 : ∀ x, int64Min ≤ (polls d₄.store).level x 0 ∧
      (polls d₄.store).level x 0 ≤ int64Max := by
    rw [hfund]
    exact hrange3
  split at hr
  · obtain ⟨_, d₅, h5, h6⟩ := Action.bind_ok.mp hr
    obtain ⟨hm5, he5⟩ := settled_adjustProxied h5 hs4 hpend4
    have hacc4 : acc ∈ (polls d₄.store).nodes := by
      rw [hfund]
      exact hm3.nodes ▸ hacc
    have hheld5 := hm5.held hacc4
    have hrates5 := rates_of_composed (composed_adjustProxiedWitnessVotes (l := voteParts) _ _
      (by decide)) h5 (by decide) (by decide) hrates
    refine ⟨?_, ?_, rates_of_composed (composed_recursiveRecalculateScore (l := [.account .score])
      _ _ (by decide)) h6 (by decide) (by decide) hrates5⟩
    · rw [polls_recursiveRecalculateScore h6]
      exact ⟨hm5.steady, he5, by rw [hm5.shares, ← hheld4, ← add_zero (polls d₄.store).held, ← hheld5]⟩
    · rw [polls_recursiveRecalculateScore h6]
      refine fun x => hm5.range hrange4 ?_ x
      rw [add_zero]
      exact hrange4 acc
  · cases hr
    obtain rfl : tw = 0 := by omega
    exact ⟨⟨hs4, hpend4.of_pending_zero, hheld4.symm⟩, hrange4, hrates⟩

theorem kept_beside {α : Type} {x : Act n α} (h : Composed besideParts x) :
    Steps (StayKept K) x := kept_of_composed h (by decide) (by decide)

/-- **All that pays in vesting shares keeps the polls sound.** -/
theorem deposits_kept : Deposits (StayKept K) where
  create := kept_createVesting
  withdraw _ _ _ h := (kept_processVestingWithdrawal _).step h
  beside := kept_beside

end MuseChain
