/-
  File:      MuseChain/Safety/Routes.lean
  Subject:   Withdraw routes: their percentages, their number, and what they are paid.

  * `Routed s`: the counter of an account is the number of its routes, and those that the limit check
    visits take at most 100 percent. `Worked.routed`: it is so whatever the deeds.
  * `PaysRoutes acc v s t`: every route gets its part of `v` shares and the account the rest.
  * **`withdraw_routes_paid`**: as long as no route goes to the first account, all routes of an account
    take at most 100 percent and all of them are paid.
-/
import MuseChain.Safety.Deeds
import MuseChain.Safety.Supply
import MuseChain.Lib.Groups
import Mathlib.Algebra.BigOperators.Ring.Finset

namespace MuseChain

variable {n : Nat}

/-! ## 1. Sums over routes -/

/-- The routes from an account. -/
def routesOf (s : Store chainSchema) (acc : Nat) : List (Nat × WithdrawVestingRoute) :=
  (s.rows Kind.withdrawVestingRoute).filter fun r : Nat × WithdrawVestingRoute =>
    r.2.fromAccount = acc

/-- A sum over all routes. -/
def routeSum (s : Store chainSchema) (f : WithdrawVestingRoute → Int) : Int :=
  (s.table Kind.withdrawVestingRoute).map.sum f

/-- One for each route from the account. -/
def countOf (acc : Nat) (r : WithdrawVestingRoute) : Int := if r.fromAccount = acc then 1 else 0

/-- The percentage of a route from the account, when the limit check visits it. -/
def percentOf (acc : Nat) (r : WithdrawVestingRoute) : Int :=
  if r.fromAccount = acc ∧ 0 < r.toAccount then r.percent else 0

section

variable {s t : Store chainSchema} {acc : Nat}

theorem routeSum_put {i : Nat} {o : Option WithdrawVestingRoute}
    (hf : ∀ a, o = some a → s.free Kind.withdrawVestingRoute i a = true)
    (f : WithdrawVestingRoute → Int) :
    routeSum (s.put Kind.withdrawVestingRoute i o hf) f =
      routeSum s f - FMap.part f (s.get Kind.withdrawVestingRoute i) + FMap.part f o := by
  unfold routeSum
  simp only [Store.put, Function.update_self]
  exact FMap.sum_put ..

theorem routeSum_congr (h : ∀ i, t.get Kind.withdrawVestingRoute i = s.get Kind.withdrawVestingRoute i)
    (f : WithdrawVestingRoute → Int) : routeSum t f = routeSum s f :=
  FMap.sum_congr fun i => congrArg (FMap.part f) (h i)

theorem countOf_nonneg (acc : Nat) (r : WithdrawVestingRoute) : 0 ≤ countOf acc r := by
  unfold countOf
  split <;> decide

/-- A route that is there is counted. -/
theorem le_routeSum_count {i : Nat} {r : WithdrawVestingRoute}
    (hr : s.get Kind.withdrawVestingRoute i = some r) :
    countOf acc r ≤ routeSum s (countOf acc) := by
  have hrest := routeSum_put (s := s) (i := i) (o := none) (fun _ h => by cases h) (countOf acc)
  have hnonneg : 0 ≤ routeSum (s.put Kind.withdrawVestingRoute i none fun _ h => by cases h)
      (countOf acc) := FMap.sum_nonneg (countOf_nonneg acc)
  rw [hr, FMap.part_some, FMap.part_none] at hrest
  omega

theorem routeSum_count : routeSum s (countOf acc) = (routesOf s acc).length := by
  have h := sum_map_filter (s.rows Kind.withdrawVestingRoute)
    (fun r : Nat × WithdrawVestingRoute => r.2.fromAccount = acc) fun _ => (1 : Int)
  rw [List.map_const', List.sum_replicate, nsmul_eq_mul, mul_one] at h
  refine Eq.trans ?_ h.symm
  refine congrArg List.sum (List.map_congr_left fun r _ => ?_)
  simp only [countOf, decide_eq_true_eq]

/-- All routes are visited when none goes to the first account. -/
theorem routeSum_percent (h : ∀ i (r : WithdrawVestingRoute),
      s.get Kind.withdrawVestingRoute i = some r → 0 < r.toAccount) :
    routeSum s (percentOf acc) = (((routesOf s acc).map (·.2.percent)).sum : Nat) := by
  rw [Nat.cast_list_sum, List.map_map]
  refine Eq.trans ?_ (sum_map_filter _ _ _).symm
  refine congrArg List.sum (List.map_congr_left fun r hr => ?_)
  have hto := h r.1 r.2 (FMap.mem_rows.mp hr)
  simp only [percentOf, hto, and_true, decide_eq_true_eq, Function.comp_apply]

end

/-! ## 2. The counters -/

/-- The routes are counted, and they are from accounts. -/
structure RoutesCounted (s : Store chainSchema) : Prop where
  count : ∀ acc (a : Account), s.get Kind.account acc = some a →
    (a.withdrawRoutes : Int) = routeSum s (countOf acc)
  limit : ∀ acc (a : Account), s.get Kind.account acc = some a →
    a.withdrawRoutes ≤ maxWithdrawRoutes
  owned : ∀ i (r : WithdrawVestingRoute), s.get Kind.withdrawVestingRoute i = some r →
    (s.get Kind.account r.fromAccount).isSome

/-- The routes are counted, and what the limit check visits keeps the limit. -/
structure Routed (s : Store chainSchema) : Prop extends RoutesCounted s where
  percents : ∀ acc, routeSum s (percentOf acc) ≤ percent100

section

variable {s t : Store chainSchema}

/-- An account that is not there has no routes. -/
theorem RoutesCounted.no_routes (hs : RoutesCounted s) {acc : Nat} (h : s.get Kind.account acc = none) :
    routeSum s (countOf acc) = 0 := by
  rw [routeSum_count]
  norm_cast
  rw [List.length_eq_zero_iff, routesOf, List.filter_eq_nil_iff]
  rintro ⟨i, r⟩ hr hfrom
  have howned := hs.owned i r (FMap.mem_rows.mp hr)
  rw [show r.fromAccount = acc from of_decide_eq_true hfrom, h] at howned
  cases howned

/-- The parts that routes are made of. -/
def Part.routed : Part → Bool
  | .made .withdrawVestingRoute => true
  | .gone .withdrawVestingRoute => true
  | .whole .withdrawVestingRoute => true
  | .gone .account => true
  | .account .routeCount => true
  | _ => false

theorem not_mem_of_unrouted {l : List Part} (hl : ∀ p ∈ l, p.routed = false) {p : Part}
    (hp : p.routed = true) : p ∉ l := fun h => by
  rw [hl p h] at hp
  cases hp

theorem routes_of_changes {l : List Part} (h : Obeys (changes l) s t)
    (hl : ∀ p ∈ l, p.routed = false) (i : Nat) :
    t.get Kind.withdrawVestingRoute i = s.get Kind.withdrawVestingRoute i :=
  get_of_unchanged h (not_mem_of_unrouted hl rfl) (not_mem_of_unrouted hl rfl)
    fun _ _ hab => Or.resolve_left hab (not_mem_of_unrouted hl rfl)

/-- What leaves routes and counters alone. -/
theorem Routed.of_changes {l : List Part} (hs : Routed s) (h : Obeys (changes l) s t)
    (hl : ∀ p ∈ l, p.routed = false) : Routed t := by
  have hroutes := routes_of_changes h hl
  have haccounts : .gone .account ∉ l := not_mem_of_unrouted hl rfl
  have hsame : ∀ {a b : Account}, Same l Kind.account a b → a.withdrawRoutes = b.withdrawRoutes :=
    fun hab => Or.resolve_left (hab .routeCount) (not_mem_of_unrouted hl rfl)
  refine ⟨⟨fun acc b hb => ?_, fun acc b hb => ?_, fun i r hr => ?_⟩, fun acc => ?_⟩
  · rw [routeSum_congr hroutes]
    obtain ⟨a, b', ha, hb', hab⟩ | ⟨_, hn⟩ | ⟨a, b', hn, hb', _, hblank, hab⟩ :=
      changes_cases (h Kind.account acc) haccounts
    · obtain rfl : b' = b := Option.some.inj (hb'.symm.trans hb)
      rw [← hsame hab]
      exact hs.count acc a ha
    · cases hn.symm.trans hb
    · obtain rfl : b' = b := Option.some.inj (hb'.symm.trans hb)
      obtain ⟨_, _, _, _, _, _, _, _, _, _, _, hzero, _⟩ := hblank
      rw [← hsame hab, hzero, hs.no_routes hn]
      rfl
  · obtain ⟨a, b', ha, hb', hab⟩ | ⟨_, hn⟩ | ⟨a, b', hn, hb', _, hblank, hab⟩ :=
      changes_cases (h Kind.account acc) haccounts
    · obtain rfl : b' = b := Option.some.inj (hb'.symm.trans hb)
      rw [← hsame hab]
      exact hs.limit acc a ha
    · cases hn.symm.trans hb
    · obtain rfl : b' = b := Option.some.inj (hb'.symm.trans hb)
      obtain ⟨_, _, _, _, _, _, _, _, _, _, _, hzero, _⟩ := hblank
      rw [← hsame hab, hzero]
      exact Nat.zero_le _
  · rw [hroutes] at hr
    have howned := hs.owned i r hr
    obtain ⟨a, b, _, hb, _⟩ | ⟨ha, _⟩ | ⟨a, b, ha, _⟩ :=
      changes_cases (h Kind.account r.fromAccount) haccounts
    · rw [hb]
      rfl
    · rw [ha] at howned
      cases howned
    · rw [ha] at howned
      cases howned
  · rw [routeSum_congr hroutes]
    exact hs.percents acc

/-- One route of the account `acc` takes another's place, or is new or gone, and the counter of the
account is `m`. -/
structure Rerouted (s t : Store chainSchema) (acc i m : Nat) (a : Account)
    (old new : Option WithdrawVestingRoute) : Prop where
  owner : s.get Kind.account acc = some a
  before : s.get Kind.withdrawVestingRoute i = old
  routes : ∀ j, t.get Kind.withdrawVestingRoute j =
    if j = i then new else s.get Kind.withdrawVestingRoute j
  accounts : ∀ c, (t.get Kind.account c).map Account.withdrawRoutes =
    if c = acc then some m else (s.get Kind.account c).map Account.withdrawRoutes
  oldFrom : ∀ r, old = some r → r.fromAccount = acc
  newFrom : ∀ r, new = some r → r.fromAccount = acc

section

variable {acc i m : Nat} {a : Account} {old new : Option WithdrawVestingRoute}

theorem Rerouted.sum (h : Rerouted s t acc i m a old new) (f : WithdrawVestingRoute → Int) :
    routeSum t f = routeSum s f - FMap.part f old + FMap.part f new := by
  rw [← h.before]
  refine Eq.trans ?_ (FMap.sum_put f _ i new)
  refine FMap.sum_congr fun j => congrArg (FMap.part f) ?_
  rw [FMap.get_put]
  exact h.routes j

theorem part_countOf_ne {c : Nat} {o : Option WithdrawVestingRoute} (hc : c ≠ acc)
    (ho : ∀ r, o = some r → r.fromAccount = acc) : FMap.part (countOf c) o = 0 := by
  cases o with
  | none => rfl
  | some r => exact if_neg fun e => hc (e.symm.trans (ho r rfl))

/-- What the routes of other accounts take. -/
theorem part_percentOf_ne {c : Nat} {o : Option WithdrawVestingRoute} (hc : c ≠ acc)
    (ho : ∀ r, o = some r → r.fromAccount = acc) : FMap.part (percentOf c) o = 0 := by
  cases o with
  | none => rfl
  | some r => exact if_neg fun h => hc (h.1.symm.trans (ho r rfl))

theorem Rerouted.counted (h : Rerouted s t acc i m a old new) (hs : RoutesCounted s)
    (hm : (m : Int) = a.withdrawRoutes - FMap.part (countOf acc) old + FMap.part (countOf acc) new)
    (hlimit : m ≤ maxWithdrawRoutes) : RoutesCounted t := by
  have hstay : ∀ c, (s.get Kind.account c).isSome → (t.get Kind.account c).isSome := by
    intro c hc
    have hsame := congrArg Option.isSome (h.accounts c)
    rw [Option.isSome_map] at hsame
    rw [hsame]
    split
    · rfl
    · rw [Option.isSome_map]
      exact hc
  refine ⟨fun c b hb => ?_, fun c b hb => ?_, fun j r hr => ?_⟩
  · have hc := h.accounts c
    rw [hb, Option.map_some] at hc
    split at hc
    · rename_i e
      subst e
      rw [Option.some.inj hc, hm, hs.count c a h.owner, h.sum]
    · rename_i e
      obtain ⟨b', hb', hsame⟩ := Option.map_eq_some_iff.mp hc.symm
      rw [h.sum, part_countOf_ne e h.oldFrom, part_countOf_ne e h.newFrom, ← hsame,
        hs.count c b' hb']
      omega
  · have hc := h.accounts c
    rw [hb, Option.map_some] at hc
    split at hc
    · rw [Option.some.inj hc]
      exact hlimit
    · obtain ⟨b', hb', hsame⟩ := Option.map_eq_some_iff.mp hc.symm
      rw [← hsame]
      exact hs.limit c b' hb'
  · rw [h.routes] at hr
    split at hr
    · rw [h.newFrom r hr]
      exact hstay acc (by rw [h.owner]; rfl)
    · exact hstay _ (hs.owned j r hr)

end

/-- The 16-bit total of the limit check. -/
theorem foldl_u16 (l : List (Nat × WithdrawVestingRoute)) (total : Nat) :
    l.foldl (fun t r => u16 (t + r.2.percent)) (u16 total) =
      u16 (total + (l.map (·.2.percent)).sum) := by
  induction l generalizing total with
  | nil => rfl
  | cons r l ih =>
    have hcut : u16 (u16 total + r.2.percent) = u16 (total + r.2.percent) := Nat.mod_add_mod ..
    rw [List.foldl_cons, hcut, ih, List.map_cons, List.sum_cons, Nat.add_assoc]

/-- A total of 16 bits that did not wrap is the sum. -/
theorem percents_of_check {acc : Nat} {d d' : Database chainSchema}
    {l : List (Nat × WithdrawVestingRoute)}
    (hl : (withdrawRoutesOf acc : Act n (List (Nat × WithdrawVestingRoute))).run d = .ok l d')
    (hcheck : l.foldl (fun t r => u16 (t + r.2.percent)) 0 ≤ percent100)
    (hsmall : routeSum d.store (percentOf acc) < 65536) :
    routeSum d.store (percentOf acc) ≤ percent100 := by
  have hsum : routeSum d.store (percentOf acc) = ((l.map (·.2.percent)).sum : Nat) := by
    cases hl
    rw [((List.perm_insertionSort _ _).map _).sum_eq, Nat.cast_list_sum, List.map_map]
    refine Eq.trans ?_ (sum_map_filter _ _ _).symm
    refine congrArg List.sum (List.map_congr_left fun r _ => ?_)
    simp only [percentOf, Bool.and_eq_true, decide_eq_true_eq, Function.comp_apply]
  have hfold := foldl_u16 l 0
  rw [hsum] at hsmall ⊢
  rw [show u16 0 = 0 from rfl] at hfold
  rw [hfold, Nat.zero_add, u16, Nat.mod_eq_of_lt (by exact_mod_cast hsmall)] at hcheck
  exact_mod_cast hcheck

theorem percentOf_nonneg (c : Nat) (r : WithdrawVestingRoute) : 0 ≤ percentOf c r := by
  unfold percentOf
  split
  · exact Int.natCast_nonneg _
  · exact le_rfl

theorem percentOf_le (c : Nat) (r : WithdrawVestingRoute) : percentOf c r ≤ r.percent := by
  unfold percentOf
  split
  · exact le_rfl
  · exact Int.natCast_nonneg _

/-- The limit check, when the percentage of one route is new. -/
theorem Rerouted.percents {acc i m : Nat} {a : Account} {old new : Option WithdrawVestingRoute}
    {e d' : Database chainSchema} {u : Unit} (h : Rerouted s e.store acc i m a old new)
    (hs : Routed s) (hnew : ∀ r, new = some r → r.percent ≤ percent100)
    (hr : (do
      let routes ← withdrawRoutesOf acc
      Action.require (routes.foldl (fun t r => u16 (t + r.2.percent)) 0 ≤ percent100)
        "More than 100% of vesting allocated to destinations" : Act n Unit).run e = .ok u d') :
    d' = e ∧ ∀ c, routeSum e.store (percentOf c) ≤ percent100 := by
  obtain ⟨l, e', hl, hr⟩ := Action.bind_ok.mp hr
  have hsame : e' = e := by cases hl; rfl
  obtain ⟨hcheck, hd'⟩ := Action.require_ok.mp hr
  refine ⟨hd'.trans hsame, fun c => ?_⟩
  have hbefore := hs.percents c
  by_cases hc : c = acc
  · subst hc
    refine percents_of_check hl hcheck ?_
    have holdPart : 0 ≤ FMap.part (percentOf c) old := by
      cases old with
      | none => exact le_rfl
      | some r => exact percentOf_nonneg c r
    have hnewPart : FMap.part (percentOf c) new ≤ percent100 := by
      cases new with
      | none => exact Int.natCast_nonneg _
      | some r => exact le_trans (percentOf_le c r) (by exact_mod_cast hnew r rfl)
    rw [h.sum]
    unfold percent100 at *
    omega
  · rw [h.sum, part_percentOf_ne hc h.oldFrom, part_percentOf_ne hc h.newFrom]
    omega

/-- **An accepted route keeps the counters and the limit**, and it goes to the account that was
named. -/
theorem routed_setWithdrawVestingRoute {fromAccount toAccount : String} {percent : Nat}
    {autoVest : Bool} (hp : percent ≤ percent100) {d d' : Database chainSchema} {u : Unit}
    (hr : (setWithdrawVestingRoute fromAccount toAccount percent autoVest : Act n Unit).run d =
      .ok u d') (hs : Routed d.store) :
    Routed d'.store ∧ ∀ j (r : WithdrawVestingRoute),
      d'.store.get Kind.withdrawVestingRoute j = some r →
      (∃ b : Account, d.store.get Kind.account r.toAccount = some b ∧ b.name = toAccount) ∨
        ∃ q : WithdrawVestingRoute, d.store.get Kind.withdrawVestingRoute j = some q ∧
          q.toAccount = r.toAccount := by
  unfold setWithdrawVestingRoute at hr
  obtain ⟨acc, owner, hacc, _, hr⟩ := bind_getAccountId_ok hr
  obtain ⟨dest, b, hdest, hname, hr⟩ := bind_getAccountId_ok hr
  have hr := bind_findRow_ok.mp hr
  split at hr
  · obtain ⟨_, hr⟩ := Action.bind_require_ok.mp hr
    obtain ⟨a, ha, hr⟩ := bind_getAccount_ok.mp hr
    obtain ⟨hlimit, hr⟩ := Action.bind_require_ok.mp hr
    obtain ⟨i, d₁, h1, hr⟩ := Action.bind_ok.mp hr
    obtain ⟨_, d₂, h2, hr⟩ := Action.bind_ok.mp hr
    obtain ⟨hi, hnone, hf1, e1⟩ := create_store h1
    obtain ⟨a', _, ha', hx, hf2, e2⟩ := modifyWith_store h2
    obtain rfl := Except.ok.inj hx
    rw [e1, Store.get_setNextId, Store.get_write_ne _ (by decide), ha] at ha'
    obtain rfl := Option.some.inj ha'
    have hcut : u16 (a.withdrawRoutes + 1) = a.withdrawRoutes + 1 :=
      Nat.mod_eq_of_lt (by unfold maxWithdrawRoutes at hlimit; omega)
    have hre : Rerouted d.store d₂.store acc i (a.withdrawRoutes + 1) a none
        (some ⟨acc, dest, percent, autoVest⟩) := by
      refine ⟨ha, hnone, fun j => ?_, fun c => ?_, fun r hr => ?_, fun r hr => ?_⟩
      · rw [e2, Store.get_write_ne _ (by decide), e1, Store.get_setNextId, Store.get_write_self, hi]
      · rw [e2, Store.get_write_self, e1, Store.get_setNextId, Store.get_write_ne _ (by decide), hcut]
        split <;> rfl
      · cases hr
      · cases hr
        rfl
    obtain ⟨rfl, hpercents⟩ := hre.percents hs (fun r hr => by cases hr; exact hp) hr
    refine ⟨⟨hre.counted hs.toRoutesCounted ?_ hlimit, hpercents⟩, fun j r hj => ?_⟩
    · rw [FMap.part_none, FMap.part_some, show countOf acc ⟨acc, dest, percent, autoVest⟩ = 1 from
        if_pos rfl]
      omega
    · rw [hre.routes] at hj
      split at hj
      · cases hj
        exact .inl ⟨b, hdest, hname⟩
      · exact .inr ⟨r, hj, rfl⟩
  · rename_i i r hfind
    have hget : d.store.get Kind.withdrawVestingRoute i = some r :=
      FMap.mem_rows.mp (List.mem_of_find?_eq_some hfind)
    have hkey := List.find?_some hfind
    obtain ⟨hfrom, hto⟩ := of_decide_eq_true hkey
    have hone : countOf acc r = 1 := if_pos hfrom
    split at hr
    · obtain ⟨_, d₁, h1, hr⟩ := Action.bind_ok.mp hr
      obtain ⟨_, d₂, h2, hr⟩ := Action.bind_ok.mp hr
      obtain ⟨_, _, e1⟩ := remove_store h1
      obtain ⟨a, _, ha, hx, hf2, e2⟩ := modifyWith_store h2
      obtain rfl := Except.ok.inj hx
      rw [e1, Store.get_erase_ne _ (by decide)] at ha
      have hcount := hs.count acc a ha
      have hge : countOf acc _ ≤ routeSum d.store (countOf acc) := le_routeSum_count hget
      have hlimit := hs.limit acc a ha
      rw [hone] at hge
      have hcut : u16 (a.withdrawRoutes + 65535) = a.withdrawRoutes - 1 := by
        unfold u16
        unfold maxWithdrawRoutes at hlimit
        omega
      have hre : Rerouted d.store d₂.store acc i (a.withdrawRoutes - 1) a (some r) none := by
        refine ⟨ha, hget, fun j => ?_, fun c => ?_, fun r hr => ?_, fun r hr => ?_⟩
        · rw [e2, Store.get_write_ne _ (by decide), e1, Store.get_erase_self]
        · rw [e2, Store.get_write_self, e1, Store.get_erase_ne _ (by decide), hcut]
          split <;> rfl
        · cases hr
          exact hfrom
        · cases hr
      obtain ⟨rfl, hpercents⟩ := hre.percents hs (fun r hr => by cases hr) hr
      refine ⟨⟨hre.counted hs.toRoutesCounted ?_ (by omega), hpercents⟩, fun j r hj => ?_⟩
      · rw [FMap.part_some, FMap.part_none, hone]
        omega
      · rw [hre.routes] at hj
        split at hj
        · cases hj
        · exact .inr ⟨r, hj, rfl⟩
    · obtain ⟨_, d₁, h1, hr⟩ := Action.bind_ok.mp hr
      obtain ⟨r', hr', hf1, e1⟩ := modify_store h1
      obtain rfl : r = r' := Option.some.inj (hget.symm.trans hr')
      have hre : Rerouted d.store d₁.store acc i owner.withdrawRoutes owner (some r)
          (some { r with percent := percent, autoVest := autoVest }) := by
        refine ⟨hacc, hget, fun j => ?_, fun c => ?_, fun q hq => ?_, fun q hq => ?_⟩
        · rw [e1, Store.get_write_self]
        · rw [e1, Store.get_write_ne _ (by decide)]
          split
          · rename_i hc
            rw [hc, hacc]
            rfl
          · rfl
        · cases hq
          exact hfrom
        · cases hq
          exact hfrom
      obtain ⟨rfl, hpercents⟩ := hre.percents hs (fun r hr => by cases hr; exact hp) hr
      refine ⟨⟨hre.counted hs.toRoutesCounted ?_ (hs.limit acc _ hacc), hpercents⟩, fun j q hj => ?_⟩
      · rw [FMap.part_some, FMap.part_some, hone,
          show countOf acc { r with percent := percent, autoVest := autoVest } = 1 from if_pos hfrom]
        omega
      · rw [hre.routes] at hj
        split at hj
        · rename_i e
          cases hj
          exact .inr ⟨r, e ▸ hget, rfl⟩
        · exact .inr ⟨q, hj, rfl⟩

end

/-! ## 3. Runs -/

/-- The routes go to other accounts than the first. -/
def Unskipped (s : Store chainSchema) : Prop :=
  ∀ i (r : WithdrawVestingRoute), s.get Kind.withdrawVestingRoute i = some r → 0 < r.toAccount

/-- No route goes to the account with the id 0, which is "miners". -/
def skipsNone (s : Store chainSchema) : Operation → Prop
  | .setWithdrawVestingRoute _ toAccount _ _ => ∀ a : Account, s.get Kind.account 0 = some a →
      a.name ≠ toAccount
  | _ => True

section

variable [Fc] {ok : Store chainSchema → Deed → Prop} {g : GenesisState} {s t : Store chainSchema}

/-- Only one operation touches the routes. -/
theorem Deed.Does.unrouted {e : Deed} (h : e.Does s t) :
    (∃ fromAccount toAccount percent autoVest,
      e = .operation (.setWithdrawVestingRoute fromAccount toAccount percent autoVest)) ∨
    ∀ p ∈ e.parts, p.routed = false := by
  cases h with
  | @operation d d' u op clock n push hv ha hdep hr =>
    cases op with
    | setWithdrawVestingRoute fromAccount toAccount percent autoVest => exact .inl ⟨_, _, _, _, rfl⟩
    | proposalUpdate o => cases ha
    | _ => exact .inr (by simp +decide [Operation.parts, Deed.parts])
  | @routine d d' u r n _ hr =>
    cases r <;> exact .inr (by simp +decide [Deed.parts, Routine.parts])
  | deposit n hr => exact .inr (by simp +decide [Deed.parts])
  | withdrawal n _ _ _ hr => exact .inr (by simp +decide [Deed.parts])
  | beside hx hr => exact .inr (by decide)

/-- **Every deed keeps the routes counted.** -/
theorem Deed.Does.routed {e : Deed} (h : e.Does s t) (hs : Routed s) : Routed t := by
  rcases h.unrouted with ⟨fromAccount, toAccount, percent, autoVest, rfl⟩ | hl
  · cases h with
    | operation clock n push hv ha hdep hr =>
      simp only [Operation.validate] at hv
      obtain ⟨_, hv⟩ := check_bind_ok.mp hv
      obtain ⟨_, hv⟩ := check_bind_ok.mp hv
      exact (routed_setWithdrawVestingRoute (check_ok.mp hv) hr hs).1
  · exact hs.of_changes h.changes hl

theorem Worked.routed (h : Worked ok g s) : Routed s := by
  refine h.invariant (fun hg => ?_) fun _ => Deed.Does.routed
  refine Routed.of_changes (s := emptyStore) ?_ ((made_initGenesis g).step hg) (by decide)
  refine ⟨⟨fun _ _ ha => ?_, fun _ _ ha => ?_, fun _ _ hr => ?_⟩, fun acc => ?_⟩
  · cases ha
  · cases ha
  · cases hr
  · exact Int.natCast_nonneg _

/-- **No route is skipped when none was set to the first account.** -/
theorem Worked.unskipped (h : Worked (Deed.Fine skipsNone) g s) : Unskipped s := by
  have hboth : Routed s ∧ Unskipped s := by
    refine h.invariant (I := fun s => Routed s ∧ Unskipped s) (fun hg => ?_)
      fun {e s t} hfine hdoes ⟨hs, hun⟩ => ⟨hdoes.routed hs, ?_⟩
    · refine ⟨Worked.routed (show Worked (fun _ _ => True) g _ from ⟨_, _, hg, .refl⟩), fun i r hr => ?_⟩
      rw [routes_of_changes (s := emptyStore) ((made_initGenesis g).step hg) (by decide)] at hr
      cases hr
    rcases hdoes.unrouted with ⟨fromAccount, toAccount, percent, autoVest, rfl⟩ | hl
    · cases hdoes with
      | operation clock n push hv ha hdep hr =>
        simp only [Operation.validate] at hv
        obtain ⟨_, hv⟩ := check_bind_ok.mp hv
        obtain ⟨_, hv⟩ := check_bind_ok.mp hv
        intro j r hj
        obtain ⟨b, hb, hname⟩ | ⟨q, hq, hto⟩ :=
          (routed_setWithdrawVestingRoute (check_ok.mp hv) hr hs).2 j r hj
        · refine Nat.pos_of_ne_zero fun hzero => ?_
          rw [hzero] at hb
          exact hfine b hb hname
        · rw [← hto]
          exact hun j q hq
    · intro j r hj
      rw [routes_of_changes hdoes.changes hl] at hj
      exact hun j r hj
  exact hboth.2

end

/-! ## 4. Payments -/

/-- The vesting shares of an account. -/
def vestsOf (s : Store chainSchema) (acc : Nat) : Int :=
  FMap.part (fun a : Account => a.vestingShares.amount) (s.get Kind.account acc)

/-- The MUSE of an account. -/
def museOf (s : Store chainSchema) (acc : Nat) : Int :=
  FMap.part (fun a : Account => a.balance.amount) (s.get Kind.account acc)

/-- One account gets vesting shares and MUSE, the others nothing, and the vesting fund loses `fund`
MUSE and `shares` shares. -/
structure Pays (b : Nat) (vests muse fund shares : Int) (s t : Store chainSchema) : Prop where
  vests : ∀ c, vestsOf t c = vestsOf s c + if c = b then vests else 0
  muse : ∀ c, museOf t c = museOf s c + if c = b then muse else 0
  fund : t.props.totalVestingFundMuse.amount = s.props.totalVestingFundMuse.amount - fund
  shares : t.props.totalVestingShares.amount = s.props.totalVestingShares.amount - shares

/-- `x` shares are worth `m` MUSE. -/
def WorthMuse (s : Store chainSchema) (x m : Int) : Prop :=
  ((Asset.vests x).mul s.props.getVestingSharePrice).map Asset.amount = .ok m

/-- The part of `v` shares that a route takes. -/
def routePart (v : Int) (r : WithdrawVestingRoute) : Int := v * r.percent / percent100

/-- The account at the end of a route gets its part, in shares or in what they are worth. -/
def PaysRoute (v : Int) (r : WithdrawVestingRoute) (s t : Store chainSchema) : Prop :=
  if r.autoVest then Pays r.toAccount (routePart v r) 0 0 0 s t
  else ∃ m, WorthMuse s (routePart v r) m ∧ Pays r.toAccount 0 m m (routePart v r) s t

/-- The routes are paid one after the other. -/
inductive PaysEach (v : Int) : List (Nat × WithdrawVestingRoute) → Store chainSchema →
    Store chainSchema → Prop
  | nil {s : Store chainSchema} : PaysEach v [] s s
  | cons {r : Nat × WithdrawVestingRoute} {l : List (Nat × WithdrawVestingRoute)}
      {s t u : Store chainSchema} : PaysRoute v r.2 s t → PaysEach v l t u → PaysEach v (r :: l) s u

/-- All routes of the account are paid their part of its `v` shares, and the account itself what the
rest is worth. -/
def PaysRoutes (acc : Nat) (v : Int) (s t : Store chainSchema) : Prop :=
  ∃ l s' m, l.Perm (routesOf s acc) ∧ PaysEach v l s s' ∧
    WorthMuse s' (v - (l.map fun r => routePart v r.2).sum) m ∧
    Pays acc (-v) m m (v - (l.map fun r => routePart v r.2).sum) s' t

section

variable {s t u : Store chainSchema} {b : Nat} {x m f k x' m' f' k' v : Int}

theorem Pays.trans (h : Pays b x m f k s t) (h' : Pays b x' m' f' k' t u) :
    Pays b (x + x') (m + m') (f + f') (k + k') s u := by
  refine ⟨fun c => ?_, fun c => ?_, ?_, ?_⟩
  · rw [h'.vests, h.vests]
    split <;> omega
  · rw [h'.muse, h.muse]
    split <;> omega
  · rw [h'.fund, h.fund]
    omega
  · rw [h'.shares, h.shares]
    omega

theorem Pays.of_eq (h : Pays b x m f k s t) (hx : x = x') (hm : m = m') (hf : f = f')
    (hk : k = k') : Pays b x' m' f' k' s t := by
  subst hx hm hf hk
  exact h

/-- Nobody is paid. -/
abbrev Unpaid (s t : Store chainSchema) : Prop := Pays 0 0 0 0 0 s t

theorem Unpaid.pays (h : Unpaid s t) : Pays b 0 0 0 0 s t := by
  refine ⟨fun c => ?_, fun c => ?_, h.fund, h.shares⟩
  · rw [h.vests, ite_self, ite_self]
  · rw [h.muse, ite_self, ite_self]

theorem Pays.idle (h : Pays b x m f k s t) (h' : Unpaid t u) : Pays b x m f k s u :=
  (h.trans h'.pays).of_eq (add_zero _) (add_zero _) (add_zero _) (add_zero _)

instance : IsPreorder (Store chainSchema) Unpaid where
  refl s := ⟨fun c => by rw [ite_self, add_zero], fun c => by rw [ite_self, add_zero],
    (sub_zero _).symm, (sub_zero _).symm⟩
  trans _ _ _ h h' := h.idle h'

instance : Calm Unpaid where
  of_aside {s t} h := by
    have hledger := props_of_keep (h Kind.dynamicGlobalProperty 0)
    refine ⟨fun c => ?_, fun c => ?_, ?_, ?_⟩
    · rw [ite_self, add_zero]
      refine (part_of_holdings (f := fun h => h.vestingShares.amount) (fun h hh => ?_)
        (h Kind.account c)).symm
      rw [hh.2.2]
      rfl
    · rw [ite_self, add_zero]
      refine (part_of_holdings (f := fun h => h.balance.amount) (fun h hh => ?_)
        (h Kind.account c)).symm
      rw [hh.1]
      rfl
    · rw [sub_zero]
      exact congrArg (fun l => l.totalVestingFundMuse.amount) hledger.symm
    · rw [sub_zero]
      exact congrArg (fun l => l.totalVestingShares.amount) hledger.symm

/-- An account is written that has more. -/
theorem pays_write_account {a a' : Account} (ha : s.get Kind.account b = some a)
    (hf : s.free Kind.account b a' = true)
    (hx : a'.vestingShares.amount = a.vestingShares.amount + x)
    (hm : a'.balance.amount = a.balance.amount + m) :
    Pays b x m 0 0 s (s.write Kind.account b a' hf) := by
  have hprops : (s.write Kind.account b a' hf).props = s.props := Store.props_put (by decide)
  refine ⟨fun c => ?_, fun c => ?_, by rw [hprops, sub_zero], by rw [hprops, sub_zero]⟩
  · unfold vestsOf
    rw [Store.get_write_self]
    split
    · rename_i e
      rw [e, ha]
      exact hx
    · rw [add_zero]
  · unfold museOf
    rw [Store.get_write_self]
    split
    · rename_i e
      rw [e, ha]
      exact hm
    · rw [add_zero]

variable {d d' : Database chainSchema}

theorem pays_takeFromVestingFund {converted : Asset} {w : Unit}
    (h : (takeFromVestingFund converted x : Act n Unit).run d = .ok w d') :
    Pays b 0 0 converted.amount x d.store d'.store := by
  unfold takeFromVestingFund modifyDgp at h
  obtain ⟨p, y, hp, hy, hfree, e⟩ := modifyWith_store h
  obtain ⟨fund, hfund, hy⟩ := except_bind_ok.mp hy
  obtain ⟨shares, hshares, hy⟩ := except_bind_ok.mp hy
  cases hy
  obtain ⟨_, rfl⟩ := Asset.sub_ok hfund
  obtain ⟨rfl, _⟩ := safe_ok.mp hshares
  have hprops : d.store.props = p := Store.props_of_get hp
  have haccount : ∀ c, d'.store.get Kind.account c = d.store.get Kind.account c := fun c => by
    rw [e, Store.get_write_ne _ (by decide)]
  refine ⟨fun c => ?_, fun c => ?_, ?_, ?_⟩
  · unfold vestsOf
    rw [haccount, ite_self, add_zero]
  · unfold museOf
    rw [haccount, ite_self, add_zero]
  · rw [e, Store.props_write, hprops]
  · rw [e, Store.props_write, hprops]

/-- No share is worth nothing. -/
theorem mul_vests_zero {p : Price} {converted : Asset}
    (h : (Asset.vests 0).mul p = .ok converted) : converted.amount = 0 := by
  have hscale : ∀ {num den y : Int}, Price.scale 0 num den = .ok y → y = 0 := by
    intro num den y hy
    unfold Price.scale at hy
    have hzero : Price.mul128 0 num = 0 := by
      unfold Price.mul128 uint128OfInt
      simp [u128]
    split at hy
    · cases hy
    · rw [hzero, Nat.zero_div] at hy
      cases hy
      rfl
  unfold Asset.mul at h
  split at h
  · obtain ⟨y, hy, h⟩ := except_bind_ok.mp h
    cases h
    exact hscale hy
  · split at h
    · obtain ⟨y, hy, h⟩ := except_bind_ok.mp h
      cases h
      exact hscale hy
    · cases h

theorem PaysEach.append {l l' : List (Nat × WithdrawVestingRoute)} (h : PaysEach v l s t)
    (h' : PaysEach v l' t u) : PaysEach v (l ++ l') s u := by
  induction h with
  | nil => exact h'
  | cons hr _ ih => exact .cons hr (ih h')

/-- A part that is handed out is the part of the route, and it is no debt. -/
theorem routeShare_part {y : Int} {r : WithdrawVestingRoute} (h : routeShare v r.percent = .ok y)
    (hv : int64Min ≤ v ∧ v ≤ int64Max) (hp : 1 ≤ r.percent ∧ r.percent ≤ percent100) :
    y = routePart v r ∧ 0 ≤ y :=
  ⟨routeShare_eq h hp.2 (routeShare_amount h hp hv) hv.2, routeShare_nonneg h hp hv⟩

/-- **The first pass pays the routes that take shares.** -/
theorem paysEach_depositVests (hv : int64Min ≤ v ∧ v ≤ int64Max)
    {l : List (Nat × WithdrawVestingRoute)}
    (hl : ∀ r ∈ l, 1 ≤ r.2.percent ∧ r.2.percent ≤ percent100) {start out : Int}
    (h : (depositVests v l start : Act n Int).run d = .ok out d') :
    PaysEach v (l.filter fun r => r.2.autoVest) d.store d'.store ∧
      out = start + ((l.filter fun r => r.2.autoVest).map fun r => routePart v r.2).sum := by
  induction l generalizing d start with
  | nil =>
    cases h
    exact ⟨.nil, (add_zero _).symm⟩
  | cons r l ih =>
    obtain ⟨i, r⟩ := r
    have hl' : ∀ r ∈ l, 1 ≤ r.2.percent ∧ r.2.percent ≤ percent100 :=
      fun r hr => hl r (List.mem_cons_of_mem _ hr)
    unfold depositVests at h
    rw [List.filter_cons]
    split at h
    · rename_i hauto
      obtain ⟨y, hy, h⟩ := Action.bind_lift_ok.mp h
      obtain ⟨sum, hsum, h⟩ := Action.bind_lift_ok.mp h
      obtain ⟨rfl, _⟩ := safe_ok.mp hsum
      obtain ⟨hpart, hnonneg⟩ := routeShare_part hy hv (hl _ List.mem_cons_self)
      have hcons : ∀ {e : Database chainSchema}, Pays r.toAccount y 0 0 0 d.store e.store →
          (depositVests v l (start + y) : Act n Int).run e = .ok out d' →
          PaysEach v ((i, r) :: l.filter fun r => r.2.autoVest) d.store d'.store ∧
          out = start + (((i, r) :: l.filter fun r => r.2.autoVest).map
            fun r => routePart v r.2).sum := by
        intro e hpays he
        obtain ⟨hrest, hout⟩ := ih hl' he
        refine ⟨.cons ?_ hrest, ?_⟩
        · unfold PaysRoute
          rw [if_pos hauto, ← hpart]
          exact hpays
        · rw [hout, List.map_cons, List.sum_cons, ← hpart, add_assoc]
      rw [if_pos hauto]
      dsimp only at h
      split at h
      · obtain ⟨_, d₁, h1, h⟩ := Action.bind_ok.mp h
        obtain ⟨_, d₂, h2, h⟩ := Action.bind_ok.mp h
        obtain ⟨_, d₃, h3, h⟩ := Action.bind_ok.mp h
        obtain ⟨a, _, ha, hx, hf, e1⟩ := modifyWith_store h1
        obtain ⟨rfl, _⟩ := safe_ok.mp hx
        have hgiven : Pays r.toAccount y 0 0 0 d.store d₁.store := by
          rw [e1]
          exact pays_write_account ha hf rfl (add_zero _).symm
        have hvotes : Unpaid d₁.store d₂.store := (steps_adjustProxiedWitnessVotes _ _).step h2
        have hscore : Unpaid d₂.store d₃.store := (steps_recursiveRecalculateScore _ _).step h3
        exact hcons ((hgiven.idle hvotes).idle hscore) h
      · obtain rfl : y = 0 := by omega
        exact hcons (Unpaid.pays (refl_of Unpaid _)) h
    · rename_i hauto
      rw [if_neg hauto]
      exact ih hl' h

/-- **The second pass pays the routes that take MUSE.** -/
theorem paysEach_depositMuse (hv : int64Min ≤ v ∧ v ≤ int64Max)
    {l : List (Nat × WithdrawVestingRoute)}
    (hl : ∀ r ∈ l, 1 ≤ r.2.percent ∧ r.2.percent ≤ percent100) {start out : Int × Asset}
    (h : (depositMuse v l start : Act n (Int × Asset)).run d = .ok out d') :
    PaysEach v (l.filter fun r => !r.2.autoVest) d.store d'.store ∧
      out.1 = start.1 + ((l.filter fun r => !r.2.autoVest).map fun r => routePart v r.2).sum := by
  induction l generalizing d start with
  | nil =>
    cases h
    exact ⟨.nil, (add_zero _).symm⟩
  | cons r l ih =>
    obtain ⟨i, r⟩ := r
    obtain ⟨deposited, total⟩ := start
    have hl' : ∀ r ∈ l, 1 ≤ r.2.percent ∧ r.2.percent ≤ percent100 :=
      fun r hr => hl r (List.mem_cons_of_mem _ hr)
    unfold depositMuse at h
    rw [List.filter_cons]
    split at h
    · rename_i hauto
      rw [if_neg (by simp only [hauto, Bool.not_true, Bool.false_eq_true, not_false_eq_true])]
      exact ih hl' h
    · rename_i hauto
      obtain ⟨y, hy, h⟩ := Action.bind_lift_ok.mp h
      obtain ⟨sum, hsum, h⟩ := Action.bind_lift_ok.mp h
      obtain ⟨rfl, _⟩ := safe_ok.mp hsum
      obtain ⟨p, hp, h⟩ := bind_getDgp_ok.mp h
      obtain ⟨converted, hmul, h⟩ := Action.bind_lift_ok.mp h
      obtain ⟨total', _, h⟩ := Action.bind_lift_ok.mp h
      obtain ⟨hpart, hnonneg⟩ := routeShare_part hy hv (hl _ List.mem_cons_self)
      have hworth : WorthMuse d.store y converted.amount := by
        unfold WorthMuse
        rw [Store.props_of_get hp, hmul]
        rfl
      have hcons : ∀ {e : Database chainSchema},
          Pays r.toAccount 0 converted.amount converted.amount y d.store e.store →
          (depositMuse v l (deposited + y, total') : Act n (Int × Asset)).run e = .ok out d' →
          PaysEach v ((i, r) :: l.filter fun r => !r.2.autoVest) d.store d'.store ∧
          out.1 = deposited + (((i, r) :: l.filter fun r => !r.2.autoVest).map
            fun r => routePart v r.2).sum := by
        intro e hpays he
        obtain ⟨hrest, hout⟩ := ih hl' he
        refine ⟨.cons ?_ hrest, ?_⟩
        · unfold PaysRoute
          rw [if_neg hauto, ← hpart]
          exact ⟨_, hworth, hpays⟩
        · rw [hout, List.map_cons, List.sum_cons, ← hpart, add_assoc]
      rw [if_pos (by simp only [hauto, Bool.not_false])]
      dsimp only at h
      split at h
      · obtain ⟨_, d₁, h1, h⟩ := Action.bind_ok.mp h
        obtain ⟨_, d₂, h2, h⟩ := Action.bind_ok.mp h
        obtain ⟨a, _, ha, hx, hf, e1⟩ := modifyWith_store h1
        obtain ⟨_, rfl⟩ := Asset.add_ok hx
        have hgiven : Pays r.toAccount 0 converted.amount 0 0 d.store d₁.store := by
          rw [e1]
          exact pays_write_account ha hf (add_zero _).symm rfl
        refine hcons ((hgiven.trans (pays_takeFromVestingFund h2)).of_eq ?_ ?_ ?_ ?_) h
        · exact add_zero _
        · exact add_zero _
        · exact zero_add _
        · exact zero_add _
      · obtain rfl : y = 0 := by omega
        have hzero := mul_vests_zero hmul
        refine hcons ?_ h
        rw [hzero]
        exact Unpaid.pays (refl_of Unpaid _)

/-- **A withdrawal pays the routes that the passes visit**, and the account itself the rest. -/
theorem paysRoutes_of_visited {acc : Nat} {a : Account} {w : Unit} (hun : Unskipped d.store)
    (hv : int64Min ≤ v ∧ v ≤ int64Max)
    (hl : ∀ i (r : WithdrawVestingRoute), d.store.get Kind.withdrawVestingRoute i = some r →
      1 ≤ r.percent ∧ r.percent ≤ percent100)
    (ha : d.store.get Kind.account acc = some a) (hdue : withdrawalDue a = .ok v)
    (h : (processVestingWithdrawal acc : Act n Unit).run d = .ok w d') :
    PaysRoutes acc v d.store d'.store := by
  obtain ⟨a', ha', h⟩ := bind_getAccount_ok.mp h
  obtain rfl : a = a' := Option.some.inj (ha.symm.trans ha')
  obtain ⟨v', hv', h⟩ := Action.bind_lift_ok.mp h
  obtain rfl : v = v' := Except.ok.inj (hdue.symm.trans hv')
  obtain ⟨l, d₁, h1, h⟩ := Action.bind_ok.mp h
  obtain ⟨hsame, hvisited⟩ : d₁ = d ∧ l.Perm (routesOf d.store acc) := by
    cases h1
    refine ⟨rfl, (List.perm_insertionSort _ _).trans (List.Perm.of_eq ?_)⟩
    refine List.filter_congr fun r hr => ?_
    rw [decide_eq_true (hun r.1 r.2 (FMap.mem_rows.mp hr)), Bool.and_true]
  have hlimits : ∀ r ∈ l, 1 ≤ r.2.percent ∧ r.2.percent ≤ percent100 := fun r hr =>
    hl r.1 r.2 (FMap.mem_rows.mp (List.mem_filter.mp (hvisited.mem_iff.mp hr)).1)
  rw [hsame] at h
  obtain ⟨asVests, d₂, h2, h⟩ := Action.bind_ok.mp h
  obtain ⟨⟨asMuse, total⟩, d₃, h3, h⟩ := Action.bind_ok.mp h
  obtain ⟨rest, hrest, h⟩ := Action.bind_lift_ok.mp h
  obtain ⟨rfl, _⟩ := safe_ok.mp hrest
  obtain ⟨toConvert, hto, h⟩ := Action.bind_lift_ok.mp h
  obtain ⟨rfl, _⟩ := safe_ok.mp hto
  obtain ⟨_, h⟩ := Action.bind_require_ok.mp h
  obtain ⟨p, hp, h⟩ := bind_getDgp_ok.mp h
  obtain ⟨converted, hmul, h⟩ := Action.bind_lift_ok.mp h
  obtain ⟨_, d₄, h4, h⟩ := Action.bind_ok.mp h
  obtain ⟨_, d₅, h5, h⟩ := Action.bind_ok.mp h
  obtain ⟨hshares, hasVests⟩ := paysEach_depositVests hv hlimits h2
  obtain ⟨hmuse, hasMuse⟩ := paysEach_depositMuse hv hlimits h3
  have hperm : (l.filter (fun r => r.2.autoVest) ++ l.filter fun r => !r.2.autoVest).Perm l :=
    List.filter_append_perm _ _
  have hsum : v - asMuse - asVests = v - ((l.filter (fun r => r.2.autoVest) ++
      l.filter fun r => !r.2.autoVest).map fun r => routePart v r.2).sum := by
    rw [List.map_append, List.sum_append, hasVests]
    have hmuse' : asMuse = 0 + _ := hasMuse
    rw [hmuse']
    omega
  obtain ⟨b, x, hb, hx, hf, e4⟩ := modifyWith_store h4
  obtain ⟨left, hleft, hx⟩ := except_bind_ok.mp hx
  obtain ⟨balance, hbalance, hx⟩ := except_bind_ok.mp hx
  obtain ⟨withdrawn, _, hx⟩ := except_bind_ok.mp hx
  cases hx
  obtain ⟨rfl, _⟩ := safe_ok.mp hleft
  obtain ⟨_, rfl⟩ := Asset.add_ok hbalance
  have hown : Pays acc (-v) converted.amount 0 0 d₃.store d₄.store := by
    rw [e4]
    exact pays_write_account hb hf (sub_eq_add_neg _ _) rfl
  have hfund : Pays acc (-v) converted.amount converted.amount (v - asMuse - asVests) d₃.store
      d₅.store :=
    (hown.trans (pays_takeFromVestingFund h5)).of_eq (add_zero _) (add_zero _) (zero_add _)
      (zero_add _)
  have hlast : Unpaid d₅.store d'.store := by
    split at h
    · obtain ⟨_, d₆, h6, h⟩ := Action.bind_ok.mp h
      have hvotes : Unpaid d₅.store d₆.store := (steps_adjustProxiedWitnessVotes _ _).step h6
      have hscore : Unpaid d₆.store d'.store := (steps_recursiveRecalculateScore _ _).step h
      exact hvotes.idle hscore
    · cases h
      exact refl_of Unpaid _
  refine ⟨_, d₃.store, converted.amount, hperm.trans hvisited, hshares.append hmuse, ?_, ?_⟩
  · rw [← hsum]
    unfold WorthMuse
    rw [Store.props_of_get hp, hmul]
    rfl
  · rw [← hsum]
    exact hfund.idle hlast

end

/-! ## 5. All routes are paid -/

/-- **Withdraw routes.** As long as no route is set to the first account and no failed attempt was
spoilt, the routes of an account take at most 100 percent, the account counts them, and a withdrawal
pays every one of them its part, rounded down, and the account the rest. -/
theorem withdraw_routes_paid [Fc] {g : GenesisState} {d₀ : Database chainSchema}
    {s : Store chainSchema} (hd : Attained skipsNone Unspoilt g d₀)
    (hworks : Works (Deed.Fine skipsNone) d₀.store s) {acc : Nat} {a : Account}
    (ha : s.get Kind.account acc = some a) :
    ((routesOf s acc).map (·.2.percent)).sum ≤ percent100 ∧
    a.withdrawRoutes = (routesOf s acc).length ∧ a.withdrawRoutes ≤ maxWithdrawRoutes ∧
    ∀ (d d' : Database chainSchema) (v : Int), d.store = s → withdrawalDue a = .ok v →
      (processVestingWithdrawal acc : Act n Unit).run d = .ok () d' →
      PaysRoutes acc v s d'.store := by
  have h : Worked (Deed.Fine skipsNone) g s := hd.reached.worked.works hworks
  have hrouted := h.routed
  have hun : Unskipped s := h.unskipped
  have hkept := h.kept
  refine ⟨?_, ?_, hrouted.limit acc a ha, fun d d' v hd hdue hr => ?_⟩
  · have hsum := hrouted.percents acc
    rw [routeSum_percent hun] at hsum
    exact_mod_cast hsum
  · have hcount := hrouted.count acc a ha
    rw [routeSum_count] at hcount
    exact_mod_cast hcount
  · subst hd
    have hown : (polls d.store).level acc 0 = a.vestingShares.amount :=
      congrFun (Polls.level_of_get (get_ballot_some ha)) 0
    refine paysRoutes_of_visited hun
      (withdrawalDue_range hdue (hown ▸ hkept.range acc) (hkept.rates acc a ha)) (fun i r hi => ?_)
      ha hdue hr
    refine hkept.sound.steady.routes i r.percent ?_
    rw [get_routePercent]
    exact congrArg _ hi

section

attribute [local instance] sampleFc

/-- The init miner holds 1000 vesting shares. -/
def routingGenesis : GenesisState := { sampleGenesis with initialVestingBalances := [⟨3, 1000⟩] }

def routingStart : Database chainSchema := (Node.genesis routingGenesis).db

/-- A quarter of what it withdraws goes to the null account, as shares, and it withdraws. -/
def routingLeaving : Database chainSchema :=
  evaluated (.withdrawVesting initMinerName (Asset.vests 1000))
    (evaluated (.setWithdrawVestingRoute initMinerName "null" 2500 true) routingStart)

/-- It then fails to route more than all of it to the temp account. -/
def routingFailing : Database chainSchema :=
  approved [initMinerName] (proposed
    [.setWithdrawVestingRoute initMinerName tempAccount 5000 true,
      .setWithdrawVestingRoute initMinerName tempAccount 9000 true] routingLeaving)

/-- All of it goes to the first account. -/
def routingSkipped : Database chainSchema :=
  evaluated (.setWithdrawVestingRoute initMinerName minerAccount 10000 true) routingStart

/-- And all of it to the null account. -/
def routingTwice : Database chainSchema :=
  evaluated (.setWithdrawVestingRoute initMinerName "null" 10000 true) routingSkipped

theorem attained_routingStart (ok : Store chainSchema → Operation → Prop) :
    Attained ok Unspoilt routingGenesis routingStart := .genesis (by decide +kernel)

/-- The init miner is paid 76 shares, of which the null account gets 19. -/
theorem withdraw_routes_paid_quarter : ∃ (a : Account) (d' : Database chainSchema),
    routingFailing.store.get Kind.account 3 = some a ∧
    ((routesOf routingFailing.store 3).map (·.2.percent)).sum ≤ percent100 ∧
    a.withdrawRoutes = (routesOf routingFailing.store 3).length ∧
    (processVestingWithdrawal 3 : Act 0 Unit).run routingFailing = .ok () d' ∧
    PaysRoutes 3 76 routingFailing.store d'.store := by
  have hrouted : Attained skipsNone Unspoilt routingGenesis
      (evaluated (.setWithdrawVestingRoute initMinerName "null" 2500 true) routingStart) := by
    refine (attained_routingStart _).evaluated _ (by decide) rfl ?_ (by decide +kernel)
    intro a ha
    have hname : (routingStart.store.get Kind.account 0).map (fun a : Account => a.name) =
        some minerAccount := by decide +kernel
    have hself := (congrArg (Option.map fun a : Account => a.name) ha).symm.trans hname
    rw [show a.name = minerAccount from Option.some.inj hself]
    decide
  have hleaving : Attained skipsNone Unspoilt routingGenesis routingLeaving :=
    hrouted.evaluated _ (by decide) rfl trivial (by decide +kernel)
  have hfailing : Attained skipsNone Unspoilt routingGenesis routingFailing :=
    hleaving.attempted (by decide) trivial (by decide +kernel) fun _ =>
      unspoilt_of_whole (by decide +kernel)
  obtain ⟨a, ha⟩ := Option.isSome_iff_exists.mp (show (routingFailing.store.get
    Kind.account 3).isSome = true by decide +kernel)
  obtain ⟨_, hr⟩ := Outcome.exists_of_isOk (show ((processVestingWithdrawal 3 :
    Act 0 Unit).run routingFailing).isOk = true by decide +kernel)
  have hdue : (routingFailing.store.get Kind.account 3).map
      (fun a : Account => (withdrawalDue a).toOption) = some (some 76) := by decide +kernel
  rw [ha, Option.map_some, Option.some.injEq] at hdue
  obtain ⟨hsum, hcount, _, hpaid⟩ := withdraw_routes_paid (n := 0) hfailing .refl ha
  exact ⟨a, _, ha, hsum, hcount, hr, hpaid _ _ _ rfl (except_of_toOption hdue) hr⟩

/-- With the routes to the first account the init miner gives away 200 percent. -/
theorem withdraw_routes_skipped : ∃ (g : GenesisState) (d : Database chainSchema) (acc : Nat),
    Attained (fun _ _ => True) Unspoilt g d ∧
      percent100 < ((routesOf d.store acc).map (·.2.percent)).sum := by
  refine ⟨routingGenesis, routingTwice, 3, ?_, by decide +kernel⟩
  exact ((attained_routingStart _).evaluated _ (by decide) rfl trivial
    (by decide +kernel)).evaluated _ (by decide) rfl trivial (by decide +kernel)

end

end MuseChain
