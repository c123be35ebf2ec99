/-
  File:      MuseChain/Lib/Delegation.lean
  Subject:   Weights that are handed up along delegations, level by level.

  Every node delegates to one node or to none. A node holds a number at level 0, and at level
  `j + 1` what it got from the nodes that delegate to it: the sum of what they hold at level `j`.
  Levels are kept up to a bound `D`.

  * `Off D corr`: the sums are right but for corrections; `Settled D` without any. One rule for
    a node that takes a part of its correction (`Off.raise`), one for a node that delegates anew
    (`Off.redirect`).
  * `Settled.level_eq`: level `k` of a node is the sum over the nodes `k` delegations below it.
  * `Settled.total`: the weights at the roots, and what the others hold at level `D`, are all.
  * `Grounded`: every chain of delegations ends.
  * `Tallied D lag`: the totals of the votes are the weights of the voters, but for a lag.
-/
import MuseChain.Lib.FMap
import Mathlib.Algebra.BigOperators.Group.Finset.Basic
import Mathlib.Algebra.BigOperators.Group.Finset.Piecewise
import Mathlib.Algebra.BigOperators.Intervals
import Mathlib.Algebra.Group.Int.Defs
import Mathlib.Tactic.Abel
import Mathlib.Tactic.Linarith

namespace MuseChain

/-- Nodes, whom they delegate to, and what they hold at each level. -/
structure Forest (ι : Type) where
  nodes : Finset ι
  up : ι → Option ι
  level : ι → Nat → Int

namespace Forest

variable {ι : Type} [DecidableEq ι] {F F' : Forest ι} {D : Nat}

/-! ## 1. Chains -/

/-- The node that is `k` delegations above. -/
def climb (F : Forest ι) : Nat → ι → Option ι
  | 0, x => some x
  | k + 1, x => (F.up x).bind (climb F k)

omit [DecidableEq ι] in
theorem climb_add (F : Forest ι) (k m : Nat) (x : ι) :
    F.climb (k + m) x = (F.climb k x).bind (F.climb m) := by
  induction k generalizing x with
  | zero => simp [climb]
  | succ k ih =>
    rw [Nat.add_right_comm]
    simp only [climb]
    cases F.up x with
    | none => rfl
    | some y => exact ih y

omit [DecidableEq ι] in
theorem climb_succ_last (F : Forest ι) (k : Nat) (x : ι) :
    F.climb (k + 1) x = (F.climb k x).bind F.up := by
  rw [climb_add]
  congr 1
  funext y
  simp only [climb]
  cases F.up y with
  | none => rfl
  | some z => rfl

/-- Whom the nodes delegate to is a node. -/
def Closed (F : Forest ι) : Prop := ∀ x ∈ F.nodes, ∀ y, F.up x = some y → y ∈ F.nodes

/-- Every chain ends. -/
def Grounded (F : Forest ι) : Prop := ∀ x, ∃ k, F.climb k x = none

omit [DecidableEq ι] in
theorem climb_none_mono {k m : Nat} (hkm : k ≤ m) {x : ι} (h : F.climb k x = none) :
    F.climb m x = none := by
  obtain ⟨r, rfl⟩ := Nat.exists_eq_add_of_le hkm
  rw [climb_add, h]
  rfl

omit [DecidableEq ι] in
/-- **No node is above itself.** -/
theorem Grounded.acyclic (h : F.Grounded) (x : ι) (k : Nat) : F.climb (k + 1) x ≠ some x := by
  intro hx
  have hloop : ∀ m, F.climb (m * (k + 1)) x = some x := by
    intro m
    induction m with
    | zero => simp [climb]
    | succ m ih => rw [Nat.succ_mul, climb_add, ih]; exact hx
  obtain ⟨m, hm⟩ := h x
  have hnone : F.climb (m * (k + 1)) x = none :=
    climb_none_mono (Nat.le_mul_of_pos_right m (Nat.succ_pos k)) hm
  rw [hloop m] at hnone
  cases hnone

omit [DecidableEq ι] in
theorem climb_congr (h : F'.up = F.up) (k : Nat) (x : ι) : F'.climb k x = F.climb k x := by
  induction k generalizing x with
  | zero => rfl
  | succ k ih =>
    simp only [climb, h]
    exact congrArg _ (funext ih)

omit [DecidableEq ι] in
theorem Grounded.congr (hg : F.Grounded) (h : F'.up = F.up) : F'.Grounded := by
  intro x
  obtain ⟨k, hk⟩ := hg x
  exact ⟨k, (climb_congr h k x).trans hk⟩

/-- The forest in which `a` delegates to `r`. -/
def redirect (F : Forest ι) (a : ι) (r : Option ι) : Forest ι :=
  { F with up := Function.update F.up a r }

theorem up_redirect_self (a : ι) (r : Option ι) : (F.redirect a r).up a = r :=
  Function.update_self ..

theorem up_redirect_ne {a x : ι} (h : x ≠ a) (r : Option ι) : (F.redirect a r).up x = F.up x :=
  Function.update_of_ne h ..

/-- A chain that does not come by `a` stays. -/
theorem climb_redirect {a x : ι} {r : Option ι} {k : Nat} (h : ∀ m < k, F.climb m x ≠ some a) :
    (F.redirect a r).climb k x = F.climb k x := by
  induction k generalizing x with
  | zero => rfl
  | succ k ih =>
    have hx : x ≠ a := fun e => h 0 (Nat.succ_pos k) (by rw [e]; rfl)
    simp only [climb]
    rw [up_redirect_ne hx]
    cases hy : F.up x with
    | none => rfl
    | some y =>
      refine ih fun m hm => ?_
      have := h (m + 1) (Nat.succ_lt_succ hm)
      simp only [climb, hy] at this
      exact this

/-- **A node may delegate to where its chain does not come back to it.** -/
theorem Grounded.redirect (h : F.Grounded) {a : ι} {r : Option ι}
    (hr : ∀ y, r = some y → ∀ k, F.climb k y ≠ some a) : (F.redirect a r).Grounded := by
  have ha : ∃ k, (F.redirect a r).climb k a = none := by
    cases hrr : r with
    | none => exact ⟨1, by simp only [climb, up_redirect_self]; rfl⟩
    | some y =>
      obtain ⟨k, hk⟩ := h y
      refine ⟨k + 1, ?_⟩
      simp only [climb, up_redirect_self]
      exact (climb_redirect fun m _ => hr y hrr m).trans hk
  intro x
  obtain ⟨k, hk⟩ := h x
  induction k generalizing x with
  | zero => cases hk
  | succ k ih =>
    by_cases hx : x = a
    · exact hx ▸ ha
    · simp only [climb] at hk
      cases hy : F.up x with
      | none => exact ⟨1, by simp only [climb, up_redirect_ne hx, hy]; rfl⟩
      | some y =>
        rw [hy] at hk
        obtain ⟨m, hm⟩ := ih y hk
        refine ⟨m + 1, ?_⟩
        simp only [climb, up_redirect_ne hx, hy]
        exact hm

/-! ## 2. Sums from below -/

/-- What `p` gets from the nodes that delegate to it. -/
def below (F : Forest ι) (p : ι) (j : Nat) : Int :=
  ∑ x ∈ F.nodes with F.up x = some p, F.level x j

/-- The sums are right but for corrections. -/
def Off (F : Forest ι) (D : Nat) (corr : ι → Nat → Int) : Prop :=
  ∀ p ∈ F.nodes, ∀ j < D, F.level p (j + 1) + corr p j = F.below p j

def Settled (F : Forest ι) (D : Nat) : Prop :=
  ∀ p ∈ F.nodes, ∀ j < D, F.level p (j + 1) = F.below p j

/-- A correction at one node, or at none. -/
def at_ (q : Option ι) (e : Nat → Int) (p : ι) (j : Nat) : Int := if q = some p then e j else 0

/-- One level up. -/
def shift (e : Nat → Int) : Nat → Int
  | 0 => 0
  | j + 1 => e j

theorem settled_iff : F.Settled D ↔ F.Off D fun _ _ => 0 := by
  simp only [Settled, Off, add_zero]

/-- `F'` is `F` with `e` more at the levels of `q`. -/
structure Raised (D : Nat) (q : ι) (e : Nat → Int) (F F' : Forest ι) : Prop where
  nodes : F'.nodes = F.nodes
  up : F'.up = F.up
  self : ∀ j ≤ D, F'.level q j = F.level q j + e j
  other : ∀ x, x ≠ q → F'.level x = F.level x

theorem Raised.below {q : ι} {e : Nat → Int} (h : Raised D q e F F') (hq : q ∈ F.nodes) (p : ι)
    {j : Nat} (hj : j ≤ D) : F'.below p j = F.below p j + at_ (F.up q) e p j := by
  unfold Forest.below at_
  rw [h.nodes, h.up]
  by_cases hp : F.up q = some p
  · have hmem : q ∈ {x ∈ F.nodes | F.up x = some p} := Finset.mem_filter.mpr ⟨hq, hp⟩
    have hrest : ∑ x ∈ {x ∈ F.nodes | F.up x = some p}.erase q, F'.level x j =
        ∑ x ∈ {x ∈ F.nodes | F.up x = some p}.erase q, F.level x j :=
      Finset.sum_congr rfl fun x hx => by rw [h.other x (Finset.ne_of_mem_erase hx)]
    rw [if_pos hp, ← Finset.add_sum_erase _ _ hmem, ← Finset.add_sum_erase _ _ hmem, hrest,
      h.self j hj]
    abel
  · rw [if_neg hp, add_zero]
    refine Finset.sum_congr rfl fun x hx => ?_
    rw [h.other x fun e => hp (e ▸ (Finset.mem_filter.mp hx).2)]

/-- **A node that takes up its correction leaves one, a level higher, to the node above it.** -/
theorem Off.raise {corr : ι → Nat → Int} {q : ι} {e : Nat → Int}
    (h : F.Off D fun p j => corr p j + at_ (some q) e p j) (hq : q ∈ F.nodes)
    (hr : Raised D q (shift e) F F') :
    F'.Off D fun p j => corr p j + at_ (F.up q) (shift e) p j := by
  intro p hp j hj
  rw [hr.nodes] at hp
  have hold := h p hp j hj
  rw [hr.below hq p (le_of_lt hj)]
  by_cases hpq : p = q
  · subst hpq
    have hself : F'.level p (j + 1) = F.level p (j + 1) + e j := hr.self (j + 1) hj
    simp only [at_, if_true] at hold ⊢
    omega
  · have hne : ¬some q = some p := fun e => hpq (Option.some.inj e).symm
    rw [hr.other p hpq]
    simp only [at_, if_neg hne] at hold ⊢
    omega

/-- What is raised at a node that nothing is due to. -/
theorem Off.raised {corr : ι → Nat → Int} {q : ι} {e : Nat → Int} (h : F.Off D corr)
    (hq : q ∈ F.nodes) (h0 : ∀ j, e (j + 1) = 0) (hr : Raised D q e F F') :
    F'.Off D fun p j => corr p j + at_ (F.up q) e p j := by
  intro p hp j hj
  rw [hr.nodes] at hp
  have hold := h p hp j hj
  rw [hr.below hq p (le_of_lt hj)]
  by_cases hpq : p = q
  · subst hpq
    rw [hr.self (j + 1) hj, h0]
    dsimp only
    omega
  · rw [hr.other p hpq]
    dsimp only
    omega

/-- **What a node holds goes from the node above it to the one that it delegates to now.** -/
theorem Off.redirect {corr : ι → Nat → Int} {a : ι} {r : Option ι} (ha : a ∈ F.nodes)
    (h : F.Off D fun p j => corr p j + at_ (F.up a) (F.level a) p j) :
    (F.redirect a r).Off D fun p j => corr p j + at_ r (F.level a) p j := by
  intro p hp j hj
  have hold := h p hp j hj
  have hsplit : ∀ G : Forest ι, a ∈ G.nodes → G.below p j = at_ (G.up a) (G.level a) p j +
      ∑ x ∈ G.nodes.erase a with G.up x = some p, G.level x j := by
    intro G hG
    unfold Forest.below at_
    rw [Finset.sum_filter, Finset.sum_filter, ← Finset.add_sum_erase _ _ hG]
  have hrest : ∑ x ∈ F.nodes.erase a with (F.redirect a r).up x = some p, F.level x j =
      ∑ x ∈ F.nodes.erase a with F.up x = some p, F.level x j := by
    refine Finset.sum_congr (Finset.filter_congr fun x hx => ?_) fun _ _ => rfl
    rw [up_redirect_ne (Finset.ne_of_mem_erase hx)]
  have h1 := hsplit F ha
  have h2 := hsplit (F.redirect a r) ha
  rw [up_redirect_self] at h2
  change (F.redirect a r).below p j = at_ r (F.level a) p j +
    ∑ x ∈ F.nodes.erase a with (F.redirect a r).up x = some p, F.level x j at h2
  rw [hrest] at h2
  dsimp only at hold
  show F.level p (j + 1) + (corr p j + at_ r (F.level a) p j) = _
  omega

/-! ## 3. What the sums amount to -/

/-- **Level `k` of a node is what the nodes `k` delegations below it hold.** -/
theorem Settled.level_eq (h : F.Settled D) (hc : F.Closed) {k : Nat} (hk : k ≤ D) {p : ι}
    (hp : p ∈ F.nodes) :
    F.level p k = ∑ x ∈ F.nodes with F.climb k x = some p, F.level x 0 := by
  induction k generalizing p with
  | zero =>
    have hself : {x ∈ F.nodes | F.climb 0 x = some p} = {p} := by
      ext x
      simp only [climb, Finset.mem_filter, Finset.mem_singleton, Option.some.injEq]
      exact ⟨fun hx => hx.2, fun e => ⟨e ▸ hp, e⟩⟩
    rw [hself, Finset.sum_singleton]
  | succ k ih =>
    rw [h p hp k hk]
    unfold Forest.below
    have hlevel : ∀ y ∈ {y ∈ F.nodes | F.up y = some p}, F.level y k =
        ∑ x ∈ F.nodes, if F.climb k x = some y then F.level x 0 else 0 := by
      intro y hy
      rw [ih (by omega) (Finset.mem_filter.mp hy).1, Finset.sum_filter]
    rw [Finset.sum_congr rfl hlevel, Finset.sum_comm, Finset.sum_filter]
    refine Finset.sum_congr rfl fun x hx => ?_
    rw [climb_succ_last]
    -- the node `k` delegations above `x`, if there is one, is the only term
    cases hy : F.climb k x with
    | none => simp
    | some y =>
      have hmem : ∀ m z, F.climb m x = some z → z ∈ F.nodes := by
        intro m
        induction m with
        | zero => exact fun z hz => Option.some.inj hz ▸ hx
        | succ m ihm =>
          intro z hz
          rw [climb_succ_last] at hz
          obtain ⟨y', hy', hz'⟩ := Option.bind_eq_some_iff.mp hz
          exact hc y' (ihm y' hy') z hz'
      simp only [Option.bind_some, Option.some.injEq]
      by_cases hup : F.up y = some p
      · rw [if_pos hup, Finset.sum_eq_single y]
        · rw [if_pos rfl]
        · exact fun z _ hz => if_neg fun e => hz e.symm
        · exact fun hn => absurd (Finset.mem_filter.mpr ⟨hmem k y hy, hup⟩) hn
      · rw [if_neg hup]
        refine Finset.sum_eq_zero fun z hz => if_neg fun e => hup ?_
        rw [e]
        exact (Finset.mem_filter.mp hz).2

/-- All levels of a node that delegates to none. -/
def weight (F : Forest ι) (D : Nat) (x : ι) : Int :=
  if F.up x = none then ∑ j ∈ Finset.range (D + 1), F.level x j else 0

theorem sum_below (F : Forest ι) (hc : F.Closed) (j : Nat) :
    ∑ p ∈ F.nodes, F.below p j = ∑ x ∈ F.nodes with F.up x ≠ none, F.level x j := by
  unfold Forest.below
  have hterm : ∀ p ∈ F.nodes, ∑ x ∈ F.nodes with F.up x = some p, F.level x j =
      ∑ x ∈ F.nodes, if F.up x = some p then F.level x j else 0 :=
    fun p _ => Finset.sum_filter ..
  rw [Finset.sum_congr rfl hterm, Finset.sum_comm, Finset.sum_filter]
  refine Finset.sum_congr rfl fun x hx => ?_
  cases hy : F.up x with
  | none => simp
  | some y =>
    rw [if_pos (by simp), Finset.sum_eq_single y]
    · rw [if_pos rfl]
    · exact fun z _ hz => if_neg fun e => hz (Option.some.inj e).symm
    · exact fun hn => absurd (hc x hx y hy) hn

/-- **The roots' weights, and what the others hold at the last level, are all there is.** -/
theorem Settled.total (h : F.Settled D) (hc : F.Closed) :
    ∑ x ∈ F.nodes, (if F.up x = none then ∑ j ∈ Finset.range (D + 1), F.level x j
      else F.level x D) = ∑ x ∈ F.nodes, F.level x 0 := by
  induction D with
  | zero =>
    refine Finset.sum_congr rfl fun x _ => ?_
    simp
  | succ D ih =>
    have hprev : F.Settled D := fun p hp j hj => h p hp j (by omega)
    rw [← ih hprev]
    -- level `D + 1` of all nodes is level `D` of those that delegate
    have hlast : ∑ p ∈ F.nodes, F.level p (D + 1) =
        ∑ x ∈ F.nodes with F.up x ≠ none, F.level x D := by
      rw [← sum_below F hc D]
      exact Finset.sum_congr rfl fun p hp => h p hp D (by omega)
    have hsum : ∀ x ∈ F.nodes,
        (if F.up x = none then ∑ j ∈ Finset.range (D + 1 + 1), F.level x j
          else F.level x (D + 1)) =
        (if F.up x = none then ∑ j ∈ Finset.range (D + 1), F.level x j else 0) +
          F.level x (D + 1) := by
      intro x _
      split
      · rw [Finset.sum_range_succ]
      · rw [zero_add]
    rw [Finset.sum_congr rfl hsum, Finset.sum_add_distrib, hlast, Finset.sum_filter,
      ← Finset.sum_add_distrib]
    refine Finset.sum_congr rfl fun x _ => ?_
    by_cases hx : F.up x = none <;> simp [hx]

/-! ## 4. Votes -/

section

variable {κ : Type} [DecidableEq κ]

/-- The weights of the votes for `t`, but for what lags behind. -/
def cast (F : Forest ι) (D : Nat) (lag : ι → Int) (votes : FMap (ι × κ)) (t : κ) : Int :=
  votes.sum fun v => if v.2 = t then F.weight D v.1 - lag v.1 else 0

/-- Every total is what was cast. -/
def Tallied (F : Forest ι) (D : Nat) (lag : ι → Int) (votes : FMap (ι × κ))
    (total : κ → Option Int) : Prop := ∀ t v, total t = some v → v = F.cast D lag votes t

/-- What lags behind at one node. -/
def only (q : ι) (w : Int) (x : ι) : Int := if x = q then w else 0

omit [DecidableEq ι] in
theorem cast_congr {lag lag' : ι → Int} (h : ∀ x, F.weight D x - lag x = F'.weight D x - lag' x)
    (votes : FMap (ι × κ)) (t : κ) : F.cast D lag votes t = F'.cast D lag' votes t := by
  unfold cast
  congr 1
  funext v
  rw [h]

omit [DecidableEq ι] in
theorem Tallied.congr {lag lag' : ι → Int} {votes : FMap (ι × κ)} {total : κ → Option Int}
    (ht : F.Tallied D lag votes total) (h : ∀ x, F.weight D x - lag x = F'.weight D x - lag' x) :
    F'.Tallied D lag' votes total := fun t v hv => (ht t v hv).trans (cast_congr h votes t)

theorem weight_raised {q : ι} {e : Nat → Int} (h : Raised D q e F F') (x : ι) :
    F'.weight D x =
      F.weight D x + only q (if F.up q = none then ∑ j ∈ Finset.range (D + 1), e j else 0) x := by
  unfold weight only
  rw [h.up]
  by_cases hx : x = q
  · subst hx
    rw [if_pos rfl]
    split
    · rw [← Finset.sum_add_distrib]
      exact Finset.sum_congr rfl fun j hj => h.self j (by have := Finset.mem_range.mp hj; omega)
    · rw [add_zero]
  · rw [if_neg hx, add_zero, h.other x hx]

/-- **What is raised at a root lags behind in the totals.** -/
theorem Tallied.raised {q : ι} {e : Nat → Int} {lag : ι → Int} {votes : FMap (ι × κ)}
    {total : κ → Option Int} (ht : F.Tallied D lag votes total) (h : Raised D q e F F') :
    F'.Tallied D (fun x => lag x +
      only q (if F.up q = none then ∑ j ∈ Finset.range (D + 1), e j else 0) x) votes total :=
  ht.congr fun x => by rw [weight_raised h]; ring

/-- The lag of a node is in the totals that it votes for, once for each vote. -/
theorem cast_only (F : Forest ι) (D : Nat) (lag : ι → Int) (votes : FMap (ι × κ)) (q : ι)
    (w : Int) (t : κ) : F.cast D lag votes t = F.cast D (fun x => lag x + only q w x) votes t +
      ((votes.rows.filter fun r => r.2.1 = q).map fun r => if r.2.2 = t then w else 0).sum := by
  unfold cast FMap.sum
  induction votes.rows with
  | nil => rfl
  | cons r rows ih =>
    rw [List.map_cons, List.sum_cons, List.map_cons, List.sum_cons, ih, List.filter_cons]
    unfold only
    by_cases hq : r.2.1 = q <;> by_cases ht : r.2.2 = t <;> simp [hq, ht] <;> ring

omit [DecidableEq ι] in
/-- A vote that is cast. -/
theorem cast_put (lag : ι → Int) (votes : FMap (ι × κ)) {i : Nat} {a : ι} {t : κ}
    (hi : votes.get i = none) (t' : κ) : F.cast D lag (votes.put i (some (a, t))) t' =
      F.cast D lag votes t' + if t = t' then F.weight D a - lag a else 0 := by
  unfold cast
  rw [FMap.sum_put, hi]
  simp

omit [DecidableEq ι] in
/-- A vote that is taken back. -/
theorem cast_erase (lag : ι → Int) (votes : FMap (ι × κ)) {i : Nat} {a : ι} {t : κ}
    (hi : votes.get i = some (a, t)) (t' : κ) : F.cast D lag (votes.put i none) t' =
      F.cast D lag votes t' - if t = t' then F.weight D a - lag a else 0 := by
  unfold cast
  rw [FMap.sum_put, hi]
  simp

end

end Forest

end MuseChain
