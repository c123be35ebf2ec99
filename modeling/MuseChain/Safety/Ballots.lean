/-
  File:      MuseChain/Safety/Ballots.lean
  Subject:   Votes that are cast, taken back and cleared, and proxies that are set.

  The counterparts of the vote and proxy evaluators on `Polls`, with what they keep:
  * `revote`: one vote comes or goes, and its candidate's total with it (`Sound.vote`,
    `Sound.unvote`);
  * `clear`: all votes of an account go (`Due.clear`);
  * `setProxy`: an account delegates anew (`Due.setProxy`).
-/
import MuseChain.Safety.Polls

namespace MuseChain

def Ballot.setCount (b : Ballot) (k : Poll) (n : Nat) : Ballot :=
  match k with
  | .witness => { b with witnessCount := n }
  | .platform => { b with platformCount := n }

@[simp] theorem Ballot.node_setCount (b : Ballot) (k : Poll) (n : Nat) :
    (b.setCount k n).node = b.node := by
  cases k with
  | witness => rfl
  | platform => rfl

@[simp] theorem Ballot.proxy_setCount (b : Ballot) (k : Poll) (n : Nat) :
    (b.setCount k n).proxy = b.proxy := by
  cases k with
  | witness => rfl
  | platform => rfl

@[simp] theorem Ballot.count_setCount_self (b : Ballot) (k : Poll) (n : Nat) :
    (b.setCount k n).count k = n := by
  cases k with
  | witness => rfl
  | platform => rfl

theorem Ballot.count_setCount_ne (b : Ballot) {k k' : Poll} (h : k' ≠ k) (n : Nat) :
    (b.setCount k n).count k' = b.count k' := by
  cases k <;> cases k' <;> first | exact absurd rfl h | rfl

namespace Polls

variable {P Q : Polls} {K : Poll → Prop}

/-! ## 1. What the forest depends on -/

/-- The same accounts, but for how many they vote for. -/
structure SameNodes (P Q : Polls) : Prop where
  accounts : ∀ i, (Q.accounts.get i).map Ballot.node = (P.accounts.get i).map Ballot.node

theorem SameNodes.links (h : SameNodes P Q) : SameLinks P Q := by
  refine ⟨fun i => ?_⟩
  have := congrArg (Option.map fun x : String × String × Int × List Int => (x.1, x.2.1))
    (h.accounts i)
  rw [Option.map_map, Option.map_map] at this
  exact this

theorem SameNodes.level (h : SameNodes P Q) : Q.level = P.level := by
  funext i
  have hi := h.accounts i
  unfold Polls.level
  cases hp : P.accounts.get i with
  | none =>
    rw [hp] at hi
    rw [Option.map_eq_none_iff.mp hi]
  | some a =>
    rw [hp] at hi
    obtain ⟨b, hb, e⟩ := Option.map_eq_some_iff.mp hi
    have e1 : b.vests = a.vests := congrArg (·.2.2.1) e
    have e2 : b.proxied = a.proxied := congrArg (·.2.2.2) e
    rw [hb]
    funext j
    cases j with
    | zero => exact e1
    | succ j => simp only [Ballot.level, e2]

theorem SameNodes.forest (h : SameNodes P Q) (hd : P.Distinct) : Q.forest = P.forest := by
  unfold Polls.forest
  rw [h.links.nodes, h.links.up hd, h.level]

/-! ## 2. One vote -/

/-- Row `r` of the votes becomes `o`, candidate `t` gets `w` more, and account `i` votes for `n`. -/
def revote (P : Polls) (k : Poll) (r : Nat) (o : Option (Nat × Nat)) (t : Nat) (w : Int)
    (i n : Nat) : Polls where
  accounts := P.accounts.put i ((P.accounts.get i).map fun b => b.setCount k n)
  totals := Function.update P.totals k
    ((P.totals k).put t (((P.totals k).get t).map fun x => x + w))
  votes := Function.update P.votes k ((P.votes k).put r o)
  routes := P.routes
  shares := P.shares

section

variable {k : Poll} {r t i n : Nat} {o : Option (Nat × Nat)} {w : Int}

theorem get_revote (j : Nat) : (P.revote k r o t w i n).accounts.get j =
    if j = i then (P.accounts.get i).map fun b => b.setCount k n else P.accounts.get j :=
  FMap.get_put ..

theorem votes_revote_self : (P.revote k r o t w i n).votes k = (P.votes k).put r o :=
  Function.update_self ..

theorem votes_revote_ne {k' : Poll} (hk : k' ≠ k) :
    (P.revote k r o t w i n).votes k' = P.votes k' := Function.update_of_ne hk ..

theorem totals_revote_self : (P.revote k r o t w i n).totals k =
    (P.totals k).put t (((P.totals k).get t).map fun x => x + w) := Function.update_self ..

theorem totals_revote_ne {k' : Poll} (hk : k' ≠ k) :
    (P.revote k r o t w i n).totals k' = P.totals k' := Function.update_of_ne hk ..

theorem sameNodes_revote : SameNodes P (P.revote k r o t w i n) := by
  refine ⟨fun j => ?_⟩
  rw [get_revote]
  split
  · rename_i e
    rw [e, Option.map_map]
    cases P.accounts.get i with
    | none => rfl
    | some b => exact congrArg some (b.node_setCount k n)
  · rfl

theorem count_revote_ne {k' : Poll} (hk : k' ≠ k) {j : Nat} {a b : Ballot}
    (ha : P.accounts.get j = some a) (hb : (P.revote k r o t w i n).accounts.get j = some b) :
    b.count k' = a.count k' := by
  rw [get_revote] at hb
  split at hb
  · rename_i e
    rw [← e, ha] at hb
    cases hb
    exact a.count_setCount_ne hk n
  · rw [ha] at hb
    cases hb
    rfl

/-- What a change of one vote keeps, when the poll stays in order. -/
theorem Sound.revote (hs : Sound K P) (hroll : K k → (P.revote k r o t w i n).Roll k)
    (htally : K k → P.forest.Tallied depth (fun _ => 0) ((P.votes k).put r o)
      ((P.totals k).put t (((P.totals k).get t).map fun x => x + w)).get) :
    Sound K (P.revote k r o t w i n) := by
  have h : SameNodes P (P.revote k r o t w i n) := sameNodes_revote
  have hforest := h.forest hs.steady.distinct
  refine ⟨⟨h.links.distinct hs.steady.distinct,
    fun _ _ ha hp => h.links.proxies hs.steady.proxies ha hp, fun j b hb => ?_,
    hs.steady.grounded.congr (h.links.up hs.steady.distinct), fun k' hk' => ?_,
    hs.steady.routes⟩, ⟨?_, fun k' hk' => ?_⟩, ?_⟩
  · have hj := h.accounts j
    rw [hb] at hj
    obtain ⟨a, ha, e⟩ := Option.map_eq_some_iff.mp hj.symm
    have e2 : a.proxied = b.proxied := congrArg (·.2.2.2) e
    rw [← e2]
    exact hs.steady.slots j a ha
  · by_cases hk : k' = k
    · subst hk
      exact hroll hk'
    · refine h.links.roll (hs.steady.rolls k' hk') (fun j a b ha hb => count_revote_ne hk ha hb)
        (votes_revote_ne hk) fun t' => ?_
      rw [totals_revote_ne hk]
  · rw [hforest]
    exact hs.even.off
  · rw [hforest]
    by_cases hk : k' = k
    · subst hk
      rw [votes_revote_self, totals_revote_self]
      exact htally hk'
    · rw [votes_revote_ne hk, totals_revote_ne hk]
      exact hs.even.tallied k' hk'
  · rw [h.links.nodes, h.level]
    exact hs.shares

theorem Steady.weight {b : Ballot} (hi : P.accounts.get i = some b) (hp : b.proxy = "") :
    P.forest.weight depth i = ∑ j ∈ Finset.range (depth + 1), b.level j := by
  show (if P.up i = none then ∑ j ∈ Finset.range (depth + 1), P.level i j else 0) = _
  rw [if_pos (up_of_proxy_empty hi hp), level_of_get hi]

/-- Who votes after a change of one vote, and for whom. -/
theorem get_revote_some {b : Ballot} (hi : P.accounts.get i = some b) :
    (P.revote k r o t w i n).accounts.get i = some (b.setCount k n) := by
  rw [get_revote, if_pos rfl, hi]
  rfl

theorem isSome_totals_revote (t' : Nat) : (((P.revote k r o t w i n).totals k).get t').isSome =
    ((P.totals k).get t').isSome := by
  rw [totals_revote_self, FMap.get_put]
  split
  · rename_i e
    rw [e, Option.isSome_map]
  · rfl

/-- **An account without a proxy casts a vote.** -/
theorem Sound.vote (hs : Sound K P) {b : Ballot} {x : Int} (hi : P.accounts.get i = some b)
    (hp : b.proxy = "") (hr : (P.votes k).get r = none)
    (hnew : ∀ r', (P.votes k).get r' ≠ some (i, t)) (ht : (P.totals k).get t = some x)
    (hc : b.count k < maxAccountWitnessVotes)
    (hw : w = ∑ j ∈ Finset.range (depth + 1), b.level j) :
    Sound K (P.revote k r (some (i, t)) t w i (b.count k + 1)) := by
  have h : SameNodes P (P.revote k r (some (i, t)) t w i (b.count k + 1)) := sameNodes_revote
  have hrow : ∀ r' v, ((P.votes k).put r (some (i, t))).get r' = some v →
      r' = r ∧ v = (i, t) ∨ r' ≠ r ∧ (P.votes k).get r' = some v := by
    intro r' v hv
    rw [FMap.get_put] at hv
    split at hv
    · rename_i e
      exact .inl ⟨e, (Option.some.inj hv).symm⟩
    · rename_i e
      exact .inr ⟨e, hv⟩
  refine hs.revote (fun hk => ?_) fun hk => ?_
  · have hroll := hs.steady.rolls k hk
    refine ⟨fun r' v hv => ?_, fun r' v hv => ?_, fun r' r'' v hv hv' => ?_, fun j a ha => ?_,
      fun j a ha => ?_⟩
    · rw [votes_revote_self] at hv
      rcases hrow r' v hv with ⟨_, rfl⟩ | ⟨_, hv⟩
      · exact ⟨_, get_revote_some hi, (b.proxy_setCount ..).trans hp⟩
      · obtain ⟨a, ha, hpa⟩ := hroll.voters r' v hv
        obtain ⟨a', ha', _, e⟩ := h.links.get ha
        exact ⟨a', ha', e.trans hpa⟩
    · rw [← Option.isSome_iff_exists, isSome_totals_revote]
      rw [votes_revote_self] at hv
      rcases hrow r' v hv with ⟨_, rfl⟩ | ⟨_, hv⟩
      · exact Option.isSome_iff_exists.mpr ⟨x, ht⟩
      · exact Option.isSome_iff_exists.mpr (hroll.candidates r' v hv)
    · rw [votes_revote_self] at hv hv'
      rcases hrow r' v hv with ⟨e1, e2⟩ | ⟨_, hold⟩ <;>
        rcases hrow r'' v hv' with ⟨e1', e2'⟩ | ⟨_, hold'⟩
      · exact e1.trans e1'.symm
      · exact absurd (e2 ▸ hold') (hnew r'')
      · exact absurd (e2' ▸ hold) (hnew r')
      · exact hroll.once r' r'' v hold hold'
    · rw [votes_revote_self, FMap.sum_put, hr]
      by_cases hj : j = i
      · subst hj
        rw [get_revote_some hi] at ha
        cases ha
        rw [Ballot.count_setCount_self]
        have := hroll.counts j b hi
        simp only [FMap.part_none, FMap.part_some, if_true]
        push_cast
        omega
      · rw [get_revote, if_neg hj] at ha
        have := hroll.counts j a ha
        simp only [FMap.part_none, FMap.part_some, if_neg (Ne.symm hj)]
        omega
    · by_cases hj : j = i
      · subst hj
        rw [get_revote_some hi] at ha
        cases ha
        rw [Ballot.count_setCount_self]
        omega
      · rw [get_revote, if_neg hj] at ha
        exact hroll.limit j a ha
  · intro t' v hv
    rw [Forest.cast_put _ _ hr, Steady.weight hi hp, ← hw]
    rw [FMap.get_put] at hv
    split at hv
    · rename_i e
      subst e
      rw [ht] at hv
      cases hv
      rw [← hs.even.tallied k hk t' x ht]
      simp
    · rename_i e
      rw [if_neg (Ne.symm e), add_zero]
      exact hs.even.tallied k hk t' v hv

/-- **A vote is taken back.** -/
theorem Sound.unvote (hs : Sound K P) {b : Ballot} (hi : P.accounts.get i = some b)
    (hp : b.proxy = "") (hr : (P.votes k).get r = some (i, t))
    (hw : w = ∑ j ∈ Finset.range (depth + 1), b.level j) :
    Sound K (P.revote k r none t (-w) i (b.count k - 1)) := by
  have h : SameNodes P (P.revote k r none t (-w) i (b.count k - 1)) := sameNodes_revote
  have hrow : ∀ r' v, ((P.votes k).put r none).get r' = some v →
      r' ≠ r ∧ (P.votes k).get r' = some v := by
    intro r' v hv
    rw [FMap.get_put] at hv
    split at hv
    · cases hv
    · rename_i e
      exact ⟨e, hv⟩
  refine hs.revote (fun hk => ?_) fun hk => ?_
  · have hroll := hs.steady.rolls k hk
    -- the vote that goes was counted
    have hpos : 1 ≤ b.count k := by
      by_contra hlt
      have hzero : (b.count k : Int) = 0 := by omega
      have hsum := hroll.counts i b hi
      have hput := FMap.sum_put (fun v : Nat × Nat => if v.1 = i then (1 : Int) else 0)
        (P.votes k) r none
      rw [hr] at hput
      simp only [FMap.part_some, FMap.part_none, if_true] at hput
      have hnn : 0 ≤ ((P.votes k).put r none).sum fun v => if v.1 = i then (1 : Int) else 0 := by
        refine FMap.sum_nonneg fun v => ?_
        split <;> omega
      omega
    refine ⟨fun r' v hv => ?_, fun r' v hv => ?_, fun r' r'' v hv hv' => ?_, fun j a ha => ?_,
      fun j a ha => ?_⟩
    · rw [votes_revote_self] at hv
      obtain ⟨a, ha, hpa⟩ := hroll.voters r' v (hrow r' v hv).2
      obtain ⟨a', ha', _, e⟩ := h.links.get ha
      exact ⟨a', ha', e.trans hpa⟩
    · rw [← Option.isSome_iff_exists, isSome_totals_revote]
      rw [votes_revote_self] at hv
      exact Option.isSome_iff_exists.mpr (hroll.candidates r' v (hrow r' v hv).2)
    · rw [votes_revote_self] at hv hv'
      exact hroll.once r' r'' v (hrow r' v hv).2 (hrow r'' v hv').2
    · rw [votes_revote_self, FMap.sum_put, hr]
      by_cases hj : j = i
      · subst hj
        rw [get_revote_some hi] at ha
        cases ha
        rw [Ballot.count_setCount_self]
        have := hroll.counts j b hi
        simp only [FMap.part_none, FMap.part_some, if_true]
        omega
      · rw [get_revote, if_neg hj] at ha
        have := hroll.counts j a ha
        simp only [FMap.part_none, FMap.part_some, if_neg (Ne.symm hj)]
        omega
    · by_cases hj : j = i
      · subst hj
        rw [get_revote_some hi] at ha
        cases ha
        rw [Ballot.count_setCount_self]
        have := hroll.limit j b hi
        omega
      · rw [get_revote, if_neg hj] at ha
        exact hroll.limit j a ha
  · intro t' v hv
    rw [Forest.cast_erase _ _ hr, Steady.weight hi hp, ← hw]
    rw [FMap.get_put] at hv
    split at hv
    · rename_i e
      subst e
      obtain ⟨x, hx, rfl⟩ := Option.map_eq_some_iff.mp hv
      rw [← hs.even.tallied k hk t' x hx]
      simp
      rfl
    · rename_i e
      rw [if_neg (Ne.symm e), sub_zero]
      exact hs.even.tallied k hk t' v hv

end

/-! ## 3. All votes of an account -/

/-- The account votes for nobody any more. -/
def clear (P : Polls) (k : Poll) (i : Nat) : Polls where
  accounts := P.accounts.put i ((P.accounts.get i).map fun b => b.setCount k 0)
  totals := P.totals
  votes := Function.update P.votes k ((P.votes k).filter fun v => decide (v.1 ≠ i))
  routes := P.routes
  shares := P.shares

/-- The account votes for nobody. -/
def Silent (K : Poll → Prop) (i : Nat) (P : Polls) : Prop :=
  ∀ k, K k → ∀ r v, (P.votes k).get r = some v → v.1 ≠ i

/-- Without the votes of `i`, a sum to which they add nothing is the same. -/
theorem sum_filter_votes {m : FMap (Nat × Nat)} {i : Nat} {f : Nat × Nat → Int}
    (h : ∀ v : Nat × Nat, v.1 = i → f v = 0) :
    (m.filter fun v => decide (v.1 ≠ i)).sum f = m.sum f := by
  refine FMap.sum_congr_of fun r => ?_
  rw [FMap.get_filter]
  cases m.get r with
  | none => rfl
  | some v =>
    by_cases hv : v.1 = i
    · simp [Option.filter, hv, h v hv]
    · simp [Option.filter, hv]

section

variable {k : Poll} {i : Nat} {corr : Nat → Nat → Int} {lag : Nat → Int}

theorem get_clear (j : Nat) : (P.clear k i).accounts.get j =
    if j = i then (P.accounts.get i).map fun b => b.setCount k 0 else P.accounts.get j :=
  FMap.get_put ..

theorem sameNodes_clear : SameNodes P (P.clear k i) := by
  refine ⟨fun j => ?_⟩
  rw [get_clear]
  split
  · rename_i e
    rw [e, Option.map_map]
    cases P.accounts.get i with
    | none => rfl
    | some b => exact congrArg some (b.node_setCount k 0)
  · rfl

theorem votes_clear_self : (P.clear k i).votes k = (P.votes k).filter fun v => decide (v.1 ≠ i) :=
  Function.update_self ..

theorem votes_clear_ne {k' : Poll} (hk : k' ≠ k) : (P.clear k i).votes k' = P.votes k' :=
  Function.update_of_ne hk ..

/-- What votes there are after the clearing. -/
theorem vote_of_clear {k' : Poll} {r : Nat} {v : Nat × Nat}
    (hv : ((P.clear k i).votes k').get r = some v) :
    (P.votes k').get r = some v ∧ (k' = k → v.1 ≠ i) := by
  by_cases hk : k' = k
  · subst hk
    rw [votes_clear_self, FMap.get_filter, Option.filter_eq_some_iff] at hv
    exact ⟨hv.1, fun _ => of_decide_eq_true hv.2⟩
  · rw [votes_clear_ne hk] at hv
    exact ⟨hv, fun e => absurd e hk⟩

theorem Roll.clear (hr : P.Roll k) : (P.clear k i).Roll k where
  voters := by
    intro r v hv
    obtain ⟨a, ha, hp⟩ := hr.voters r v (vote_of_clear hv).1
    obtain ⟨a', ha', _, e⟩ := (sameNodes_clear (k := k) (i := i)).links.get ha
    exact ⟨a', ha', e.trans hp⟩
  candidates r v hv := hr.candidates r v (vote_of_clear hv).1
  once r r' v hv hv' := hr.once r r' v (vote_of_clear hv).1 (vote_of_clear hv').1
  counts := by
    intro j a ha
    rw [votes_clear_self]
    rw [get_clear] at ha
    split at ha
    · rename_i e
      obtain ⟨b, _, rfl⟩ := Option.map_eq_some_iff.mp ha
      subst e
      rw [Ballot.count_setCount_self]
      refine (FMap.sum_zero _).symm.trans (FMap.sum_eq fun r v hv => ?_)
      rw [FMap.get_filter, Option.filter_eq_some_iff] at hv
      exact (if_neg (of_decide_eq_true hv.2)).symm
    · rename_i e
      rw [sum_filter_votes fun v hv => if_neg fun e' => e (e'.symm.trans hv)]
      exact hr.counts j a ha
  limit := by
    intro j a ha
    rw [get_clear] at ha
    split at ha
    · obtain ⟨b, _, rfl⟩ := Option.map_eq_some_iff.mp ha
      rw [Ballot.count_setCount_self]
      exact Nat.zero_le _
    · exact hr.limit j a ha

theorem count_clear_ne {k' : Poll} (hk : k' ≠ k) {j : Nat} {a b : Ballot}
    (ha : P.accounts.get j = some a) (hb : (P.clear k i).accounts.get j = some b) :
    b.count k' = a.count k' := by
  rw [get_clear] at hb
  split at hb
  · rename_i e
    rw [← e, ha] at hb
    cases hb
    exact a.count_setCount_ne hk 0
  · rw [ha] at hb
    cases hb
    rfl

theorem Steady.clear (hs : P.Steady K) : (P.clear k i).Steady K := by
  have h : SameNodes P (P.clear k i) := sameNodes_clear
  refine ⟨h.links.distinct hs.distinct, fun _ _ ha hp => h.links.proxies hs.proxies ha hp,
    fun j b hb => ?_, hs.grounded.congr (h.links.up hs.distinct), fun k' hk' => ?_, hs.routes⟩
  · have hj := h.accounts j
    rw [hb] at hj
    obtain ⟨a, ha, e⟩ := Option.map_eq_some_iff.mp hj.symm
    have e2 : a.proxied = b.proxied := congrArg (·.2.2.2) e
    rw [← e2]
    exact hs.slots j a ha
  · by_cases hk : k' = k
    · subst hk
      exact (hs.rolls k' hk').clear
    · exact h.links.roll (hs.rolls k' hk') (fun j a b ha hb => count_clear_ne hk ha hb)
        (votes_clear_ne hk) fun _ => rfl

/-- **Votes that weigh nothing may go.** -/
theorem Due.clear (h : Due K corr lag P) (hd : P.Distinct)
    (hi : P.forest.weight depth i - lag i = 0) : Due K corr lag (P.clear k i) := by
  have hforest := (sameNodes_clear (P := P) (k := k) (i := i)).forest hd
  refine ⟨hforest ▸ h.off, fun k' hk' t v hv => ?_⟩
  rw [hforest, h.tallied k' hk' t v hv]
  by_cases hk : k' = k
  · subst hk
    rw [votes_clear_self]
    refine (sum_filter_votes fun v hv => ?_).symm
    rw [hv, hi]
    exact ite_self 0
  · rw [votes_clear_ne hk]

/-- Who does not vote has no part in the totals. -/
theorem Due.relag (lag' : Nat → Int) (h : Due K corr lag P) (hi : Silent K i P)
    (hlag : ∀ x, x ≠ i → lag' x = lag x) : Due K corr lag' P := by
  refine ⟨h.off, fun k hk t v hv => ?_⟩
  rw [h.tallied k hk t v hv]
  refine FMap.sum_eq fun r v hv => ?_
  rw [hlag v.1 (hi k hk r v hv)]

/-! ## 4. Another proxy -/

/-- Whom a proxy name stands for. -/
def proxyNamed (P : Polls) (name : String) : Option Nat :=
  if name = "" then none else P.named name

theorem named_setAccount (hd : P.Distinct) {b : Ballot} (b' : Ballot) (hi : P.accounts.get i = some b)
    (hname : b'.name = b.name) (name : String) : (P.setAccount i b').named name = P.named name := by
  have hd' : (P.setAccount i b').Distinct := by
    intro j j' a a' ha ha' hn
    rw [get_setAccount] at ha ha'
    refine hd j j' (if j = i then b else a) (if j' = i then b else a') ?_ ?_ ?_
    · split at ha
      · rename_i e
        rw [e, if_pos rfl]
        exact hi
      · rename_i e
        rw [if_neg e]
        exact ha
    · split at ha'
      · rename_i e
        rw [e, if_pos rfl]
        exact hi
      · rename_i e
        rw [if_neg e]
        exact ha'
    · split at ha <;> split at ha' <;> simp_all
  refine Option.ext fun j => ⟨fun hj => ?_, fun hj => ?_⟩
  · obtain ⟨a, ha, rfl⟩ := get_of_named hj
    rw [get_setAccount] at ha
    split at ha
    · rename_i e
      cases ha
      rw [hname, e]
      exact named_of_get hd hi
    · exact named_of_get hd ha
  · obtain ⟨a, ha, rfl⟩ := get_of_named hj
    by_cases hji : j = i
    · subst hji
      obtain rfl : a = b := Option.some.inj (ha.symm.trans hi)
      rw [← hname]
      exact named_of_get hd' ((get_setAccount ..).trans (if_pos rfl))
    · exact named_of_get hd' ((get_setAccount ..).trans ((if_neg hji).trans ha))

/-- **Setting a proxy redirects the account.** -/
theorem forest_setProxy (hd : P.Distinct) {b : Ballot} (hi : P.accounts.get i = some b)
    (name : String) : (P.setAccount i { b with proxy := name }).forest =
      P.forest.redirect i (P.proxyNamed name) := by
  have hnodes : (P.setAccount i { b with proxy := name }).nodes = P.nodes := by
    ext j
    rw [mem_nodes, mem_nodes, get_setAccount]
    split
    · rename_i e
      rw [e, hi]
      simp
    · rfl
  have hnamed : (P.setAccount i { b with proxy := name }).named = P.named :=
    funext (named_setAccount hd { b with proxy := name } hi rfl)
  have hup : (P.setAccount i { b with proxy := name }).up =
      Function.update P.up i (P.proxyNamed name) := by
    funext j
    by_cases hj : j = i
    · subst hj
      rw [Function.update_self]
      unfold Polls.up proxyNamed
      rw [get_setAccount, if_pos rfl]
      dsimp only
      rw [hnamed]
    · rw [Function.update_of_ne hj]
      unfold Polls.up
      rw [get_setAccount, if_neg hj]
      cases P.accounts.get j with
      | none => rfl
      | some a =>
        dsimp only
        rw [hnamed]
  have hlevel : (P.setAccount i { b with proxy := name }).level = P.level := by
    funext j
    unfold Polls.level
    rw [get_setAccount]
    by_cases hj : j = i
    · subst hj
      rw [if_pos rfl, hi]
      funext m
      cases m <;> rfl
    · rw [if_neg hj]
  unfold Polls.forest Forest.redirect
  rw [hnodes, hup, hlevel]

theorem Due.setProxy (corr : Nat → Nat → Int) {b : Ballot} (name : String) (hd : P.Distinct)
    (hi : P.accounts.get i = some b)
    (h : Due K (fun p j => corr p j + Forest.at_ (P.up i) (P.level i) p j) lag P)
    (hsilent : Silent K i P) :
    Due K (fun p j => corr p j + Forest.at_ (P.proxyNamed name) (P.level i) p j) lag
      (P.setAccount i { b with proxy := name }) := by
  have hforest := forest_setProxy hd hi name
  refine ⟨?_, fun k hk t v hv => ?_⟩
  · rw [hforest]
    exact Forest.Off.redirect (mem_nodes.mpr ⟨b, hi⟩) h.off
  · rw [hforest, h.tallied k hk t v hv]
    refine FMap.sum_eq fun r v hv => ?_
    have hne := hsilent k hk r v hv
    have hweight : (P.forest.redirect i (P.proxyNamed name)).weight depth v.1 =
        P.forest.weight depth v.1 := by
      unfold Forest.weight
      rw [Forest.up_redirect_ne hne]
      rfl
    rw [hweight]

theorem Steady.setProxy {b : Ballot} (name : String) (hs : P.Steady K)
    (hi : P.accounts.get i = some b)
    (hname : name ≠ "" → ∃ j c, P.accounts.get j = some c ∧ c.name = name)
    (hchain : ∀ y, P.proxyNamed name = some y → ∀ m, P.forest.climb m y ≠ some i)
    (hsilent : Silent K i P) : (P.setAccount i { b with proxy := name }).Steady K := by
  have hget : ∀ {j a}, (P.setAccount i { b with proxy := name }).accounts.get j = some a →
      ∃ a', P.accounts.get j = some a' ∧ a.name = a'.name ∧ a.proxied = a'.proxied ∧
        (∀ k, a.count k = a'.count k) ∧ (j ≠ i → a = a') ∧ (j = i → a.proxy = name) := by
    intro j a ha
    rw [get_setAccount] at ha
    split at ha
    · rename_i e
      cases ha
      exact ⟨b, e ▸ hi, rfl, rfl, fun k => by cases k <;> rfl, fun hne => absurd e hne, fun _ => rfl⟩
    · rename_i e
      exact ⟨a, ha, rfl, rfl, fun _ => rfl, fun _ => rfl, fun e' => absurd e' e⟩
  have hput : ∀ {j a}, P.accounts.get j = some a →
      ∃ a', (P.setAccount i { b with proxy := name }).accounts.get j = some a' ∧
        a'.name = a.name ∧ (j ≠ i → a' = a) := by
    intro j a ha
    by_cases hj : j = i
    · subst hj
      obtain rfl : a = b := Option.some.inj (ha.symm.trans hi)
      exact ⟨_, (get_setAccount ..).trans (if_pos rfl), rfl, fun hne => absurd rfl hne⟩
    · exact ⟨a, (get_setAccount ..).trans ((if_neg hj).trans ha), rfl, fun _ => rfl⟩
  refine ⟨fun j j' a a' ha ha' hn => ?_, fun j a ha hne => ?_, fun j a ha => ?_, ?_,
    fun k hk => ?_, hs.routes⟩
  · obtain ⟨c, hc, e, _⟩ := hget ha
    obtain ⟨c', hc', e', _⟩ := hget ha'
    exact hs.distinct j j' c c' hc hc' (e.symm.trans (hn.trans e'))
  · obtain ⟨c, hc, _, _, _, hsame, hself⟩ := hget ha
    by_cases hj : j = i
    · have hp := hself hj
      obtain ⟨m, d, hd, hn⟩ := hname (hp ▸ hne)
      obtain ⟨d', hd', e, _⟩ := hput hd
      exact ⟨m, d', hd', e.trans (hn.trans hp.symm)⟩
    · obtain rfl := hsame hj
      obtain ⟨m, d, hd, hn⟩ := hs.proxies j a hc hne
      obtain ⟨d', hd', e, _⟩ := hput hd
      exact ⟨m, d', hd', e.trans hn⟩
  · obtain ⟨c, hc, _, e, _⟩ := hget ha
    rw [e]
    exact hs.slots j c hc
  · rw [forest_setProxy hs.distinct hi name]
    exact hs.grounded.redirect hchain
  · have hr := hs.rolls k hk
    refine ⟨fun r v hv => ?_, hr.candidates, hr.once, fun j a ha => ?_, fun j a ha => ?_⟩
    · obtain ⟨a, ha, hp⟩ := hr.voters r v hv
      obtain ⟨a', ha', _, hsame⟩ := hput ha
      exact ⟨a', ha', hsame (hsilent k hk r v hv) ▸ hp⟩
    · obtain ⟨c, hc, _, _, e, _⟩ := hget ha
      rw [e k]
      exact hr.counts j c hc
    · obtain ⟨c, hc, _, _, e, _⟩ := hget ha
      rw [e k]
      exact hr.limit j c hc

end

end Polls

end MuseChain
