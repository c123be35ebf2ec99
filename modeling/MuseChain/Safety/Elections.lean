/-
  File:      MuseChain/Safety/Elections.lean
  Subject:   The evaluators of votes, proxies and withdrawal routes keep the polls sound.

  * Votes come and go: `polls_put_witnessVote`, `polls_put_platformVote`, and with the totals and
    counts `Polls.revote`.
  * `kept_accountWitnessProxy`: what an account holds is taken from its old proxy and given to the
    new one.
  * `ChainStep.kept`: every step; `kept_genesis`: the genesis.
-/
import MuseChain.Safety.VoteSteps

namespace MuseChain

variable {n : Nat} {d d' : Database chainSchema} {u : Unit} {K : Poll → Prop}

/-! ## 1. Writes to the votes -/

section

variable {s : Store chainSchema}

theorem polls_setNextId (k : Kind) (m : Nat) : polls (s.setNextId k m) = polls s := by
  refine polls_congr (fun i => ?_) (fun i => ?_) (fun i => ?_) (fun i => ?_) (fun i => ?_)
    (fun i => ?_) ?_
  all_goals first | rw [Store.get_setNextId] | (unfold Store.props; rw [Store.get_setNextId])

theorem table_put_ne {k k' : Kind} (hk : k' ≠ k) {i : Nat} {o : Option k.Object}
    (hf : ∀ a, o = some a → s.free k i a = true) : (s.put k i o hf).table k' = s.table k' :=
  Function.update_of_ne hk ..

theorem props_put_ne {k : Kind} (hk : Kind.dynamicGlobalProperty ≠ k) {i : Nat}
    {o : Option k.Object} (hf : ∀ a, o = some a → s.free k i a = true) :
    (s.put k i o hf).props = s.props := by
  unfold Store.props
  rw [Store.get_put_ne _ hk]

/-- The polls with one vote of poll `k` put to `o`. -/
def Polls.putVote (P : Polls) (k : Poll) (i : Nat) (o : Option (Nat × Nat)) : Polls :=
  { P with votes := Function.update P.votes k ((P.votes k).put i o) }

theorem polls_put_witnessVote {i : Nat} {o : Option WitnessVote}
    (hf : ∀ a, o = some a → s.free Kind.witnessVote i a = true) :
    polls (s.put Kind.witnessVote i o hf) =
      (polls s).putVote .witness i (o.map fun v => (v.account, v.witness)) := by
  refine Polls.ext ?_ (funext fun k => ?_) (funext fun k => ?_) ?_ ?_
  · simp only [polls, Polls.putVote]
    rw [table_put_ne (by decide)]
  · cases k <;> simp only [polls, Polls.putVote] <;> rw [table_put_ne (by decide)]
  · cases k with
    | witness =>
      refine FMap.ext_get fun j => ?_
      rw [get_witnessVote, Store.get_put_self]
      simp only [Polls.putVote, Function.update_self]
      rw [FMap.get_put, get_witnessVote]
      split <;> rfl
    | platform =>
      simp only [Polls.putVote]
      rw [Function.update_of_ne (by decide)]
      simp only [polls]
      rw [table_put_ne (by decide)]
  · simp only [polls, Polls.putVote]
    rw [table_put_ne (by decide)]
  · simp only [polls, Polls.putVote]
    rw [props_put_ne (by decide)]

theorem polls_put_platformVote {i : Nat} {o : Option StreamingPlatformVote}
    (hf : ∀ a, o = some a → s.free Kind.streamingPlatformVote i a = true) :
    polls (s.put Kind.streamingPlatformVote i o hf) =
      (polls s).putVote .platform i (o.map fun v => (v.account, v.streamingPlatform)) := by
  refine Polls.ext ?_ (funext fun k => ?_) (funext fun k => ?_) ?_ ?_
  · simp only [polls, Polls.putVote]
    rw [table_put_ne (by decide)]
  · cases k <;> simp only [polls, Polls.putVote] <;> rw [table_put_ne (by decide)]
  · cases k with
    | platform =>
      refine FMap.ext_get fun j => ?_
      rw [get_platformVote, Store.get_put_self]
      simp only [Polls.putVote, Function.update_self]
      rw [FMap.get_put, get_platformVote]
      split <;> rfl
    | witness =>
      simp only [Polls.putVote]
      rw [Function.update_of_ne (by decide)]
      simp only [polls]
      rw [table_put_ne (by decide)]
  · simp only [polls, Polls.putVote]
    rw [table_put_ne (by decide)]
  · simp only [polls, Polls.putVote]
    rw [props_put_ne (by decide)]

end

/-! ## 2. One vote -/

/-- A vote, its weight and its count make one change of the polls. -/
theorem Polls.eq_revote {k : Poll} {i x r m : Nat} {o : Option (Nat × Nat)} {w : Int}
    {P R S : Polls} {b : Ballot} (hscore : Scored k (fun t => if x = t then w else 0) P R)
    (hb : P.accounts.get i = some b)
    (hS : S = (R.setAccount i (b.setCount k m)).putVote k r o) : S = P.revote k r o x w i m := by
  subst hS
  refine Polls.ext ?_ (funext fun k' => ?_) ?_ hscore.routes hscore.shares
  · refine FMap.ext_get fun j => ?_
    show (R.setAccount i (b.setCount k m)).accounts.get j = _
    rw [Polls.get_setAccount, Polls.get_revote, hscore.accounts, hb]
    rfl
  · by_cases hk : k' = k
    · subst hk
      rw [Polls.totals_revote_self]
      refine FMap.ext_get fun t => ?_
      show (R.totals k').get t = _
      rw [hscore.totals, FMap.get_put]
      by_cases ht : t = x
      · rw [if_pos ht, if_pos ht.symm, ht]
      · rw [if_neg ht, if_neg (Ne.symm ht)]
        simp only [add_zero, Option.map_id_fun', id_eq]
    · rw [Polls.totals_revote_ne hk]
      exact hscore.others k' hk
  · show Function.update R.votes k ((R.votes k).put r o) = _
    rw [hscore.votes]
    rfl

/-- What is scored does not depend on a vote that is there already. -/
theorem Scored.of_putVote {k : Poll} {r : Nat} {o : Option (Nat × Nat)} {f : Nat → Int}
    {P R : Polls} (h : Scored k f (P.putVote k r o) R) :
    Scored k f P { R with votes := P.votes } :=
  ⟨h.accounts, rfl, h.routes, h.shares, h.totals, h.others⟩

/-- `witness_vote_weight` is the sum of all levels. -/
theorem witnessVoteWeight_ok {a : Account} {w : Int} (h : a.witnessVoteWeight = .ok w)
    (hlen : a.proxiedVsfVotes.length = Polls.depth) :
    w = ∑ j ∈ Finset.range (Polls.depth + 1), a.ballot.level j := by
  rw [sumShares_ok h, Finset.sum_range_succ', add_comm]
  show _ = (∑ j ∈ Finset.range Polls.depth, a.proxiedVsfVotes.getD j 0) + a.vestingShares.amount
  rw [← sum_take_eq_range, List.take_of_length_le (by omega)]

theorem kept_of_revote {k : Poll} {s t : Store chainSchema} {r x i m : Nat} {o : Option (Nat × Nat)}
    {w : Int} (hs : Kept K s) (hp : polls t = (polls s).revote k r o x w i m)
    (hrates : ∀ i (a : Account), t.get Kind.account i = some a →
      0 ≤ a.vestingWithdrawRate.amount ∧ a.vestingWithdrawRate.amount ≤ int64Max)
    (h : K k → Polls.Sound K ((polls s).revote k r o x w i m)) : Kept K t := by
  refine ⟨?_, fun y => ?_, hrates⟩
  · rw [hp]
    by_cases hk : K k
    · exact h hk
    · exact hs.sound.revote (fun hk' => absurd hk' hk) fun hk' => absurd hk' hk
  · rw [hp, (Polls.sameNodes_revote (P := polls s)).level]
    exact hs.range y

/-- The count of one more vote. -/
theorem u16_succ {c : Nat} (h : c < maxAccountWitnessVotes) : u16 (c + 1) = c + 1 :=
  Nat.mod_eq_of_lt (by unfold maxAccountWitnessVotes at h; omega)

/-- The count of one vote less. -/
theorem u16_pred {c : Nat} (h1 : 1 ≤ c) (h : c ≤ maxAccountWitnessVotes) :
    u16 (c + 65535) = c - 1 := by
  unfold u16 maxAccountWitnessVotes at *
  omega

/-- Who voted is counted. -/
theorem Polls.Roll.count_pos {k : Poll} {P : Polls} (h : P.Roll k) {r i x : Nat} {b : Ballot}
    (hi : P.accounts.get i = some b) (hr : (P.votes k).get r = some (i, x)) : 1 ≤ b.count k := by
  by_contra hlt
  have hsum := h.counts i b hi
  have hput := FMap.sum_put (fun v : Nat × Nat => if v.1 = i then (1 : Int) else 0)
    (P.votes k) r none
  rw [hr] at hput
  simp only [FMap.part_some, FMap.part_none, if_true] at hput
  have hnn : 0 ≤ ((P.votes k).put r none).sum fun v => if v.1 = i then (1 : Int) else 0 := by
    refine FMap.sum_nonneg fun v => ?_
    split <;> omega
  omega

theorem bind_getWitnessId_ok {β : Type} {b : β} {name : String} {f : Nat → Act n β}
    (h : ((getWitnessId name : Act n Nat) >>= f).run d = .ok b d') :
    ∃ i, ∃ w : Witness, d.store.get Kind.witness i = some w ∧ w.owner = name ∧
      (f i).run d = .ok b d' := by
  obtain ⟨i, a, ha, hp, h⟩ := bind_getRow_ok h
  exact ⟨i, a, ha, of_decide_eq_true hp, h⟩

theorem bind_getStreamingPlatformId_ok {β : Type} {b : β} {name : String} {f : Nat → Act n β}
    (h : ((getStreamingPlatformId name : Act n Nat) >>= f).run d = .ok b d') :
    ∃ i, ∃ p : StreamingPlatform, d.store.get Kind.streamingPlatform i = some p ∧ p.owner = name ∧
      (f i).run d = .ok b d' := by
  obtain ⟨i, a, ha, hp, h⟩ := bind_getRow_ok h
  exact ⟨i, a, ha, of_decide_eq_true hp, h⟩

/-- The account's counter is written last but for the vote itself. -/
theorem polls_bump {acc : Nat} {f : Account → Nat} {upd : Account → Nat → Account}
    {hkey : ∀ a b, chainSchema.SameKey Kind.account a (upd a b)} {k : Poll}
    (hupd : ∀ a m, (upd a m).ballot = a.ballot.setCount k m)
    (hr : (Action.modifyWith (S := chainSchema) Kind.account acc (fun a : Account => .ok (f a)) upd
      hkey : Act n Unit).run d = .ok u d') :
    ∃ a, d.store.get Kind.account acc = some a ∧
      polls d'.store = (polls d.store).setAccount acc (a.ballot.setCount k (f a)) := by
  obtain ⟨a, m, ha, hm, hf, e⟩ := modifyWith_store hr
  cases hm
  exact ⟨a, ha, by rw [e, polls_write_account, hupd]⟩

/-- **Votes for a witness keep the polls sound.** -/
theorem kept_accountWitnessVote (account witness : String) (approve : Bool) :
    Steps (StayKept K) (accountWitnessVote account witness approve : Act n Unit) := by
  refine ⟨fun {d _ d'} hr hkept => ?_⟩
  have hrates := rates_of_composed (composed_accountWitnessVote (l := [.made .witnessVote,
    .gone .witnessVote, .witness .votes, .witness .virtual, .account .witnessCount]) account witness
    approve (by decide)) hr (by decide) (by decide) hkept.rates
  unfold accountWitnessVote at hr
  obtain ⟨voter, a, ha, _, hr⟩ := bind_getAccountId_ok hr
  obtain ⟨v, hv, hr⟩ := bind_getAccount_ok.mp hr
  obtain rfl : v = a := Option.some.inj (hv.symm.trans ha)
  obtain ⟨hproxy, hr⟩ := Action.bind_require_ok.mp hr
  obtain ⟨wit, w, hw, _, hr⟩ := bind_getWitnessId_ok hr
  have hr := bind_findRow_ok.mp hr
  have hlen : v.proxiedVsfVotes.length = Polls.depth :=
    hkept.sound.steady.slots voter _ (get_ballot_some ha)
  have htotal : ((polls d.store).totals .witness).get wit = some w.votes := by
    rw [get_witnessTotal, hw]
    rfl
  split at hr
  · rename_i hfind
    obtain ⟨_, hr⟩ := Action.bind_require_ok.mp hr
    obtain ⟨hlimit, hr⟩ := Action.bind_require_ok.mp hr
    obtain ⟨r, d₁, h1, hr⟩ := Action.bind_ok.mp hr
    obtain ⟨weight, hweight, hr⟩ := Action.bind_lift_ok.mp hr
    obtain ⟨_, d₂, h2, h3⟩ := Action.bind_ok.mp hr
    obtain ⟨rfl, hnone, hf, e1⟩ := create_store h1
    have hp1 : polls d₁.store =
        (polls d.store).putVote .witness (d.store.nextId Kind.witnessVote) (some (voter, wit)) := by
      rw [e1, polls_setNextId]
      exact polls_put_witnessVote _
    have hscore := scored_adjustWitnessVote h2
    rw [hp1] at hscore
    obtain ⟨a', ha', hp3⟩ := polls_bump (k := .witness) (fun a m => rfl) h3
    have hsame : a'.ballot = v.ballot := by
      have := get_ballot_some ha'
      rw [hscore.accounts] at this
      exact Option.some.inj (this.symm.trans (get_ballot_some ha))
    have hcount : a'.witnessesVotedFor = v.witnessesVotedFor := congrArg Ballot.witnessCount hsame
    rw [hcount, u16_succ hlimit, hsame] at hp3
    have hp : polls d'.store = (Polls.setAccount { polls d₂.store with votes :=
        (polls d.store).votes } voter (v.ballot.setCount .witness (v.witnessesVotedFor + 1))).putVote
          .witness (d.store.nextId Kind.witnessVote) (some (voter, wit)) :=
      hp3.trans (Polls.ext rfl rfl hscore.votes rfl rfl)
    refine kept_of_revote hkept (Polls.eq_revote hscore.of_putVote (get_ballot_some ha) hp) hrates
      fun hk => ?_
    refine hkept.sound.vote (get_ballot_some ha) hproxy ?_ (fun r' hr' => ?_) htotal hlimit
      (witnessVoteWeight_ok hweight hlen)
    · rw [get_witnessVote, hnone]
      rfl
    · rw [get_witnessVote] at hr'
      obtain ⟨v', hv', e⟩ := Option.map_eq_some_iff.mp hr'
      have := List.find?_eq_none.mp hfind (r', v') (FMap.mem_rows.mpr hv')
      simp only [Prod.mk.injEq] at e
      simp [e.1, e.2] at this
  · rename_i r row hfind
    obtain ⟨_, hr⟩ := Action.bind_require_ok.mp hr
    obtain ⟨weight, hweight, hr⟩ := Action.bind_lift_ok.mp hr
    obtain ⟨neg, hneg, hr⟩ := Action.bind_lift_ok.mp hr
    obtain ⟨_, d₁, h1, hr⟩ := Action.bind_ok.mp hr
    obtain ⟨_, d₂, h2, h3⟩ := Action.bind_ok.mp hr
    obtain ⟨rfl, _⟩ := safe_ok.mp hneg
    have hscore := scored_adjustWitnessVote h1
    obtain ⟨a', ha', hp2⟩ := polls_bump (k := .witness) (fun a m => rfl) h2
    obtain ⟨row', hrow', e3⟩ := remove_store h3
    have hsame : a'.ballot = v.ballot := by
      have := get_ballot_some ha'
      rw [hscore.accounts] at this
      exact Option.some.inj (this.symm.trans (get_ballot_some ha))
    have hcount : a'.witnessesVotedFor = v.witnessesVotedFor := congrArg Ballot.witnessCount hsame
    rw [hcount, hsame] at hp2
    have hp3 : polls d'.store = (polls d₂.store).putVote .witness r none := by
      rw [e3]
      exact polls_put_witnessVote _
    rw [hp2] at hp3
    refine kept_of_revote hkept (Polls.eq_revote hscore (get_ballot_some ha) hp3) hrates
      fun hk => ?_
    obtain ⟨hrow, hmatch⟩ := find_rows (k := Kind.witnessVote)
      (p := fun r : WitnessVote => decide (r.account = voter ∧ r.witness = wit)) hfind
    have hrow : ((polls d.store).votes .witness).get r = some (voter, wit) := by
      rw [get_witnessVote, hrow]
      have := of_decide_eq_true hmatch
      exact congrArg some (Prod.ext this.1 this.2)
    have hroll := hkept.sound.steady.rolls .witness hk
    have hpos : 1 ≤ v.witnessesVotedFor := hroll.count_pos (get_ballot_some ha) hrow
    have hle : v.witnessesVotedFor ≤ maxAccountWitnessVotes :=
      hroll.limit voter _ (get_ballot_some ha)
    rw [u16_pred hpos hle]
    exact hkept.sound.unvote (get_ballot_some ha) hproxy hrow (witnessVoteWeight_ok hweight hlen)

/-- **Votes for a streaming platform keep the polls sound**, when who casts one has no proxy. -/
theorem kept_accountStreamingPlatformVote {account streamingPlatform : String} {approve : Bool}
    (hr : (accountStreamingPlatformVote account streamingPlatform approve : Act n Unit).run d =
      .ok u d') (hkept : Kept K d.store)
    (hok : K .platform → approve = true → ∀ i (a : Account), d.store.get Kind.account i = some a →
      a.name = account → a.proxy = "") : Kept K d'.store := by
  have hrates := rates_of_composed (composed_accountStreamingPlatformVote (l :=
    [.made .streamingPlatformVote, .gone .streamingPlatformVote, .platform .votes,
      .account .platformCount]) account streamingPlatform approve (by decide)) hr (by decide) (by decide) hkept.rates
  unfold accountStreamingPlatformVote at hr
  obtain ⟨voter, a, ha, hname, hr⟩ := bind_getAccountId_ok hr
  obtain ⟨v, hv, hr⟩ := bind_getAccount_ok.mp hr
  obtain rfl : v = a := Option.some.inj (hv.symm.trans ha)
  obtain ⟨sp, p, hp, _, hr⟩ := bind_getStreamingPlatformId_ok hr
  have hr := bind_findRow_ok.mp hr
  have hlen : v.proxiedVsfVotes.length = Polls.depth :=
    hkept.sound.steady.slots voter _ (get_ballot_some ha)
  have htotal : ((polls d.store).totals .platform).get sp = some p.votes := by
    rw [get_platformTotal, hp]
    rfl
  split at hr
  · rename_i hfind
    obtain ⟨happrove, hr⟩ := Action.bind_require_ok.mp hr
    obtain ⟨hlimit, hr⟩ := Action.bind_require_ok.mp hr
    obtain ⟨r, d₁, h1, hr⟩ := Action.bind_ok.mp hr
    obtain ⟨weight, hweight, hr⟩ := Action.bind_lift_ok.mp hr
    obtain ⟨_, d₂, h2, h3⟩ := Action.bind_ok.mp hr
    obtain ⟨rfl, hnone, hf, e1⟩ := create_store h1
    have hp1 : polls d₁.store =
        (polls d.store).putVote .platform (d.store.nextId Kind.streamingPlatformVote) (some (voter, sp)) := by
      rw [e1, polls_setNextId]
      exact polls_put_platformVote _
    have hscore := scored_adjustStreamingPlatformVote h2
    rw [hp1] at hscore
    obtain ⟨a', ha', hp3⟩ := polls_bump (k := .platform) (fun a m => rfl) h3
    have hsame : a'.ballot = v.ballot := by
      have := get_ballot_some ha'
      rw [hscore.accounts] at this
      exact Option.some.inj (this.symm.trans (get_ballot_some ha))
    have hcount : a'.streamingPlatformsVotedFor = v.streamingPlatformsVotedFor := congrArg Ballot.platformCount hsame
    rw [hcount, u16_succ hlimit, hsame] at hp3
    have hp : polls d'.store = (Polls.setAccount { polls d₂.store with votes :=
        (polls d.store).votes } voter (v.ballot.setCount .platform (v.streamingPlatformsVotedFor + 1))).putVote
          .platform (d.store.nextId Kind.streamingPlatformVote) (some (voter, sp)) :=
      hp3.trans (Polls.ext rfl rfl hscore.votes rfl rfl)
    refine kept_of_revote hkept (Polls.eq_revote hscore.of_putVote (get_ballot_some ha) hp) hrates
      fun hk => ?_
    refine hkept.sound.vote (get_ballot_some ha) (hok hk happrove voter v ha hname) ?_ (fun r' hr' => ?_) htotal hlimit
      (witnessVoteWeight_ok hweight hlen)
    · rw [get_platformVote, hnone]
      rfl
    · rw [get_platformVote] at hr'
      obtain ⟨v', hv', e⟩ := Option.map_eq_some_iff.mp hr'
      have := List.find?_eq_none.mp hfind (r', v') (FMap.mem_rows.mpr hv')
      simp only [Prod.mk.injEq] at e
      simp [e.1, e.2] at this
  · rename_i r row hfind
    obtain ⟨_, hr⟩ := Action.bind_require_ok.mp hr
    obtain ⟨weight, hweight, hr⟩ := Action.bind_lift_ok.mp hr
    obtain ⟨neg, hneg, hr⟩ := Action.bind_lift_ok.mp hr
    obtain ⟨_, d₁, h1, hr⟩ := Action.bind_ok.mp hr
    obtain ⟨_, d₂, h2, h3⟩ := Action.bind_ok.mp hr
    obtain ⟨rfl, _⟩ := safe_ok.mp hneg
    have hscore := scored_adjustStreamingPlatformVote h1
    obtain ⟨a', ha', hp2⟩ := polls_bump (k := .platform) (fun a m => rfl) h2
    obtain ⟨row', hrow', e3⟩ := remove_store h3
    have hsame : a'.ballot = v.ballot := by
      have := get_ballot_some ha'
      rw [hscore.accounts] at this
      exact Option.some.inj (this.symm.trans (get_ballot_some ha))
    have hcount : a'.streamingPlatformsVotedFor = v.streamingPlatformsVotedFor := congrArg Ballot.platformCount hsame
    rw [hcount, hsame] at hp2
    have hp3 : polls d'.store = (polls d₂.store).putVote .platform r none := by
      rw [e3]
      exact polls_put_platformVote _
    rw [hp2] at hp3
    refine kept_of_revote hkept (Polls.eq_revote hscore (get_ballot_some ha) hp3) hrates
      fun hk => ?_
    obtain ⟨hrow, hmatch⟩ := find_rows (k := Kind.streamingPlatformVote)
      (p := fun r : StreamingPlatformVote => decide (r.account = voter ∧ r.streamingPlatform = sp)) hfind
    have hrow : ((polls d.store).votes .platform).get r = some (voter, sp) := by
      rw [get_platformVote, hrow]
      have := of_decide_eq_true hmatch
      exact congrArg some (Prod.ext this.1 this.2)
    have hroll := hkept.sound.steady.rolls .platform hk
    have hpos : 1 ≤ v.streamingPlatformsVotedFor := hroll.count_pos (get_ballot_some ha) hrow
    have hle : v.streamingPlatformsVotedFor ≤ maxAccountWitnessVotes :=
      hroll.limit voter _ (get_ballot_some ha)
    rw [u16_pred hpos hle]
    -- who voted has no proxy
    obtain ⟨b, hb, hproxy⟩ := hroll.voters r _ hrow
    obtain rfl : b = v.ballot := Option.some.inj (hb.symm.trans (get_ballot_some ha))
    exact hkept.sound.unvote (get_ballot_some ha) hproxy hrow (witnessVoteWeight_ok hweight hlen)

/-! ## 3. Withdrawal routes -/

/-- What holds after a check. -/
theorem steps_require_bind {β : Type} {R : Store chainSchema → Store chainSchema → Prop} {c : Prop}
    [Decidable c] {msg : String} {f : Unit → Act n β} (h : c → Steps R (f ())) :
    Steps R ((Action.require c msg : Act n Unit) >>= f) := by
  refine ⟨fun {d b d'} hr => ?_⟩
  obtain ⟨hc, hr⟩ := Action.bind_require_ok.mp hr
  exact (h hc).step hr

theorem polls_put_route {s : Store chainSchema} {i : Nat} {o : Option WithdrawVestingRoute}
    (hf : ∀ a, o = some a → s.free Kind.withdrawVestingRoute i a = true) :
    polls (s.put Kind.withdrawVestingRoute i o hf) =
      { polls s with routes := (polls s).routes.put i (o.map WithdrawVestingRoute.percent) } := by
  refine Polls.ext ?_ (funext fun k => ?_) (funext fun k => ?_) ?_ ?_
  · simp only [polls]
    rw [table_put_ne (by decide)]
  · cases k <;> simp only [polls] <;> rw [table_put_ne (by decide)]
  · cases k <;> simp only [polls] <;> rw [table_put_ne (by decide)]
  · refine FMap.ext_get fun j => ?_
    rw [get_routePercent, Store.get_put_self, FMap.get_put, get_routePercent]
    split <;> rfl
  · simp only [polls]
    rw [props_put_ne (by decide)]

/-- A route of a percentage, or none. -/
theorem kept_put_route {s : Store chainSchema} {i : Nat} {o : Option WithdrawVestingRoute}
    {hf : ∀ a, o = some a → s.free Kind.withdrawVestingRoute i a = true} (hs : Kept K s)
    (ho : ∀ r, o = some r → 1 ≤ r.percent ∧ r.percent ≤ percent100) :
    Kept K (s.put Kind.withdrawVestingRoute i o hf) := by
  refine ⟨?_, fun x => ?_, fun j a ha => ?_⟩
  · rw [polls_put_route]
    have hsame : Polls.SameNodes (polls s) { polls s with
        routes := (polls s).routes.put i (o.map WithdrawVestingRoute.percent) } := ⟨fun _ => rfl⟩
    have hsteady := hs.sound.steady
    have hforest := hsame.forest hsteady.distinct
    refine ⟨⟨hsteady.distinct, hsteady.proxies, hsteady.slots, hsteady.grounded, fun k hk => ?_,
      fun j p hp => ?_⟩, ⟨hs.sound.even.off, hs.sound.even.tallied⟩, hs.sound.shares⟩
    · have hr := hsteady.rolls k hk
      exact ⟨hr.voters, hr.candidates, hr.once, hr.counts, hr.limit⟩
    · change ((polls s).routes.put i _).get j = some p at hp
      rw [FMap.get_put] at hp
      split at hp
      · obtain ⟨r, hr, rfl⟩ := Option.map_eq_some_iff.mp hp
        exact ho r hr
      · exact hsteady.routes j p hp
  · rw [polls_put_route]
    exact hs.range x
  · rw [Store.get_put_ne _ (by decide)] at ha
    exact hs.rates j a ha

/-- **A withdrawal route keeps the polls sound.** -/
theorem kept_setWithdrawVestingRoute {fromAccount toAccount : String} {percent : Nat}
    {autoVest : Bool} (hp : percent ≤ percent100) :
    Steps (StayKept K)
      (setWithdrawVestingRoute fromAccount toAccount percent autoVest : Act n Unit) := by
  have hcount : ∀ (acc m : Nat), Steps (StayKept K)
      (Action.modifyWith (S := chainSchema) Kind.account acc
        (fun a : Account => .ok (u16 (a.withdrawRoutes + m)))
        fun (a : Account) x => { a with withdrawRoutes := x } : Act n Unit) := fun acc m =>
    kept_of_composed (l := [.account .routeCount])
      (composed_modifyWith fun _ _ f => by cases f <;> simp +decide) (by decide) (by decide)
  unfold setWithdrawVestingRoute
  refine (looks_getAccountId _).steps_bind fun fromId => ?_
  refine (looks_getAccountId _).steps_bind fun toId => ?_
  refine (looks_findRow _ _).steps_bind fun route => ?_
  have hlast : ∀ u : Unit, Steps (StayKept K) (do
      let routes ← withdrawRoutesOf fromId
      Action.require (routes.foldl (fun t r => u16 (t + r.2.percent)) 0 ≤ percent100)
        "More than 100% of vesting allocated to destinations" : Act n Unit) :=
    fun _ => (looks_withdrawRoutesOf _).steps_bind fun _ => (looks_require _ _).steps
  split
  · refine steps_require_bind fun hne => ?_
    refine (looks_getAccount _).steps_bind fun a => ?_
    refine (looks_require _ _).steps_bind fun _ => ?_
    refine steps_bind ⟨fun {d i d'} hr hs => ?_⟩ fun _ => ?_
    · obtain ⟨rfl, hnone, hf, e⟩ := create_store hr
      rw [e]
      have hkept : Kept K (d.store.write Kind.withdrawVestingRoute _ _ hf) :=
        kept_put_route hs fun r hr => by
          cases hr
          exact ⟨Nat.one_le_iff_ne_zero.mpr hne, hp⟩
      refine ⟨?_, fun x => ?_, fun j a ha => ?_⟩
      · rw [polls_setNextId]
        exact hkept.sound
      · rw [polls_setNextId]
        exact hkept.range x
      · rw [Store.get_setNextId] at ha
        exact hkept.rates j a ha
    · exact steps_bind (hcount _ _) hlast
  · refine steps_ite (fun _ => ?_) fun hne => ?_
    · refine steps_bind ⟨fun {d _ d'} hr hs => ?_⟩ fun _ => steps_bind (hcount _ _) hlast
      obtain ⟨_, _, e⟩ := remove_store hr
      rw [e]
      exact kept_put_route hs fun r hr => by cases hr
    · refine steps_bind ⟨fun {d _ d'} hr hs => ?_⟩ hlast
      obtain ⟨r, _, hf, e⟩ := modify_store hr
      rw [e]
      exact kept_put_route hs fun r hr => by
        cases hr
        exact ⟨Nat.one_le_iff_ne_zero.mpr hne, hp⟩

/-! ## 4. Proxies -/

namespace Polls

variable {P : Polls} {i : Nat} {e : Nat → Int}

/-- What an account holds is taken back from its proxy, or out of the totals. -/
theorem Due.withheld (h : Even K P) (he : ∀ j ≤ depth, e j = -P.level i j) :
    Pending K (fun p j => Forest.at_ (P.up i) (P.level i) p j)
      (fun x => Forest.only i (P.forest.weight depth i) x) e i P := by
  refine ⟨fun p hp j hj => ?_, fun k hk => (h.tallied k hk).congr fun x => ?_⟩
  · have hoff := h.off p hp j hj
    unfold Forest.at_
    dsimp only at hoff ⊢
    split
    · rw [he j (by omega)]
      omega
    · omega
  · have hsum : Forest.only i (P.forest.weight depth i) x + Forest.only i (if P.up i = none then
        ∑ j ∈ Finset.range (depth + 1), e j else 0) x = 0 := by
      unfold Forest.only Forest.weight
      split
      · show (if P.up i = none then ∑ j ∈ Finset.range (depth + 1), P.level i j else 0) + _ = 0
        split
        · rw [← Finset.sum_add_distrib]
          refine Finset.sum_eq_zero fun j hj => ?_
          rw [he j (by have := Finset.mem_range.mp hj; omega)]
          omega
        · rfl
      · rfl
    dsimp only
    omega

/-- An account that delegates to nobody gives nothing away. -/
theorem Due.ungiven {b : Ballot} (hs : P.Steady K) (hi : P.accounts.get i = some b)
    (hsilent : Silent K i P)
    (h : Due K (fun p j => Forest.at_ (P.up i) (P.level i) p j) (fun _ => 0) P) :
    Even K (P.setAccount i { b with proxy := "" }) := by
  have hset := Due.setProxy (fun _ _ => 0) "" hs.distinct hi
    (by simpa only [zero_add] using h) hsilent
  refine ⟨fun p hp j hj => ?_, hset.tallied⟩
  have := hset.off p hp j hj
  simpa [proxyNamed, Forest.at_] using this

/-- **What an account holds is pending when it has a new proxy.** -/
theorem Due.given {b c : Ballot} {q : Nat} (hs : P.Steady K) (hi : P.accounts.get i = some b)
    (hq : P.accounts.get q = some c) (hne : c.name ≠ "") (hsilent : Silent K i P)
    (h : Due K (fun p j => Forest.at_ (P.up i) (P.level i) p j) (fun _ => 0) P)
    (he : ∀ j ≤ depth, e j = P.level i j) :
    Pending K (fun _ _ => 0) (fun _ => 0) e i (P.setAccount i { b with proxy := c.name }) := by
  have hset := Due.setProxy (fun _ _ => 0) c.name hs.distinct hi
    (by simpa only [zero_add] using h) hsilent
  have hto : P.proxyNamed c.name = some q := (if_neg hne).trans (named_of_get hs.distinct hq)
  have hup : (P.setAccount i { b with proxy := c.name }).up i = some q := by
    have hforest := forest_setProxy hs.distinct hi c.name
    have := congrFun (congrArg Forest.up hforest) i
    rw [Forest.up_redirect_self, hto] at this
    exact this
  refine ⟨fun p hp j hj => ?_, fun k hk => (hset.tallied k hk).congr fun x => ?_⟩
  · have := hset.off p hp j hj
    rw [hto] at this
    rw [hup]
    unfold Forest.at_ at this ⊢
    split
    · rename_i heq
      rw [if_pos heq] at this
      rw [he j (by omega)]
      exact this
    · rename_i heq
      rw [if_neg heq] at this
      exact this
  · rw [hup, if_neg (by simp)]
    unfold Forest.only
    dsimp only
    rw [ite_self]
    omega

end Polls

theorem negEach_ok {l m : List Int} (h : negEach l = .ok m) (j : Nat) :
    m.getD j 0 = -l.getD j 0 := by
  induction l generalizing m j with
  | nil =>
    cases h
    rfl
  | cons x l ih =>
    obtain ⟨y, hy, h⟩ := except_bind_ok.mp h
    obtain ⟨ys, hys, h⟩ := except_bind_ok.mp h
    cases h
    cases j with
    | zero => exact (safe_ok.mp hy).1
    | succ j => exact ih hys j

/-- **The chain from a proxy does not come to an account that the check knows of.** -/
theorem climb_checkProxyChain {left cprox acc : Nat} {chain : List Nat} (hacc : acc ∈ chain)
    (hd : (polls d.store).Distinct)
    (hr : (checkProxyChain left chain cprox : Act n Unit).run d = .ok u d') (m : Nat) :
    (polls d.store).forest.climb (m + 1) cprox ≠ some acc := by
  induction m generalizing left cprox chain with
  | zero | succ m ih =>
    unfold checkProxyChain at hr
    obtain ⟨a, ha, hr⟩ := bind_getAccount_ok.mp hr
    split at hr
    · rename_i hp
      have hup := Polls.up_of_proxy_empty (get_ballot_some ha) hp
      show ((polls d.store).up cprox).bind _ ≠ _
      rw [hup]
      simp
    · rename_i hp
      obtain ⟨next, b, hb, hn, hr⟩ := bind_getAccountId_ok hr
      obtain ⟨hnot, hr⟩ := Action.bind_require_ok.mp hr
      obtain ⟨_, hr⟩ := Action.bind_require_ok.mp hr
      have hup := (Polls.up_eq_some hd).mpr
        ⟨_, _, get_ballot_some ha, hp, get_ballot_some hb, hn⟩
      show ((polls d.store).up cprox).bind _ ≠ _
      rw [hup]
      first
      | exact fun e => hnot (Option.some.inj e ▸ hacc)
      | cases left with
        | zero => cases hr
        | succ left => exact ih (List.mem_cons_of_mem _ hacc) hr

/-- All rows of a list are removed. -/
theorem removed_forEach {k : Kind} {l : List (Nat × k.Object)}
    (hr : (Action.forEach l fun v => Action.remove (S := chainSchema) k v.1 : Act n Unit).run d =
      .ok u d') :
    (∀ i, d'.store.get k i = if i ∈ l.map (·.1) then none else d.store.get k i) ∧
      ∀ k', k' ≠ k → d'.store.get k' = d.store.get k' := by
  induction l generalizing d with
  | nil =>
    cases hr
    exact ⟨fun i => by simp, fun _ _ => rfl⟩
  | cons v l ih =>
    obtain ⟨_, d₁, h1, h2⟩ := Action.bind_ok.mp hr
    obtain ⟨_, _, e⟩ := remove_store h1
    obtain ⟨hself, hother⟩ := ih h2
    refine ⟨fun i => ?_, fun k' hk => ?_⟩
    · rw [hself, e, Store.get_erase_self]
      have hmem : i ∈ (v :: l).map (·.1) ↔ i = v.1 ∨ i ∈ l.map (·.1) := List.mem_cons
      by_cases hl : i ∈ l.map (·.1)
      · rw [if_pos hl, if_pos (hmem.mpr (.inr hl))]
      · rw [if_neg hl]
        by_cases hi : i = v.1
        · rw [if_pos hi, if_pos (hmem.mpr (.inl hi))]
        · rw [if_neg hi, if_neg fun h => (hmem.mp h).elim hi hl]
    · rw [hother k' hk, e]
      exact funext fun i => Store.get_erase_ne _ hk _ _

/-- The rows of a sorted selection. -/
theorem mem_sorted_rows {k : Kind} {s : Store chainSchema} {p : k.Object → Bool}
    {le : Nat × k.Object → Nat × k.Object → Prop} [DecidableRel le] {i : Nat} :
    i ∈ (((s.rows k).filter fun r => p r.2).insertionSort le).map (·.1) ↔
      ∃ a, s.get k i = some a ∧ p a = true := by
  rw [List.mem_map]
  constructor
  · rintro ⟨r, hr, rfl⟩
    obtain ⟨hrow, hp⟩ := List.mem_filter.mp ((List.perm_insertionSort _ _).mem_iff.mp hr)
    exact ⟨r.2, FMap.mem_rows.mp hrow, hp⟩
  · rintro ⟨a, ha, hp⟩
    exact ⟨(i, a), (List.perm_insertionSort _ _).mem_iff.mpr
      (List.mem_filter.mpr ⟨FMap.mem_rows.mpr ha, hp⟩), rfl⟩

/-- What is left when the rows that `p` holds of are removed. -/
theorem get_removed {k : Kind} {s t : Store chainSchema} {p : k.Object → Bool}
    {le : Nat × k.Object → Nat × k.Object → Prop} [DecidableRel le]
    (h : ∀ i, t.get k i =
      if i ∈ (((s.rows k).filter fun r => p r.2).insertionSort le).map (·.1) then none
      else s.get k i) (i : Nat) : t.get k i = (s.get k i).filter fun a => !p a := by
  rw [h]
  cases hg : s.get k i with
  | none => simp
  | some a =>
    by_cases hp : p a = true
    · rw [if_pos (mem_sorted_rows.mpr ⟨a, hg, hp⟩)]
      simp [Option.filter, hp]
    · rw [if_neg fun hm => ?_]
      · simp [Option.filter, hp]
      · obtain ⟨a', ha', hp'⟩ := mem_sorted_rows.mp hm
        obtain rfl : a' = a := Option.some.inj (ha'.symm.trans hg)
        exact hp hp'

theorem polls_clearWitnessVotes {acc : Nat}
    (hr : (clearWitnessVotes acc : Act n Unit).run d = .ok u d') :
    polls d'.store = (polls d.store).clear .witness acc := by
  have hr := Action.bind_read_ok.mp hr
  obtain ⟨_, d₁, h1, h2⟩ := Action.bind_ok.mp hr
  obtain ⟨hself, hother⟩ := removed_forEach (k := Kind.witnessVote) h1
  have hvotes := get_removed (k := Kind.witnessVote)
    (p := fun v : WitnessVote => decide (v.account = acc)) hself
  obtain ⟨a, ha, hf, e⟩ := modify_store h2
  rw [e, polls_write_account]
  refine Polls.ext ?_ (funext fun k => ?_) (funext fun k => ?_) ?_ ?_
  · refine FMap.ext_get fun j => ?_
    rw [Polls.get_setAccount, Polls.get_clear, get_ballot, get_ballot, get_ballot,
      hother _ (by decide)]
    split
    · rw [← hother Kind.account (by decide), ha]
      rfl
    · rfl
  · refine FMap.ext_get fun t => ?_
    cases k with
    | witness =>
      show ((polls d₁.store).totals .witness).get t = ((polls d.store).totals .witness).get t
      rw [get_witnessTotal, get_witnessTotal, hother _ (by decide)]
    | platform =>
      show ((polls d₁.store).totals .platform).get t = ((polls d.store).totals .platform).get t
      rw [get_platformTotal, get_platformTotal, hother _ (by decide)]
  · refine FMap.ext_get fun r => ?_
    cases k with
    | witness =>
      show ((polls d₁.store).votes .witness).get r = _
      rw [Polls.votes_clear_self, FMap.get_filter, get_witnessVote, get_witnessVote, hvotes]
      cases d.store.get Kind.witnessVote r with
      | none => rfl
      | some v =>
        by_cases hv : (v : WitnessVote).account = acc
        · simp [Option.filter, hv]
        · simp [Option.filter, hv]
    | platform =>
      rw [Polls.votes_clear_ne (by decide)]
      show ((polls d₁.store).votes .platform).get r = _
      rw [get_platformVote, get_platformVote, hother _ (by decide)]
  · refine FMap.ext_get fun r => ?_
    show (polls d₁.store).routes.get r = (polls d.store).routes.get r
    rw [get_routePercent, get_routePercent, hother _ (by decide)]
  · show (polls d₁.store).shares = (polls d.store).shares
    simp only [polls]
    unfold Store.props
    rw [hother _ (by decide)]

theorem polls_clearStreamingPlatformVotes {acc : Nat}
    (hr : (clearStreamingPlatformVotes acc : Act n Unit).run d = .ok u d') :
    polls d'.store = (polls d.store).clear .platform acc := by
  have hr := Action.bind_read_ok.mp hr
  obtain ⟨_, d₁, h1, h2⟩ := Action.bind_ok.mp hr
  obtain ⟨hself, hother⟩ := removed_forEach (k := Kind.streamingPlatformVote) h1
  have hvotes := get_removed (k := Kind.streamingPlatformVote)
    (p := fun v : StreamingPlatformVote => decide (v.account = acc)) hself
  obtain ⟨a, ha, hf, e⟩ := modify_store h2
  rw [e, polls_write_account]
  refine Polls.ext ?_ (funext fun k => ?_) (funext fun k => ?_) ?_ ?_
  · refine FMap.ext_get fun j => ?_
    rw [Polls.get_setAccount, Polls.get_clear, get_ballot, get_ballot, get_ballot,
      hother _ (by decide)]
    split
    · rw [← hother Kind.account (by decide), ha]
      rfl
    · rfl
  · refine FMap.ext_get fun t => ?_
    cases k with
    | witness =>
      show ((polls d₁.store).totals .witness).get t = ((polls d.store).totals .witness).get t
      rw [get_witnessTotal, get_witnessTotal, hother _ (by decide)]
    | platform =>
      show ((polls d₁.store).totals .platform).get t = ((polls d.store).totals .platform).get t
      rw [get_platformTotal, get_platformTotal, hother _ (by decide)]
  · refine FMap.ext_get fun r => ?_
    cases k with
    | platform =>
      show ((polls d₁.store).votes .platform).get r = _
      rw [Polls.votes_clear_self, FMap.get_filter, get_platformVote, get_platformVote, hvotes]
      cases d.store.get Kind.streamingPlatformVote r with
      | none => rfl
      | some v =>
        by_cases hv : (v : StreamingPlatformVote).account = acc
        · simp [Option.filter, hv]
        · simp [Option.filter, hv]
    | witness =>
      rw [Polls.votes_clear_ne (by decide)]
      show ((polls d₁.store).votes .witness).get r = _
      rw [get_witnessVote, get_witnessVote, hother _ (by decide)]
  · refine FMap.ext_get fun r => ?_
    show (polls d₁.store).routes.get r = (polls d.store).routes.get r
    rw [get_routePercent, get_routePercent, hother _ (by decide)]
  · show (polls d₁.store).shares = (polls d.store).shares
    simp only [polls]
    unfold Store.props
    rw [hother _ (by decide)]

namespace Polls

variable {P : Polls} {i : Nat}

/-- After both clearings an account votes for nobody. -/
theorem silent_clear : Silent K i ((P.clear .witness i).clear .platform i) := by
  intro k _ r v hv
  obtain ⟨hv, hne⟩ := vote_of_clear hv
  cases k with
  | platform => exact hne rfl
  | witness => exact (vote_of_clear hv).2 rfl

theorem get_clear_self {k : Poll} {b : Ballot} (hi : P.accounts.get i = some b) :
    (P.clear k i).accounts.get i = some (b.setCount k 0) := by
  rw [get_clear, if_pos rfl, hi]
  rfl

/-- The vesting shares are where they were. -/
structure SameVests (P Q : Polls) : Prop where
  nodes : Q.nodes = P.nodes
  vests : ∀ x, Q.level x 0 = P.level x 0
  shares : Q.shares = P.shares

theorem SameVests.trans {P Q R : Polls} (h : SameVests P Q) (h' : SameVests Q R) :
    SameVests P R :=
  ⟨h'.nodes.trans h.nodes, fun x => (h'.vests x).trans (h.vests x), h'.shares.trans h.shares⟩

theorem sameVests_clear (k : Poll) (i : Nat) : SameVests P (P.clear k i) :=
  ⟨sameNodes_clear.links.nodes, fun x => by rw [sameNodes_clear.level], rfl⟩

theorem sameVests_setProxy {b : Ballot} (hd : P.Distinct) (hi : P.accounts.get i = some b)
    (name : String) : SameVests P (P.setAccount i { b with proxy := name }) := by
  have hforest := forest_setProxy hd hi name
  exact ⟨congrArg Forest.nodes hforest, fun x =>
    congrFun (congrFun (congrArg Forest.level hforest) x) 0, rfl⟩

end Polls

theorem Lifts.sameVests {acc : Nat} {P Q : Polls} (h : Lifts acc P Q) : Polls.SameVests P Q :=
  ⟨h.alike.links.nodes, h.vests, h.shares⟩

/-- What is kept when the vesting shares stay. -/
theorem Kept.of_sameVests {s t : Store chainSchema} (hs : Kept K s)
    (h : Polls.SameVests (polls s) (polls t)) (hsteady : (polls t).Steady K)
    (heven : Polls.Even K (polls t))
    (hrates : ∀ i (a : Account), t.get Kind.account i = some a →
      0 ≤ a.vestingWithdrawRate.amount ∧ a.vestingWithdrawRate.amount ≤ int64Max) : Kept K t := by
  refine ⟨⟨hsteady, heven, ?_⟩, fun x => by rw [h.vests]; exact hs.range x, hrates⟩
  rw [h.shares, hs.sound.shares, h.nodes]
  exact Finset.sum_congr rfl fun x _ => (h.vests x).symm

/-- What an account holds, handed up with the sign turned or not. -/
theorem lifted_of_negEach {a : Account} {delta : List Int}
    (h : negEach (a.vestingShares.amount :: a.proxiedVsfVotes) = .ok delta) (j : Nat) :
    lifted (Polls.depth - Polls.depth) delta j = -a.ballot.level j := by
  unfold lifted
  rw [Nat.sub_self, if_pos (Nat.zero_le j), Nat.sub_zero, negEach_ok h]
  cases j with
  | zero => rfl
  | succ j => rfl

/-- **A change of the proxy keeps the polls sound.** -/
theorem kept_accountWitnessProxy {account proxy : String} (hself : proxy ≠ account) :
    Steps (StayKept K) (accountWitnessProxy account proxy : Act n Unit) := by
  refine ⟨fun {d _ d'} hr hkept => ?_⟩
  have hrates := rates_of_composed (composed_accountWitnessProxy (l := proxyParts) account proxy
    (by decide)) hr (by decide) (by decide) hkept.rates
  unfold accountWitnessProxy at hr
  obtain ⟨acc, a, ha, hname, hr⟩ := bind_getAccountId_ok hr
  obtain ⟨v, hv, hr⟩ := bind_getAccount_ok.mp hr
  obtain rfl : v = a := Option.some.inj (hv.symm.trans ha)
  obtain ⟨hchange, hr⟩ := Action.bind_require_ok.mp hr
  obtain ⟨delta, hdelta, hr⟩ := Action.bind_lift_ok.mp hr
  obtain ⟨_, d₁, h1, hr⟩ := Action.bind_ok.mp hr
  have hs := hkept.sound.steady
  have hlevel0 : (polls d.store).level acc = v.ballot.level :=
    Polls.level_of_get (get_ballot_some ha)
  -- what the account holds is taken back
  obtain ⟨hdue1, hl1⟩ := due_adjustProxiedDeltasFrom h1 hs (le_refl _)
    (Polls.Due.withheld hkept.sound.even fun j _ => by rw [lifted_of_negEach hdelta, hlevel0])
  have hs1 := hs.of_alike hl1.alike
  have hup1 : (polls d₁.store).up = (polls d.store).up := hl1.alike.links.up hs.distinct
  have hget1 : (polls d₁.store).accounts.get acc = some v.ballot :=
    (hl1.others acc fun m => hs.grounded.acyclic acc m).trans (get_ballot_some ha)
  have hlevel1 : (polls d₁.store).level acc = v.ballot.level := Polls.level_of_get hget1
  have hweight1 : (polls d₁.store).forest.weight Polls.depth acc =
      (polls d.store).forest.weight Polls.depth acc := by
    show (if (polls d₁.store).up acc = none then
        ∑ j ∈ Finset.range (Polls.depth + 1), (polls d₁.store).level acc j else 0) =
      if (polls d.store).up acc = none then
        ∑ j ∈ Finset.range (Polls.depth + 1), (polls d.store).level acc j else 0
    rw [hup1, hlevel1, hlevel0]
  rw [← hup1, hlevel0, ← hlevel1, ← hweight1] at hdue1
  split at hr
  · rename_i hp
    obtain ⟨newProxy, np, hnp, hnpname, hr⟩ := bind_getAccountId_ok hr
    obtain ⟨_, d₂, h2, hr⟩ := Action.bind_ok.mp hr
    obtain ⟨_, d₃, h3, hr⟩ := Action.bind_ok.mp hr
    obtain ⟨_, d₄, h4, hr⟩ := Action.bind_ok.mp hr
    obtain ⟨_, d₅, h5, hr⟩ := Action.bind_ok.mp hr
    obtain ⟨back, hback, h6⟩ := Action.bind_lift_ok.mp hr
    obtain rfl : d₂ = d₁ := (looks_checkProxyChain _ _ _).of_ok h2
    have hnotself : newProxy ≠ acc := by
      rintro rfl
      have hb := get_ballot_some hnp
      rw [hget1] at hb
      have : v.name = np.name := congrArg Ballot.name (Option.some.inj hb)
      exact hself (hnpname.symm.trans (this.symm.trans hname))
    rw [if_neg hnotself] at h2
    have hclimb := climb_checkProxyChain List.mem_cons_self (distinct_polls _) h2
    -- the votes of the account, which weigh nothing now, are cleared
    have hp4 : polls d₄.store =
        ((polls d₂.store).clear .witness acc).clear .platform acc := by
      rw [polls_clearStreamingPlatformVotes h4, polls_clearWitnessVotes h3]
    have hgetc := Polls.get_clear_self (k := .witness) hget1
    have hget4 := Polls.get_clear_self (k := .platform) hgetc
    have hn1 := Polls.sameNodes_clear (P := polls d₂.store) (k := .witness) (i := acc)
    have hn2 := Polls.sameNodes_clear (P := (polls d₂.store).clear .witness acc)
      (k := .platform) (i := acc)
    have hdist1 := distinct_polls d₂.store
    have hdistc := hn1.links.distinct hdist1
    have hdue4 := (hdue1.clear (k := .witness) (i := acc) hdist1 (by simp [Forest.only])).clear
      (k := .platform) (i := acc) hdistc (by rw [hn1.forest hdist1]; simp [Forest.only])
    have hs4 := (hs1.clear (k := .witness) (i := acc)).clear (k := .platform) (i := acc)
    have hup4 := (hn2.links.up hdistc).trans (hn1.links.up hdist1)
    have hlevel4 := hn2.level.trans hn1.level
    rw [← hup4, ← hlevel4, ← hp4] at hdue4
    rw [← hp4] at hs4 hget4 hlevel4
    have hsilent : Polls.Silent K acc (polls d₄.store) := hp4 ▸ Polls.silent_clear
    have hdue4 := hdue4.relag (fun _ => 0) hsilent fun x hx => (if_neg hx).symm
    -- what it holds goes to the new proxy
    obtain ⟨b, hb, hf, e5⟩ := modify_store h5
    have hbb := get_ballot_some hb
    rw [hget4] at hbb
    have hbb := Option.some.inj hbb
    obtain ⟨c, hc, hcname⟩ : ∃ c, (polls d₄.store).accounts.get newProxy = some c ∧
        c.name = proxy := by
      obtain ⟨c, hc, e, _⟩ := hn1.links.get (get_ballot_some hnp)
      obtain ⟨c', hc', e', _⟩ := hn2.links.get hc
      exact ⟨c', hp4 ▸ hc', e'.trans (e.trans hnpname)⟩
    have hp5 : polls d₅.store = (polls d₄.store).setAccount acc { b.ballot with proxy := c.name } := by
      rw [e5, polls_write_account, hcname]
      rfl
    have hget4 := get_ballot_some hb
    have hlift : ∀ j ≤ Polls.depth, lifted (Polls.depth - Polls.depth) back j =
        (polls d₄.store).level acc j := by
      intro j _
      rw [hlevel4, hlevel1]
      have := lifted_of_negEach hdelta j
      unfold lifted at this ⊢
      rw [Nat.sub_self, if_pos (Nat.zero_le j), Nat.sub_zero] at this ⊢
      rw [negEach_ok hback, this]
      omega
    have hpend := Polls.Due.given hs4 hget4 hc (hcname ▸ hp) hsilent hdue4 hlift
    have hs5 := hs4.setProxy c.name hget4 (fun _ => ⟨newProxy, c, hc, rfl⟩)
      (fun y hy m => by
        obtain rfl : newProxy = y := by
          unfold Polls.proxyNamed at hy
          rw [if_neg (hcname ▸ hp), Polls.named_of_get (distinct_polls _) hc] at hy
          exact Option.some.inj hy
        rw [Forest.climb_congr (F := (polls d₂.store).forest) (by rw [hp4]; exact hup4)]
        cases m with
        | zero => exact fun e => hnotself (Option.some.inj e)
        | succ m => exact hclimb m) hsilent
    rw [← hp5] at hpend hs5
    obtain ⟨hdue6, hl6⟩ := due_adjustProxiedDeltasFrom h6 hs5 (le_refl _) hpend
    have hv4 : Polls.SameVests (polls d₂.store) (polls d₄.store) := by
      rw [hp4]
      exact (Polls.sameVests_clear _ _).trans (Polls.sameVests_clear _ _)
    have hv5 : Polls.SameVests (polls d₄.store) (polls d₅.store) := by
      rw [hp5]
      exact Polls.sameVests_setProxy (distinct_polls _) hget4 _
    have hvests := ((hl1.sameVests.trans hv4).trans hv5).trans hl6.sameVests
    exact hkept.of_sameVests hvests (hs5.of_alike hl6.alike) hdue6 hrates
  · rename_i hp
    -- the account had a proxy, so it does not vote
    obtain rfl : proxy = "" := not_not.mp hp
    obtain ⟨b, hb, hf, e5⟩ := modify_store hr
    have hbb := (get_ballot_some hb).symm.trans hget1
    have hbv : b.ballot = v.ballot := Option.some.inj hbb
    have hproxy : b.ballot.proxy ≠ "" := by
      rw [hbv]
      exact hchange
    have hsilent : Polls.Silent K acc (polls d₁.store) := by
      intro k hk r w hw e
      obtain ⟨x, hx, hxp⟩ := (hs1.rolls k hk).voters r w hw
      rw [e] at hx
      obtain rfl := Option.some.inj (hx.symm.trans (get_ballot_some hb))
      exact hproxy hxp
    have hdue1 := hdue1.relag (fun _ => 0) hsilent fun x hx => (if_neg hx).symm
    have heven := Polls.Due.ungiven hs1 (get_ballot_some hb) hsilent hdue1
    have hs5 := hs1.setProxy "" (get_ballot_some hb) (fun h => absurd rfl h)
      (fun y hy => by cases hy) hsilent
    have hp5 : polls d'.store =
        (polls d₁.store).setAccount acc { b.ballot with proxy := "" } := by
      rw [e5, polls_write_account]
      rfl
    rw [← hp5] at heven hs5
    have hv5 : Polls.SameVests (polls d₁.store) (polls d'.store) := by
      rw [hp5]
      exact Polls.sameVests_setProxy (distinct_polls _) (get_ballot_some hb) _
    exact hkept.of_sameVests (hl1.sameVests.trans hv5) hs5 heven hrates

/-! ## 5. Every step -/

/-- A withdrawal rate that fits its type. -/
theorem kept_write_rate {s : Store chainSchema} {i : Nat} {a b : Account} (hs : Kept K s)
    (ha : s.get Kind.account i = some a) (hf : s.free Kind.account i b = true)
    (hb : b.ballot = a.ballot)
    (hrate : 0 ≤ b.vestingWithdrawRate.amount ∧ b.vestingWithdrawRate.amount ≤ int64Max) :
    Kept K (s.write Kind.account i b hf) := by
  refine ⟨?_, fun x => ?_, fun j c hc => ?_⟩
  · rw [polls_write_same ha hf hb]
    exact hs.sound
  · rw [polls_write_same ha hf hb]
    exact hs.range x
  · rw [Store.get_write_self] at hc
    split at hc
    · cases hc
      exact hrate
    · exact hs.rates j c hc

theorem withdrawRate_range {amount : Int} {rate : Asset} (h : withdrawRate amount = .ok rate)
    (hpos : 0 < amount) : 0 ≤ rate.amount ∧ rate.amount ≤ int64Max := by
  obtain ⟨x, hx, h⟩ := except_bind_ok.mp h
  cases h
  unfold safeDiv at hx
  rw [if_neg (by decide)] at hx
  obtain ⟨rfl, _, hle⟩ := safe_ok.mp hx
  have hnn : 0 ≤ Int.tdiv amount vestingWithdrawIntervals := Int.tdiv_nonneg (by omega) (by decide)
  show 0 ≤ (if _ then (1 : Int) else _) ∧ (if _ then (1 : Int) else _) ≤ int64Max
  split
  · exact ⟨by decide, by decide⟩
  · exact ⟨hnn, hle⟩

theorem kept_withdrawVesting {clock : Nat} {account : String} {vestingShares : Asset} :
    Steps (StayKept K) (withdrawVesting clock account vestingShares : Act n Unit) := by
  have hstop : ∀ acc : Nat, Steps (StayKept K) (Action.modify (S := chainSchema) Kind.account acc
      fun a : Account =>
        { a with
          vestingWithdrawRate := Asset.vests 0
          nextVestingWithdrawal := timeMaximum
          toWithdraw := 0
          withdrawn := 0 } : Act n Unit) := by
    refine fun acc => ⟨fun {d _ d'} hr hs => ?_⟩
    obtain ⟨a, ha, hf, e⟩ := modify_store hr
    rw [e]
    exact kept_write_rate hs ha hf rfl ⟨le_refl 0, show (0 : Int) ≤ int64Max by decide⟩
  unfold withdrawVesting
  repeat' first
    | exact hstop _ | with_reducible apply steps_bind
    | with_reducible apply steps_ite | intro _
    | (refine kept_beside ?_; simp +decide; done)
  all_goals
    rename_i hnot
    refine ⟨fun {d _ d'} hr hs => ?_⟩
    obtain ⟨a, rate, ha, hrate, hf, e⟩ := modifyWith_store hr
    obtain ⟨rate', hrate', h⟩ := except_bind_ok.mp hrate
    obtain ⟨_, h⟩ := check_bind_ok.mp h
    cases h
    rw [e]
    exact kept_write_rate hs ha hf rfl (withdrawRate_range hrate' (by omega))

/-- Who casts a vote for a platform has no proxy. -/
def unproxied (s : Store chainSchema) : Operation → Prop
  | .accountStreamingPlatformVote account _ true => ∀ i (a : Account),
      s.get Kind.account i = some a → a.name = account → a.proxy = ""
  | _ => True

/-- **Every step of the chain keeps the polls sound.** -/
theorem ChainStep.kept [Fc] {ok : Store chainSchema → Operation → Prop} {s t : Store chainSchema}
    (h : ChainStep ok s t) (hok : K .platform → ∀ s op, ok s op → unproxied s op)
    (hs : Kept K s) : Kept K t := by
  cases h with
  | @operation d d' u clock n push op hv ha hop hr =>
    cases op with
    | contentUpdate o => exact (deposits_kept.contentUpdate o).step hr hs
    | transferToVesting sender receiver amount => exact (deposits_kept.transferToVesting _ _ _).step hr hs
    | withdrawVesting account shares => exact kept_withdrawVesting.step hr hs
    | accountCreate o => exact (deposits_kept.accountCreate o).step hr hs
    | challengeAuthority challenger challenged requireOwner =>
      exact (deposits_kept.challengeAuthority _ _ _).step hr hs
    | accountWitnessVote account witness approve =>
      exact (kept_accountWitnessVote _ _ _).step hr hs
    | accountWitnessProxy account proxy =>
      refine (kept_accountWitnessProxy (?_ : proxy ≠ account)).step hr hs
      simp only [Operation.validate] at hv
      obtain ⟨_, hv⟩ := check_bind_ok.mp hv
      split at hv
      · exact check_ok.mp (check_bind_ok.mp hv).2
      · exact check_ok.mp hv
    | accountStreamingPlatformVote account platform approve =>
      refine kept_accountStreamingPlatformVote hr hs fun hk happrove => ?_
      subst happrove
      exact hok hk _ _ hop
    | setWithdrawVestingRoute fromAccount toAccount percent autoVest =>
      refine (kept_setWithdrawVestingRoute ?_).step hr hs
      simp only [Operation.validate] at hv
      obtain ⟨_, hv⟩ := check_bind_ok.mp hv
      obtain ⟨_, hv⟩ := check_bind_ok.mp hv
      exact check_ok.mp hv
    | proposalUpdate o => cases ha
    | _ =>
      exact (kept_of_composed (composed_evaluate clock push ha)
        (by simp +decide [Operation.parts]) (by simp +decide [Operation.parts])).step hr hs
  | @routine d d' u n r hr =>
    cases r with
    | pay => exact deposits_kept.payBlock.step hr hs
    | _ =>
      exact (kept_of_composed (Routine.composed_act _) (by simp +decide [Routine.parts])
        (by simp +decide [Routine.parts])).step hr hs

end MuseChain
