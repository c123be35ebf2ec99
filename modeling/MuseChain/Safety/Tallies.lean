/-
  File:      MuseChain/Safety/Tallies.lean
  Subject:   What the vote functions of database.cpp do to the polls.

  * `polls s`: the polls of the chain's objects.
  * Programs that write to other parts only (`polls_eq`), or make blank accounts and candidates
    besides (`grown_polls`).
  * `Lifts`: what a change on its way up touches. Both functions `adjust_proxied_witness_votes`
    take a pending change up the proxies and cast it (`due_adjustProxiedFrom`,
    `due_adjustProxiedDeltasFrom`).
-/
import MuseChain.Safety.Ballots
import MuseChain.Safety.Programs
import MuseChain.Safety.Frames

namespace MuseChain

variable {n : Nat} {d d' : Database chainSchema} {u : Unit}

/-! ## 1. The polls of the chain -/

def Account.ballot (a : Account) : Ballot where
  name := a.name
  proxy := a.proxy
  vests := a.vestingShares.amount
  proxied := a.proxiedVsfVotes
  witnessCount := a.witnessesVotedFor
  platformCount := a.streamingPlatformsVotedFor

def polls (s : Store chainSchema) : Polls where
  accounts := (s.table Kind.account).map.map Account.ballot
  totals
    | .witness => (s.table Kind.witness).map.map Witness.votes
    | .platform => (s.table Kind.streamingPlatform).map.map StreamingPlatform.votes
  votes
    | .witness => (s.table Kind.witnessVote).map.map fun v : WitnessVote => (v.account, v.witness)
    | .platform => (s.table Kind.streamingPlatformVote).map.map
        fun v : StreamingPlatformVote => (v.account, v.streamingPlatform)
  routes := (s.table Kind.withdrawVestingRoute).map.map WithdrawVestingRoute.percent
  shares := s.props.totalVestingShares.amount

section

variable {s t : Store chainSchema}

theorem get_ballot (i : Nat) :
    (polls s).accounts.get i = (s.get Kind.account i).map Account.ballot := FMap.get_map ..

theorem get_witnessTotal (i : Nat) :
    ((polls s).totals .witness).get i = (s.get Kind.witness i).map Witness.votes := FMap.get_map ..

theorem get_platformTotal (i : Nat) : ((polls s).totals .platform).get i =
    (s.get Kind.streamingPlatform i).map StreamingPlatform.votes := FMap.get_map ..

theorem get_witnessVote (i : Nat) : ((polls s).votes .witness).get i =
    (s.get Kind.witnessVote i).map fun v : WitnessVote => (v.account, v.witness) := FMap.get_map ..

theorem get_platformVote (i : Nat) : ((polls s).votes .platform).get i =
    (s.get Kind.streamingPlatformVote i).map
      fun v : StreamingPlatformVote => (v.account, v.streamingPlatform) := FMap.get_map ..

theorem get_routePercent (i : Nat) : (polls s).routes.get i =
    (s.get Kind.withdrawVestingRoute i).map WithdrawVestingRoute.percent := FMap.get_map ..

theorem get_ballot_some {i : Nat} {a : Account} (h : s.get Kind.account i = some a) :
    (polls s).accounts.get i = some a.ballot := (get_ballot i).trans (congrArg _ h)

theorem distinct_polls (s : Store chainSchema) : (polls s).Distinct := by
  intro i j a b ha hb hn
  rw [get_ballot] at ha hb
  obtain ⟨a', ha', rfl⟩ := Option.map_eq_some_iff.mp ha
  obtain ⟨b', hb', rfl⟩ := Option.map_eq_some_iff.mp hb
  exact account_unique ha' hb' hn

/-- The polls are the same when nothing that they are taken from has changed. -/
theorem polls_congr
    (hacc : ∀ i, (t.get Kind.account i).map Account.ballot =
      (s.get Kind.account i).map Account.ballot)
    (hwit : ∀ i, (t.get Kind.witness i).map Witness.votes =
      (s.get Kind.witness i).map Witness.votes)
    (hplat : ∀ i, (t.get Kind.streamingPlatform i).map StreamingPlatform.votes =
      (s.get Kind.streamingPlatform i).map StreamingPlatform.votes)
    (hwv : ∀ i, t.get Kind.witnessVote i = s.get Kind.witnessVote i)
    (hpv : ∀ i, t.get Kind.streamingPlatformVote i = s.get Kind.streamingPlatformVote i)
    (hroute : ∀ i, t.get Kind.withdrawVestingRoute i = s.get Kind.withdrawVestingRoute i)
    (hshares : t.props.totalVestingShares = s.props.totalVestingShares) : polls t = polls s := by
  refine Polls.ext ?_ (funext fun k => ?_) (funext fun k => ?_) ?_ (congrArg Asset.amount hshares)
  · exact FMap.ext_get fun i => (get_ballot i).trans ((hacc i).trans (get_ballot i).symm)
  · cases k with
    | witness => exact FMap.ext_get fun i =>
        (get_witnessTotal i).trans ((hwit i).trans (get_witnessTotal i).symm)
    | platform => exact FMap.ext_get fun i =>
        (get_platformTotal i).trans ((hplat i).trans (get_platformTotal i).symm)
  · cases k with
    | witness =>
      refine FMap.ext_get fun i => ?_
      rw [get_witnessVote, get_witnessVote, hwv]
    | platform =>
      refine FMap.ext_get fun i => ?_
      rw [get_platformVote, get_platformVote, hpv]
  · exact FMap.ext_get fun i => by rw [get_routePercent, get_routePercent, hroute]

/-! ## 2. Programs that the polls do not notice -/

/-- The parts that the polls are taken from. -/
def Part.polled : Part → Bool
  | .gone .account | .account .identity | .account .vests | .account .proxy | .account .proxied
  | .account .witnessCount | .account .platformCount | .gone .witness | .witness .votes
  | .gone .streamingPlatform | .platform .votes | .made .witnessVote | .gone .witnessVote
  | .whole .witnessVote | .made .streamingPlatformVote | .gone .streamingPlatformVote
  | .whole .streamingPlatformVote | .made .withdrawVestingRoute | .gone .withdrawVestingRoute
  | .whole .withdrawVestingRoute | .made .dynamicGlobalProperty | .gone .dynamicGlobalProperty
  | .props .shares => true
  | _ => false

/-- New accounts and candidates. -/
def Part.enrolled : Part → Bool
  | .made .account | .made .witness | .made .streamingPlatform => true
  | _ => false

theorem not_mem_of_unpolled {l : List Part} (h : ∀ p ∈ l, p.polled = false) {p : Part}
    (hp : p.polled = true) : p ∉ l := fun hm => by
  rw [h p hm] at hp
  cases hp

/-- An object that neither comes nor goes. -/
theorem changes_cases {l : List Part} {k : Kind} {o p : Option k.Object}
    (h : (changes l).rel k o p) (hg : Part.gone k ∉ l) :
    (∃ a b, o = some a ∧ p = some b ∧ Same l k a b) ∨ (o = none ∧ p = none) ∨
      ∃ a b, o = none ∧ p = some b ∧ Part.made k ∈ l ∧ Blank k a ∧ Same l k a b := by
  rcases o with _ | a <;> rcases p with _ | b
  · exact .inr (.inl ⟨rfl, rfl⟩)
  · obtain ⟨hm, hl | ⟨a, ha, hab⟩⟩ := h
    · exact absurd hl hg
    · exact .inr (.inr ⟨a, b, rfl, rfl, hm, ha, hab⟩)
  · exact absurd h hg
  · rcases h with hl | hab
    · exact absurd hl.2 hg
    · exact .inl ⟨a, b, rfl, rfl, hab⟩

/-- Objects without groups of fields stay when no part of them is written to. -/
theorem get_of_unchanged {l : List Part} {k : Kind} {i : Nat} (h : Obeys (changes l) s t)
    (hm : Part.made k ∉ l) (hg : Part.gone k ∉ l)
    (hsame : ∀ a b, Same l k a b → a = b) : t.get k i = s.get k i := by
  obtain ⟨a, b, ha, hb, hab⟩ | ⟨ha, hb⟩ | ⟨a, b, _, _, hmade, _⟩ := changes_cases (h k i) hg
  · rw [ha, hb, hsame a b hab]
  · rw [ha, hb]
  · exact absurd hmade hm

/-- The head time stays where it is not written to. -/
theorem time_of_changes {l : List Part} (h : Obeys (changes l) s t) (hm : .made .dynamicGlobalProperty ∉ l)
    (hg : .gone .dynamicGlobalProperty ∉ l) (hf : .props .time ∉ l) :
    t.props.time = s.props.time := by
  unfold Store.props
  rcases changes_cases (h Kind.dynamicGlobalProperty 0) hg with
    ⟨a, b, ha, hb, hab⟩ | ⟨ha, hb⟩ | ⟨_, _, _, _, hmade, _⟩
  · rw [ha, hb]
    exact (Or.resolve_left (hab .time) hf).symm
  · rw [ha, hb]
  · exact absurd hmade hm

section

variable {l : List Part} (h : Obeys (changes l) s t) (hl : ∀ p ∈ l, p.polled = false)

include hl

theorem ballot_of_same {a b : Account} (h : Same l Kind.account a b) : b.ballot = a.ballot := by
  have hn : ∀ f, (Part.account f).polled = true → Account.view f a = Account.view f b :=
    fun f hf => Or.resolve_left (h f) (not_mem_of_unpolled hl hf)
  have h1 := hn .identity rfl
  have h2 := hn .vests rfl
  have h3 := hn .proxy rfl
  have h4 := hn .proxied rfl
  have h5 := hn .witnessCount rfl
  have h6 := hn .platformCount rfl
  simp only [Account.view, Prod.mk.injEq] at h1 h2 h3 h4 h5 h6
  unfold Account.ballot
  rw [h1.1, h2, h3, h4, h5, h6]

include h

theorem props_shares_eq : t.props.totalVestingShares = s.props.totalVestingShares := by
  have hg := not_mem_of_unpolled hl (p := .gone .dynamicGlobalProperty) rfl
  have hm := not_mem_of_unpolled hl (p := .made .dynamicGlobalProperty) rfl
  unfold Store.props
  obtain ⟨a, b, ha, hb, hab⟩ | ⟨ha, hb⟩ | ⟨a, b, _, _, hmade, _⟩ :=
    changes_cases (h Kind.dynamicGlobalProperty 0) hg
  · rw [ha, hb]
    exact (Or.resolve_left (hab .shares) (not_mem_of_unpolled hl rfl)).symm
  · rw [ha, hb]
  · exact absurd hmade hm

theorem witnessVotes_eq (i : Nat) : t.get Kind.witnessVote i = s.get Kind.witnessVote i :=
  get_of_unchanged h (not_mem_of_unpolled hl rfl) (not_mem_of_unpolled hl rfl)
    fun _ _ hab => Or.resolve_left hab (not_mem_of_unpolled hl rfl)

theorem platformVotes_eq (i : Nat) :
    t.get Kind.streamingPlatformVote i = s.get Kind.streamingPlatformVote i :=
  get_of_unchanged h (not_mem_of_unpolled hl rfl) (not_mem_of_unpolled hl rfl)
    fun _ _ hab => Or.resolve_left hab (not_mem_of_unpolled hl rfl)

theorem routes_eq (i : Nat) :
    t.get Kind.withdrawVestingRoute i = s.get Kind.withdrawVestingRoute i :=
  get_of_unchanged h (not_mem_of_unpolled hl rfl) (not_mem_of_unpolled hl rfl)
    fun _ _ hab => Or.resolve_left hab (not_mem_of_unpolled hl rfl)

/-- **What is written elsewhere leaves the polls alone.** -/
theorem polls_eq (he : ∀ p ∈ l, p.enrolled = false) : polls t = polls s := by
  have hmade : ∀ {k : Kind}, (Part.made k).enrolled = true → Part.made k ∉ l := fun hk hm => by
    rw [he _ hm] at hk
    cases hk
  refine polls_congr (fun i => ?_) (fun i => ?_) (fun i => ?_) (witnessVotes_eq h hl)
    (platformVotes_eq h hl) (routes_eq h hl) (props_shares_eq h hl)
  · obtain ⟨a, b, ha, hb, hab⟩ | ⟨ha, hb⟩ | ⟨a, b, _, _, hm, _⟩ :=
      changes_cases (h Kind.account i) (not_mem_of_unpolled hl rfl)
    · rw [ha, hb]
      exact congrArg some (ballot_of_same hl hab)
    · rw [ha, hb]
    · exact absurd hm (hmade rfl)
  · obtain ⟨a, b, ha, hb, hab⟩ | ⟨ha, hb⟩ | ⟨a, b, _, _, hm, _⟩ :=
      changes_cases (h Kind.witness i) (not_mem_of_unpolled hl rfl)
    · rw [ha, hb]
      exact congrArg some (Or.resolve_left (hab .votes) (not_mem_of_unpolled hl rfl)).symm
    · rw [ha, hb]
    · exact absurd hm (hmade rfl)
  · obtain ⟨a, b, ha, hb, hab⟩ | ⟨ha, hb⟩ | ⟨a, b, _, _, hm, _⟩ :=
      changes_cases (h Kind.streamingPlatform i) (not_mem_of_unpolled hl rfl)
    · rw [ha, hb]
      exact congrArg some (Or.resolve_left (hab .votes) (not_mem_of_unpolled hl rfl)).symm
    · rw [ha, hb]
    · exact absurd hm (hmade rfl)

/-- **New accounts and candidates are blank.** -/
theorem grown_polls : Polls.Grown (polls s) (polls t) where
  accounts := by
    intro i b hb
    rw [get_ballot] at hb ⊢
    obtain ⟨a, ha, rfl⟩ := Option.map_eq_some_iff.mp hb
    obtain ⟨a', b', ha', hb', hab⟩ | ⟨hn, _⟩ | ⟨_, _, hn, _⟩ :=
      changes_cases (h Kind.account i) (not_mem_of_unpolled hl rfl)
    · obtain rfl : a' = a := Option.some.inj (ha'.symm.trans ha)
      rw [hb']
      exact congrArg some (ballot_of_same hl hab)
    · cases hn.symm.trans ha
    · cases hn.symm.trans ha
  blank := by
    intro i b hb
    rw [get_ballot] at hb
    rw [get_ballot]
    obtain ⟨c, hc, rfl⟩ := Option.map_eq_some_iff.mp hb
    obtain ⟨a', b', ha', hb', hab⟩ | ⟨_, hn⟩ | ⟨a', b', hn, hb', _, hblank, hab⟩ :=
      changes_cases (h Kind.account i) (not_mem_of_unpolled hl rfl)
    · obtain rfl : b' = c := Option.some.inj (hb'.symm.trans hc)
      rw [ha']
      exact .inl (congrArg some (ballot_of_same hl hab).symm)
    · cases hn.symm.trans hc
    · obtain rfl : b' = c := Option.some.inj (hb'.symm.trans hc)
      rw [ballot_of_same hl hab, hn]
      obtain ⟨_, _, hv, hp, hpr, hw, hpc, _⟩ := hblank
      exact .inr ⟨rfl, hp, congrArg Asset.amount hv, hpr, hw, hpc⟩
  totals := by
    intro k t' x hx
    cases k with
    | witness =>
      rw [get_witnessTotal] at hx ⊢
      obtain ⟨a, ha, rfl⟩ := Option.map_eq_some_iff.mp hx
      obtain ⟨a', b', ha', hb', hab⟩ | ⟨hn, _⟩ | ⟨_, _, hn, _⟩ :=
        changes_cases (h Kind.witness t') (not_mem_of_unpolled hl rfl)
      · obtain rfl : a' = a := Option.some.inj (ha'.symm.trans ha)
        rw [hb']
        exact congrArg some (Or.resolve_left (hab .votes) (not_mem_of_unpolled hl rfl)).symm
      · cases hn.symm.trans ha
      · cases hn.symm.trans ha
    | platform =>
      rw [get_platformTotal] at hx ⊢
      obtain ⟨a, ha, rfl⟩ := Option.map_eq_some_iff.mp hx
      obtain ⟨a', b', ha', hb', hab⟩ | ⟨hn, _⟩ | ⟨_, _, hn, _⟩ :=
        changes_cases (h Kind.streamingPlatform t') (not_mem_of_unpolled hl rfl)
      · obtain rfl : a' = a := Option.some.inj (ha'.symm.trans ha)
        rw [hb']
        exact congrArg some (Or.resolve_left (hab .votes) (not_mem_of_unpolled hl rfl)).symm
      · cases hn.symm.trans ha
      · cases hn.symm.trans ha
  zero := by
    intro k t' x hx
    cases k with
    | witness =>
      rw [get_witnessTotal] at hx
      rw [get_witnessTotal]
      obtain ⟨c, hc, rfl⟩ := Option.map_eq_some_iff.mp hx
      obtain ⟨a', b', ha', hb', hab⟩ | ⟨_, hn⟩ | ⟨a', b', hn, hb', _, hblank, hab⟩ :=
        changes_cases (h Kind.witness t') (not_mem_of_unpolled hl rfl)
      · obtain rfl : b' = c := Option.some.inj (hb'.symm.trans hc)
        rw [ha']
        exact .inl (congrArg some (Or.resolve_left (hab .votes) (not_mem_of_unpolled hl rfl)))
      · cases hn.symm.trans hc
      · obtain rfl : b' = c := Option.some.inj (hb'.symm.trans hc)
        have e : a'.votes = b'.votes := Or.resolve_left (hab .votes) (not_mem_of_unpolled hl rfl)
        rw [hn]
        exact .inr ⟨rfl, e.symm.trans hblank.1⟩
    | platform =>
      rw [get_platformTotal] at hx
      rw [get_platformTotal]
      obtain ⟨c, hc, rfl⟩ := Option.map_eq_some_iff.mp hx
      obtain ⟨a', b', ha', hb', hab⟩ | ⟨_, hn⟩ | ⟨a', b', hn, hb', _, hblank, hab⟩ :=
        changes_cases (h Kind.streamingPlatform t') (not_mem_of_unpolled hl rfl)
      · obtain rfl : b' = c := Option.some.inj (hb'.symm.trans hc)
        rw [ha']
        exact .inl (congrArg some (Or.resolve_left (hab .votes) (not_mem_of_unpolled hl rfl)))
      · cases hn.symm.trans hc
      · obtain rfl : b' = c := Option.some.inj (hb'.symm.trans hc)
        have e : a'.votes = b'.votes := Or.resolve_left (hab .votes) (not_mem_of_unpolled hl rfl)
        rw [hn]
        exact .inr ⟨rfl, e.symm.trans hblank⟩
  votes := by
    funext k
    cases k with
    | witness =>
      refine FMap.ext_get fun i => ?_
      rw [get_witnessVote, get_witnessVote, witnessVotes_eq h hl]
    | platform =>
      refine FMap.ext_get fun i => ?_
      rw [get_platformVote, get_platformVote, platformVotes_eq h hl]
  routes := FMap.ext_get fun i => by rw [get_routePercent, get_routePercent, routes_eq h hl]
  shares := congrArg Asset.amount (props_shares_eq h hl)

end

end

/-! ## 3. Votes are counted -/

theorem table_write_ne {s : Store chainSchema} {k k' : Kind} (hk : k' ≠ k) {i : Nat}
    {a : k.Object} (hf : s.free k i a = true) : (s.write k i a hf).table k' = s.table k' :=
  Function.update_of_ne hk ..

theorem props_write_ne {s : Store chainSchema} {k : Kind} (hk : Kind.dynamicGlobalProperty ≠ k)
    {i : Nat} {a : k.Object} (hf : s.free k i a = true) : (s.write k i a hf).props = s.props := by
  unfold Store.props
  rw [Store.get_write_ne _ hk]

/-- The candidates of one poll have `f` votes more. -/
structure Scored (k : Poll) (f : Nat → Int) (P Q : Polls) : Prop where
  accounts : Q.accounts = P.accounts
  votes : Q.votes = P.votes
  routes : Q.routes = P.routes
  shares : Q.shares = P.shares
  totals : ∀ t, (Q.totals k).get t = ((P.totals k).get t).map fun x => x + f t
  others : ∀ k', k' ≠ k → Q.totals k' = P.totals k'

namespace Scored

variable {k : Poll} {f g : Nat → Int} {P Q R : Polls}

theorem refl (k : Poll) (P : Polls) : Scored k (fun _ => 0) P P :=
  ⟨rfl, rfl, rfl, rfl, fun t => by simp, fun _ _ => rfl⟩

theorem trans (h : Scored k f P Q) (h' : Scored k g Q R) : Scored k (fun t => f t + g t) P R := by
  refine ⟨h'.accounts.trans h.accounts, h'.votes.trans h.votes, h'.routes.trans h.routes,
    h'.shares.trans h.shares, fun t => ?_, fun k' hk => (h'.others k' hk).trans (h.others k' hk)⟩
  rw [h'.totals, h.totals, Option.map_map]
  congr 1
  funext x
  exact add_assoc x (f t) (g t)

theorem congr (h : Scored k f P Q) (hfg : ∀ t, f t = g t) : Scored k g P Q := by
  obtain rfl : f = g := funext hfg
  exact h

end Scored

theorem scored_write_witness {s : Store chainSchema} {i : Nat} {w w' : Witness} {delta : Int}
    (hg : s.get Kind.witness i = some w) (hf : s.free Kind.witness i w' = true)
    (hv : w'.votes = w.votes + delta) :
    Scored .witness (fun t => if i = t then delta else 0) (polls s)
      (polls (s.write Kind.witness i w' hf)) := by
  refine ⟨?_, funext fun k => ?_, ?_, ?_, fun t => ?_, fun k hk => ?_⟩
  · simp only [polls]
    rw [table_write_ne (by decide)]
  · cases k <;> simp only [polls] <;> rw [table_write_ne (by decide)]
  · simp only [polls]
    rw [table_write_ne (by decide)]
  · simp only [polls]
    rw [props_write_ne (by decide)]
  · rw [get_witnessTotal, get_witnessTotal, Store.get_write_self]
    by_cases ht : t = i
    · rw [if_pos ht, ht, hg, if_pos rfl]
      exact congrArg some hv
    · rw [if_neg ht, if_neg (Ne.symm ht)]
      simp only [add_zero, Option.map_id_fun', id_eq]
  · cases k with
    | witness => exact absurd rfl hk
    | platform =>
      simp only [polls]
      rw [table_write_ne (by decide)]

theorem scored_write_platform {s : Store chainSchema} {i : Nat} {p p' : StreamingPlatform}
    {delta : Int} (hg : s.get Kind.streamingPlatform i = some p)
    (hf : s.free Kind.streamingPlatform i p' = true) (hv : p'.votes = p.votes + delta) :
    Scored .platform (fun t => if i = t then delta else 0) (polls s)
      (polls (s.write Kind.streamingPlatform i p' hf)) := by
  refine ⟨?_, funext fun k => ?_, ?_, ?_, fun t => ?_, fun k hk => ?_⟩
  · simp only [polls]
    rw [table_write_ne (by decide)]
  · cases k <;> simp only [polls] <;> rw [table_write_ne (by decide)]
  · simp only [polls]
    rw [table_write_ne (by decide)]
  · simp only [polls]
    rw [props_write_ne (by decide)]
  · rw [get_platformTotal, get_platformTotal, Store.get_write_self]
    by_cases ht : t = i
    · rw [if_pos ht, ht, hg, if_pos rfl]
      exact congrArg some hv
    · rw [if_neg ht, if_neg (Ne.symm ht)]
      simp only [add_zero, Option.map_id_fun', id_eq]
  · cases k with
    | platform => exact absurd rfl hk
    | witness =>
      simp only [polls]
      rw [table_write_ne (by decide)]

theorem scored_adjustWitnessVote {witness : Nat} {delta : Int}
    (hr : (adjustWitnessVote witness delta : Act n Unit).run d = .ok u d') :
    Scored .witness (fun t => if witness = t then delta else 0) (polls d.store)
      (polls d'.store) := by
  obtain ⟨wso, _, hr⟩ := bind_getObject_ok.mp hr
  obtain ⟨p, _, hr⟩ := bind_getDgp_ok.mp hr
  obtain ⟨w, v, hg, hv, hf, e⟩ := modifyWith_store hr
  obtain ⟨votes, hvotes, hv⟩ := except_bind_ok.mp hv
  obtain ⟨_, hv⟩ := check_bind_ok.mp hv
  obtain ⟨_, _, hv⟩ := except_bind_ok.mp hv
  cases hv
  rw [e]
  exact scored_write_witness hg hf (safe_ok.mp hvotes).1

theorem scored_adjustStreamingPlatformVote {sp : Nat} {delta : Int}
    (hr : (adjustStreamingPlatformVote sp delta : Act n Unit).run d = .ok u d') :
    Scored .platform (fun t => if sp = t then delta else 0) (polls d.store) (polls d'.store) := by
  obtain ⟨p, _, hr⟩ := bind_getDgp_ok.mp hr
  obtain ⟨w, v, hg, hv, hf, e⟩ := modifyWith_store hr
  obtain ⟨votes, hvotes, hv⟩ := except_bind_ok.mp hv
  obtain ⟨_, hv⟩ := check_bind_ok.mp hv
  cases hv
  rw [e]
  exact scored_write_platform hg hf (safe_ok.mp hvotes).1

/-- The loop over the votes of an account, in any order. -/
theorem scored_forEach {β : Type} {k : Poll} {f : β → Act n Unit} {g : β → Nat → Int}
    (hf : ∀ b {d d' : Database chainSchema} {u : Unit}, (f b).run d = .ok u d' →
      Scored k (g b) (polls d.store) (polls d'.store)) {l : List β}
    (hr : (Action.forEach l f).run d = .ok u d') :
    Scored k (fun t => (l.map fun b => g b t).sum) (polls d.store) (polls d'.store) := by
  induction l generalizing d with
  | nil =>
    cases hr
    exact Scored.refl k _
  | cons b l ih =>
    obtain ⟨_, d₁, h1, h2⟩ := Action.bind_ok.mp hr
    exact ((hf b h1).trans (ih h2)).congr fun t => by simp

/-- Rows that are read through a map, and picked by a test on what they become. -/
theorem rows_map_filter {α β : Type} (m : FMap α) (f : α → β) (p : β → Bool) :
    (m.map f).rows.filter (fun r => p r.2) =
      (m.rows.filter fun r => p (f r.2)).map fun r => (r.1, f r.2) := by
  unfold FMap.map
  rw [List.filter_map]
  rfl

theorem scored_adjustWitnessVotes {acc : Nat} {delta : Int}
    (hr : (adjustWitnessVotes acc delta : Act n Unit).run d = .ok u d') :
    Scored .witness (fun t => ((((polls d.store).votes .witness).rows.filter fun r =>
      r.2.1 = acc).map fun r => if r.2.2 = t then delta else 0).sum) (polls d.store)
      (polls d'.store) := by
  refine (scored_forEach (fun v => scored_adjustWitnessVote) hr).congr fun t => ?_
  have hrows := rows_map_filter (d.store.table Kind.witnessVote).map
    (fun v : WitnessVote => (v.account, v.witness)) fun v => decide (v.1 = acc)
  show _ = ((((d.store.table Kind.witnessVote).map.map _).rows.filter _).map _).sum
  rw [hrows, List.map_map]
  exact (List.Perm.map _ (List.perm_insertionSort _ _)).sum_eq

theorem scored_adjustStreamingPlatformVotes {acc : Nat} {delta : Int}
    (hr : (adjustStreamingPlatformVotes acc delta : Act n Unit).run d = .ok u d') :
    Scored .platform (fun t => ((((polls d.store).votes .platform).rows.filter fun r =>
      r.2.1 = acc).map fun r => if r.2.2 = t then delta else 0).sum) (polls d.store)
      (polls d'.store) := by
  refine (scored_forEach (fun v => scored_adjustStreamingPlatformVote) hr).congr fun t => ?_
  have hrows := rows_map_filter (d.store.table Kind.streamingPlatformVote).map
    (fun v : StreamingPlatformVote => (v.account, v.streamingPlatform)) fun v => decide (v.1 = acc)
  show _ = ((((d.store.table Kind.streamingPlatformVote).map.map _).rows.filter _).map _).sum
  rw [hrows, List.map_map]
  exact (List.Perm.map _ (List.perm_insertionSort _ _)).sum_eq

/-! ## 4. A change goes up the proxies -/

theorem polls_write_account {s : Store chainSchema} {i : Nat} {a : Account}
    (hf : s.free Kind.account i a = true) :
    polls (s.write Kind.account i a hf) = (polls s).setAccount i a.ballot := by
  refine Polls.ext ?_ (funext fun k => ?_) (funext fun k => ?_) ?_ ?_
  · refine FMap.ext_get fun j => ?_
    rw [get_ballot, Store.get_write_self, Polls.get_setAccount, get_ballot]
    split
    · rfl
    · rfl
  · cases k <;> simp only [polls, Polls.setAccount] <;> rw [table_write_ne (by decide)]
  · cases k <;> simp only [polls, Polls.setAccount] <;> rw [table_write_ne (by decide)]
  · simp only [polls, Polls.setAccount]
    rw [table_write_ne (by decide)]
  · simp only [polls, Polls.setAccount]
    rw [props_write_ne (by decide)]

/-- What a change on its way up from `acc` touches: the accounts above it and the totals. -/
structure Lifts (acc : Nat) (P Q : Polls) : Prop where
  alike : Polls.Alike P Q
  vests : ∀ x, Q.level x 0 = P.level x 0
  shares : Q.shares = P.shares
  others : ∀ x, (∀ m, P.forest.climb (m + 1) acc ≠ some x) → Q.accounts.get x = P.accounts.get x

theorem Lifts.refl (acc : Nat) (P : Polls) : Lifts acc P P :=
  ⟨.refl P, fun _ => rfl, rfl, fun _ _ => rfl⟩

theorem Polls.level_eq_of {P Q : Polls} (h : Q.accounts = P.accounts) : Q.level = P.level := by
  funext x
  unfold Polls.level
  rw [h]

theorem Scored.alike {k : Poll} {f : Nat → Int} {P Q : Polls} (h : Scored k f P Q) :
    Polls.Alike P Q := by
  refine ⟨fun i => by rw [h.accounts], fun k' t => ?_, h.votes, h.routes⟩
  by_cases hk : k' = k
  · rw [hk, h.totals, Option.isSome_map]
  · rw [h.others k' hk]

/-- **The votes of an account count `delta` more.** -/
theorem cast_adjustVotes {acc : Nat} {delta : Int}
    (hr : (do
      adjustWitnessVotes acc delta
      adjustStreamingPlatformVotes acc delta : Act n Unit).run d = .ok u d') :
    Polls.Cast acc delta (polls d.store) (polls d'.store) ∧
      Lifts acc (polls d.store) (polls d'.store) := by
  obtain ⟨_, d₁, h1, h2⟩ := Action.bind_ok.mp hr
  have hw := scored_adjustWitnessVotes h1
  have hp := scored_adjustStreamingPlatformVotes h2
  refine ⟨⟨hp.accounts.trans hw.accounts, hp.votes.trans hw.votes, fun k t => ?_⟩,
    ⟨hw.alike.trans hp.alike, fun x => ?_, hp.shares.trans hw.shares, fun x _ => ?_⟩⟩
  · cases k with
    | witness =>
      rw [hp.others .witness (by decide)]
      exact hw.totals t
    | platform =>
      rw [hp.totals, hw.votes, hw.others .platform (by decide)]
  · rw [Polls.level_eq_of hp.accounts, Polls.level_eq_of hw.accounts]
  · rw [hp.accounts, hw.accounts]

section

variable {K : Poll → Prop} {corr : Nat → Nat → Int} {lag : Nat → Int}

/-- One proxy up, and on from there. -/
theorem Lifts.hop {acc q : Nat} {P Q : Polls} {a b : Ballot} (hd : P.Distinct)
    (hq : P.up acc = some q) (ha : P.accounts.get q = some a) (hfix : b.fixed = a.fixed)
    (hv : b.vests = a.vests) (h : Lifts q (P.setAccount q b) Q) : Lifts acc P Q := by
  have halike := Polls.alike_setAccount ha hfix
  have hup : (P.setAccount q b).forest.up = P.forest.up := halike.links.up hd
  refine ⟨halike.trans h.alike, fun x => ?_, h.shares, fun x hx => ?_⟩
  · rw [h.vests]
    by_cases hxq : x = q
    · subst hxq
      rw [Polls.level_of_get ha, Polls.level_of_get ((Polls.get_setAccount ..).trans (if_pos rfl))]
      exact hv
    · unfold Polls.level
      rw [Polls.get_setAccount, if_neg hxq]
  · have hclimb : ∀ m, P.forest.climb (m + 1) acc = P.forest.climb m q := by
      intro m
      show (P.up acc).bind _ = _
      rw [hq]
      rfl
    have hne : x ≠ q := fun e => hx 0 (by rw [hclimb, e]; rfl)
    rw [h.others x fun m => ?_, Polls.get_setAccount, if_neg hne]
    rw [Forest.climb_congr hup, ← hclimb]
    exact hx (m + 1)

/-- The proxy of `acc` adds what is pending to what is proxied to it. -/
theorem hop_account {acc q : Nat} {e : Nat → Int} {a b : Account} {l : List Int}
    {s t : Store chainSchema} {hf : s.free Kind.account q { b with proxiedVsfVotes := l } = true}
    (hs : (polls s).Steady K) (h : Polls.Pending K corr lag e acc (polls s))
    (ha : s.get Kind.account acc = some a) (hp : a.proxy ≠ "")
    (hb : s.get Kind.account q = some b) (hn : b.name = a.proxy)
    (ht : t = s.write Kind.account q { b with proxiedVsfVotes := l } hf)
    (hlen : l.length = b.proxiedVsfVotes.length)
    (hl : ∀ m < Polls.depth, l.getD m 0 = b.proxiedVsfVotes.getD m 0 + e m) :
    (polls t).Steady K ∧ Polls.Pending K corr lag (Forest.shift e) q (polls t) ∧
      ∀ Q, Lifts q (polls t) Q → Lifts acc (polls s) Q := by
  have hup := (Polls.up_eq_some hs.distinct).mpr
    ⟨_, _, get_ballot_some ha, hp, get_ballot_some hb, hn⟩
  have hfix : Ballot.fixed (Account.ballot { b with proxiedVsfVotes := l }) = b.ballot.fixed := by
    unfold Ballot.fixed Account.ballot
    rw [hlen]
  have hlevel : ∀ j ≤ Polls.depth, Ballot.level (Account.ballot { b with proxiedVsfVotes := l }) j =
      b.ballot.level j + Forest.shift e j := by
    intro j hj
    cases j with
    | zero => exact (add_zero _).symm
    | succ m => exact hl m hj
  rw [ht, polls_write_account]
  exact ⟨hs.of_alike (Polls.alike_setAccount (get_ballot_some hb) hfix),
    h.hop hs.distinct hup (get_ballot_some hb) hfix hlevel,
    fun Q hQ => hQ.hop hs.distinct hup (get_ballot_some hb) hfix rfl⟩

theorem getD_set (l : List Int) (i m : Nat) (x : Int) (hi : i < l.length) :
    (l.set i x).getD m 0 = if m = i then x else l.getD m 0 := by
  simp only [List.getD_eq_getElem?_getD, List.getElem?_set]
  by_cases h : i = m
  · subst h
    simp [hi]
  · simp [h, Ne.symm h]

/-- What is pending at one level. -/
def atLevel (j : Nat) (delta : Int) (m : Nat) : Int := if m = j then delta else 0

theorem shift_atLevel (j : Nat) (delta : Int) :
    Forest.shift (atLevel j delta) = atLevel (j + 1) delta := by
  funext m
  cases m with
  | zero => rfl
  | succ m =>
    unfold atLevel
    simp only [Forest.shift, Nat.add_right_cancel_iff]

theorem sum_atLevel {j : Nat} (hj : j ≤ Polls.depth) (delta : Int) :
    ∑ m ∈ Finset.range (Polls.depth + 1), atLevel j delta m = delta := by
  unfold atLevel
  rw [Finset.sum_ite_eq', if_pos (Finset.mem_range.mpr (by omega))]

/-- **`adjust_proxied_witness_votes` settles a change of one number.** -/
theorem due_adjustProxiedFrom {left acc : Nat} {delta : Int}
    (hr : (adjustProxiedFrom left acc delta : Act n Unit).run d = .ok u d')
    (hs : (polls d.store).Steady K) (hleft : left ≤ Polls.depth)
    (h : Polls.Pending K corr lag (atLevel (Polls.depth - left) delta) acc (polls d.store)) :
    Polls.Due K corr lag (polls d'.store) ∧ Lifts acc (polls d.store) (polls d'.store) := by
  induction left generalizing acc d with
  | zero =>
    unfold adjustProxiedFrom at hr
    obtain ⟨a, ha, hr⟩ := bind_getAccount_ok.mp hr
    split at hr
    · rename_i hp
      cases hr
      obtain ⟨j, b, hb, hn⟩ := hs.proxies acc a.ballot (get_ballot_some ha) hp
      have hup := (Polls.up_eq_some hs.distinct).mpr ⟨_, b, get_ballot_some ha, hp, hb, hn⟩
      exact ⟨h.spent hup fun m hm => if_neg (by omega), .refl acc _⟩
    · rename_i hp
      obtain ⟨hc, hl⟩ := cast_adjustVotes hr
      have hup := Polls.up_of_proxy_empty (get_ballot_some ha) (not_not.mp hp)
      exact ⟨h.cast hup (by rw [sum_atLevel (by omega)]; exact hc), hl⟩
  | succ left ih =>
    unfold adjustProxiedFrom at hr
    obtain ⟨a, ha, hr⟩ := bind_getAccount_ok.mp hr
    split at hr
    · rename_i hp
      obtain ⟨q, b, hb, hn, hr⟩ := bind_getAccountId_ok hr
      obtain ⟨_, d₁, h1, h2⟩ := Action.bind_ok.mp hr
      obtain ⟨b', x, hg, hx, hf, e⟩ := modifyWith_store h1
      obtain rfl : b' = b := Option.some.inj (hg.symm.trans hb)
      obtain ⟨rfl, _⟩ := safe_ok.mp hx
      have hlen : b'.proxiedVsfVotes.length = Polls.depth := hs.slots q _ (get_ballot_some hb)
      have hlt : maxProxyRecursionDepth - (left + 1) < b'.proxiedVsfVotes.length :=
        hlen ▸ Nat.sub_lt (by decide) (Nat.succ_pos left)
      obtain ⟨hs1, hdue, hl⟩ := hop_account hs h ha hp hb hn e (List.length_set ..) fun m hm => by
        rw [getD_set _ _ _ _ hlt]
        unfold atLevel
        split
        · rename_i e'
          rw [e']
        · exact (add_zero _).symm
      rw [shift_atLevel, show Polls.depth - (left + 1) + 1 = Polls.depth - left by omega] at hdue
      obtain ⟨hdue, hl'⟩ := ih h2 hs1 (by omega) hdue
      exact ⟨hdue, hl _ hl'⟩
    · rename_i hp
      obtain ⟨hc, hl⟩ := cast_adjustVotes hr
      have hup := Polls.up_of_proxy_empty (get_ballot_some ha) (not_not.mp hp)
      exact ⟨h.cast hup (by rw [sum_atLevel (by omega)]; exact hc), hl⟩

/-! ## 5. Several changes at once -/

/-- Deltas that have come up `d` proxies: what was at level `j` is at level `d + j` now. -/
def lifted (d : Nat) (deltas : List Int) (m : Nat) : Int := if d ≤ m then deltas.getD (m - d) 0 else 0

theorem shift_lifted (d : Nat) (deltas : List Int) :
    Forest.shift (lifted d deltas) = lifted (d + 1) deltas := by
  funext m
  cases m with
  | zero => exact (if_neg (by omega)).symm
  | succ m =>
    unfold lifted
    simp only [Forest.shift, Nat.add_le_add_iff_right, Nat.add_sub_add_right]

theorem sumShares_ok {l : List Int} {start x : Int} (h : sumShares l start = .ok x) :
    x = start + l.sum := by
  induction l generalizing start with
  | nil =>
    cases h
    simp
  | cons y l ih =>
    obtain ⟨z, hz, h⟩ := except_bind_ok.mp h
    rw [ih h, (safe_ok.mp hz).1, List.sum_cons]
    omega

theorem sum_take_eq_range (l : List Int) (k : Nat) :
    (l.take k).sum = ∑ m ∈ Finset.range k, l.getD m 0 := by
  induction k with
  | zero => simp
  | succ k ih =>
    rw [Finset.sum_range_succ, ← ih, List.take_add_one, List.sum_append,
      List.getD_eq_getElem?_getD]
    cases l[k]? <;> simp

/-- All that comes up to level `D`. -/
theorem sum_lifted {d D : Nat} (hd : d ≤ D) (deltas : List Int) :
    ∑ m ∈ Finset.range (D + 1), lifted d deltas m = (deltas.take (D - d + 1)).sum := by
  obtain ⟨r, rfl⟩ := Nat.exists_eq_add_of_le hd
  rw [sum_take_eq_range, show d + r + 1 = d + (r + 1) by omega, Finset.sum_range_add]
  have hlow : ∑ m ∈ Finset.range d, lifted d deltas m = 0 :=
    Finset.sum_eq_zero fun m hm => if_neg (by have := Finset.mem_range.mp hm; omega)
  rw [hlow, zero_add, Nat.add_sub_cancel_left]
  refine Finset.sum_congr rfl fun m _ => ?_
  unfold lifted
  rw [if_pos (Nat.le_add_right d m), Nat.add_sub_cancel_left]

/-- The loop writes the entries from `depth` on. -/
theorem addDeltas_ok {votes deltas out : List Int} {depth i : Nat}
    (h : addDeltas votes deltas depth i = .ok out) (hlen : depth + i ≤ votes.length) :
    out.length = votes.length ∧ ∀ m, out.getD m 0 =
      votes.getD m 0 + if depth ≤ m ∧ m < depth + i then deltas.getD (m - depth) 0 else 0 := by
  induction i generalizing votes with
  | zero =>
    cases h
    refine ⟨rfl, fun m => ?_⟩
    rw [if_neg (by omega), add_zero]
  | succ i ih =>
    obtain ⟨x, hx, h⟩ := except_bind_ok.mp h
    obtain ⟨hl, hm⟩ := ih h (by rw [List.length_set]; omega)
    refine ⟨hl.trans (List.length_set ..), fun m => ?_⟩
    rw [hm, getD_set _ _ _ _ (by omega), (safe_ok.mp hx).1]
    by_cases he : m = i + depth
    · rw [if_pos he, if_neg (by omega), if_pos (by omega), he, Nat.add_sub_cancel, add_zero]
    · rw [if_neg he]
      by_cases hin : depth ≤ m ∧ m < depth + i
      · rw [if_pos hin, if_pos (by omega)]
      · rw [if_neg hin, if_neg (by omega)]

/-- **`adjust_proxied_witness_votes` settles a change of many numbers.** -/
theorem due_adjustProxiedDeltasFrom {left acc : Nat} {deltas : List Int}
    (hr : (adjustProxiedDeltasFrom left acc deltas : Act n Unit).run d = .ok u d')
    (hs : (polls d.store).Steady K) (hleft : left ≤ Polls.depth)
    (h : Polls.Pending K corr lag (lifted (Polls.depth - left) deltas) acc (polls d.store)) :
    Polls.Due K corr lag (polls d'.store) ∧ Lifts acc (polls d.store) (polls d'.store) := by
  have hcast : ∀ {left : Nat} {d d' : Database chainSchema} {u : Unit} {acc : Nat} {a : Account},
      left ≤ Polls.depth → d.store.get Kind.account acc = some a → a.proxy = "" →
      Polls.Pending K corr lag (lifted (Polls.depth - left) deltas) acc (polls d.store) →
      (do
        let total ← Action.lift (sumShares (deltas.take
          (maxProxyRecursionDepth - (maxProxyRecursionDepth - left) + 1)).reverse 0)
        adjustWitnessVotes acc total
        adjustStreamingPlatformVotes acc total : Act n Unit).run d = .ok u d' →
      Polls.Due K corr lag (polls d'.store) ∧ Lifts acc (polls d.store) (polls d'.store) := by
    intro left d d' u acc a hleft ha hp h hr
    obtain ⟨total, ht, hr⟩ := Action.bind_lift_ok.mp hr
    obtain ⟨hc, hl⟩ := cast_adjustVotes hr
    have hup := Polls.up_of_proxy_empty (get_ballot_some ha) hp
    refine ⟨h.cast hup ?_, hl⟩
    rw [sum_lifted (by omega)]
    rw [sumShares_ok ht, List.sum_reverse, zero_add] at hc
    exact hc
  induction left generalizing acc d with
  | zero =>
    unfold adjustProxiedDeltasFrom at hr
    obtain ⟨a, ha, hr⟩ := bind_getAccount_ok.mp hr
    split at hr
    · rename_i hp
      cases hr
      obtain ⟨j, b, hb, hn⟩ := hs.proxies acc a.ballot (get_ballot_some ha) hp
      have hup := (Polls.up_eq_some hs.distinct).mpr ⟨_, b, get_ballot_some ha, hp, hb, hn⟩
      exact ⟨h.spent hup fun m hm => if_neg (by omega), .refl acc _⟩
    · rename_i hp
      exact hcast hleft ha (not_not.mp hp) h hr
  | succ left ih =>
    unfold adjustProxiedDeltasFrom at hr
    obtain ⟨a, ha, hr⟩ := bind_getAccount_ok.mp hr
    split at hr
    · rename_i hp
      obtain ⟨q, b, hb, hn, hr⟩ := bind_getAccountId_ok hr
      obtain ⟨_, d₁, h1, h2⟩ := Action.bind_ok.mp hr
      obtain ⟨b', x, hg, hx, hf, e⟩ := modifyWith_store h1
      obtain rfl : b' = b := Option.some.inj (hg.symm.trans hb)
      have hlen : b'.proxiedVsfVotes.length = Polls.depth := hs.slots q _ (get_ballot_some hb)
      obtain ⟨hx1, hx2⟩ := addDeltas_ok hx (by rw [hlen]; unfold Polls.depth; omega)
      obtain ⟨hs1, hdue, hl⟩ := hop_account hs h ha hp hb hn e hx1 fun m hm => by
        rw [hx2]
        unfold lifted Polls.depth at *
        by_cases hm' : maxProxyRecursionDepth - (left + 1) ≤ m
        · rw [if_pos ⟨hm', by omega⟩, if_pos hm']
        · rw [if_neg fun hn => hm' hn.1, if_neg hm']
      rw [shift_lifted, show Polls.depth - (left + 1) + 1 = Polls.depth - left by omega] at hdue
      obtain ⟨hdue, hl'⟩ := ih h2 hs1 (by omega) hdue
      exact ⟨hdue, hl _ hl'⟩
    · rename_i hp
      exact hcast hleft ha (not_not.mp hp) h hr

end

end MuseChain
