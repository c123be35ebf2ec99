/-
  File:      MuseChain/Safety/Votes.lean
  Subject:   Proxies and votes in every state of the chain.

  * `kept_genesis`: the genesis has no votes and no proxies, and its polls are sound.
  * `proxied_votes_accounted`: the proxies make no loops, `proxied_vsf_votes` are the vesting
    shares of the accounts below, and the sum of validate_invariants is the total.
  * `witness_votes_tallied`: the votes of the witnesses.
-/
import MuseChain.Lib.Groups
import MuseChain.Safety.Attempts
import MuseChain.Safety.Elections

namespace MuseChain

variable {n : Nat} {K : Poll → Prop}

/-! ## 1. The genesis -/

/-- No votes and no proxies. -/
structure Voteless (s : Store chainSchema) : Prop where
  proxies : ∀ i (a : Account), s.get Kind.account i = some a → a.proxy = ""
  witnessVotes : ∀ i, s.get Kind.witnessVote i = none
  platformVotes : ∀ i, s.get Kind.streamingPlatformVote i = none

theorem Voteless.votes {s : Store chainSchema} (h : Voteless s) (k : Poll) (i : Nat) :
    ((polls s).votes k).get i = none := by
  cases k with
  | witness => rw [get_witnessVote, h.witnessVotes]; rfl
  | platform => rw [get_platformVote, h.platformVotes]; rfl

/-- Sound polls without votes stay so. -/
def StayOpen (K : Poll → Prop) (s t : Store chainSchema) : Prop :=
  Kept K s ∧ Voteless s → Kept K t ∧ Voteless t

instance : IsPreorder (Store chainSchema) (StayOpen K) where
  refl _ h := h
  trans _ _ _ h h' hs := h' (h hs)

/-- Objects that stay away when none is made. -/
theorem get_none_of_changes {l : List Part} {s t : Store chainSchema} (h : Obeys (changes l) s t)
    {k : Kind} (hm : .made k ∉ l) {i : Nat} (hi : s.get k i = none) : t.get k i = none := by
  have hrel := h k i
  rw [hi] at hrel
  cases ht : t.get k i with
  | none => rfl
  | some b =>
    rw [ht] at hrel
    exact absurd hrel.1 hm

theorem quiet_of_changes {l : List Part} {s t : Store chainSchema} (h : Obeys (changes l) s t)
    (hg : .gone .account ∉ l) (hp : .account .proxy ∉ l) (hw : .made .witnessVote ∉ l)
    (hv : .made .streamingPlatformVote ∉ l) (hs : Voteless s) : Voteless t := by
  refine ⟨fun i b hb => ?_, fun i => get_none_of_changes h hw (hs.witnessVotes i),
    fun i => get_none_of_changes h hv (hs.platformVotes i)⟩
  obtain ⟨a, b', ha, hb', hab⟩ | ⟨_, hn⟩ | ⟨a, b', _, hb', _, hblank, hab⟩ :=
    changes_cases (h Kind.account i) hg
  · obtain rfl : b' = b := Option.some.inj (hb'.symm.trans hb)
    have e : a.proxy = b'.proxy := Or.resolve_left (hab .proxy) hp
    rw [← e]
    exact hs.proxies i a ha
  · cases hn.symm.trans hb
  · obtain rfl : b' = b := Option.some.inj (hb'.symm.trans hb)
    have e : a.proxy = b'.proxy := Or.resolve_left (hab .proxy) hp
    obtain ⟨_, _, _, hproxy, _⟩ := hblank
    rw [← e]
    exact hproxy

theorem open_of_changes {α : Type} {l : List Part} {x : Act n α} (h : Steps (Obeys (changes l)) x)
    (hl : ∀ p ∈ l, p.polled = false) (hw : .account .withdrawal ∉ l) :
    Steps (StayOpen K) x := by
  refine h.mono fun s t hst ⟨hs, hq⟩ => ⟨hs.of_changes hst hl hw, ?_⟩
  exact quiet_of_changes hst (not_mem_of_unpolled hl rfl) (not_mem_of_unpolled hl rfl)
    (not_mem_of_unpolled hl rfl) (not_mem_of_unpolled hl rfl) hq

/-- The empty indexes. -/
theorem kept_emptyStore : Kept K emptyStore ∧ Voteless emptyStore := by
  have hacc : ∀ i, (polls emptyStore).accounts.get i = none := fun i => rfl
  have hvotes : ∀ k i, ((polls emptyStore).votes k).get i = none := fun k i => by cases k <;> rfl
  have htotals : ∀ k i, ((polls emptyStore).totals k).get i = none := fun k i => by
    cases k <;> rfl
  have hup : ∀ i, (polls emptyStore).up i = none := fun i => rfl
  refine ⟨⟨⟨⟨distinct_polls _, ?_, ?_, ?_, ?_, ?_⟩, ⟨?_, ?_⟩, ?_⟩, ?_, ?_⟩, ?_, ?_, ?_⟩
  · intro i a ha
    cases (hacc i).symm.trans ha
  · intro i a ha
    cases (hacc i).symm.trans ha
  · exact fun i => ⟨1, rfl⟩
  · intro k _
    refine ⟨fun r v hv => ?_, fun r v hv => ?_, fun r r' v hv => ?_, fun i a ha => ?_,
      fun i a ha => ?_⟩
    · cases (hvotes k r).symm.trans hv
    · cases (hvotes k r).symm.trans hv
    · cases (hvotes k r).symm.trans hv
    · cases (hacc i).symm.trans ha
    · cases (hacc i).symm.trans ha
  · intro i p hp
    cases hp
  · intro p hp
    obtain ⟨a, ha⟩ := Polls.mem_nodes.mp hp
    cases (hacc p).symm.trans ha
  · intro k _ t v hv
    cases (htotals k t).symm.trans hv
  · rfl
  · intro x
    exact ⟨show int64Min ≤ 0 by decide, show 0 ≤ int64Max by decide⟩
  · intro i a ha
    cases ha
  · intro i a ha
    cases ha
  · exact fun i => rfl
  · exact fun i => rfl

theorem open_initAccounts (g : GenesisState) : Steps (StayOpen K) (initAccounts g) :=
  open_of_changes (made_initAccounts g) (by decide) (by decide)

/-- Globals that there were none of, with no vesting shares. -/
theorem open_createGlobals {p : DynamicGlobalProperty} (hp : p.totalVestingShares = Asset.vests 0) :
    Steps (StayOpen K)
      (Action.create (S := chainSchema) Kind.dynamicGlobalProperty p : Act n Nat) := by
  refine ⟨fun {d i d'} hr ⟨hs, hq⟩ => ?_⟩
  obtain ⟨rfl, hn, hf, e⟩ := create_store hr
  have hpolls : polls d'.store = polls d.store := by
    rw [e, polls_setNextId]
    clear e hr
    revert hn hf
    generalize d.store.nextId Kind.dynamicGlobalProperty = j
    intro hn hf
    refine polls_congr (fun i => ?_) (fun i => ?_) (fun i => ?_) (fun i => ?_) (fun i => ?_)
      (fun i => ?_) ?_
    iterate 6 rw [Store.get_write_ne _ (by decide)]
    unfold Store.props
    rw [Store.get_write_self]
    split
    · rename_i h0
      subst h0
      rw [hn]
      exact hp
    · rfl
  have hget : ∀ {k : Kind} (i : Nat), k ≠ Kind.dynamicGlobalProperty →
      d'.store.get k i = d.store.get k i := fun i hk => by
    rw [e, Store.get_setNextId, Store.get_write_ne _ hk]
  refine ⟨⟨hpolls ▸ hs.sound, fun x => hpolls ▸ hs.range x, fun i a ha => ?_⟩,
    fun i a ha => ?_, fun i => ?_, fun i => ?_⟩
  · exact hs.rates i a ((hget i (by decide)).symm.trans ha)
  · exact hq.proxies i a ((hget i (by decide)).symm.trans ha)
  · exact (hget i (by decide)).trans (hq.witnessVotes i)
  · exact (hget i (by decide)).trans (hq.platformVotes i)

theorem open_initGlobals (g : GenesisState) : Steps (StayOpen K) (initGlobals g) := by
  unfold initGlobals
  refine steps_bind (open_createGlobals rfl) fun _ => ?_
  refine open_of_changes (l := genesisParts) (Composed.steps ?_) (by decide) (by decide)
  refine .bind (.create (by decide) (by simp [Blank, coreAsset])) fun _ => ?_
  refine .bind (.create (by decide) (by simp [Blank, coreAsset])) fun _ => ?_
  refine .bind (.create (by decide) (by simp [Blank, coreAsset])) fun _ => ?_
  refine .bind (.create (by decide) trivial) fun _ => ?_
  refine .bind (.create (by decide) trivial) fun _ => ?_
  exact .bind (.create (by decide) trivial) fun _ => .looks (looks_pure ())

theorem open_importAccount [Fc] (a : InitialAccount) : Steps (StayOpen K) (importAccount a) := by
  unfold importAccount
  refine ⟨fun {d _ d'} hr ⟨hs, hq⟩ => ⟨?_, ?_⟩⟩
  · exact (deposits_kept.accountCreate _).step hr hs
  · exact quiet_of_changes ((composed_accountCreate (l := accountCreateParts) _
      (List.Subset.refl _)).steps.step hr) (by decide) (by decide) (by decide) (by decide) hq

theorem open_importBalance (b : InitialBalance) : Steps (StayOpen K) (importBalance b) := by
  refine open_of_changes (l := genesisParts) (Composed.steps ?_) (by decide) (by decide)
  unfold importBalance
  refine .bind (.create (by decide) trivial) fun _ => ?_
  refine .bind (composed_modifyWith fun _ _ f => by cases f <;> simp +decide) fun _ => ?_
  simp +decide

/-- What is pending at an account that neither delegates nor votes is settled. -/
theorem Polls.Due.of_pending_silent {P : Polls} {i : Nat} {e : Nat → Int}
    (h : Polls.Pending K (fun _ _ => 0) (fun _ => 0) e i P) (hup : P.up i = none)
    (hsilent : Polls.Silent K i P) : Polls.Even K P := by
  have hlag := h.relag (fun _ => 0) hsilent fun x hx => by
    simp only [Forest.only, if_neg hx, add_zero]
  refine ⟨fun p hp j hj => ?_, hlag.tallied⟩
  have := hlag.off p hp j hj
  simpa [hup, Forest.at_] using this

/-- An account that neither delegates nor votes gets vesting shares. -/
theorem open_importVesting (v : InitialVestingBalance) : Steps (StayOpen K) (importVesting v) := by
  refine ⟨fun {d _ d'} hr ⟨hs, hq⟩ => ?_⟩
  have hcomp : Composed [.account .vests, .props .shares] (importVesting v) := by
    unfold importVesting modifyDgp
    refine .bind (by simp) fun _ => ?_
    refine .bind (composed_modifyWith fun _ _ f => by cases f <;> simp +decide) fun _ => ?_
    exact composed_modifyWith fun _ _ f => by cases f <;> simp +decide
  have hquiet : Voteless d'.store := quiet_of_changes (hcomp.steps.step hr) (by decide) (by decide)
    (by decide) (by decide) hq
  have hrates := rates_of_composed hcomp hr (by decide) (by decide) hs.rates
  unfold importVesting modifyDgp at hr
  obtain ⟨_, _, hr⟩ := bind_getAccount_ok.mp hr
  obtain ⟨_, d₁, h1, h2⟩ := Action.bind_ok.mp hr
  obtain ⟨a, x, ha, hx, hf, e1⟩ := modifyWith_store h1
  obtain ⟨p, y, hp, hy, hf', e2⟩ := modifyWith_store h2
  have hrange := Asset.add_range hx
  obtain ⟨_, rfl⟩ := Asset.add_ok hx
  obtain ⟨_, rfl⟩ := Asset.add_ok hy
  obtain ⟨hm, hpend⟩ := revested (w := v.amount) hs.sound.steady hs.sound.even ha hf rfl
  rw [← e1] at hm hpend
  have hup : (polls d₁.store).up v.owner = none := by
    rw [e1, polls_write_account]
    exact Polls.up_of_proxy_empty ((Polls.get_setAccount ..).trans (if_pos rfl))
      (hq.proxies _ _ ha)
  have hsilent : Polls.Silent K v.owner (polls d₁.store) := by
    intro k _ r w hw
    rw [e1, polls_write_account] at hw
    cases (hq.votes k r).symm.trans hw
  have heven := Polls.Due.of_pending_silent hpend hup hsilent
  have hacc : v.owner ∈ (polls d.store).nodes := Polls.mem_nodes.mpr ⟨_, get_ballot_some ha⟩
  have hheld := hm.held hacc
  have hown : (polls d.store).level v.owner 0 = a.vestingShares.amount :=
    congrFun (Polls.level_of_get (get_ballot_some ha)) 0
  have e2' := congrArg polls e2
  rw [polls_write_props] at e2'
  refine ⟨⟨?_, fun x => ?_, hrates⟩, hquiet⟩
  · rw [e2']
    refine ⟨hm.steady.setShares _, heven.setShares _, ?_⟩
    change p.totalVestingShares.amount + v.amount = (polls d₁.store).held
    rw [hheld, ← shares_of_props hp, hm.shares, hs.sound.shares]
  · rw [e2']
    exact hm.range hs.range (hown ▸ hrange) x

/-- **The polls of the genesis are sound.** -/
theorem kept_genesis [Fc] {g : GenesisState} {u : Unit} {d : Database chainSchema}
    (h : (initGenesis g).run emptyDatabase = .ok u d) : Kept K d.store := by
  have hsteps : Steps (StayOpen K) (initGenesis g) := by
    unfold initGenesis
    refine steps_bind (open_initAccounts g) fun _ => ?_
    refine steps_bind (open_initGlobals g) fun _ => ?_
    refine steps_bind (steps_forEach open_importAccount) fun _ => ?_
    refine steps_bind (steps_forEach fun a => ?_) fun _ => ?_
    · refine open_of_changes (l := genesisParts) (Composed.steps ?_) (by decide) (by decide)
      refine .bind (by simp) fun issuer => ?_
      exact .bind (.create (by decide) (by simp [Blank])) fun _ => .looks (looks_pure ())
    · exact steps_bind (steps_forEach open_importBalance) fun _ =>
        steps_forEach open_importVesting
  exact (hsteps.step h kept_emptyStore).1

/-! ## 2. Proxies -/

/-- The account with a name. -/
def accountNamed (s : Store chainSchema) (name : String) : Option Nat :=
  ((s.rows Kind.account).find? fun r : Nat × Account => r.2.name = name).map (·.1)

/-- The account that an account has as its proxy. -/
def proxyOf (s : Store chainSchema) (i : Nat) : Option Nat :=
  match (s.get Kind.account i : Option Account) with
  | none => none
  | some a => if a.proxy = proxyToSelfAccount then none else accountNamed s a.proxy

/-- The account that the proxy path of an account comes to after `k` steps. -/
def proxyPath (s : Store chainSchema) : Nat → Nat → Option Nat
  | 0, i => some i
  | k + 1, i => (proxyOf s i).bind (proxyPath s k)

/-- The vesting shares of the accounts whose proxy path reaches `p` in exactly `k` steps. -/
def vestsBelow (s : Store chainSchema) (k p : Nat) : Int :=
  ((s.rows Kind.account).map fun r : Nat × Account =>
    if proxyPath s k r.1 = some p then r.2.vestingShares.amount else 0).sum

/-- What validate_invariants counts for an account. -/
def Account.vsfVotes (a : Account) : Except Exn Int :=
  if a.proxy = proxyToSelfAccount then a.witnessVoteWeight
  else .ok (a.proxiedVsfVotes.getD (maxProxyRecursionDepth - 1) 0)

def addVsfVotes : List Account → Int → Except Exn Int
  | [], total => .ok total
  | a :: rest, total => do
      let v ← a.vsfVotes
      let total ← safe (total + v)
      addVsfVotes rest total

/-- `total_vsf_votes` of validate_invariants. -/
def totalVsfVotes (s : Store chainSchema) : Except Exn Int :=
  addVsfVotes (((s.rows Kind.account).insertionSort
    fun a b : Nat × Account => a.2.name ≤ b.2.name).map (·.2)) 0

/-- All that an account votes with. -/
def Account.voteWeight (a : Account) : Int := a.vestingShares.amount + a.proxiedVsfVotes.sum

/-- What validate_invariants counts for an account, without a limit. -/
def Account.vsfShare (a : Account) : Int :=
  if a.proxy = proxyToSelfAccount then a.voteWeight
  else a.proxiedVsfVotes.getD (maxProxyRecursionDepth - 1) 0

theorem Account.witnessVoteWeight_eq {a : Account} {w : Int} (h : a.witnessVoteWeight = .ok w) :
    w = a.voteWeight := sumShares_ok h

theorem Account.vsfVotes_eq {a : Account} {w : Int} (h : a.vsfVotes = .ok w) : w = a.vsfShare := by
  unfold Account.vsfVotes at h
  unfold Account.vsfShare
  split at h
  · rename_i hp
    rw [if_pos hp]
    exact witnessVoteWeight_eq h
  · rename_i hp
    rw [if_neg hp]
    exact (Except.ok.inj h).symm

theorem addVsfVotes_eq {l : List Account} {total x : Int} (h : addVsfVotes l total = .ok x) :
    x = total + (l.map Account.vsfShare).sum := by
  induction l generalizing total with
  | nil =>
    cases h
    simp
  | cons a l ih =>
    obtain ⟨v, hv, h⟩ := except_bind_ok.mp h
    obtain ⟨y, hy, h⟩ := except_bind_ok.mp h
    rw [ih h, (safe_ok.mp hy).1, Account.vsfVotes_eq hv, List.map_cons, List.sum_cons]
    omega

section

variable {s : Store chainSchema}

theorem accountNamed_eq (name : String) : accountNamed s name = (polls s).named name := by
  unfold accountNamed Polls.named
  show _ = Option.map _ (List.find? _ ((s.rows Kind.account).map fun r => (r.1, Account.ballot r.2)))
  rw [List.find?_map, Option.map_map]
  rfl

theorem proxyOf_eq (i : Nat) : proxyOf s i = (polls s).up i := by
  unfold proxyOf Polls.up
  rw [get_ballot]
  cases s.get Kind.account i with
  | none => rfl
  | some a =>
    show (if a.proxy = proxyToSelfAccount then none else accountNamed s a.proxy) = _
    rw [accountNamed_eq]
    rfl

theorem proxyPath_eq (k i : Nat) : proxyPath s k i = (polls s).forest.climb k i := by
  induction k generalizing i with
  | zero => rfl
  | succ k ih =>
    simp only [proxyPath, Forest.climb]
    rw [proxyOf_eq]
    exact congrArg _ (funext ih)

/-- A sum over all accounts. -/
theorem sum_nodes (f : Nat → Int) : ∑ i ∈ (polls s).nodes, f i =
    ((s.rows Kind.account).map fun r : Nat × Account => f r.1).sum := by
  have hnodup : ((polls s).accounts.rows.map (·.1)).Nodup :=
    (List.pairwise_map.mpr (polls s).accounts.sorted).imp fun h => Nat.ne_of_lt h
  unfold Polls.nodes
  rw [List.sum_toFinset _ hnodup, List.map_map]
  show ((List.map _ (s.rows Kind.account)).map _).sum = _
  rw [List.map_map]
  rfl

theorem get_of_mem_accounts {r : Nat × Account} (h : r ∈ s.rows Kind.account) :
    s.get Kind.account r.1 = some r.2 := FMap.mem_rows.mp h

/-- What an account has at a level. -/
theorem level_account {i : Nat} {a : Account} (h : s.get Kind.account i = some a) (j : Nat) :
    (polls s).level i j = a.ballot.level j := congrFun (Polls.level_of_get (get_ballot_some h)) j

theorem vestsBelow_eq (k p : Nat) : vestsBelow s k p =
    ∑ x ∈ (polls s).forest.nodes with (polls s).forest.climb k x = some p,
      (polls s).forest.level x 0 := by
  rw [Finset.sum_filter]
  refine Eq.trans ?_ (sum_nodes (s := s) _).symm
  unfold vestsBelow
  refine congrArg List.sum (List.map_congr_left fun r hr => ?_)
  rw [proxyPath_eq]
  exact if_congr Iff.rfl (level_account (get_of_mem_accounts hr) 0).symm rfl

/-- The weight of an account is the sum of its levels. -/
theorem voteWeight_eq {a : Account} (h : a.proxiedVsfVotes.length = Polls.depth) :
    a.voteWeight = ∑ j ∈ Finset.range (Polls.depth + 1), a.ballot.level j := by
  rw [Finset.sum_range_succ', add_comm]
  show _ = a.vestingShares.amount + ∑ j ∈ Finset.range Polls.depth, a.proxiedVsfVotes.getD j 0
  rw [← sum_take_eq_range, List.take_of_length_le (by omega)]
  rfl

theorem Polls.Sound.settled {P : Polls} (h : P.Sound K) : P.forest.Settled Polls.depth :=
  Forest.settled_iff.mpr h.even.off

end

/-- **Proxies are accounted for.** In every state of the chain no account is its own proxy over any
number of steps, `proxied_vsf_votes[ i ]` is what the accounts `i + 1` steps below hold in vesting
shares, and what validate_invariants adds up is the total of the vesting shares. -/
theorem proxied_votes_accounted [Fc] {g : GenesisState} {d : Database chainSchema}
    (h : Attained (fun _ _ => True) Unspoilt g d) :
    (∀ k i, proxyPath d.store (k + 1) i ≠ some i) ∧
    (∀ p (a : Account), d.store.get Kind.account p = some a → ∀ i < maxProxyRecursionDepth,
      a.proxiedVsfVotes[i]? = some (vestsBelow d.store (i + 1) p)) ∧
    ((d.store.rows Kind.account).map fun r : Nat × Account => r.2.vsfShare).sum =
      d.store.props.totalVestingShares.amount ∧
    ∀ x, totalVsfVotes d.store = .ok x → x = d.store.props.totalVestingShares.amount := by
  have hreached := h.reached
  clear h
  generalize d.store = s at hreached ⊢
  have hs : Kept (fun _ => False) s :=
    hreached.invariant kept_genesis fun hst => hst.kept False.elim
  have hsound := hs.sound
  have hslots : ∀ i (a : Account), s.get Kind.account i = some a →
      a.proxiedVsfVotes.length = Polls.depth :=
    fun i a ha => hsound.steady.slots i a.ballot (get_ballot_some ha)
  have htotal : ((s.rows Kind.account).map fun r : Nat × Account => r.2.vsfShare).sum =
      s.props.totalVestingShares.amount := by
    refine Eq.trans ?_ ((hsound.settled.total hsound.steady.closed).trans hsound.shares.symm)
    refine Eq.trans ?_ (sum_nodes (s := s) _).symm
    refine congrArg List.sum (List.map_congr_left fun r hr => ?_)
    have ha := get_of_mem_accounts hr
    have hup := hsound.steady.up_eq_none (get_ballot_some ha)
    unfold Account.vsfShare
    refine if_ctx_congr hup.symm (fun _ => ?_) fun _ => ?_
    · rw [voteWeight_eq (hslots r.1 r.2 ha)]
      exact Finset.sum_congr rfl fun j _ => (level_account ha j).symm
    · exact (level_account ha Polls.depth).symm
  refine ⟨fun k i => ?_, fun p a ha i hi => ?_, htotal, fun x hx => ?_⟩
  · rw [proxyPath_eq]
    exact hsound.steady.grounded.acyclic i k
  · have hp : p ∈ (polls s).forest.nodes := Polls.mem_nodes.mpr ⟨_, get_ballot_some ha⟩
    have hlevel := hsound.settled.level_eq hsound.steady.closed (show i + 1 ≤ Polls.depth from hi) hp
    have hlen : i < a.proxiedVsfVotes.length := by
      rw [hslots p a ha]
      exact hi
    have hget : a.proxiedVsfVotes[i]? = some (a.proxiedVsfVotes.getD i 0) := by
      rw [List.getD_eq_getElem?_getD, List.getElem?_eq_getElem hlen]
      rfl
    rw [vestsBelow_eq, ← hlevel, hget]
    exact congrArg some (level_account ha (i + 1)).symm
  · rw [← htotal, addVsfVotes_eq hx, zero_add, List.map_map]
    exact ((List.perm_insertionSort _ _).map _).sum_eq

section

attribute [local instance] sampleFc

/-- Alice holds 1000 vesting shares. -/
def aliceGenesis : GenesisState :=
  { sampleGenesis with
    initialAccounts := [{ name := "alice", ownerKey := 1 }]
    initialVestingBalances := [⟨4, 1000⟩] }

def aliceStart : Database chainSchema :=
  ((initGenesis aliceGenesis).run emptyDatabase).db

theorem reached_aliceStart (ok : Store chainSchema → Operation → Prop) :
    Reached ok aliceGenesis aliceStart.store := by
  obtain ⟨u, hu⟩ := Outcome.exists_of_isOk (show ((initGenesis aliceGenesis).run
    emptyDatabase).isOk = true by decide +kernel)
  exact ⟨u, _, hu, .refl⟩

theorem Reached.evaluated {ok : Store chainSchema → Operation → Prop} {g : GenesisState}
    {d : Database chainSchema} (h : Reached ok g d.store) {op : Operation}
    (hv : op.validate = .ok ()) (ha : op.approves = false) (hop : ok d.store op)
    (hr : ((evaluate 0 (fun _ => pure ()) op : Act 0 Unit).run d).isOk = true) :
    Reached ok g (evaluated op d).store := by
  obtain ⟨u, d₀, hg, hrun⟩ := h
  obtain ⟨_, hr⟩ := Outcome.exists_of_isOk hr
  exact ⟨u, d₀, hg, hrun.tail (.operation 0 0 _ op hv ha hop hr)⟩

/-- The init miner is the proxy of alice, who then fails to take nobody for it. -/
def aliceProxied : Database chainSchema :=
  approved ["alice"] (proposed [.accountWitnessProxy "alice" "nobody"]
    (evaluated (.accountWitnessProxy "alice" initMinerName) (Node.genesis aliceGenesis).db))

theorem attained_alice {ok : Store chainSchema → Operation → Prop}
    {safe : Nat → Database chainSchema → Database chainSchema → Prop} :
    Attained ok safe aliceGenesis (Node.genesis aliceGenesis).db :=
  .genesis (by decide +kernel)

/-- The 1000 vesting shares of alice are one step below the init miner. -/
theorem proxied_votes_accounted_alice :
    (aliceProxied.store.get Kind.account 3).map (fun a : Account => a.proxiedVsfVotes) =
      some [1000, 0, 0, 0] ∧
    (∀ k i, proxyPath aliceProxied.store (k + 1) i ≠ some i) ∧
    (∀ p (a : Account), aliceProxied.store.get Kind.account p = some a →
      ∀ i < maxProxyRecursionDepth,
        a.proxiedVsfVotes[i]? = some (vestsBelow aliceProxied.store (i + 1) p)) ∧
    ((aliceProxied.store.rows Kind.account).map fun r : Nat × Account => r.2.vsfShare).sum =
      aliceProxied.store.props.totalVestingShares.amount ∧
    ∀ x, totalVsfVotes aliceProxied.store = .ok x →
      x = aliceProxied.store.props.totalVestingShares.amount := by
  have hattained : Attained (fun _ _ => True) Unspoilt aliceGenesis aliceProxied :=
    (attained_alice.evaluated _ (by decide) rfl trivial (by decide +kernel)).attempted (by decide)
      trivial (by decide +kernel) fun _ => unspoilt_of_whole (by decide +kernel)
  exact ⟨by decide +kernel, proxied_votes_accounted hattained⟩

/-- The init miner holds 1000 vesting shares. -/
def minerGenesis : GenesisState := { sampleGenesis with initialVestingBalances := [⟨3, 1000⟩] }

def minerLeaves : Operation := .withdrawVesting initMinerName (Asset.vests 1000)

/-- The init miner votes for itself and withdraws its shares. -/
def minerLeaving : Database chainSchema :=
  evaluated minerLeaves
    (evaluated (.accountWitnessVote initMinerName initMinerName true) (Node.genesis minerGenesis).db)

/-- To withdraw the same once more fails in the callback of `modify`. -/
def minerSpoilt : Database chainSchema :=
  approved [initMinerName] (proposed [minerLeaves] minerLeaving)

theorem attained_minerSpoilt :
    Attained (fun _ _ => True) (fun _ _ _ => True) minerGenesis minerSpoilt := by
  have hstart : Attained (fun _ _ => True) (fun _ _ _ => True) minerGenesis
      (Node.genesis minerGenesis).db := .genesis (by decide +kernel)
  have hleaving : Attained (fun _ _ => True) (fun _ _ _ => True) minerGenesis minerLeaving :=
    (hstart.evaluated _ (by decide) rfl trivial (by decide +kernel)).evaluated _ (by decide) rfl
      trivial (by decide +kernel)
  exact hleaving.attempted (by decide) trivial (by decide +kernel) fun _ => trivial

/-- **A failed execution loses an account**: its vesting shares are still in the total. -/
theorem proxied_votes_lost : ∃ (g : GenesisState) (d : Database chainSchema),
    Attained (fun _ _ => True) (fun _ _ _ => True) g d ∧
      ((d.store.rows Kind.account).map fun r : Nat × Account => r.2.vsfShare).sum ≠
        d.store.props.totalVestingShares.amount :=
  ⟨_, _, attained_minerSpoilt, by decide +kernel⟩

end

/-! ## 3. Votes for witnesses -/

/-- The accounts with a vote for a witness, in the order of the votes. -/
def votersOf (s : Store chainSchema) (w : Nat) : List Nat :=
  ((s.rows Kind.witnessVote).filter fun r : Nat × WitnessVote => decide (r.2.witness = w)).map
    fun r : Nat × WitnessVote => r.2.account

section

variable {s : Store chainSchema}

/-- What is cast for a witness is cast by its voters. -/
theorem cast_witness (w : Nat) :
    (polls s).forest.cast Polls.depth (fun _ => 0) ((polls s).votes .witness) w =
      ((votersOf s w).map ((polls s).forest.weight Polls.depth)).sum := by
  unfold votersOf
  rw [List.map_map]
  rw [sum_map_filter]
  unfold Forest.cast
  show ((s.table Kind.witnessVote).map.map fun v : WitnessVote => (v.account, v.witness)).sum _ = _
  rw [FMap.sum_map]
  refine congrArg List.sum (List.map_congr_left fun r _ => ?_)
  simp only [sub_zero, decide_eq_true_eq]
  rfl

theorem get_of_vote {r : Nat × WitnessVote} (h : r ∈ s.rows Kind.witnessVote) :
    ((polls s).votes .witness).get r.1 = some (r.2.account, r.2.witness) := by
  have hget : s.get Kind.witnessVote r.1 = some r.2 := FMap.mem_rows.mp h
  rw [get_witnessVote, hget]
  rfl

theorem nodup_votersOf (h : (polls s).Roll .witness) (w : Nat) : (votersOf s w).Nodup := by
  have hkeys : (s.rows Kind.witnessVote).Pairwise fun a b : Nat × WitnessVote => a.1 ≠ b.1 :=
    (s.table Kind.witnessVote).map.sorted.imp fun hab => Nat.ne_of_lt hab
  refine List.pairwise_map.mpr ?_
  have hfiltered := hkeys.filter (fun r : Nat × WitnessVote => decide (r.2.witness = w))
  refine List.Pairwise.imp_of_mem (fun {a b} ha hb hab heq => ?_) hfiltered
  obtain ⟨ha, haw⟩ := List.mem_filter.mp ha
  obtain ⟨hb, hbw⟩ := List.mem_filter.mp hb
  have ha' := get_of_vote ha
  have hb' := get_of_vote hb
  rw [of_decide_eq_true haw] at ha'
  rw [of_decide_eq_true hbw, ← heq] at hb'
  exact hab (h.once a.1 b.1 _ ha' hb')

/-- The weight of an account without a proxy. -/
theorem weight_account (hsound : Polls.Sound K (polls s)) {i : Nat} {a : Account}
    (ha : s.get Kind.account i = some a) (hp : a.proxy = "") :
    (polls s).forest.weight Polls.depth i = a.voteWeight := by
  have hslots := hsound.steady.slots i a.ballot (get_ballot_some ha)
  unfold Forest.weight
  rw [show (polls s).forest.up i = none from
    (hsound.steady.up_eq_none (get_ballot_some ha)).mpr hp, if_pos rfl, voteWeight_eq hslots]
  exact Finset.sum_congr rfl fun j _ => level_account ha j

end

/-- **Votes for witnesses are tallied.** In every state of the chain the votes of a witness are the
weights of the accounts that have a vote object for it, none of which has a proxy; and an account
has cast as many votes as it counts, which are no more than it may. -/
theorem witness_votes_tallied [Fc] {g : GenesisState} {d : Database chainSchema}
    (h : Attained (fun _ _ => True) Unspoilt g d) :
    (∀ w (x : Witness), d.store.get Kind.witness w = some x →
      x.votes = ((d.store.rows Kind.account).map fun r : Nat × Account =>
        if r.1 ∈ votersOf d.store w then r.2.voteWeight else 0).sum) ∧
    (∀ i (v : WitnessVote), d.store.get Kind.witnessVote i = some v →
      ∃ a : Account, d.store.get Kind.account v.account = some a ∧
        a.proxy = proxyToSelfAccount) ∧
    ∀ i (a : Account), d.store.get Kind.account i = some a →
      a.witnessesVotedFor = ((d.store.rows Kind.witnessVote).filter fun r : Nat × WitnessVote =>
        decide (r.2.account = i)).length ∧
      a.witnessesVotedFor ≤ maxAccountWitnessVotes := by
  have hreached := h.reached
  clear h
  generalize d.store = s at hreached ⊢
  have hs : Kept (fun k => k = .witness) s :=
    hreached.invariant kept_genesis fun hst => hst.kept fun hk => by cases hk
  have hsound := hs.sound
  have hroll := hsound.steady.rolls .witness rfl
  have hvoter : ∀ i (v : WitnessVote), s.get Kind.witnessVote i = some v →
      ∃ a : Account, s.get Kind.account v.account = some a ∧ a.proxy = "" := by
    intro i v hv
    obtain ⟨b, hb, hp⟩ := hroll.voters i (v.account, v.witness) (by rw [get_witnessVote, hv]; rfl)
    rw [get_ballot] at hb
    obtain ⟨a, ha, rfl⟩ := Option.map_eq_some_iff.mp hb
    exact ⟨a, ha, hp⟩
  refine ⟨fun w x hx => ?_, hvoter, fun i a ha => ⟨?_, hroll.limit i a.ballot (get_ballot_some ha)⟩⟩
  · have htotal : ((polls s).totals .witness).get w = some x.votes := by
      rw [get_witnessTotal, hx]
      rfl
    rw [hsound.even.tallied .witness rfl w _ htotal, cast_witness]
    have hmem : ∀ i ∈ votersOf s w, ∃ a : Account, s.get Kind.account i = some a ∧ a.proxy = "" := by
      intro i hi
      obtain ⟨r, hr, rfl⟩ := List.mem_map.mp hi
      exact hvoter r.1 r.2 (FMap.mem_rows.mp (List.mem_filter.mp hr).1)
    have hnodes : ∀ i ∈ votersOf s w, i ∈ (polls s).nodes := by
      intro i hi
      obtain ⟨a, ha, _⟩ := hmem i hi
      exact Polls.mem_nodes.mpr ⟨_, get_ballot_some ha⟩
    rw [sum_map_of_nodup (nodup_votersOf hroll w) hnodes, sum_nodes]
    refine congrArg List.sum (List.map_congr_left fun r hr => ?_)
    refine if_ctx_congr Iff.rfl (fun hi => ?_) fun _ => rfl
    have hr' := get_of_mem_accounts hr
    obtain ⟨a, ha, hp⟩ := hmem r.1 hi
    obtain rfl : r.2 = a := Option.some.inj (hr'.symm.trans ha)
    exact weight_account hsound ha hp
  · have hcount := hroll.counts i a.ballot (get_ballot_some ha)
    have hcast : ((polls s).votes .witness).sum (fun v => if v.1 = i then 1 else 0) =
        (((s.rows Kind.witnessVote).filter fun r : Nat × WitnessVote =>
          decide (r.2.account = i)).map fun _ => (1 : Int)).sum := by
      show ((s.table Kind.witnessVote).map.map fun v : WitnessVote =>
        (v.account, v.witness)).sum _ = _
      rw [FMap.sum_map, sum_map_filter]
      simp only [decide_eq_true_eq]
      rfl
    rw [hcast, List.map_const', List.sum_replicate, nsmul_one] at hcount
    exact_mod_cast hcount

section

attribute [local instance] sampleFc

/-- Alice votes for the init miner, and fails to vote for nobody. -/
def aliceBallot : Database chainSchema :=
  approved ["alice"] (proposed [.accountWitnessVote "alice" "nobody" true]
    (evaluated (.accountWitnessVote "alice" initMinerName true) (Node.genesis aliceGenesis).db))

theorem witness_votes_tallied_alice :
    (aliceBallot.store.get Kind.witness 0).map (fun x : Witness => x.votes) = some 1000 ∧
    (∀ w (x : Witness), aliceBallot.store.get Kind.witness w = some x →
      x.votes = ((aliceBallot.store.rows Kind.account).map fun r : Nat × Account =>
        if r.1 ∈ votersOf aliceBallot.store w then r.2.voteWeight else 0).sum) ∧
    (∀ i (v : WitnessVote), aliceBallot.store.get Kind.witnessVote i = some v →
      ∃ a : Account, aliceBallot.store.get Kind.account v.account = some a ∧
        a.proxy = proxyToSelfAccount) ∧
    ∀ i (a : Account), aliceBallot.store.get Kind.account i = some a →
      a.witnessesVotedFor = ((aliceBallot.store.rows Kind.witnessVote).filter
        fun r : Nat × WitnessVote => decide (r.2.account = i)).length ∧
      a.witnessesVotedFor ≤ maxAccountWitnessVotes := by
  have hattained : Attained (fun _ _ => True) Unspoilt aliceGenesis aliceBallot :=
    (attained_alice.evaluated _ (by decide) rfl trivial (by decide +kernel)).attempted (by decide)
      trivial (by decide +kernel) fun _ => unspoilt_of_whole (by decide +kernel)
  exact ⟨by decide +kernel, witness_votes_tallied hattained⟩

/-- **A failed execution loses a voter**: the witness keeps its votes. -/
theorem witness_votes_lost : ∃ (g : GenesisState) (d : Database chainSchema),
    Attained (fun _ _ => True) (fun _ _ _ => True) g d ∧
      ∃ x : Witness, d.store.get Kind.witness 0 = some x ∧ x.votes = 1000 ∧
        ((d.store.rows Kind.account).map fun r : Nat × Account =>
          if r.1 ∈ votersOf d.store 0 then r.2.voteWeight else 0).sum = 0 := by
  have hvotes : (minerSpoilt.store.get Kind.witness 0).map (fun x : Witness => x.votes) =
      some 1000 := by decide +kernel
  obtain ⟨x, hx, hvotes⟩ := Option.map_eq_some_iff.mp hvotes
  exact ⟨_, _, attained_minerSpoilt, x, hx, hvotes, by decide +kernel⟩

end

end MuseChain
