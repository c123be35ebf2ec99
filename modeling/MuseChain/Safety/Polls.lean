/-
  File:      MuseChain/Safety/Polls.lean
  Subject:   Votes and proxies: what they are for.

  * `Polls`: the accounts with their proxies and what they vote with, and the two polls, of
    witnesses and of streaming platforms. `polls s` takes them from the state of the chain.
  * `Polls.forest`: the accounts delegate to their proxies; what an account holds at level `j + 1`
    is `proxied_vsf_votes[ j ]`.
  * `Polls.Sound K`: what should be true of them, with the polls of `K`.
  * `Due`: the sums while a change is on its way up the proxies. `Due.hop` takes it one proxy up,
    `Due.cast` puts what arrives at the top into the totals.
-/
import MuseChain.Lib.Delegation
import MuseChain.Safety.Parts

namespace MuseChain

/-! ## 1. Polls -/

/-- What an account votes with. -/
structure Ballot where
  name : String
  proxy : String
  vests : Int
  proxied : List Int
  witnessCount : Nat
  platformCount : Nat

/-- What accounts vote for. -/
inductive Poll where
  | witness
  | platform
  deriving DecidableEq

def Ballot.count (b : Ballot) : Poll → Nat
  | .witness => b.witnessCount
  | .platform => b.platformCount

/-- Vesting shares first, then the proxied ones. -/
def Ballot.level (b : Ballot) : Nat → Int
  | 0 => b.vests
  | j + 1 => b.proxied.getD j 0

def Ballot.link (b : Ballot) : String × String := (b.name, b.proxy)

/-- What an account is to the sums. -/
def Ballot.node (b : Ballot) : String × String × Int × List Int :=
  (b.name, b.proxy, b.vests, b.proxied)

/-- What a change of votes in number leaves alone. -/
def Ballot.fixed (b : Ballot) : String × String × Nat × Nat × Nat :=
  (b.name, b.proxy, b.witnessCount, b.platformCount, b.proxied.length)

@[ext] structure Polls where
  accounts : FMap Ballot
  /-- The votes that each candidate has. -/
  totals : Poll → FMap Int
  /-- Who votes for whom. -/
  votes : Poll → FMap (Nat × Nat)
  /-- The percentages of the withdrawal routes. -/
  routes : FMap Nat
  shares : Int

namespace Polls

variable {P Q : Polls}

def named (P : Polls) (name : String) : Option Nat :=
  (P.accounts.rows.find? fun r => r.2.name = name).map (·.1)

/-- The proxy of an account. -/
def up (P : Polls) (i : Nat) : Option Nat :=
  match P.accounts.get i with
  | none => none
  | some b => if b.proxy = "" then none else P.named b.proxy

def level (P : Polls) (i : Nat) : Nat → Int :=
  match P.accounts.get i with
  | none => fun _ => 0
  | some b => b.level

def nodes (P : Polls) : Finset Nat := (P.accounts.rows.map (·.1)).toFinset

def forest (P : Polls) : Forest Nat := ⟨P.nodes, P.up, P.level⟩

theorem mem_nodes {i : Nat} : i ∈ P.nodes ↔ ∃ b, P.accounts.get i = some b := by
  unfold nodes
  rw [List.mem_toFinset, List.mem_map]
  constructor
  · rintro ⟨⟨j, b⟩, hr, rfl⟩
    exact ⟨b, FMap.mem_rows.mp hr⟩
  · rintro ⟨b, hb⟩
    exact ⟨(i, b), FMap.mem_rows.mpr hb, rfl⟩

/-- No two accounts have one name. -/
def Distinct (P : Polls) : Prop :=
  ∀ i j a b, P.accounts.get i = some a → P.accounts.get j = some b → a.name = b.name → i = j

theorem named_of_get (hd : P.Distinct) {j : Nat} {b : Ballot} (hb : P.accounts.get j = some b) :
    P.named b.name = some j := by
  unfold named
  cases hf : P.accounts.rows.find? fun r => r.2.name = b.name with
  | none =>
    have := List.find?_eq_none.mp hf (j, b) (FMap.mem_rows.mpr hb)
    simp at this
  | some r =>
    have hr : P.accounts.get r.1 = some r.2 := FMap.mem_rows.mp (List.mem_of_find?_eq_some hf)
    have hn : r.2.name = b.name := by simpa using List.find?_some hf
    exact congrArg some (hd r.1 j r.2 b hr hb hn)

theorem get_of_named {name : String} {j : Nat} (h : P.named name = some j) :
    ∃ b, P.accounts.get j = some b ∧ b.name = name := by
  unfold named at h
  obtain ⟨r, hf, rfl⟩ := Option.map_eq_some_iff.mp h
  exact ⟨r.2, FMap.mem_rows.mp (List.mem_of_find?_eq_some hf), by simpa using List.find?_some hf⟩

theorem up_eq_some (hd : P.Distinct) {i j : Nat} : P.up i = some j ↔
    ∃ a b, P.accounts.get i = some a ∧ a.proxy ≠ "" ∧ P.accounts.get j = some b ∧
      b.name = a.proxy := by
  unfold up
  cases hi : P.accounts.get i with
  | none => simp
  | some a =>
    by_cases hp : a.proxy = ""
    · simp [hp]
    · simp only [if_neg hp, Option.some.injEq]
      constructor
      · intro h
        obtain ⟨b, hb, hn⟩ := get_of_named h
        exact ⟨a, b, rfl, hp, hb, hn⟩
      · rintro ⟨_, b, rfl, _, hb, hn⟩
        rw [← hn]
        exact named_of_get hd hb

theorem up_of_proxy_empty {i : Nat} {a : Ballot} (hi : P.accounts.get i = some a)
    (hp : a.proxy = "") : P.up i = none := by
  unfold up
  rw [hi]
  exact if_pos hp

theorem level_of_get {i : Nat} {a : Ballot} (hi : P.accounts.get i = some a) :
    P.level i = a.level := by
  unfold level
  rw [hi]

/-! ## 2. What should be true of them -/

/-- The levels that are kept: the vesting shares and `MUSE_MAX_PROXY_RECURSION_DEPTH` more. -/
abbrev depth : Nat := maxProxyRecursionDepth

/-- The votes of one poll: who votes has no proxy, for whom is a candidate, and how many are as
counted. -/
structure Roll (k : Poll) (P : Polls) : Prop where
  voters : ∀ r v, (P.votes k).get r = some v → ∃ a, P.accounts.get v.1 = some a ∧ a.proxy = ""
  candidates : ∀ r v, (P.votes k).get r = some v → ∃ x, (P.totals k).get v.2 = some x
  once : ∀ r r' v, (P.votes k).get r = some v → (P.votes k).get r' = some v → r = r'
  counts : ∀ i a, P.accounts.get i = some a →
    (a.count k : Int) = (P.votes k).sum fun v => if v.1 = i then 1 else 0
  limit : ∀ i a, P.accounts.get i = some a → a.count k ≤ maxAccountWitnessVotes

/-- The part that no change of votes in number touches. -/
structure Steady (K : Poll → Prop) (P : Polls) : Prop where
  distinct : P.Distinct
  /-- A proxy is an account. -/
  proxies : ∀ i a, P.accounts.get i = some a → a.proxy ≠ "" →
    ∃ j b, P.accounts.get j = some b ∧ b.name = a.proxy
  slots : ∀ i a, P.accounts.get i = some a → a.proxied.length = depth
  grounded : P.forest.Grounded
  rolls : ∀ k, K k → P.Roll k
  routes : ∀ i p, P.routes.get i = some p → 1 ≤ p ∧ p ≤ percent100

/-- The sums, but for what is on its way. -/
structure Due (K : Poll → Prop) (corr : Nat → Nat → Int) (lag : Nat → Int) (P : Polls) : Prop where
  off : P.forest.Off depth corr
  tallied : ∀ k, K k → P.forest.Tallied depth lag (P.votes k) (P.totals k).get

/-- The sums are right. -/
abbrev Even (K : Poll → Prop) (P : Polls) : Prop := Due K (fun _ _ => 0) (fun _ => 0) P

structure Sound (K : Poll → Prop) (P : Polls) : Prop where
  steady : P.Steady K
  even : P.Even K
  shares : P.shares = ∑ i ∈ P.nodes, P.level i 0

theorem Steady.closed {K : Poll → Prop} (h : P.Steady K) : P.forest.Closed := by
  intro i _ j hj
  obtain ⟨_, b, _, _, hb, _⟩ := (up_eq_some h.distinct).mp hj
  exact mem_nodes.mpr ⟨b, hb⟩

theorem Steady.up_eq_none {K : Poll → Prop} (h : P.Steady K) {i : Nat} {a : Ballot}
    (hi : P.accounts.get i = some a) : P.up i = none ↔ a.proxy = "" := by
  refine ⟨fun hn => ?_, up_of_proxy_empty hi⟩
  by_contra hp
  obtain ⟨j, b, hb, hname⟩ := h.proxies i a hi hp
  rw [(up_eq_some h.distinct).mpr ⟨a, b, hi, hp, hb, hname⟩] at hn
  cases hn

/-! ## 3. The same proxies -/

/-- The accounts have the names and the proxies that they had. -/
structure SameLinks (P Q : Polls) : Prop where
  accounts : ∀ i, (Q.accounts.get i).map Ballot.link = (P.accounts.get i).map Ballot.link

namespace SameLinks

theorem symm (h : SameLinks P Q) : SameLinks Q P := ⟨fun i => (h.accounts i).symm⟩

theorem get (h : SameLinks P Q) {i : Nat} {a : Ballot} (hi : P.accounts.get i = some a) :
    ∃ b, Q.accounts.get i = some b ∧ b.name = a.name ∧ b.proxy = a.proxy := by
  have := h.accounts i
  rw [hi] at this
  obtain ⟨b, hb, e⟩ := Option.map_eq_some_iff.mp this
  exact ⟨b, hb, congrArg Prod.fst e, congrArg Prod.snd e⟩

theorem nodes (h : SameLinks P Q) : Q.nodes = P.nodes := by
  ext i
  rw [mem_nodes, mem_nodes]
  constructor
  · rintro ⟨b, hb⟩
    obtain ⟨a, ha, _⟩ := h.symm.get hb
    exact ⟨a, ha⟩
  · rintro ⟨a, ha⟩
    obtain ⟨b, hb, _⟩ := h.get ha
    exact ⟨b, hb⟩

theorem distinct (h : SameLinks P Q) (hd : P.Distinct) : Q.Distinct := by
  intro i j a b ha hb hn
  obtain ⟨a', ha', ea, _⟩ := h.symm.get ha
  obtain ⟨b', hb', eb, _⟩ := h.symm.get hb
  exact hd i j a' b' ha' hb' (ea.trans (hn.trans eb.symm))

theorem up_some (h : SameLinks P Q) (hd : P.Distinct) {i j : Nat} (hij : P.up i = some j) :
    Q.up i = some j := by
  obtain ⟨a, b, ha, hp, hb, hn⟩ := (up_eq_some hd).mp hij
  obtain ⟨a', ha', _, ea⟩ := h.get ha
  obtain ⟨b', hb', eb, _⟩ := h.get hb
  exact (up_eq_some (h.distinct hd)).mpr ⟨a', b', ha', ea ▸ hp, hb', eb.trans (hn.trans ea.symm)⟩

theorem up (h : SameLinks P Q) (hd : P.Distinct) : Q.up = P.up := by
  funext i
  refine Option.ext fun j => ?_
  exact ⟨fun hq => h.symm.up_some (h.distinct hd) hq, fun hp => h.up_some hd hp⟩

theorem proxies (h : SameLinks P Q)
    (hp : ∀ i a, P.accounts.get i = some a → a.proxy ≠ "" →
      ∃ j b, P.accounts.get j = some b ∧ b.name = a.proxy) {i : Nat} {a' : Ballot}
    (ha' : Q.accounts.get i = some a') (hne : a'.proxy ≠ "") :
    ∃ j b, Q.accounts.get j = some b ∧ b.name = a'.proxy := by
  obtain ⟨a, ha, _, ea⟩ := h.symm.get ha'
  obtain ⟨j, b, hb, hn⟩ := hp i a ha (ea ▸ hne)
  obtain ⟨b', hb', eb, _⟩ := h.get hb
  exact ⟨j, b', hb', eb.trans (hn.trans ea)⟩

/-- A poll whose votes, candidates and counts are the same. -/
theorem roll (h : SameLinks P Q) {k : Poll} (hr : P.Roll k)
    (hcount : ∀ i a b, P.accounts.get i = some a → Q.accounts.get i = some b →
      b.count k = a.count k)
    (hvotes : Q.votes k = P.votes k)
    (hcand : ∀ t, ((Q.totals k).get t).isSome = ((P.totals k).get t).isSome) : Q.Roll k where
  voters := by
    intro r v hv
    rw [hvotes] at hv
    obtain ⟨a, ha, hp⟩ := hr.voters r v hv
    obtain ⟨b, hb, _, e⟩ := h.get ha
    exact ⟨b, hb, e.trans hp⟩
  candidates := by
    intro r v hv
    rw [hvotes] at hv
    rw [← Option.isSome_iff_exists, hcand, Option.isSome_iff_exists]
    exact hr.candidates r v hv
  once := by
    intro r r' v hv hv'
    rw [hvotes] at hv hv'
    exact hr.once r r' v hv hv'
  counts := by
    intro i b hb
    obtain ⟨a, ha, _⟩ := h.symm.get hb
    rw [hcount i a b ha hb, hvotes]
    exact hr.counts i a ha
  limit := by
    intro i b hb
    obtain ⟨a, ha, _⟩ := h.symm.get hb
    rw [hcount i a b ha hb]
    exact hr.limit i a ha

end SameLinks

/-! ## 4. Changes of the numbers only -/

/-- The same accounts, proxies, votes and candidates. -/
structure Alike (P Q : Polls) : Prop where
  accounts : ∀ i, (Q.accounts.get i).map Ballot.fixed = (P.accounts.get i).map Ballot.fixed
  candidates : ∀ k t, ((Q.totals k).get t).isSome = ((P.totals k).get t).isSome
  votes : Q.votes = P.votes
  routes : Q.routes = P.routes

theorem Alike.refl (P : Polls) : Alike P P := ⟨fun _ => rfl, fun _ _ => rfl, rfl, rfl⟩

theorem Alike.trans {R : Polls} (h : Alike P Q) (h' : Alike Q R) : Alike P R :=
  ⟨fun i => (h'.accounts i).trans (h.accounts i),
    fun k t => (h'.candidates k t).trans (h.candidates k t), h'.votes.trans h.votes,
    h'.routes.trans h.routes⟩

theorem Alike.symm (h : Alike P Q) : Alike Q P :=
  ⟨fun i => (h.accounts i).symm, fun k t => (h.candidates k t).symm, h.votes.symm, h.routes.symm⟩

theorem Alike.get (h : Alike P Q) {i : Nat} {a : Ballot} (hi : P.accounts.get i = some a) :
    ∃ b, Q.accounts.get i = some b ∧ b.fixed = a.fixed := by
  have := h.accounts i
  rw [hi] at this
  exact Option.map_eq_some_iff.mp this

theorem Alike.links (h : Alike P Q) : SameLinks P Q := by
  refine ⟨fun i => ?_⟩
  have := congrArg (Option.map fun x : String × String × Nat × Nat × Nat => (x.1, x.2.1))
    (h.accounts i)
  rw [Option.map_map, Option.map_map] at this
  exact this

/-- **A change of the numbers keeps what is fixed.** -/
theorem Steady.of_alike {K : Poll → Prop} (hs : P.Steady K) (h : Alike P Q) : Q.Steady K where
  distinct := h.links.distinct hs.distinct
  proxies _ _ ha hp := h.links.proxies hs.proxies ha hp
  slots := by
    intro i a' ha'
    obtain ⟨a, ha, hfa⟩ := h.symm.get ha'
    have e : a.proxied.length = a'.proxied.length := congrArg (·.2.2.2.2) hfa
    exact e ▸ hs.slots i a ha
  grounded := hs.grounded.congr (h.links.up hs.distinct)
  rolls := by
    intro k hk
    refine h.links.roll (hs.rolls k hk) (fun i a b ha hb => ?_) (congrFun h.votes k)
      (h.candidates k)
    obtain ⟨b', hb', hfb⟩ := h.get ha
    obtain rfl : b' = b := Option.some.inj (hb'.symm.trans hb)
    cases k with
    | witness => exact congrArg (·.2.2.1) hfb
    | platform => exact congrArg (·.2.2.2.1) hfb
  routes := by
    intro i p hp
    rw [h.routes] at hp
    exact hs.routes i p hp

/-! ## 5. A change on its way up -/

def setAccount (P : Polls) (i : Nat) (b : Ballot) : Polls :=
  { P with accounts := P.accounts.put i (some b) }

theorem get_setAccount (P : Polls) (i j : Nat) (b : Ballot) :
    (P.setAccount i b).accounts.get j = if j = i then some b else P.accounts.get j :=
  FMap.get_put ..

theorem alike_setAccount {i : Nat} {a b : Ballot} (hi : P.accounts.get i = some a)
    (h : b.fixed = a.fixed) : Alike P (P.setAccount i b) := by
  refine ⟨fun j => ?_, fun _ _ => rfl, rfl, rfl⟩
  rw [get_setAccount]
  split
  · rename_i e
    rw [e, hi]
    exact congrArg some h
  · rfl

theorem raised_setAccount (hd : P.Distinct) {i : Nat} {a b : Ballot} {e : Nat → Int}
    (hi : P.accounts.get i = some a) (h : b.fixed = a.fixed)
    (hlevel : ∀ j ≤ depth, b.level j = a.level j + e j) :
    Forest.Raised depth i e P.forest (P.setAccount i b).forest := by
  have halike := alike_setAccount hi h
  refine ⟨halike.links.nodes, halike.links.up hd, fun j hj => ?_, fun x hx => ?_⟩
  · show (P.setAccount i b).level i j = P.level i j + e j
    rw [level_of_get hi, level_of_get ((get_setAccount ..).trans (if_pos rfl))]
    exact hlevel j hj
  · show (P.setAccount i b).level x = P.level x
    unfold Polls.level
    rw [get_setAccount, if_neg hx]

section

variable {K : Poll → Prop} {corr : Nat → Nat → Int} {lag : Nat → Int} {e : Nat → Int}

/-- What is on its way when the levels of `i` have been raised by `e`: it goes to the proxy, or is
cast when there is none. -/
abbrev Pending (K : Poll → Prop) (corr : Nat → Nat → Int) (lag : Nat → Int) (e : Nat → Int) (i : Nat)
    (P : Polls) : Prop :=
  Due K (fun p j => corr p j + Forest.at_ (P.up i) e p j)
    (fun x => lag x + Forest.only i (if P.up i = none then
      ∑ j ∈ Finset.range (depth + 1), e j else 0) x) P

/-- The own vesting shares of an account change. -/
theorem Due.raised (h : Due K corr lag P) (hd : P.Distinct) {i : Nat} {a b : Ballot}
    (hi : P.accounts.get i = some a) (hfix : b.fixed = a.fixed)
    (hlevel : ∀ j ≤ depth, b.level j = a.level j + e j) (h0 : ∀ j, e (j + 1) = 0) :
    Pending K corr lag e i (P.setAccount i b) := by
  have hr := raised_setAccount hd hi hfix hlevel
  have hup : (P.setAccount i b).up = P.up := (alike_setAccount hi hfix).links.up hd
  unfold Pending
  rw [hup]
  exact ⟨h.off.raised (mem_nodes.mpr ⟨a, hi⟩) h0 hr, fun k hk => (h.tallied k hk).raised hr⟩

/-- **The proxy takes it up, one level higher, and it goes on from there.** -/
theorem Due.hop {i q : Nat} (h : Pending K corr lag e i P) (hd : P.Distinct) (hq : P.up i = some q)
    {a b : Ballot} (ha : P.accounts.get q = some a) (hfix : b.fixed = a.fixed)
    (hlevel : ∀ j ≤ depth, b.level j = a.level j + Forest.shift e j) :
    Pending K corr lag (Forest.shift e) q (P.setAccount q b) := by
  have hr := raised_setAccount hd ha hfix hlevel
  have hup : (P.setAccount q b).up = P.up := (alike_setAccount ha hfix).links.up hd
  unfold Pending at h ⊢
  rw [hup]
  rw [hq] at h
  refine ⟨h.off.raise (mem_nodes.mpr ⟨a, ha⟩) hr, fun k hk => ?_⟩
  have ht := (h.tallied k hk).raised hr
  refine ht.congr fun x => ?_
  simp [Forest.only]
  rfl

/-- What has come above all levels is gone. -/
theorem Due.spent {i q : Nat} (h : Pending K corr lag e i P) (hq : P.up i = some q)
    (h0 : ∀ j < depth, e j = 0) : Due K corr lag P := by
  unfold Pending at h
  rw [hq] at h
  refine ⟨fun p hp j hj => ?_, fun k hk => (h.tallied k hk).congr fun x => ?_⟩
  · have := h.off p hp j hj
    unfold Forest.at_ at this
    rw [h0 j hj] at this
    simpa using this
  · simp [Forest.only]

/-- Every vote of `i` counts `w` more. -/
structure Cast (i : Nat) (w : Int) (P Q : Polls) : Prop where
  accounts : Q.accounts = P.accounts
  votes : Q.votes = P.votes
  totals : ∀ k t, (Q.totals k).get t = ((P.totals k).get t).map fun x =>
    x + (((P.votes k).rows.filter fun r => r.2.1 = i).map fun r => if r.2.2 = t then w else 0).sum

/-- **What arrives at an account without a proxy is cast.** -/
theorem Due.cast {i : Nat} (h : Pending K corr lag e i P) (hi : P.up i = none)
    (hc : Cast i (∑ j ∈ Finset.range (depth + 1), e j) P Q) : Due K corr lag Q := by
  have hforest : Q.forest = P.forest := by
    unfold Polls.forest Polls.nodes Polls.up Polls.level Polls.named
    rw [hc.accounts]
  unfold Pending at h
  rw [hi] at h
  refine ⟨fun p hp j hj => ?_, fun k hk t v hv => ?_⟩
  · rw [hforest] at hp ⊢
    have := h.off p hp j hj
    simpa [Forest.at_] using this
  · rw [hc.totals] at hv
    obtain ⟨x, hx, rfl⟩ := Option.map_eq_some_iff.mp hv
    rw [hforest, hc.votes, Forest.cast_only _ _ _ _ i (∑ j ∈ Finset.range (depth + 1), e j) t]
    have ht := h.tallied k hk t x hx
    rw [if_pos rfl] at ht
    rw [← ht]

end

/-! ## 6. New accounts and candidates -/

/-- New accounts hold nothing, and new candidates have no votes. -/
structure Grown (P Q : Polls) : Prop where
  accounts : ∀ i a, P.accounts.get i = some a → Q.accounts.get i = some a
  blank : ∀ i b, Q.accounts.get i = some b → P.accounts.get i = some b ∨
    P.accounts.get i = none ∧ b.proxy = "" ∧ b.vests = 0 ∧ b.proxied = [0, 0, 0, 0] ∧
      b.witnessCount = 0 ∧ b.platformCount = 0
  totals : ∀ k t x, (P.totals k).get t = some x → (Q.totals k).get t = some x
  zero : ∀ k t x, (Q.totals k).get t = some x → (P.totals k).get t = some x ∨
    (P.totals k).get t = none ∧ x = 0
  votes : Q.votes = P.votes
  routes : Q.routes = P.routes
  shares : Q.shares = P.shares

namespace Grown

variable (h : Grown P Q)

include h

theorem up (hp : P.Distinct) (hq : Q.Distinct)
    (hproxies : ∀ i a, P.accounts.get i = some a → a.proxy ≠ "" →
      ∃ j b, P.accounts.get j = some b ∧ b.name = a.proxy) : Q.up = P.up := by
  funext i
  refine Option.ext fun j => ⟨fun hij => ?_, fun hij => ?_⟩
  · obtain ⟨a, b, ha, hne, hb, hn⟩ := (up_eq_some hq).mp hij
    obtain ha' | ⟨_, hblank, _⟩ := h.blank i a ha
    · obtain ⟨j', b', hb', hn'⟩ := hproxies i a ha' hne
      obtain rfl := hq j j' b b' hb (h.accounts j' b' hb') (hn.trans hn'.symm)
      exact (up_eq_some hp).mpr ⟨a, b', ha', hne, hb', hn'⟩
    · exact absurd hblank hne
  · obtain ⟨a, b, ha, hne, hb, hn⟩ := (up_eq_some hp).mp hij
    exact (up_eq_some hq).mpr ⟨a, b, h.accounts i a ha, hne, h.accounts j b hb, hn⟩

theorem level : Q.level = P.level := by
  funext i
  cases hi : Q.accounts.get i with
  | none =>
    have hpi : P.accounts.get i = none := by
      cases hpi : P.accounts.get i with
      | none => rfl
      | some a => cases hi.symm.trans (h.accounts i a hpi)
    unfold Polls.level
    rw [hi, hpi]
  | some b =>
    rw [level_of_get hi]
    obtain hb | ⟨hnone, _, hv, hp, _⟩ := h.blank i b hi
    · rw [level_of_get hb]
    · funext j
      unfold Polls.level
      rw [hnone]
      rcases j with _ | _ | _ | _ | _ | j <;> simp [Ballot.level, hv, hp]

theorem nodes : P.nodes ⊆ Q.nodes := by
  intro i hi
  obtain ⟨a, ha⟩ := mem_nodes.mp hi
  exact mem_nodes.mpr ⟨a, h.accounts i a ha⟩

end Grown

theorem not_mem_nodes {i : Nat} (hi : i ∉ P.nodes) : P.accounts.get i = none := by
  cases hpi : P.accounts.get i with
  | none => rfl
  | some a => exact absurd (mem_nodes.mpr ⟨a, hpi⟩) hi

theorem level_of_not_mem {i : Nat} (hi : i ∉ P.nodes) (j : Nat) : P.level i j = 0 := by
  unfold level
  rw [not_mem_nodes hi]

theorem Grown.roll {k : Poll} (h : Grown P Q) (hr : P.Roll k) : Q.Roll k where
  voters := by
    intro r v hv
    rw [h.votes] at hv
    obtain ⟨a, ha, hp⟩ := hr.voters r v hv
    exact ⟨a, h.accounts _ a ha, hp⟩
  candidates := by
    intro r v hv
    rw [h.votes] at hv
    obtain ⟨x, hx⟩ := hr.candidates r v hv
    exact ⟨x, h.totals k _ x hx⟩
  once := by
    intro r r' v hv hv'
    rw [h.votes] at hv hv'
    exact hr.once r r' v hv hv'
  counts := by
    intro i a ha
    rw [h.votes]
    obtain ha' | ⟨hnone, _, _, _, hw, hpc⟩ := h.blank i a ha
    · exact hr.counts i a ha'
    · have hzero : (P.votes k).sum (fun v => if v.1 = i then 1 else 0) = 0 := by
        refine (FMap.sum_eq fun r v hv => if_neg fun e => ?_).trans (FMap.sum_zero _)
        obtain ⟨b, hb, _⟩ := hr.voters r v hv
        rw [e, hnone] at hb
        cases hb
      rw [hzero]
      cases k with
      | witness => exact congrArg Int.ofNat hw
      | platform => exact congrArg Int.ofNat hpc
  limit := by
    intro i a ha
    obtain ha' | ⟨_, _, _, _, hw, hpc⟩ := h.blank i a ha
    · exact hr.limit i a ha'
    · cases k with
      | witness => exact (le_of_eq hw).trans (Nat.zero_le _)
      | platform => exact (le_of_eq hpc).trans (Nat.zero_le _)

theorem Steady.grown {K : Poll → Prop} (hs : P.Steady K) (h : Grown P Q) (hd : Q.Distinct) :
    Q.Steady K where
  distinct := hd
  proxies := by
    intro i a ha hne
    obtain ha' | ⟨_, hblank, _⟩ := h.blank i a ha
    · obtain ⟨j, b, hb, hn⟩ := hs.proxies i a ha' hne
      exact ⟨j, b, h.accounts j b hb, hn⟩
    · exact absurd hblank hne
  slots := by
    intro i a ha
    obtain ha' | ⟨_, _, _, hp, _⟩ := h.blank i a ha
    · exact hs.slots i a ha'
    · rw [hp]
      rfl
  grounded := hs.grounded.congr (h.up hs.distinct hd hs.proxies)
  rolls k hk := h.roll (hs.rolls k hk)
  routes := by
    intro i p hp
    rw [h.routes] at hp
    exact hs.routes i p hp

/-- **New accounts and candidates change no sum.** -/
theorem Sound.grown {K : Poll → Prop} (hs : Sound K P) (h : Grown P Q) (hd : Q.Distinct) :
    Sound K Q := by
  have hup := h.up hs.steady.distinct hd hs.steady.proxies
  have hlevel := h.level
  have hbelow : ∀ p j, Q.forest.below p j = P.forest.below p j := by
    intro p j
    refine (Finset.sum_subset_zero_on_sdiff ?_ ?_ ?_).symm
    · intro x hx
      obtain ⟨hx, e⟩ := Finset.mem_filter.mp hx
      exact Finset.mem_filter.mpr ⟨h.nodes hx, by rw [← e]; exact congrFun hup x⟩
    · intro x hx
      obtain ⟨hq, hn⟩ := Finset.mem_sdiff.mp hx
      obtain ⟨hq, e⟩ := Finset.mem_filter.mp hq
      have hxp : x ∉ P.nodes := fun hmem => hn (Finset.mem_filter.mpr
        ⟨hmem, by rw [← e]; exact (congrFun hup x).symm⟩)
      exact (congrFun (congrFun hlevel x) j).trans (level_of_not_mem hxp j)
    · exact fun x _ => (congrFun (congrFun hlevel x) j).symm
  have hweight : ∀ x, Q.forest.weight depth x = P.forest.weight depth x := by
    intro x
    show (if Q.up x = none then ∑ j ∈ Finset.range (depth + 1), Q.level x j else 0) =
      if P.up x = none then ∑ j ∈ Finset.range (depth + 1), P.level x j else 0
    rw [hup, hlevel]
  refine ⟨hs.steady.grown h hd, ⟨fun p hp j hj => ?_, fun k hk t v hv => ?_⟩, ?_⟩
  · rw [hbelow]
    show Q.level p (j + 1) + 0 = _
    rw [hlevel]
    by_cases hmem : p ∈ P.nodes
    · exact hs.even.off p hmem j hj
    · rw [level_of_not_mem hmem]
      refine (Finset.sum_eq_zero fun x hx => ?_).symm
      obtain ⟨hx, e⟩ := Finset.mem_filter.mp hx
      exact absurd (hs.steady.closed x hx p e) hmem
  · have hcast : P.forest.cast depth (fun _ => 0) (P.votes k) t =
        Q.forest.cast depth (fun _ => 0) (P.votes k) t :=
      Forest.cast_congr (fun x => by rw [hweight]) _ _
    rw [h.votes, ← hcast]
    obtain hx | ⟨hnone, rfl⟩ := h.zero k t v hv
    · exact hs.even.tallied k hk t v hx
    · refine (FMap.sum_zero (P.votes k)).symm.trans (FMap.sum_eq fun r v hv => ?_)
      refine (if_neg fun e => ?_).symm
      obtain ⟨x, hx⟩ := (hs.steady.rolls k hk).candidates r v hv
      rw [e, hnone] at hx
      cases hx
  · rw [h.shares, hs.shares, hlevel]
    exact Finset.sum_subset h.nodes fun x _ hn => level_of_not_mem hn 0

end Polls

end MuseChain
