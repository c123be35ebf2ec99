/-
  File:      MuseChain/Safety/Crowds.lean
  Subject:   Many accounts that join and report plays: the states that only a large chain reaches.

  * `finishes_createVesting`: an account without a vote gets its shares.
  * `Audience s`: one content and one platform, and accounts that may join.
-/
import MuseChain.Safety.Endings
import MuseChain.Safety.Listening
import MuseChain.Safety.VestingPrice

namespace MuseChain

variable {n : Nat} {α β : Type} {d d' : Database chainSchema} {Q : Store chainSchema → Prop}

/-! ## 1. Shares for an account without a vote -/

/-- The account votes for nobody, itself or by proxy, and has no friends. -/
structure Aside (s : Store chainSchema) (acc : Nat) (a : Account) : Prop where
  proxy : a.proxy = proxyToSelfAccount
  friends : a.friends = []
  secondLevel : a.secondLevel = []
  witnesses : ∀ i (v : WitnessVote), s.get Kind.witnessVote i = some v → v.account ≠ acc
  platforms : ∀ i (v : StreamingPlatformVote), s.get Kind.streamingPlatformVote i = some v →
    v.account ≠ acc

theorem run_adjustProxiedWitnessVotes {acc : Nat} {a : Account} {delta : Int}
    (ha : d.store.get Kind.account acc = some a) (h : Aside d.store acc a) :
    (adjustProxiedWitnessVotes acc delta : Act n Unit).run d = .ok () d := by
  have hwitness : ((d.store.rows Kind.witnessVote).filter fun r : Nat × WitnessVote =>
      r.2.account = acc) = [] :=
    List.filter_eq_nil_iff.mpr fun r hr e =>
      h.witnesses r.1 r.2 (FMap.mem_rows.mp hr) (of_decide_eq_true e)
  have hplatform : ((d.store.rows Kind.streamingPlatformVote).filter
      fun r : Nat × StreamingPlatformVote => r.2.account = acc) = [] :=
    List.filter_eq_nil_iff.mpr fun r hr e =>
      h.platforms r.1 r.2 (FMap.mem_rows.mp hr) (of_decide_eq_true e)
  have hvotes : (adjustWitnessVotes acc delta : Act n Unit).run d = .ok () d := by
    refine Action.bind_ok.mpr ⟨[], d, ?_, rfl⟩
    show Outcome.ok (((d.store.rows Kind.witnessVote).filter _).insertionSort _) d = _
    rw [hwitness]
    rfl
  have hplatforms : (adjustStreamingPlatformVotes acc delta : Act n Unit).run d = .ok () d := by
    refine Action.bind_ok.mpr ⟨[], d, ?_, rfl⟩
    show Outcome.ok (((d.store.rows Kind.streamingPlatformVote).filter _).insertionSort _) d = _
    rw [hplatform]
    rfl
  unfold adjustProxiedWitnessVotes maxProxyRecursionDepth adjustProxiedFrom
  refine bind_getAccount_ok.mpr ⟨a, ha, ?_⟩
  rw [if_neg (not_not.mpr h.proxy)]
  exact Action.bind_ok.mpr ⟨(), d, hvotes, hplatforms⟩

/-- What an account without a vote becomes. -/
structure Given (acc : Nat) (a : Account) (shares : Asset) (p : DynamicGlobalProperty)
    (s t : Store chainSchema) : Prop where
  other : ∀ k i, k ≠ Kind.account → k ≠ Kind.dynamicGlobalProperty → t.get k i = s.get k i
  accounts : ∀ i, i ≠ acc → t.get Kind.account i = s.get Kind.account i
  account : ∃ score, t.get Kind.account acc =
    some ({ a with vestingShares := shares, score := score } : Account)
  props : t.get Kind.dynamicGlobalProperty 0 = some p

theorem finishes_createVesting {acc : Nat} {a : Account} {p : DynamicGlobalProperty} {muse : Asset}
    {new : Int} {shares fund total : Asset} (ha : d.store.get Kind.account acc = some a)
    (hp : d.store.get Kind.dynamicGlobalProperty 0 = some p) (haside : Aside d.store acc a)
    (hmul : muse.mul p.getVestingSharePrice = .ok (Asset.vests new))
    (hshares : a.vestingShares.add (Asset.vests new) = .ok shares)
    (hfund : p.totalVestingFundMuse.add muse = .ok fund)
    (htotal : p.totalVestingShares.add (Asset.vests new) = .ok total)
    (hold : int64Min ≤ a.vestingShares.amount ∧ a.vestingShares.amount ≤ int64Max) :
    Finishes (createVesting acc muse : Act n Asset) d
      (Given acc a shares { p with totalVestingFundMuse := fund, totalVestingShares := total }
        d.store) := by
  unfold createVesting
  refine finishes_getDgp hp (finishes_lift hmul ?_)
  have hgive : Finishes (Action.modifyWith (S := chainSchema) Kind.account acc
      (fun a : Account => a.vestingShares.add (Asset.vests new))
      (fun (a : Account) x => { a with vestingShares := x }) : Act n Unit) d fun t =>
        ∃ hf, t = d.store.write Kind.account acc { a with vestingShares := shares } hf :=
    finishes_modifyWith ha hshares fun hf => ⟨hf, rfl⟩
  refine hgive.bind fun _ d₁ ⟨hf₁, e₁⟩ => ?_
  have hp₁ : d₁.store.get Kind.dynamicGlobalProperty 0 = some p := by
    rw [e₁, Store.get_write_ne _ (by decide)]
    exact hp
  have hpool : Finishes (modifyDgp
      (fun p => do
        let fund ← p.totalVestingFundMuse.add muse
        let shares ← p.totalVestingShares.add (Asset.vests new)
        pure (fund, shares))
      (fun p x => { p with totalVestingFundMuse := x.1, totalVestingShares := x.2 }) :
        Act n Unit) d₁ fun t => ∃ hf, t = d₁.store.write Kind.dynamicGlobalProperty 0
          { p with totalVestingFundMuse := fund, totalVestingShares := total } hf := by
    unfold modifyDgp
    refine finishes_modifyWith (b := (fund, total)) hp₁ ?_ fun hf => ⟨hf, rfl⟩
    rw [hfund]
    show (p.totalVestingShares.add (Asset.vests new) >>= fun shares => pure (fund, shares)) = _
    rw [htotal]
    rfl
  refine hpool.bind fun _ d₂ ⟨hf₂, e₂⟩ => ?_
  have hother : ∀ k i, k ≠ Kind.account → k ≠ Kind.dynamicGlobalProperty →
      d₂.store.get k i = d.store.get k i := fun k i hk hk' => by
    rw [e₂, Store.get_write_ne _ hk', e₁, Store.get_write_ne _ hk]
  have haccounts : ∀ i, d₂.store.get Kind.account i =
      if i = acc then some { a with vestingShares := shares } else d.store.get Kind.account i :=
    fun i => by rw [e₂, Store.get_write_ne _ (by decide), e₁, Store.get_write_self]
  have ha₂ : d₂.store.get Kind.account acc = some { a with vestingShares := shares } :=
    (haccounts acc).trans (if_pos rfl)
  have haside₂ : Aside d₂.store acc { a with vestingShares := shares } :=
    ⟨haside.proxy, haside.friends, haside.secondLevel,
      fun i v hv => haside.witnesses i v ((hother _ i (by decide) (by decide)).symm.trans hv),
      fun i v hv => haside.platforms i v ((hother _ i (by decide) (by decide)).symm.trans hv)⟩
  refine finishes_bind (run_adjustProxiedWitnessVotes ha₂ haside₂) ?_
  -- the score follows the shares
  have hback : safe (shares.amount - new) = .ok a.vestingShares.amount := by
    obtain ⟨-, rfl⟩ := Asset.add_ok hshares
    rw [show (Asset.vests new).amount = new from rfl, add_sub_cancel_right]
    exact safe_ok.mpr ⟨rfl, hold⟩
  have hscore : Finishes (recursiveRecalculateScore acc new : Act n Unit) d₂ fun t =>
      ∃ score hf, t = d₂.store.write Kind.account acc
        ({ a with vestingShares := shares, score := score } : Account) hf := by
    unfold recursiveRecalculateScore
    refine finishes_getObject ha₂ (finishes_lift hback ?_)
    unfold bumpScore
    refine Finishes.bind (R := fun t => ∃ score hf, t = d₂.store.write Kind.account acc
        ({ a with vestingShares := shares, score := score } : Account) hf) ?_ fun _ d₃ h₃ => ?_
    · exact finishes_modifyWith ha₂ rfl fun hf => ⟨_, hf, rfl⟩
    · refine ⟨(), d₃, ?_, h₃⟩
      dsimp only
      rw [haside.friends, haside.secondLevel]
      rfl
  refine hscore.bind fun _ d₃ ⟨score, hf₃, e₃⟩ => finishes_pure ⟨?_, ?_, ⟨score, ?_⟩, ?_⟩
  · intro k i hk hk'
    rw [e₃, Store.get_write_ne _ hk, hother k i hk hk']
  · intro i hi
    rw [e₃, Store.get_write_self, if_neg hi, haccounts, if_neg hi]
  · rw [e₃, Store.get_write_self, if_pos rfl]
  · rw [e₃, Store.get_write_ne _ (by decide), e₂, Store.get_write_self, if_pos rfl]

/-! ## 2. The audience -/

/-- The content that is played. -/
def song : String := "ipfs://a"

/-- A platform is among the first in the order by_vote_name. -/
def votedIn (s : Store chainSchema) (owner : String) : Bool :=
  (((s.rows Kind.streamingPlatform).insertionSort
    fun a b : Nat × StreamingPlatform => b.2.votes < a.2.votes ∨
      (a.2.votes = b.2.votes ∧ nameLt b.2.owner a.2.owner = false)).take
        maxVotedStreamingPlatforms).any fun r : Nat × StreamingPlatform => r.2.owner = owner

/-- One content, one platform and nobody who votes; the init miner can pay for `left` accounts, and
    a share costs a thousandth. -/
structure Audience (left now : Nat) (s : Store chainSchema) : Prop where
  fresh : s.Fresh
  forks : ∃ p : HardforkProperty, s.get Kind.hardforkProperty 0 = some p ∧
    p.processedHardforks.length ≤ hardfork03
  schedule : ∃ w : WitnessSchedule, s.get Kind.witnessSchedule 0 = some w ∧
    w.medianProps.accountCreationFee = Asset.muse 1
  pool : ∃ p : DynamicGlobalProperty, s.get Kind.dynamicGlobalProperty 0 = some p ∧ p.time = now ∧
    ∃ k : Int, 0 ≤ k ∧ k + left ≤ 1000000000 ∧ p.totalVestingFundMuse = Asset.muse k ∧
      p.totalVestingShares = Asset.vests (1000 * k)
  payer : ∃ i, ∃ a : Account, s.get Kind.account i = some a ∧ a.name = initMinerName ∧ ∃ x : Int,
    a.balance = Asset.muse x ∧ left ≤ x ∧ x ≤ int64Max
  witnessVotes : ∀ i, s.get Kind.witnessVote i = none
  platformVotes : ∀ i, s.get Kind.streamingPlatformVote i = none
  platform : ∃ i, ∃ p : StreamingPlatform, s.get Kind.streamingPlatform i = some p ∧
    p.owner = initMinerName
  voted : votedIn s initMinerName = true
  content : ∃ c : Content, s.get Kind.content 0 = some c
  only : ∀ i (c : Content), s.get Kind.content i = some c →
    i = 0 ∧ c.url = song ∧ c.disabled = false

/-- What an audience asks for, as tests. -/
def Audience.Tests (left now : Nat) (k : Int) (s : Store chainSchema) : Prop :=
  ((s.get Kind.hardforkProperty 0).map (fun p : HardforkProperty =>
      decide (p.processedHardforks.length ≤ hardfork03)) = some true ∧
    (s.get Kind.witnessSchedule 0).map (fun w : WitnessSchedule =>
      w.medianProps.accountCreationFee) = some (Asset.muse 1) ∧
    (s.get Kind.dynamicGlobalProperty 0).map (fun p : DynamicGlobalProperty =>
      (p.time, p.totalVestingFundMuse, p.totalVestingShares)) =
        some (now, Asset.muse k, Asset.vests (1000 * k))) ∧
  ((s.rows Kind.account).any (fun r : Nat × Account => r.2.name = initMinerName ∧
      r.2.balance = Asset.muse r.2.balance.amount ∧ left ≤ r.2.balance.amount ∧
        r.2.balance.amount ≤ int64Max) = true ∧
    s.rows Kind.witnessVote = [] ∧ s.rows Kind.streamingPlatformVote = []) ∧
  ((s.rows Kind.streamingPlatform).any (fun r : Nat × StreamingPlatform =>
      r.2.owner = initMinerName) = true ∧ votedIn s initMinerName = true) ∧
  (s.rows Kind.content).map (fun r : Nat × Content => (r.1, r.2.url, r.2.disabled)) =
    [(0, song, false)]

instance {left now : Nat} {k : Int} {s : Store chainSchema} :
    Decidable (Audience.Tests left now k s) := inferInstanceAs (Decidable (_ ∧ _))

theorem Audience.of_tests {left now : Nat} {k : Int} {s : Store chainSchema} (hfresh : s.Fresh)
    (hk : 0 ≤ k ∧ k + left ≤ 1000000000) (h : Audience.Tests left now k s) :
    Audience left now s := by
  obtain ⟨⟨hforks, hfee, hpool⟩, ⟨hpayer, hvotes⟩, ⟨hplatform, hvoted⟩, hcontent⟩ := h
  obtain ⟨q, hq, hlen⟩ := Option.map_eq_some_iff.mp hforks
  obtain ⟨w, hw, hfee⟩ := Option.map_eq_some_iff.mp hfee
  obtain ⟨p, hp, hpool⟩ := Option.map_eq_some_iff.mp hpool
  obtain ⟨htime, hpool⟩ := Prod.mk.inj hpool
  obtain ⟨hfund, hshares⟩ := Prod.mk.inj hpool
  obtain ⟨a, ha, hpayer⟩ := List.any_eq_true.mp hpayer
  obtain ⟨hname, hmuse, hleft, hmax⟩ := of_decide_eq_true hpayer
  obtain ⟨l, hl, howner⟩ := List.any_eq_true.mp hplatform
  have hnone : ∀ {k : Kind}, s.rows k = [] → ∀ i, s.get k i = none := fun {k} hrows i => by
    cases hg : s.get k i with
    | none => rfl
    | some b =>
      have hmem := FMap.mem_rows.mpr hg
      rw [show (s.table k).map.rows = s.rows k from rfl, hrows] at hmem
      cases hmem
  have honly : ∀ i (c : Content), s.get Kind.content i = some c →
      i = 0 ∧ c.url = song ∧ c.disabled = false := fun i c hc => by
    have hmem : (i, c.url, c.disabled) ∈ (s.rows Kind.content).map fun r : Nat × Content =>
        (r.1, r.2.url, r.2.disabled) := List.mem_map.mpr ⟨(i, c), FMap.mem_rows.mpr hc, rfl⟩
    rw [hcontent] at hmem
    simpa using hmem
  have hcontent : ∃ c : Content, s.get Kind.content 0 = some c := by
    have hmem : (0, song, false) ∈ (s.rows Kind.content).map fun r : Nat × Content =>
        (r.1, r.2.url, r.2.disabled) := hcontent ▸ List.mem_cons_self
    obtain ⟨r, hr, he⟩ := List.mem_map.mp hmem
    exact ⟨r.2, (Prod.mk.inj he).1 ▸ FMap.mem_rows.mp hr⟩
  exact {
    fresh := hfresh
    forks := ⟨q, hq, of_decide_eq_true hlen⟩
    schedule := ⟨w, hw, hfee⟩
    pool := ⟨p, hp, htime, k, hk.1, hk.2, hfund, hshares⟩
    payer := ⟨a.1, a.2, FMap.mem_rows.mp ha, hname, _, hmuse, hleft, hmax⟩
    witnessVotes := hnone hvotes.1
    platformVotes := hnone hvotes.2
    platform := ⟨l.1, l.2, FMap.mem_rows.mp hl, of_decide_eq_true howner⟩
    voted := hvoted
    content := hcontent
    only := honly }

/-- What a crowd leaves as it was. -/
structure Crowding (s t : Store chainSchema) : Prop where
  other : ∀ k i, k ≠ Kind.account → k ≠ Kind.dynamicGlobalProperty → k ≠ Kind.report →
    k ≠ Kind.content → t.get k i = s.get k i
  account : ∀ i (a : Account), s.get Kind.account i = some a → ∃ b : Account,
    t.get Kind.account i = some b ∧ b.name = a.name ∧ b.proxy = a.proxy ∧ b.friends = a.friends ∧
      b.secondLevel = a.secondLevel ∧ b.vestingShares = a.vestingShares
  content : ∀ c : Content, s.get Kind.content 0 = some c → ∃ c' : Content,
    t.get Kind.content 0 = some c' ∧
      { c' with timesPlayed := c.timesPlayed, timesPlayed24 := c.timesPlayed24 } = c

theorem Crowding.refl (s : Store chainSchema) : Crowding s s where
  other _ _ _ _ _ _ := rfl
  account _ a ha := ⟨a, ha, rfl, rfl, rfl, rfl, rfl⟩
  content c hc := ⟨c, hc, rfl⟩

theorem Crowding.trans {s t v : Store chainSchema} (h : Crowding s t) (h' : Crowding t v) :
    Crowding s v where
  other k i h1 h2 h3 h4 := (h'.other k i h1 h2 h3 h4).trans (h.other k i h1 h2 h3 h4)
  account i a ha := by
    obtain ⟨b, hb, e1, e2, e3, e4, e5⟩ := h.account i a ha
    obtain ⟨c, hc, f1, f2, f3, f4, f5⟩ := h'.account i b hb
    exact ⟨c, hc, f1.trans e1, f2.trans e2, f3.trans e3, f4.trans e4, f5.trans e5⟩
  content c hc := by
    obtain ⟨c₁, h₁, e₁⟩ := h.content c hc
    obtain ⟨c₂, h₂, e₂⟩ := h'.content c₁ h₁
    refine ⟨c₂, h₂, ?_⟩
    rw [← e₁, ← e₂]

/-- The account with a name has listened for `time` seconds. -/
def Listener (s : Store chainSchema) (name : String) (time : Nat) : Prop :=
  ∃ i, ∃ a : Account, s.get Kind.account i = some a ∧ a.name = name ∧ a.totalListeningTime = time

/-- A name that no account has. -/
def Unused (s : Store chainSchema) (name : String) : Prop :=
  ∀ i (a : Account), s.get Kind.account i = some a → a.name ≠ name

theorem votedIn_congr {s t : Store chainSchema}
    (h : ∀ i, t.get Kind.streamingPlatform i = s.get Kind.streamingPlatform i) (owner : String) :
    votedIn t owner = votedIn s owner := by
  have hrows : t.rows Kind.streamingPlatform = s.rows Kind.streamingPlatform :=
    congrArg FMap.rows (FMap.ext_get h)
  unfold votedIn
  rw [hrows]

/-! ## 3. An account that joins -/

/-- An account that costs a fee of 1. -/
def joining (name : String) : AccountCreateOp where
  fee := Asset.muse 1
  creator := initMinerName
  newAccountName := name
  owner := ⟨1, [], [(1, 1)]⟩
  active := ⟨1, [], [(1, 1)]⟩
  basic := ⟨1, [], [(1, 1)]⟩
  memoKey := 1
  jsonMetadata := ""

/-- What account_create writes. -/
def enterAccount (o : AccountCreateOp) (creator : Nat) (props : DynamicGlobalProperty) :
    Act n Unit := do
  Action.modifyWith (S := chainSchema) Kind.account creator
    (fun c : Account => c.balance.sub o.fee)
    fun (c : Account) x => { c with balance := x }
  let newAccount ← Action.create (S := chainSchema) Kind.account
    { name := o.newAccountName, owner := o.owner, active := o.active, basic := o.basic,
      memoKey := o.memoKey, lastOwnerUpdate := 0, created := props.time,
      lastVoteTime := props.time, mined := false, recoveryAccount := o.creator,
      jsonMetadata := o.jsonMetadata : Account }
  if 0 < o.fee.amount then do
    let _ ← createVesting newAccount o.fee
    pure ()

theorem Asset.add_of_fits {x y : Int} {z : Nat} (h : int64Min ≤ x + y ∧ x + y ≤ int64Max) :
    (⟨x, z⟩ : Asset).add ⟨y, z⟩ = .ok ⟨x + y, z⟩ :=
  except_bind_ok.mpr ⟨(), if_pos rfl, except_bind_ok.mpr ⟨_, safe_ok.mpr ⟨rfl, h⟩, rfl⟩⟩

theorem Asset.sub_of_fits {x y : Int} {z : Nat} (h : int64Min ≤ x - y ∧ x - y ≤ int64Max) :
    (⟨x, z⟩ : Asset).sub ⟨y, z⟩ = .ok ⟨x - y, z⟩ :=
  except_bind_ok.mpr ⟨(), if_pos rfl, except_bind_ok.mpr ⟨_, safe_ok.mpr ⟨rfl, h⟩, rfl⟩⟩

theorem Asset.ge_of_le {x y : Int} {z : Nat} (h : y ≤ x) :
    (⟨x, z⟩ : Asset).ge ⟨y, z⟩ = .ok true := by
  refine except_bind_ok.mpr ⟨false, except_bind_ok.mpr ⟨(), if_pos rfl, ?_⟩, rfl⟩
  exact congrArg Except.ok (decide_eq_false (not_lt.mpr h))

/-- A share for each thousandth of a MUSE. -/
theorem mul_thousand {p : DynamicGlobalProperty} {k m : Int} (hk : 0 ≤ k) (hk' : k ≤ 1000000000)
    (hm : 0 ≤ m) (hm' : m ≤ 1000000000) (hfund : p.totalVestingFundMuse = Asset.muse k)
    (hshares : p.totalVestingShares = Asset.vests (1000 * k)) :
    (Asset.muse m).mul p.getVestingSharePrice = .ok (Asset.vests (1000 * m)) := by
  have hmax : (1000000000000 : Int) ≤ int64Max := by decide
  have hm64 : m ≤ int64Max := by omega
  unfold DynamicGlobalProperty.getVestingSharePrice
  rw [hfund, hshares]
  rcases eq_or_lt_of_le hk with rfl | hpos
  · -- the first price
    have hworth : m * 1000000 / 1000 = 1000 * m := by omega
    have hscale : Price.scale m 1000000 1000 = .ok (m * 1000000 / 1000) :=
      Price.scale_of_fits hm hm64 ⟨by decide, by decide⟩ ⟨by decide, by decide⟩
        (by rw [hworth]; omega)
    rw [hworth] at hscale
    have hmul : (Asset.muse m).mul ⟨Asset.muse 1000, Asset.vests 1000000⟩ =
        (Price.scale m 1000000 1000 >>= fun x => pure ⟨x, vestsSymbol⟩) := Asset.mul_base rfl
    rw [if_pos (.inl rfl), hmul, hscale]
    rfl
  · have hworth : m * (1000 * k) / k = 1000 * m := by
      rw [show m * (1000 * k) = 1000 * m * k by ring]
      exact Int.mul_ediv_cancel _ hpos.ne'
    have hscale : Price.scale m (1000 * k) k = .ok (m * (1000 * k) / k) :=
      Price.scale_of_fits hm hm64 ⟨by omega, by omega⟩ ⟨by omega, by omega⟩
        (by rw [hworth]; omega)
    rw [hworth] at hscale
    have hsome : ¬((Asset.muse k).amount = 0 ∨ (Asset.vests (1000 * k)).amount = 0) := by
      show ¬(k = 0 ∨ 1000 * k = 0)
      omega
    have hmul : (Asset.muse m).mul ⟨Asset.vests (1000 * k), Asset.muse k⟩ =
        (Price.scale m (1000 * k) k >>= fun x => pure ⟨x, vestsSymbol⟩) :=
      Asset.mul_quote (show museSymbol ≠ vestsSymbol by decide) rfl
    rw [if_neg hsome, hmul, hscale]
    rfl

/-- An account is there that was not, and another one paid for it. -/
structure Joined (name : String) (creator : Nat) (c : Account) (paid : Asset)
    (p : DynamicGlobalProperty) (s t : Store chainSchema) : Prop where
  other : ∀ k i, k ≠ Kind.account → k ≠ Kind.dynamicGlobalProperty → t.get k i = s.get k i
  accounts : ∀ i, i ≠ creator → i ≠ s.nextId Kind.account →
    t.get Kind.account i = s.get Kind.account i
  payer : t.get Kind.account creator = some { c with balance := paid }
  new : ∃ b : Account, t.get Kind.account (s.nextId Kind.account) = some b ∧ b.name = name ∧
    b.totalListeningTime = 0
  props : t.get Kind.dynamicGlobalProperty 0 = some p

theorem finishes_enterAccount {name : String} {creator : Nat} {c : Account} {paid : Asset}
    {p : DynamicGlobalProperty} {k : Int} (hfresh : d.store.Fresh)
    (hwitness : ∀ i, d.store.get Kind.witnessVote i = none)
    (hplatform : ∀ i, d.store.get Kind.streamingPlatformVote i = none)
    (hc : d.store.get Kind.account creator = some c)
    (hpaid : c.balance.sub (Asset.muse 1) = .ok paid)
    (hname : Unused d.store name) (hp : d.store.get Kind.dynamicGlobalProperty 0 = some p)
    (hk : 0 ≤ k) (hk' : k < 1000000000) (hfund : p.totalVestingFundMuse = Asset.muse k)
    (hshares : p.totalVestingShares = Asset.vests (1000 * k)) :
    Finishes (enterAccount (joining name) creator p : Act n Unit) d
      (Joined name creator c paid
        { p with
          totalVestingFundMuse := Asset.muse (k + 1)
          totalVestingShares := Asset.vests (1000 * k + 1000) } d.store) := by
  have hmax : (1000000000000 : Int) ≤ int64Max := by decide
  have hmin : int64Min ≤ 0 := by decide
  unfold enterAccount
  have hpay : Finishes (Action.modifyWith (S := chainSchema) Kind.account creator
      (fun c : Account => c.balance.sub (joining name).fee)
      (fun (c : Account) x => { c with balance := x }) : Act n Unit) d fun t =>
        ∃ hf, t = d.store.write Kind.account creator { c with balance := paid } hf :=
    finishes_modifyWith hc hpaid fun hf => ⟨hf, rfl⟩
  refine hpay.bind fun _ d₁ ⟨hf₁, e₁⟩ => ?_
  have hfresh₁ : d₁.store.Fresh := e₁ ▸ hfresh.write hf₁ (hfresh _ creator c hc)
  have hnext : d₁.store.nextId Kind.account = d.store.nextId Kind.account := by
    rw [e₁, Store.nextId_write]
  refine finishes_create hfresh₁ ?_ fun d₂ e₂ => ?_
  · refine Store.free_iff.mpr fun j b _ hb => decide_eq_false fun hclash => ?_
    rw [e₁, Store.get_write_self] at hb
    split at hb
    · obtain rfl := Option.some.inj hb
      exact hname creator c hc hclash.symm
    · exact hname j b hb hclash.symm
  have hother : ∀ k i, k ≠ Kind.account → d₂.store.get k i = d.store.get k i := fun k i hk => by
    rw [e₂, Store.get_setNextId, Store.get_write_ne _ hk, e₁, Store.get_write_ne _ hk]
  rw [hnext] at e₂ ⊢
  obtain ⟨new, hnew, hnewName, hnewTime, hnewShares, haside⟩ : ∃ new : Account,
      (∀ i, d₂.store.get Kind.account i = if i = d.store.nextId Kind.account then some new
        else d₁.store.get Kind.account i) ∧ new.name = name ∧ new.totalListeningTime = 0 ∧
      new.vestingShares = Asset.vests 0 ∧ Aside d₂.store (d.store.nextId Kind.account) new := by
    refine ⟨_, fun i => by rw [e₂, Store.get_setNextId, Store.get_write_self], rfl, rfl, rfl, rfl,
      rfl, rfl, fun i v hv => ?_, fun i v hv => ?_⟩
    · rw [hother _ i (by decide), hwitness] at hv
      cases hv
    · rw [hother _ i (by decide), hplatform] at hv
      cases hv
  have hcreator : creator ≠ d.store.nextId Kind.account := (hfresh _ creator c hc).ne
  refine finishes_ite (fun _ => ?_) fun hfee => absurd (show (0 : Int) < 1 by decide) hfee
  have hvest : Finishes (createVesting (d.store.nextId Kind.account) (joining name).fee :
      Act n Asset) d₂ (Given (d.store.nextId Kind.account) new (Asset.vests 1000)
        { p with
          totalVestingFundMuse := Asset.muse (k + 1)
          totalVestingShares := Asset.vests (1000 * k + 1000) } d₂.store) := by
    have hmul : (Asset.muse 1).mul p.getVestingSharePrice = .ok (Asset.vests 1000) :=
      mul_thousand hk hk'.le (by decide) (by decide) hfund hshares
    refine finishes_createVesting ((hnew _).trans (if_pos rfl))
      ((hother _ 0 (by decide)).trans hp) haside hmul ?_ ?_ ?_ ?_
    · rw [hnewShares]
      rfl
    · rw [hfund]
      exact Asset.add_of_fits ⟨by omega, by omega⟩
    · rw [hshares]
      exact Asset.add_of_fits ⟨by omega, by omega⟩
    · rw [hnewShares]
      exact ⟨hmin, show (0 : Int) ≤ int64Max by omega⟩
  refine hvest.bind fun _ d₃ h₃ => finishes_pure ⟨fun k i hk hk' => ?_, fun i hi hi' => ?_, ?_, ?_,
    h₃.props⟩
  · exact (h₃.other k i hk hk').trans (hother k i hk)
  · rw [h₃.accounts i hi', hnew, if_neg hi', e₁, Store.get_write_self, if_neg hi]
  · rw [h₃.accounts creator hcreator, hnew, if_neg hcreator, e₁, Store.get_write_self, if_pos rfl]
  · obtain ⟨score, hg⟩ := h₃.account
    exact ⟨_, hg, hnewName, hnewTime⟩

/-- The account joined, and more can. -/
def Joins (left : Nat) (name : String) (creator : Nat) (c : Account) (p : DynamicGlobalProperty)
    (s t : Store chainSchema) : Prop :=
  ∃ k x : Int, 0 ≤ k ∧ k + left ≤ 1000000000 ∧ left ≤ x ∧ x ≤ int64Max ∧
    Joined name creator c (Asset.muse x)
      { p with totalVestingFundMuse := Asset.muse k, totalVestingShares := Asset.vests (1000 * k) } s t

theorem Audience.enters {left now : Nat} {name : String} (h : Audience (left + 1) now d.store)
    (hname : Unused d.store name) {i : Nat} {c : Account} {p : DynamicGlobalProperty}
    (hc : d.store.get Kind.account i = some c) (hcname : c.name = initMinerName)
    (hp : d.store.get Kind.dynamicGlobalProperty 0 = some p) :
    Finishes (enterAccount (joining name) i p : Act n Unit) d (Joins left name i c p d.store) := by
  obtain ⟨p', hp', -, k, hk, hleft, hfund, hshares⟩ := h.pool
  obtain ⟨j, b, hb, hbname, x, hbalance, hx, hx'⟩ := h.payer
  obtain rfl := account_unique hb hc (hbname.trans hcname.symm)
  obtain rfl := Option.some.inj (hb.symm.trans hc)
  obtain rfl := Option.some.inj (hp.symm.trans hp')
  push_cast at hleft hx
  have hpaid : b.balance.sub (Asset.muse 1) = .ok (Asset.muse (x - 1)) := by
    have hmin : int64Min ≤ 0 := by decide
    rw [hbalance]
    exact Asset.sub_of_fits ⟨by omega, by omega⟩
  refine (finishes_enterAccount h.fresh h.witnessVotes h.platformVotes hb hpaid hname hp hk
    (by omega) hfund hshares).mono fun t ht => ?_
  · refine ⟨k + 1, x - 1, by omega, by omega, by omega, by omega, ?_⟩
    rw [mul_add]
    exact ht

theorem Audience.joined [Fc] {left now : Nat} {name : String} (h : Audience (left + 1) now d.store)
    (hname : Unused d.store name) :
    Finishes (accountCreate (joining name) : Act n Unit) d fun t => ∃ i, ∃ c : Account,
      ∃ p : DynamicGlobalProperty, d.store.get Kind.account i = some c ∧ c.name = initMinerName ∧
        d.store.get Kind.dynamicGlobalProperty 0 = some p ∧ p.time = now ∧
        Joins left name i c p d.store t := by
  obtain ⟨q, hq, hforks⟩ := h.forks
  obtain ⟨w, hw, hfee⟩ := h.schedule
  obtain ⟨p, hp, hnow, -⟩ := h.pool
  obtain ⟨j, b, hb, hbname, x, hbalance, hx, hx'⟩ := h.payer
  have hempty : ¬0 < (joining name).jsonMetadata.utf8ByteSize :=
    show ¬0 < "".utf8ByteSize by decide
  unfold accountCreate
  refine finishes_ite (fun hjson => absurd hjson hempty) fun _ => ?_
  refine finishes_hasHardfork hq ?_
  refine finishes_ite (fun hf3 => absurd (of_decide_eq_true hf3) (by omega)) fun _ => ?_
  refine finishes_getRow ⟨j, b, hb, decide_eq_true hbname⟩ fun i c hc hcname => ?_
  have hcname : c.name = initMinerName := of_decide_eq_true hcname
  have henter : Finishes (enterAccount (joining name) i p : Act n Unit) d fun t => ∃ i, ∃ c : Account,
      ∃ p : DynamicGlobalProperty, d.store.get Kind.account i = some c ∧ c.name = initMinerName ∧
        d.store.get Kind.dynamicGlobalProperty 0 = some p ∧ p.time = now ∧
        Joins left name i c p d.store t :=
    (h.enters hname hc hcname hp).mono fun t ht => ⟨i, c, p, hc, hcname, hp, hnow, ht⟩
  refine finishes_getObject hp (finishes_ite (fun _ => ?_) fun _ => henter)
  -- the fee is asked for after the first block
  obtain rfl := account_unique hb hc (hbname.trans hcname.symm)
  refine finishes_getObject hb (finishes_lift (a := true) ?_ (finishes_require rfl ?_))
  · rw [hbalance]
    exact Asset.ge_of_le (by push_cast at hx; omega)
  · refine finishes_getObject hw (finishes_lift (a := true) ?_ (finishes_require rfl henter))
    rw [hfee]
    exact Asset.ge_of_le le_rfl

/-! ## 4. A play -/

/-- A play of the content. -/
def playing (name : String) (time : Nat) : StreamingPlatformReportOp where
  streamingPlatform := initMinerName
  consumer := name
  content := song
  playTime := time
  playlistCreator := ""

/-- What a report writes. -/
structure Entered (r : Report) (a : Account) (c : Content) (s t : Store chainSchema) : Prop where
  other : ∀ k i, k ≠ Kind.account → k ≠ Kind.content → k ≠ Kind.report → t.get k i = s.get k i
  accounts : ∀ i, t.get Kind.account i = if i = r.consumer then
    some { a with totalListeningTime := u32 (a.totalListeningTime + r.playTime) }
    else s.get Kind.account i
  contents : ∀ i, t.get Kind.content i = if i = r.content then
    some { c with
      timesPlayed := u64 (c.timesPlayed + 1)
      timesPlayed24 := u32 (c.timesPlayed24 + 1) }
    else s.get Kind.content i

theorem finishes_enterReport {r : Report} {a : Account} {c : Content} (hfresh : d.store.Fresh)
    (ha : d.store.get Kind.account r.consumer = some a)
    (hc : d.store.get Kind.content r.content = some c) :
    Finishes (enterReport r : Act n Unit) d fun t =>
      Entered r a c d.store t ∧ t.Fresh ∧ ∃ j, Reporting d.store t j r := by
  have hfinish : Finishes (enterReport r : Act n Unit) d fun t =>
      Entered r a c d.store t ∧ t.Fresh := by
    unfold enterReport
    have hfree : d.store.free Kind.report (d.store.nextId Kind.report) r = true :=
      Store.free_iff.mpr fun _ _ _ _ => rfl
    refine finishes_create hfresh hfree fun d₁ e₁ => ?_
    have hother₁ : ∀ k i, k ≠ Kind.report → d₁.store.get k i = d.store.get k i := fun k i hk => by
      rw [e₁, Store.get_setNextId, Store.get_write_ne _ hk]
    have hfresh₁ : d₁.store.Fresh := e₁ ▸ hfresh.create _
    have ha₁ := (hother₁ _ r.consumer (by decide)).trans ha
    have hlisten : Finishes (Action.modifyWith (S := chainSchema) Kind.account r.consumer
        (fun a : Account => .ok (u32 (a.totalListeningTime + r.playTime)))
        (fun (a : Account) x => { a with totalListeningTime := x }) : Act n Unit) d₁ fun t =>
          ∃ hf, t = d₁.store.write Kind.account r.consumer
            { a with totalListeningTime := u32 (a.totalListeningTime + r.playTime) } hf :=
      finishes_modifyWith ha₁ rfl fun hf => ⟨hf, rfl⟩
    refine hlisten.bind fun _ d₂ ⟨hf₂, e₂⟩ => ?_
    have hfresh₂ : d₂.store.Fresh := e₂ ▸ hfresh₁.write hf₂ (hfresh₁ _ _ a ha₁)
    have hc₂ : d₂.store.get Kind.content r.content = some c := by
      rw [e₂, Store.get_write_ne _ (by decide), hother₁ _ _ (by decide), hc]
    refine finishes_modifyWith hc₂ rfl fun hf₃ => ⟨⟨fun k i hk hk' hk'' => ?_, fun i => ?_,
      fun i => ?_⟩, hfresh₂.write hf₃ (hfresh₂ _ _ c hc₂)⟩
    · rw [Store.get_write_ne _ hk', e₂, Store.get_write_ne _ hk, hother₁ k i hk'']
    · rw [Store.get_write_ne _ (by decide), e₂, Store.get_write_self, hother₁ _ _ (by decide)]
    · rw [Store.get_write_self, e₂, Store.get_write_ne _ (by decide), hother₁ _ _ (by decide)]
  obtain ⟨u, d', hr, hentered, hfresh'⟩ := hfinish
  exact ⟨u, d', hr, hentered, hfresh', enterReport_ok hr⟩

theorem Audience.played {left now time x : Nat} {name : String} (h : Audience left now d.store)
    (hl : Listener d.store name x) (hday : x + time ≤ 86400) :
    Finishes (streamingPlatformReport (playing name time) : Act n Unit) d fun t =>
      ∃ (r : Report) (a : Account) (c : Content), a.name = name ∧ a.totalListeningTime = x ∧
        r.content = 0 ∧ r.playTime = time ∧ r.created = now ∧
        d.store.get Kind.account r.consumer = some a ∧ d.store.get Kind.content 0 = some c ∧
        Entered r a c d.store t ∧ t.Fresh ∧ ∃ j, Reporting d.store t j r := by
  obtain ⟨p, hp, hnow, -⟩ := h.pool
  obtain ⟨k, pl, hpl, howner⟩ := h.platform
  obtain ⟨co, hco⟩ := h.content
  obtain ⟨i, a, ha, hname, hheard⟩ := hl
  unfold streamingPlatformReport
  refine finishes_getRow ⟨i, a, ha, decide_eq_true hname⟩ fun j b hb hbname => ?_
  obtain rfl := account_unique ha hb (hname.trans (of_decide_eq_true hbname).symm)
  refine finishes_getObject ha (finishes_require ?_ ?_)
  · show u64 (time + a.totalListeningTime) ≤ 86400
    unfold u64
    omega
  refine finishes_getRow ⟨k, pl, hpl, decide_eq_true howner⟩ fun sp _ _ _ => ?_
  refine finishes_bind (e := d) (a := votedIn d.store initMinerName) rfl (finishes_require h.voted ?_)
  refine finishes_getRow ⟨0, co, hco, decide_eq_true (h.only 0 co hco).2.1⟩ fun j c hc _ => ?_
  obtain ⟨rfl, hurl, hdisabled⟩ := h.only j c hc
  refine finishes_getObject hc (finishes_require hdisabled ?_)
  refine finishes_bind (e := d) (a := p.time) (Action.bind_get_ok.mpr ⟨p, hp, rfl⟩) ?_
  refine finishes_ite (fun hcreator => absurd rfl hcreator) fun _ => ?_
  have hshort : u32 time = time := Nat.mod_eq_of_lt (by omega)
  rw [show u32 (playing name time).playTime = time from hshort]
  exact (finishes_enterReport (r := ⟨sp, i, 0, p.time, time, none⟩) h.fresh ha hc).mono fun t ht =>
    ⟨_, a, c, hname, hheard, rfl, rfl, hnow, ha, hc, ht⟩

/-! ## 5. What a crowd does -/

/-- The content is played `m` times for `time` seconds, and who plays it has listened to no more
    than `bound`. -/
structure Grown (now time bound m : Nat) (s t : Store chainSchema) : Prop where
  crowding : Crowding s t
  kept : ∀ j (r : Report), s.get Kind.report j = some r → t.get Kind.report j = some r
  made : ∀ j (r : Report), t.get Kind.report j = some r →
    s.get Kind.report j = some r ∨ r.created = now
  reported : ∀ (f : Report → Int) (x : Int),
    (∀ r : Report, r.content = 0 → r.playTime = time → f r = x) →
      reported t f = reported s f + m * x
  heard : ∀ i, heard t i = heard s i ∨ heard t i ≤ bound
  played : ∀ i, plays t i = plays s i ∨ plays t i < 2 ^ 32

section

variable {now time bound m m' left : Nat} {s t v : Store chainSchema}

theorem Grown.refl (s : Store chainSchema) : Grown now time bound 0 s s where
  crowding := .refl s
  kept _ _ h := h
  made _ _ h := .inl h
  reported f x _ := by rw [Nat.cast_zero, zero_mul, add_zero]
  heard _ := .inl rfl
  played _ := .inl rfl

theorem Grown.trans (h : Grown now time bound m s t) (h' : Grown now time bound m' t v) :
    Grown now time bound (m + m') s v where
  crowding := h.crowding.trans h'.crowding
  kept j r hr := h'.kept j r (h.kept j r hr)
  made j r hr := by
    rcases h'.made j r hr with hr | hnow
    · exact h.made j r hr
    · exact .inr hnow
  reported f x hf := by
    rw [h'.reported f x hf, h.reported f x hf]
    push_cast
    ring
  heard i := by
    rcases h'.heard i with hi | hi
    · rw [hi]
      exact h.heard i
    · exact .inr hi
  played i := by
    rcases h'.played i with hi | hi
    · rw [hi]
      exact h.played i
    · exact .inr hi

theorem Joins.audience {name : String} {creator : Nat} {c : Account} {p : DynamicGlobalProperty}
    (h : Audience (left + 1) now s) (hfresh : t.Fresh) (ht : Joins left name creator c p s t)
    (hcname : c.name = initMinerName) (hnow : p.time = now) : Audience left now t := by
  obtain ⟨k, x, hk, hleft, hx, hx', ht⟩ := ht
  obtain ⟨q, hq, hforks⟩ := h.forks
  obtain ⟨w, hw, hfee⟩ := h.schedule
  obtain ⟨m, pl, hpl, howner⟩ := h.platform
  obtain ⟨co, hco⟩ := h.content
  have hother : ∀ {k : Kind} i, k ≠ Kind.account → k ≠ Kind.dynamicGlobalProperty →
      t.get k i = s.get k i := fun i hk hk' => ht.other _ i hk hk'
  exact {
    fresh := hfresh
    forks := ⟨q, (hother 0 (by decide) (by decide)).trans hq, hforks⟩
    schedule := ⟨w, (hother 0 (by decide) (by decide)).trans hw, hfee⟩
    pool := ⟨_, ht.props, hnow, k, hk, hleft, rfl, rfl⟩
    payer := ⟨creator, _, ht.payer, hcname, x, rfl, hx, hx'⟩
    witnessVotes := fun i => (hother i (by decide) (by decide)).trans (h.witnessVotes i)
    platformVotes := fun i => (hother i (by decide) (by decide)).trans (h.platformVotes i)
    platform := ⟨m, pl, (hother m (by decide) (by decide)).trans hpl, howner⟩
    voted := (votedIn_congr (fun i => hother i (by decide) (by decide)) _).trans h.voted
    content := ⟨co, (hother 0 (by decide) (by decide)).trans hco⟩
    only := fun i c hc => h.only i c ((hother i (by decide) (by decide)).symm.trans hc) }

theorem Joins.crowding {name : String} {creator : Nat} {c : Account} {p : DynamicGlobalProperty}
    (hfresh : s.Fresh) (hc : s.get Kind.account creator = some c)
    (ht : Joins left name creator c p s t) : Crowding s t := by
  obtain ⟨_, _, _, _, _, _, ht⟩ := ht
  refine ⟨fun k i hk hk' _ _ => ht.other k i hk hk', fun i a ha => ?_, fun c hc =>
    ⟨c, (ht.other _ 0 (by decide) (by decide)).trans hc, rfl⟩⟩
  by_cases hi : i = creator
  · subst hi
    obtain rfl := Option.some.inj (hc.symm.trans ha)
    exact ⟨_, ht.payer, rfl, rfl, rfl, rfl, rfl⟩
  · exact ⟨a, (ht.accounts i hi (hfresh _ i a ha).ne).trans ha, rfl, rfl, rfl, rfl, rfl⟩

theorem Joins.unused {name other : String} {creator : Nat} {c : Account}
    {p : DynamicGlobalProperty} (hc : s.get Kind.account creator = some c)
    (ht : Joins left name creator c p s t) (hne : other ≠ name) (hother : Unused s other) :
    Unused t other := by
  obtain ⟨_, _, _, _, _, _, ht⟩ := ht
  obtain ⟨new, hnew, hname, -⟩ := ht.new
  intro i a ha
  by_cases hi : i = s.nextId Kind.account
  · obtain rfl := Option.some.inj (hnew.symm.trans (hi ▸ ha))
    exact fun he => hne (he.symm.trans hname)
  · by_cases hi' : i = creator
    · obtain rfl := Option.some.inj (ht.payer.symm.trans (hi' ▸ ha))
      exact hother creator c hc
    · exact hother i a ((ht.accounts i hi' hi).symm.trans ha)

/-- **An account joins.** -/
theorem Audience.join [Fc] {name : String} (h : Audience (left + 1) now s) (hname : Unused s name)
    (hvalid : isValidAccountName name = true) :
    ∃ t, ChainStep (fun _ _ => True) s t ∧ Audience left now t ∧ Listener t name 0 ∧
      (∀ other, other ≠ name → Unused s other → Unused t other) ∧ Grown now time bound 0 s t := by
  have hjoin := Audience.joined (n := 0) (d := ⟨s, [], 0, true, 256, false,
    ⟨fun l => l, List.Perm.refl⟩⟩) h hname
  obtain ⟨u, d', hr, i, c, p, hc, hcname, -, hnow, ht⟩ := hjoin
  have hcomposed := composed_accountCreate (n := 0) (joining name) (List.Subset.refl _)
  have hfresh : d'.store.Fresh := hcomposed.fresh.step hr h.fresh
  have hbooks := (unbooked_steps hcomposed (by decide)).step hr
  have hvalidate : (Operation.accountCreate (joining name)).validate = .ok () :=
    check_bind_ok.mpr ⟨hvalid, rfl⟩
  refine ⟨d'.store, .operation 0 0 (fun _ => pure ()) (.accountCreate (joining name)) hvalidate rfl
    trivial hr, ht.audience h hfresh hcname hnow, ?_, fun other hne hun => ht.unused hc hne hun,
    ht.crowding h.fresh hc, fun j r hj => (hbooks.report j).trans hj,
    fun j r hj => .inl ((hbooks.report j).symm.trans hj), fun f x _ => ?_,
    fun i => .inl (hbooks.listened i), fun i => .inl (hbooks.played i)⟩
  · obtain ⟨_, _, _, _, _, _, ht⟩ := ht
    obtain ⟨new, hnew⟩ := ht.new
    exact ⟨_, new, hnew⟩
  · rw [reported_congr hbooks.report, Nat.cast_zero, zero_mul, add_zero]

section

variable {r : Report} {a : Account} {c : Content}

theorem Entered.keeps_account (ht : Entered r a c s t) (ha : s.get Kind.account r.consumer = some a)
    {i : Nat} {b : Account} (hb : s.get Kind.account i = some b) :
    ∃ x, t.get Kind.account i = some { b with totalListeningTime := x } := by
  by_cases hi : i = r.consumer
  · subst hi
    obtain rfl := Option.some.inj (ha.symm.trans hb)
    exact ⟨_, (ht.accounts _).trans (if_pos rfl)⟩
  · exact ⟨b.totalListeningTime, (ht.accounts i).trans ((if_neg hi).trans hb)⟩

theorem Entered.audience (h : Audience left now s) (hfresh : t.Fresh) (ht : Entered r a c s t)
    (ha : s.get Kind.account r.consumer = some a) (hc : s.get Kind.content 0 = some c)
    (hcontent : r.content = 0) : Audience left now t := by
  obtain ⟨q, hq, hforks⟩ := h.forks
  obtain ⟨w, hw, hfee⟩ := h.schedule
  obtain ⟨p, hp, hpool⟩ := h.pool
  obtain ⟨j, b, hb, hbname, hpayer⟩ := h.payer
  obtain ⟨m, pl, hpl, howner⟩ := h.platform
  obtain ⟨x, hx⟩ := ht.keeps_account ha hb
  have hother : ∀ {k : Kind} i, k ≠ Kind.account → k ≠ Kind.content → k ≠ Kind.report →
      t.get k i = s.get k i := fun i hk hk' hk'' => ht.other _ i hk hk' hk''
  exact {
    fresh := hfresh
    forks := ⟨q, (hother 0 (by decide) (by decide) (by decide)).trans hq, hforks⟩
    schedule := ⟨w, (hother 0 (by decide) (by decide) (by decide)).trans hw, hfee⟩
    pool := ⟨p, (hother 0 (by decide) (by decide) (by decide)).trans hp, hpool⟩
    payer := ⟨j, _, hx, hbname, hpayer⟩
    witnessVotes := fun i =>
      (hother i (by decide) (by decide) (by decide)).trans (h.witnessVotes i)
    platformVotes := fun i =>
      (hother i (by decide) (by decide) (by decide)).trans (h.platformVotes i)
    platform := ⟨m, pl, (hother m (by decide) (by decide) (by decide)).trans hpl, howner⟩
    voted := (votedIn_congr (fun i => hother i (by decide) (by decide) (by decide)) _).trans h.voted
    content := ⟨_, (ht.contents 0).trans (if_pos hcontent.symm)⟩
    only := fun i b hb => by
      rw [ht.contents, hcontent] at hb
      split at hb
      · rename_i hi
        obtain rfl := Option.some.inj hb
        exact ⟨hi, (h.only 0 c hc).2⟩
      · exact h.only i b hb }

theorem Entered.crowding (ht : Entered r a c s t) (ha : s.get Kind.account r.consumer = some a)
    (hc : s.get Kind.content 0 = some c) (hcontent : r.content = 0) : Crowding s t := by
  refine ⟨fun k i hk _ hk' hk'' => ht.other k i hk hk'' hk', fun i b hb => ?_, fun b hb => ?_⟩
  · obtain ⟨x, hx⟩ := ht.keeps_account ha hb
    exact ⟨_, hx, rfl, rfl, rfl, rfl, rfl⟩
  · obtain rfl := Option.some.inj (hc.symm.trans hb)
    exact ⟨_, (ht.contents 0).trans (if_pos hcontent.symm), rfl⟩

theorem Entered.unused {name : String} (ht : Entered r a c s t)
    (ha : s.get Kind.account r.consumer = some a) (hname : Unused s name) : Unused t name := by
  intro i b hb
  rw [ht.accounts] at hb
  split at hb
  · obtain rfl := Option.some.inj hb
    exact hname _ a ha
  · exact hname i b hb

end

/-- **An account plays the content.** -/
theorem Audience.play [Fc] {name : String} {x : Nat} (h : Audience left now s)
    (hl : Listener s name x)
    (hvalid : isValidAccountName name = true) (hpos : 0 < time) (hday : x + time ≤ 86400)
    (hbound : x + time ≤ bound) :
    ∃ t, ChainStep (fun _ _ => True) s t ∧ Audience left now t ∧ Listener t name (x + time) ∧
      (∀ other, Unused s other → Unused t other) ∧ Grown now time bound 1 s t := by
  have hplay := Audience.played (n := 0) (d := ⟨s, [], 0, true, 256, false,
    ⟨fun l => l, List.Perm.refl⟩⟩) h hl hday
  obtain ⟨u, d', hr, r, a, c, hname, hheard, hcontent, htime, hcreated, ha, hc, ht, hfresh, j, hj⟩ :=
    hplay
  have hvalidate : (Operation.streamingPlatformReport (playing name time)).validate = .ok () := by
    have howner : isValidAccountName initMinerName = true := by decide
    refine check_bind_ok.mpr ⟨howner, check_bind_ok.mpr ⟨hvalid, check_bind_ok.mpr ⟨hpos, ?_⟩⟩⟩
    exact check_ok.mpr (by show time ≤ 86400; omega)
  have hu : u32 (a.totalListeningTime + r.playTime) = x + time := by
    rw [hheard, htime]
    unfold u32
    omega
  refine ⟨d'.store, .operation 0 0 (fun _ => pure ()) (.streamingPlatformReport (playing name time))
    hvalidate rfl trivial hr, ht.audience h hfresh ha hc hcontent,
    ⟨r.consumer, _, (ht.accounts _).trans (if_pos rfl), hname, hu⟩,
    fun other hother => ht.unused ha hother, ht.crowding ha hc hcontent, fun i q hq => ?_,
    fun i q hq => ?_, fun f y hf => ?_, fun i => ?_, fun i => ?_⟩
  · have hne : i ≠ j := fun hi => by
      rw [hi, hj.fresh] at hq
      cases hq
    exact (hj.report i).trans ((if_neg hne).trans hq)
  · rw [hj.report] at hq
    split at hq
    · obtain rfl := Option.some.inj hq
      exact .inr hcreated
    · exact .inl hq
  · rw [hj.reported, hf r hcontent htime, Nat.cast_one, one_mul]
  · by_cases hi : i = r.consumer
    · refine .inr ?_
      rw [hj.listened, if_pos hi, hi, heard_eq ha, hu]
      exact hbound
    · exact .inl ((hj.listened i).trans (if_neg hi))
  · rw [hj.played]
    split
    · exact .inr (Nat.mod_lt _ (by decide))
    · exact .inl rfl

end

/-! ## 6. Names -/

/-- One of sixteen letters. -/
def letter (k : Nat) : Char := Char.ofNat (97 + k % 16)

/-- A name of `m` letters after the first, by a number in base 16. -/
def crowdName : Nat → Nat → String
  | 0, _ => "z"
  | m + 1, k => (crowdName m (k / 16)).push (letter k)

theorem letter_lower (k : Nat) : isLower (letter k) = true ∧ (letter k).utf8Size = 1 := by
  have h : ∀ i : Fin 16, isLower (Char.ofNat (97 + i)) = true ∧
      (Char.ofNat (97 + i)).utf8Size = 1 := by decide
  exact h ⟨k % 16, Nat.mod_lt _ (by decide)⟩

theorem letter_inj {j k : Nat} (h : letter j = letter k) : j % 16 = k % 16 := by
  have hinj : ∀ a b : Fin 16, Char.ofNat (97 + a) = Char.ofNat (97 + b) → a = b := by decide
  exact congrArg Fin.val
    (hinj ⟨j % 16, Nat.mod_lt _ (by decide)⟩ ⟨k % 16, Nat.mod_lt _ (by decide)⟩ h)

theorem crowdName_inj {m j k : Nat} (hj : j < 16 ^ m) (hk : k < 16 ^ m)
    (h : crowdName m j = crowdName m k) : j = k := by
  induction m generalizing j k with
  | zero => omega
  | succ m ih =>
    have hlist : (crowdName m (j / 16)).toList ++ [letter j] =
        (crowdName m (k / 16)).toList ++ [letter k] := by
      rw [← String.toList_push, ← String.toList_push]
      exact congrArg String.toList h
    obtain ⟨hrest, hlast⟩ := List.append_inj' hlist rfl
    have hhigh : j / 16 = k / 16 := ih (by omega) (by omega) (String.toList_inj.mp hrest)
    have hlow : j % 16 = k % 16 := letter_inj (List.cons.inj hlast).1
    omega

theorem crowdName_lower (m k : Nat) : (∀ c ∈ (crowdName m k).toList, isLower c = true) ∧
    (crowdName m k).toList.length = m + 1 ∧ (crowdName m k).utf8ByteSize = m + 1 := by
  induction m generalizing k with
  | zero =>
    unfold crowdName
    refine ⟨fun c hc => ?_, rfl, rfl⟩
    rw [List.mem_singleton.mp hc]
    decide
  | succ m ih =>
    obtain ⟨hall, hlen, hsize⟩ := ih (k / 16)
    obtain ⟨hlower, hone⟩ := letter_lower k
    unfold crowdName
    rw [String.toList_push, List.length_append, hlen, String.utf8ByteSize_push, hsize, hone]
    refine ⟨fun c hc => ?_, rfl, rfl⟩
    rcases List.mem_append.mp hc with hc | hc
    · exact hall c hc
    · rw [List.mem_singleton.mp hc]
      exact hlower

theorem splitDots_of_lower {l : List Char} (h : ∀ c ∈ l, isLower c = true) : splitDots l = [l] := by
  induction l with
  | nil => rfl
  | cons c l ih =>
    have hdot : c ≠ '.' := by
      rintro rfl
      exact absurd (h '.' List.mem_cons_self) (by decide)
    unfold splitDots
    rw [if_neg hdot, ih fun c hc => h c (List.mem_cons_of_mem _ hc)]

theorem isValidLabel_of_lower {l : List Char} (h : ∀ c ∈ l, isLower c = true) (hlen : 3 ≤ l.length) :
    isValidLabel l = true := by
  have hne : l ≠ [] := by
    rintro rfl
    exact absurd hlen (by decide)
  have hhead : l.head? = some (l.head hne) := List.head?_eq_some_head hne
  have hlast : l.getLast? = some (l.getLast hne) := List.getLast?_eq_some_getLast hne
  have hrest : (l.tail.dropLast).all (fun c => isLower c || isDigit c || c = '-') = true := by
    refine List.all_eq_true.mpr fun c hc => ?_
    rw [h c (List.mem_of_mem_tail (List.mem_of_mem_dropLast hc)), Bool.true_or, Bool.true_or]
  unfold isValidLabel
  rw [hhead, hlast, hrest]
  dsimp only
  rw [h _ (List.head_mem hne), h _ (List.getLast_mem hne), decide_eq_true hlen]
  rfl

theorem isValidAccountName_crowd {m : Nat} (k : Nat) (hm : 2 ≤ m) (hm' : m ≤ 15) :
    isValidAccountName (crowdName m k) = true := by
  obtain ⟨hall, hlen, hsize⟩ := crowdName_lower m k
  have hlabel := isValidLabel_of_lower hall (by omega)
  have hmin : minAccountNameLength ≤ m + 1 := by
    unfold minAccountNameLength
    omega
  have hmax : m + 1 ≤ maxAccountNameLength := by
    unfold maxAccountNameLength
    omega
  unfold isValidAccountName
  rw [splitDots_of_lower hall, hsize, List.all_cons, hlabel, decide_eq_true hmin,
    decide_eq_true hmax]
  rfl

theorem crowdName_first (m k : Nat) : (crowdName m k).toList.head? = some 'z' := by
  induction m generalizing k with
  | zero =>
    unfold crowdName
    decide
  | succ m ih =>
    unfold crowdName
    rw [String.toList_push, List.head?_append, ih (k / 16)]
    rfl

/-- No account is of a crowd when no name begins with its letter. -/
theorem unused_crowdName {s : Store chainSchema} (h : (s.rows Kind.account).all
      (fun r : Nat × Account => decide (r.2.name.toList.head? ≠ some 'z')) = true) (m k : Nat) :
    Unused s (crowdName m k) := by
  intro i a ha he
  have hfirst : decide (a.name.toList.head? ≠ some 'z') = true :=
    List.all_eq_true.mp h (i, a) (FMap.mem_rows.mpr ha)
  rw [he] at hfirst
  exact of_decide_eq_true hfirst (crowdName_first m k)

/-! ## 7. A crowd -/

section

variable {now time left times : Nat} {s : Store chainSchema}

/-- An account plays the content again and again. -/
theorem Audience.again [Fc] {name : String} {x bound : Nat} (h : Audience left now s)
    (hl : Listener s name x) (hvalid : isValidAccountName name = true) (hpos : 0 < time)
    (hday : x + times * time ≤ 86400) (hbound : x + times * time ≤ bound) :
    ∃ t, Chained (fun _ _ => True) s t ∧ Audience left now t ∧
      (∀ other, Unused s other → Unused t other) ∧ Grown now time bound times s t := by
  induction times generalizing s x with
  | zero => exact ⟨s, .refl, h, fun _ hu => hu, .refl s⟩
  | succ times ih =>
    rw [Nat.succ_mul] at hday hbound
    obtain ⟨t, hst, ht, hlt, hunused, hgrown⟩ := h.play hl hvalid hpos (by omega)
      (show x + time ≤ bound by omega)
    obtain ⟨v, htv, hv, hunused', hgrown'⟩ := ih ht hlt (by omega) (by omega)
    refine ⟨v, .head hst htv, hv, fun other hu => hunused' other (hunused other hu), ?_⟩
    rw [Nat.add_comm]
    exact hgrown.trans hgrown'

/-- **A crowd**: `m` accounts join, and each plays the content `times` times. -/
theorem Audience.crowd [Fc] {m first : Nat} (h : Audience (left + m) now s)
    (hunused : ∀ k, first ≤ k → k < first + m → Unused s (crowdName 6 k))
    (hlimit : first + m ≤ 16 ^ 6) (hpos : 0 < time) (hday : times * time ≤ 86400) :
    ∃ t, Chained (fun _ _ => True) s t ∧ Audience left now t ∧
      Grown now time (times * time) (m * times) s t := by
  induction m generalizing s first with
  | zero =>
    rw [Nat.zero_mul]
    exact ⟨s, .refl, h, .refl s⟩
  | succ m ih =>
    have hvalid : isValidAccountName (crowdName 6 first) = true :=
      isValidAccountName_crowd first (by decide) (by decide)
    have hjoin : ∃ t, ChainStep (fun _ _ => True) s t ∧ Audience (left + m) now t ∧
        Listener t (crowdName 6 first) 0 ∧
        (∀ other, other ≠ crowdName 6 first → Unused s other → Unused t other) ∧
        Grown now time (times * time) 0 s t := h.join (hunused first le_rfl (by omega)) hvalid
    obtain ⟨t, hst, ht, hl, hothers, hgrown⟩ := hjoin
    obtain ⟨v, htv, hv, hothers', hgrown'⟩ := ht.again hl hvalid hpos (by omega)
      (show 0 + times * time ≤ times * time by omega)
    have hrest : ∀ k, first + 1 ≤ k → k < first + 1 + m → Unused v (crowdName 6 k) := by
      intro k hk hk'
      refine hothers' _ (hothers _ (fun he => ?_) (hunused k (by omega) (by omega)))
      have hsame := crowdName_inj (by omega) (by omega) he
      omega
    obtain ⟨w, hvw, hw, hgrown''⟩ := ih hv hrest (by omega)
    have hall := (hgrown.trans hgrown').trans hgrown''
    rw [Nat.zero_add, Nat.add_comm, ← Nat.succ_mul] at hall
    exact ⟨w, .head hst (htv.trans hvw), hw, hall⟩

end

end MuseChain
