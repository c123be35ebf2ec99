/-
  File:      MuseChain/Safety/Lookups.lean
  Subject:   What the lookups of the chain's database return, and that they change nothing.
-/
import MuseChain.Chain.Block
import MuseChain.Db.Runs

namespace MuseChain

variable {n : Nat} {d d' : Database chainSchema}

/-! ## 1. Results -/

theorem find_rows {s : Store chainSchema} {k : Kind} {p : k.Object → Bool} {r : Nat × k.Object}
    (h : (s.rows k).find? (fun r => p r.2) = some r) : s.get k r.1 = some r.2 ∧ p r.2 = true :=
  ⟨FMap.mem_rows.mp (List.mem_of_find?_eq_some h),
    List.find?_some (p := fun r : Nat × k.Object => p r.2) h⟩

section

variable {β : Type} {b : β} {u : Unit}

theorem getObject_ok {k : Kind} {i : Nat} {a : k.Object} :
    (getObject k i : Act n k.Object).run d = .ok a d' ↔ d.store.get k i = some a ∧ d' = d :=
  Action.get_ok

theorem bind_getObject_ok {k : Kind} {i : Nat} {f : k.Object → Act n β} :
    ((getObject k i : Act n k.Object) >>= f).run d = .ok b d' ↔
      ∃ a, d.store.get k i = some a ∧ (f a).run d = .ok b d' := Action.bind_get_ok

theorem bind_getAccount_ok {i : Nat} {f : Account → Act n β} :
    ((getAccount i : Act n Account) >>= f).run d = .ok b d' ↔
      ∃ a : Account, d.store.get Kind.account i = some a ∧ (f a).run d = .ok b d' :=
  Action.bind_get_ok

theorem bind_getDgp_ok {f : DynamicGlobalProperty → Act n β} :
    ((getDynamicGlobalProperties : Act n DynamicGlobalProperty) >>= f).run d = .ok b d' ↔
      ∃ p : DynamicGlobalProperty, d.store.get Kind.dynamicGlobalProperty 0 = some p ∧
        (f p).run d = .ok b d' := Action.bind_get_ok

theorem bind_getFeedHistory_ok {f : FeedHistory → Act n β} :
    ((getFeedHistory : Act n FeedHistory) >>= f).run d = .ok b d' ↔
      ∃ p : FeedHistory, d.store.get Kind.feedHistory 0 = some p ∧ (f p).run d = .ok b d' :=
  Action.bind_get_ok

theorem bind_headBlockTime_ok {f : Nat → Act n β}
    (h : ((headBlockTime : Act n Nat) >>= f).run d = .ok b d') :
    ∃ p : DynamicGlobalProperty, d.store.get Kind.dynamicGlobalProperty 0 = some p ∧
      (f p.time).run d = .ok b d' := by
  obtain ⟨t, d₁, h1, h2⟩ := Action.bind_ok.mp h
  obtain ⟨p, hp, h3⟩ := bind_getDgp_ok.mp h1
  cases h3
  exact ⟨p, hp, h2⟩

/-- `has_hardfork`, as a look at the objects. -/
def Store.passed (s : Store chainSchema) (hardfork : Nat) : Bool :=
  match s.get Kind.hardforkProperty 0 with
  | some p => decide (hardfork < (p : HardforkProperty).processedHardforks.length)
  | none => false

theorem hasHardfork_ok {hardfork : Nat} {x : Bool}
    (h : (hasHardfork hardfork : Act n Bool).run d = .ok x d') :
    d' = d ∧ x = d.store.passed hardfork := by
  obtain ⟨p, d₁, h1, h2⟩ := Action.bind_ok.mp h
  obtain ⟨hp, rfl⟩ := getObject_ok.mp h1
  cases h2
  refine ⟨rfl, ?_⟩
  rw [Store.passed, hp]

theorem bind_hasHardfork_ok {hardfork : Nat} {f : Bool → Act n β}
    (h : ((hasHardfork hardfork : Act n Bool) >>= f).run d = .ok b d') :
    (f (d.store.passed hardfork)).run d = .ok b d' := by
  obtain ⟨x, d₁, h1, h2⟩ := Action.bind_ok.mp h
  obtain ⟨rfl, rfl⟩ := hasHardfork_ok h1
  exact h2

theorem bind_findRow_ok {k : Kind} {p : k.Object → Bool} {f : Option (Nat × k.Object) → Act n β} :
    ((findRow k p : Act n (Option (Nat × k.Object))) >>= f).run d = .ok b d' ↔
      (f ((d.store.rows k).find? fun r => p r.2)).run d = .ok b d' := Iff.rfl

theorem bind_getRow_ok {k : Kind} {p : k.Object → Bool} {msg : String} {f : Nat → Act n β}
    (h : ((getRow k p msg : Act n Nat) >>= f).run d = .ok b d') :
    ∃ i a, d.store.get k i = some a ∧ p a = true ∧ (f i).run d = .ok b d' := by
  obtain ⟨i, d₁, h1, h2⟩ := Action.bind_ok.mp h
  obtain ⟨r, d₂, h3, h4⟩ := Action.bind_ok.mp h1
  obtain ⟨hr, rfl⟩ : (d.store.rows k).find? (fun r => p r.2) = r ∧ d = d₂ := by
    simpa only [findRow, Action.read_ok, Outcome.ok.injEq] using h3
  cases r with
  | none => cases h4
  | some r =>
    cases h4
    exact ⟨r.1, r.2, (find_rows hr).1, (find_rows hr).2, h2⟩

theorem bind_getAccountId_ok {name : String} {f : Nat → Act n β}
    (h : ((getAccountId name : Act n Nat) >>= f).run d = .ok b d') :
    ∃ i, ∃ a : Account, d.store.get Kind.account i = some a ∧ a.name = name ∧
      (f i).run d = .ok b d' := by
  obtain ⟨i, a, ha, hp, h⟩ := bind_getRow_ok h
  exact ⟨i, a, ha, of_decide_eq_true hp, h⟩

theorem bind_getContentId_ok {url : String} {f : Nat → Act n β}
    (h : ((getContentId url : Act n Nat) >>= f).run d = .ok b d') :
    ∃ i, ∃ c : Content, d.store.get Kind.content i = some c ∧ c.url = url ∧
      (f i).run d = .ok b d' := by
  obtain ⟨i, a, ha, hp, h⟩ := bind_getRow_ok h
  exact ⟨i, a, ha, of_decide_eq_true hp, h⟩

/-- A program that changes nothing, at the front of another. -/
theorem bind_same_ok {α : Type} {x : Act n α} {f : α → Act n β} (hx : Steps (· = ·) x)
    (h : (x >>= f).run d = .ok b d') :
    ∃ a d₁, d₁.store = d.store ∧ (f a).run d₁ = .ok b d' := by
  obtain ⟨a, d₁, h1, h2⟩ := Action.bind_ok.mp h
  exact ⟨a, d₁, (hx.step h1).symm, h2⟩

end

/-- No two objects of an index share a unique key, so a key finds its object. -/
theorem content_unique {s : Store chainSchema} {i j : Nat} {a b : Content}
    (ha : s.get Kind.content i = some a) (hb : s.get Kind.content j = some b)
    (h : a.url = b.url) : i = j := by
  by_contra hij
  have := s.unique Kind.content i j a b hij ha hb
  simp [Schema.clashes, Kind.unique, h] at this

theorem account_unique {s : Store chainSchema} {i j : Nat} {a b : Account}
    (ha : s.get Kind.account i = some a) (hb : s.get Kind.account j = some b)
    (h : a.name = b.name) : i = j := by
  by_contra hij
  have := s.unique Kind.account i j a b hij ha hb
  simp [Schema.clashes, Kind.unique, h] at this

/-! ## 2. Looking -/

@[simp] theorem looks_getObject (k : Kind) (i : Nat) :
    Looks (getObject k i : Act n k.Object) := looks_get _ _

@[simp] theorem looks_getAccount (i : Nat) : Looks (getAccount i : Act n Account) :=
  looks_get _ _

@[simp] theorem looks_findRow (k : Kind) (p : k.Object → Bool) :
    Looks (findRow k p : Act n (Option (Nat × k.Object))) := looks_read _

@[simp] theorem looks_getRow (k : Kind) (p : k.Object → Bool) (msg : String) :
    Looks (getRow k p msg : Act n Nat) := by
  refine looks_bind (looks_findRow k p) fun r => ?_
  cases r with
  | none => exact looks_throw _
  | some r => exact looks_pure _

@[simp] theorem looks_getAccountId (name : String) :
    Looks (getAccountId name : Act n Nat) := looks_getRow _ _ _

@[simp] theorem looks_getAccountByName (name : String) :
    Looks (getAccountByName name : Act n Account) := by
  simp [getAccountByName]

@[simp] theorem looks_getDynamicGlobalProperties :
    Looks (getDynamicGlobalProperties : Act n DynamicGlobalProperty) := looks_get _ _

@[simp] theorem looks_getFeedHistory : Looks (getFeedHistory : Act n FeedHistory) :=
  looks_get _ _

@[simp] theorem looks_getWitnessScheduleObject :
    Looks (getWitnessScheduleObject : Act n WitnessSchedule) := looks_get _ _

@[simp] theorem looks_getHardforkProperty :
    Looks (getHardforkProperty : Act n HardforkProperty) := looks_get _ _

@[simp] theorem looks_headBlockTime : Looks (headBlockTime : Act n Nat) := by
  simp [headBlockTime]

@[simp] theorem looks_headBlockNum : Looks (headBlockNum : Act n Nat) := by
  simp [headBlockNum]

@[simp] theorem looks_hasHardfork (hardfork : Nat) :
    Looks (hasHardfork hardfork : Act n Bool) := by
  simp [hasHardfork]

@[simp] theorem looks_findWitness (name : String) :
    Looks (findWitness name : Act n (Option (Nat × Witness))) := looks_findRow _ _

@[simp] theorem looks_getWitnessId (name : String) :
    Looks (getWitnessId name : Act n Nat) := looks_getRow _ _ _

@[simp] theorem looks_getStreamingPlatformId (name : String) :
    Looks (getStreamingPlatformId name : Act n Nat) := looks_getRow _ _ _

@[simp] theorem looks_getContentId (url : String) :
    Looks (getContentId url : Act n Nat) := looks_getRow _ _ _

@[simp] theorem looks_getLimitOrderId (name : String) (orderid : Nat) :
    Looks (getLimitOrderId name orderid : Act n Nat) := looks_getRow _ _ _

@[simp] theorem looks_findAccountBalance (acc asset : Nat) :
    Looks (findAccountBalance acc asset : Act n (Option (Nat × AccountBalance))) :=
  looks_findRow _ _

@[simp] theorem looks_getBalance (acc symbol : Nat) :
    Looks (getBalance acc symbol : Act n Asset) := by
  unfold getBalance
  repeat' first | (solve | simp) | apply looks_bind | apply looks_ite | intro _ | split

@[simp] theorem looks_toMbd (muse : Asset) : Looks (toMbd muse : Act n Asset) := by
  unfold toMbd
  repeat' first | (solve | simp) | apply looks_bind

@[simp] theorem looks_toMuse (mbd : Asset) : Looks (toMuse mbd : Act n Asset) := by
  unfold toMuse
  repeat' first | (solve | simp) | apply looks_bind

@[simp] theorem looks_witnessVotesOf (acc : Nat) :
    Looks (witnessVotesOf acc : Act n (List (Nat × WitnessVote))) := looks_read _

@[simp] theorem looks_streamingPlatformVotesOf (acc : Nat) :
    Looks (streamingPlatformVotesOf acc : Act n (List (Nat × StreamingPlatformVote))) :=
  looks_read _

@[simp] theorem looks_scoreOf (a : Account) : Looks (scoreOf a : Act n Nat) := by
  unfold scoreOf
  repeat' first | (solve | simp) | apply looks_bind

@[simp] theorem looks_getScoringContent (c : Content) :
    Looks (getScoringContent c : Act n Nat) := by
  unfold getScoringContent
  repeat' first | (solve | simp) | apply looks_bind

@[simp] theorem looks_dueRows (k : Kind) (time : k.Object → Nat) (due : Nat → Bool) :
    Looks (dueRows k time due : Act n (List (Nat × k.Object))) := looks_read _

@[simp] theorem looks_ordersBetween (best worst : Price) :
    Looks (ordersBetween best worst : Act n (List (Nat × LimitOrder))) := looks_read _

@[simp] theorem looks_checkAccounts (names : List String) :
    Looks (checkAccounts names : Act n Unit) := by
  unfold checkAccounts
  repeat' first | (solve | simp)

@[simp] theorem looks_getContentReward : Looks (getContentReward : Act n Asset) := by
  unfold getContentReward
  repeat' first | (solve | simp) | apply looks_bind

@[simp] theorem looks_getVestingReward : Looks (getVestingReward : Act n Asset) := by
  unfold getVestingReward
  repeat' first | (solve | simp) | apply looks_bind

@[simp] theorem looks_countListeners (reports : List (Nat × Report)) (seen : List Nat × Nat) :
    Looks (countListeners reports seen : Act n (List Nat × Nat)) := by
  induction reports generalizing seen with
  | nil =>
    unfold countListeners
    simp
  | cons _ _ ih =>
    unfold countListeners
    repeat' first
      | with_reducible apply looks_bind | with_reducible apply looks_ite | intro _
      | (solve | simp) | exact ih _

@[simp] theorem looks_withdrawRoutesOf (acc : Nat) :
    Looks (withdrawRoutesOf acc : Act n (List (Nat × WithdrawVestingRoute))) := by
  unfold withdrawRoutesOf
  simp

@[simp] theorem looks_withdrawalAfter (place : Option (Nat × Nat)) :
    Looks (withdrawalAfter place : Act n (Option Nat)) := by
  unfold withdrawalAfter
  simp

@[simp] theorem looks_getSlotTime (slotNum : Nat) :
    Looks (getSlotTime slotNum : Act n Nat) := by
  unfold getSlotTime
  repeat' first | with_reducible apply looks_bind | (solve | simp)

@[simp] theorem looks_getSlotAtTime (when_ : Nat) :
    Looks (getSlotAtTime when_ : Act n Nat) := by
  unfold getSlotAtTime
  simp

@[simp] theorem looks_getScheduledWitness (slotNum : Nat) :
    Looks (getScheduledWitness slotNum : Act n String) := by
  unfold getScheduledWitness
  refine looks_bind (by simp) fun p => looks_bind (by simp) fun wso => ?_
  dsimp only
  split
  · exact looks_pure _
  · exact looks_throw _

@[simp] theorem looks_getWitness (name : String) :
    Looks (getWitness name : Act n Witness) := by
  unfold getWitness
  repeat' first | with_reducible apply looks_bind | intro _ | (solve | simp) | exact looks_get _ _

@[simp] theorem looks_hardforkVotes (names : List String) :
    Looks (hardforkVotes names : Act n (List (Version × Nat))) := by
  unfold hardforkVotes
  repeat' first | with_reducible apply looks_bind | (solve | simp)

@[simp] theorem looks_leadingRows (k : Kind) (p : k.Object → Bool) :
    Looks (leadingRows k p : Act n (List (Nat × k.Object))) := by
  unfold leadingRows
  simp

@[simp] theorem looks_checkJson [Fc] (json msg : String) :
    Looks (checkJson json msg : Act n Unit) := by
  unfold checkJson
  simp

@[simp] theorem looks_checkProxyChain (left : Nat) (chain : List Nat) (acc : Nat) :
    Looks (checkProxyChain left chain acc : Act n Unit) := by
  induction left generalizing chain acc with
  | zero =>
    unfold checkProxyChain
    repeat' first
      | with_reducible apply looks_bind | with_reducible apply looks_ite | intro _
      | (solve | simp)
  | succ _ ih =>
    unfold checkProxyChain
    repeat' first
      | with_reducible apply looks_bind | with_reducible apply looks_ite | intro _
      | (solve | simp) | exact ih _ _

@[simp] theorem looks_isVotedStreamingPlatform (owner : String) :
    Looks (isVotedStreamingPlatform owner : Act n Bool) := by
  unfold isVotedStreamingPlatform
  simp

@[simp] theorem looks_secondLevelOf (acc : Nat) :
    Looks (secondLevelOf acc : Act n (List Nat)) := by
  unfold secondLevelOf
  repeat' first | with_reducible apply looks_bind | intro _ | (solve | simp)

@[simp] theorem looks_checkTrackJson [Fc] (m : TrackMeta) :
    Looks (checkTrackJson m : Act n Unit) := by
  unfold checkTrackJson
  repeat' first | (solve | simp) | split

@[simp] theorem looks_findAsset (symbol : String) :
    Looks (findAsset symbol : Act n (Option (Nat × AssetObject))) := by
  unfold findAsset
  exact looks_read _

@[simp] theorem looks_getAssetById (i : Nat) :
    Looks (getAssetById i : Act n AssetObject) := by
  unfold getAssetById
  repeat' first | with_reducible apply looks_bind | intro _ | (solve | simp) | split

@[simp] theorem looks_isAuthorizedToExecute (p : Proposal) :
    Looks (Proposal.isAuthorizedToExecute p : Act n Bool) := by
  unfold Proposal.isAuthorizedToExecute
  simp

@[simp] theorem looks_collectAuthority (left : Nat) (auth : Authority) (dest : List String) :
    Looks (collectAuthority left auth dest : Act n (List String)) := by
  induction left generalizing auth dest with
  | zero =>
    unfold collectAuthority
    repeat' first
      | with_reducible apply looks_bind | intro _ | (solve | simp)
  | succ _ ih =>
    unfold collectAuthority
    repeat' first
      | with_reducible apply looks_bind | intro _ | (solve | simp) | exact ih _ _
      | with_reducible apply looks_foldEach

@[simp] theorem looks_collectContents (side : Content → Authority) (urls : List String)
    (dest : List String) :
    Looks (collectContents side urls dest : Act n (List String)) := by
  unfold collectContents
  repeat' first
    | with_reducible apply looks_bind | intro _ | (solve | simp) | exact looks_get _ _
    | with_reducible apply looks_foldEach

@[simp] theorem looks_firstExpiredProposal :
    Looks (firstExpiredProposal : Act n (Option Nat)) := by
  unfold firstExpiredProposal
  repeat' first | with_reducible apply looks_bind | intro _ | (solve | simp) | exact looks_read _

@[simp] theorem looks_verifyAuthority [Fc] (trx : Transaction) :
    Looks (verifyAuthority trx : Act n Unit) := by
  unfold verifyAuthority
  repeat' first | with_reducible apply looks_bind | (solve | simp)

@[simp] theorem looks_checkReference [Fc] (skip : Skip) (trx : Transaction) :
    Looks (checkReference skip trx : Act n Unit) := by
  unfold checkReference
  repeat' first
    | with_reducible apply looks_bind | with_reducible apply looks_ite | intro _ | (solve | simp)
    | exact looks_get _ _

@[simp] theorem looks_validateBlockHeader [Fc] (skip : Skip) (b : SignedBlock) :
    Looks (validateBlockHeader skip b : Act n Nat) := by
  unfold validateBlockHeader
  repeat' first
    | with_reducible apply looks_bind | with_reducible apply looks_ite | intro _ | (solve | simp)
    | exact looks_get _ _

end MuseChain
