/-
  File:      MuseChain/Safety/ContentEdits.lean
  Subject:   Who may edit a content: content_update_operation against the authorities it names.

  * `EditAuthorised`: what changed of a content is covered by the authorities that the operation
    asks for.
  * `content_ok`: the content that is made. `contentUpdate_ok`: the content afterwards is the one
    `updateContent` makes, but for the balances that a payout moves.
  * `edit_authorised_iff`: after hardfork 2 the operation is authorised if and only if its side is
    one of the two that the enumeration has, or it asks for both authorities because of a reward,
    or what it writes on the other side is there already. A side of 2 or more is treated as the
    publisher's by the evaluator and as nobody's by the authorities.
-/
import MuseChain.Safety.Frames
import MuseChain.Chain.Genesis

namespace MuseChain

variable {n : Nat} {d d' : Database chainSchema}

/-! ## 1. The statement -/

/-- Every change between `c` and `c'` is covered by an authority that `o` asks for. -/
structure EditAuthorised (o : ContentUpdateOp) (c c' : Content) : Prop where
  master : (c'.albumMeta ≠ c.albumMeta ∨ c'.trackMeta ≠ c.trackMeta ∨
      c'.distributionsMaster ≠ c.distributionsMaster ∨ c'.manageMaster ≠ c.manageMaster ∨
      (c.compMeta.thirdPartyPublishers = false ∧ c'.compMeta ≠ c.compMeta)) →
    c.url ∈ (Operation.contentUpdate o).requiredMasterContent
  comp : c.compMeta.thirdPartyPublishers = true →
    (c'.compMeta ≠ c.compMeta ∨ c'.distributionsComp ≠ c.distributionsComp ∨
      c'.manageComp ≠ c.manageComp) →
    c.url ∈ (Operation.contentUpdate o).requiredCompContent
  rewards : (c'.playingReward ≠ c.playingReward ∨ c'.publishersShare ≠ c.publishersShare) →
    c.url ∈ (Operation.contentUpdate o).requiredMasterContent ∧
      c.url ∈ (Operation.contentUpdate o).requiredCompContent

/-- What the operation would write on the publisher's side is there already. -/
structure CompUnchanged (o : ContentUpdateOp) (c : Content) : Prop where
  compMeta : ∀ m ∈ o.compMeta,
    { m with thirdPartyPublishers := c.compMeta.thirdPartyPublishers } = c.compMeta
  distributions : o.newDistributions ≠ [] → o.newDistributions = c.distributionsComp
  management : o.newManagement ≠ [] →
    managementAuths o.newManagement = c.manageComp.accountAuths ∧
      o.newThreshold = c.manageComp.weightThreshold

/-- The operations whose authorities cover what they write. -/
def EditCovered (o : ContentUpdateOp) (c : Content) : Prop :=
  o.side = sideMaster ∨ o.side = sidePublisher ∨ o.newPlayingReward ≠ 0 ∨
    o.newPublishersShare ≠ 0 ∨ CompUnchanged o c

/-! ## 2. The evaluators -/

theorem checkTrackJson_same [Fc] (m : TrackMeta) {R : Store chainSchema → Store chainSchema → Prop}
    [IsPreorder (Store chainSchema) R] : Steps R (checkTrackJson m : Act n Unit) := by
  unfold checkTrackJson checkJson
  cases m.jsonMetadata with
  | none => exact (looks_pure ()).steps
  | some j => exact steps_bind (by simp) fun _ => steps_bind (by simp) fun _ => by simp

/-- A test of which each hardfork has its own, before one and the same rest. -/
theorem ite_require_ok {c p q : Prop} [Decidable c] [Decidable p] [Decidable q] {m m' : String}
    {f : Unit → Act n Unit} {u : Unit}
    (h : (if c then Action.require p m >>= f else Action.require q m' >>= f).run d = .ok u d') :
    (c → p) ∧ (f ()).run d = .ok u d' := by
  by_cases hc : c
  · rw [if_pos hc] at h
    obtain ⟨hp, h⟩ := Action.bind_require_ok.mp h
    exact ⟨fun _ => hp, h⟩
  · rw [if_neg hc] at h
    obtain ⟨-, h⟩ := Action.bind_require_ok.mp h
    exact ⟨fun e => absurd e hc, h⟩

/-- **The content that the evaluator leaves.** -/
theorem contentUpdate_ok [Fc] {o : ContentUpdateOp} {u : Unit}
    (h : (contentUpdate o : Act n Unit).run d = .ok u d') :
    ∃ i, ∃ c : Content, d.store.get Kind.content i = some c ∧ c.url = o.url ∧
      (d.store.passed hardfork02 = true →
        c.compMeta.thirdPartyPublishers = true ∨ o.side = sideMaster) ∧
      (∃ now, ∃ c' : Content, d'.store.get Kind.content i = some c' ∧
        c'.terms = (updateContent o (d.store.passed hardfork02) now c).terms) ∧
      ∀ j, j ≠ i → (d'.store.get Kind.content j).map Content.terms =
        (d.store.get Kind.content j).map Content.terms := by
  obtain ⟨i, c, hc, hurl, h⟩ := bind_getContentId_ok h
  obtain ⟨co, hco, h⟩ := bind_getObject_ok.mp h
  cases hc.symm.trans hco
  obtain ⟨-, h⟩ := Action.bind_require_ok.mp h
  have h := bind_hasHardfork_ok h
  obtain ⟨hside, h⟩ := ite_require_ok h
  refine ⟨i, c, hc, hurl, hside, ?_⟩
  -- the checks of the track, the payees and the managers
  obtain ⟨d₁, hs1, h⟩ : ∃ d₁, d₁.store = d.store ∧ (do
      checkAccounts (o.newDistributions.map (·.payee))
      checkAccounts (o.newManagement.map (·.voter))
      let now ← headBlockTime
      Action.modify (S := chainSchema) Kind.content i
        (updateContent o (d.store.passed hardfork02) now)
        (updateContent_sameKey o (d.store.passed hardfork02) now)
      if o.newDistributions ≠ [] ∧ 0 < (if o.side = sideMaster then c.accumulatedBalanceMaster
          else c.accumulatedBalanceComp).amount then
        if o.side = sideMaster then payToContentMaster i (Asset.muse 0)
        else payToContentComp i (Asset.muse 0) : Act n Unit).run d₁ = .ok u d' := by
    cases ht : o.trackMeta with
    | none =>
      simp only [ht] at h
      exact ⟨d, rfl, h⟩
    | some m =>
      simp only [ht] at h
      obtain ⟨_, d₁, hs, h⟩ := bind_same_ok (checkTrackJson_same m) h
      exact ⟨d₁, hs, h⟩
  obtain ⟨_, d₂, hs2, h⟩ := bind_same_ok (looks_checkAccounts _).steps h
  obtain ⟨_, d₃, hs3, h⟩ := bind_same_ok (looks_checkAccounts _).steps h
  obtain ⟨p, _, h⟩ := bind_headBlockTime_ok h
  obtain ⟨_, d₄, h4, h⟩ := Action.bind_ok.mp h
  obtain ⟨a, ha, hf, e⟩ := modify_store h4
  rw [hs3, hs2, hs1, hc] at ha
  cases ha
  have hupd : d₄.store.get Kind.content i =
      some (updateContent o (d.store.passed hardfork02) p.time c) := by
    rw [e, Store.get_write_self, if_pos rfl]
  -- a payout keeps the terms
  have hpay : Obeys moves d₄.store d'.store := by
    refine Steps.step ?_ h
    refine steps_ite (fun _ => steps_ite (fun _ => ?_) fun _ => ?_) (by simp)
    · exact steps_payToContentSide .master i _
    · exact steps_payToContentSide .comp i _
  have hkeep : ∀ j, Keep Content.terms (fun _ => False) (d₄.store.get Kind.content j)
      (d'.store.get Kind.content j) := hpay Kind.content
  refine ⟨?_, fun j hj => ?_⟩
  · have hedit := hkeep i
    rw [hupd] at hedit
    obtain ⟨c', hc', e'⟩ := hedit.of_some
    exact ⟨p.time, c', hc', e'.symm⟩
  · rw [← (hkeep j).map_eq, e, Store.get_write_self, if_neg hj, hs3, hs2, hs1]

/-- **The content that `content_evaluator` leaves.** -/
theorem content_ok [Fc] {o : ContentOp} {u : Unit}
    (h : (content o : Act n Unit).run d = .ok u d') :
    (∀ i, ∀ c : Content, d.store.get Kind.content i = some c → c.url ≠ o.url) ∧
      ∃ i now, ∀ j, d'.store.get Kind.content j =
        if j = i then some (newContent o (d.store.passed hardfork02) now)
        else d.store.get Kind.content j := by
  have h := bind_findRow_ok.mp h
  obtain ⟨hnew, h⟩ := Action.bind_require_ok.mp h
  refine ⟨fun i c hc hurl => ?_, ?_⟩
  · have hnone := List.find?_eq_none.mp (Option.isNone_iff_eq_none.mp hnew) (i, c) (by
      exact FMap.mem_rows.mpr hc)
    exact hnone (decide_eq_true hurl)
  -- what is left when the checks are done
  have hend : ∀ d₁ : Database chainSchema, d₁.store = d.store → ((do
      let hf2 ← hasHardfork hardfork02
      let now ← headBlockTime
      let _ ← Action.create (S := chainSchema) Kind.content (newContent o hf2 now)
      pure ()) : Act n Unit).run d₁ = .ok u d' →
      ∃ i now, ∀ j, d'.store.get Kind.content j =
        if j = i then some (newContent o (d.store.passed hardfork02) now)
        else d.store.get Kind.content j := by
    intro d₁ hs h
    have h := bind_hasHardfork_ok h
    obtain ⟨p, _, h⟩ := bind_headBlockTime_ok h
    obtain ⟨i, d₂, h2, h⟩ := Action.bind_ok.mp h
    obtain ⟨rfl, -, hf, e⟩ := create_store h2
    cases h
    refine ⟨d₁.store.nextId Kind.content, p.time, fun j => ?_⟩
    rw [e, Store.get_setNextId, Store.get_write_self, hs]
  obtain ⟨_, d₁, hs1, h⟩ := bind_same_ok (by simp) h
  obtain ⟨-, h⟩ := Action.bind_require_ok.mp h
  obtain ⟨_, d₂, hs2, h⟩ := bind_same_ok (checkTrackJson_same _) h
  obtain ⟨_, d₃, hs3, h⟩ := bind_same_ok (looks_checkAccounts _).steps h
  have hs := hs3.trans (hs2.trans hs1)
  rcases ho : o.distributionsComp with _ | l
  case' some =>
    simp only [ho] at h
    obtain ⟨_, d₃, hs4, h⟩ := bind_same_ok (looks_checkAccounts _).steps h
    replace hs := hs4.trans hs
  case' none => simp only [ho] at h
  all_goals
    obtain ⟨_, d₅, hs5, h⟩ := bind_same_ok (looks_checkAccounts _).steps h
    split at h
    · split at h
      · obtain ⟨_, d₆, hs6, h⟩ := bind_same_ok (looks_checkAccounts _).steps h
        exact hend d₆ (hs6.trans (hs5.trans hs)) h
      · cases h
    · exact hend d₅ (hs5.trans hs) h

/-! ## 3. The two sides -/

section

variable {o : ContentUpdateOp} {c : Content} {t : Nat}

theorem mem_requiredMaster (hurl : c.url = o.url) :
    c.url ∈ (Operation.contentUpdate o).requiredMasterContent ↔
      o.side = sideMaster ∨ o.newPlayingReward ≠ 0 ∨ o.newPublishersShare ≠ 0 := by
  simp only [Operation.requiredMasterContent]
  split <;> simp_all

theorem mem_requiredComp (hurl : c.url = o.url) :
    c.url ∈ (Operation.contentUpdate o).requiredCompContent ↔
      o.side = sidePublisher ∨ o.newPlayingReward ≠ 0 ∨ o.newPublishersShare ≠ 0 := by
  simp only [Operation.requiredCompContent]
  split <;> simp_all

/-- An operation on the publisher's side, whatever number it gives for it. -/
theorem updateContent_comp_iff (hside : o.side ≠ sideMaster) :
    ((updateContent o true t c).compMeta = c.compMeta ∧
      (updateContent o true t c).distributionsComp = c.distributionsComp ∧
      (updateContent o true t c).manageComp = c.manageComp) ↔ CompUnchanged o c := by
  simp only [updateContent, if_neg hside, updateComp]
  constructor
  · rintro ⟨hm, hd, hg⟩
    refine ⟨fun m hmem => ?_, fun hne => ?_, fun hne => ?_⟩
    · rw [Option.mem_def] at hmem
      simpa [hmem] using hm
    · simpa [hne] using hd
    · rw [if_pos hne] at hg
      exact ⟨congrArg Authority.accountAuths hg, congrArg Authority.weightThreshold hg⟩
  · rintro ⟨hm, hd, hg⟩
    refine ⟨?_, ?_, ?_⟩
    · cases ho : o.compMeta with
      | none => rfl
      | some m => exact hm m ho
    · split
      · rename_i hne
        exact hd hne
      · rfl
    · split
      · rename_i hne
        obtain ⟨h1, h2⟩ := hg hne
        rw [h1, h2]
      · rfl

/-- The master side is the only one that an operation for it writes. -/
theorem updateContent_master (hside : o.side = sideMaster)
    (h2 : c.compMeta.thirdPartyPublishers = true) :
    (updateContent o true t c).compMeta = c.compMeta ∧
      (updateContent o true t c).distributionsComp = c.distributionsComp ∧
      (updateContent o true t c).manageComp = c.manageComp := by
  simp only [updateContent, if_pos hside, updateMaster, h2, if_true, and_self, and_true]
  rw [← h2]

theorem updateContent_rewards (hp : o.newPlayingReward = 0) (hs : o.newPublishersShare = 0) :
    (updateContent o true t c).playingReward = c.playingReward ∧
      (updateContent o true t c).publishersShare = c.publishersShare := by
  simp only [updateContent, hp, hs, decide_true, Bool.and_self, if_true]
  by_cases hside : o.side = sideMaster
  · rw [if_pos hside]
    exact ⟨rfl, rfl⟩
  · rw [if_neg hside]
    exact ⟨rfl, rfl⟩

/-- **The two tests agree on the sides of the enumeration, and on no other.** -/
theorem updateContent_authorised_iff (hurl : c.url = o.url)
    (hside : c.compMeta.thirdPartyPublishers = true ∨ o.side = sideMaster) :
    EditAuthorised o c (updateContent o true t c) ↔ EditCovered o c := by
  have hm := mem_requiredMaster hurl
  have hcm := mem_requiredComp hurl
  by_cases hp : o.newPlayingReward ≠ 0
  · exact iff_of_true ⟨fun _ => hm.mpr (.inr (.inl hp)), fun _ _ => hcm.mpr (.inr (.inl hp)),
      fun _ => ⟨hm.mpr (.inr (.inl hp)), hcm.mpr (.inr (.inl hp))⟩⟩ (.inr (.inr (.inl hp)))
  by_cases hs : o.newPublishersShare ≠ 0
  · exact iff_of_true ⟨fun _ => hm.mpr (.inr (.inr hs)), fun _ _ => hcm.mpr (.inr (.inr hs)),
      fun _ => ⟨hm.mpr (.inr (.inr hs)), hcm.mpr (.inr (.inr hs))⟩⟩ (.inr (.inr (.inr (.inl hs))))
  rw [not_ne_iff] at hp hs
  have hrew := updateContent_rewards (c := c) (t := t) hp hs
  have hnorew : ¬((updateContent o true t c).playingReward ≠ c.playingReward ∨
      (updateContent o true t c).publishersShare ≠ c.publishersShare) := by
    simp [hrew.1, hrew.2]
  by_cases hmaster : o.side = sideMaster
  · refine iff_of_true ⟨fun _ => hm.mpr (.inl hmaster), fun h2 hch => ?_,
      fun h => absurd h hnorew⟩ (.inl hmaster)
    obtain ⟨e1, e2, e3⟩ := updateContent_master (t := t) hmaster h2
    simp [e1, e2, e3] at hch
  have h2 : c.compMeta.thirdPartyPublishers = true := hside.resolve_right hmaster
  have hnomaster : ¬((updateContent o true t c).albumMeta ≠ c.albumMeta ∨
      (updateContent o true t c).trackMeta ≠ c.trackMeta ∨
      (updateContent o true t c).distributionsMaster ≠ c.distributionsMaster ∨
      (updateContent o true t c).manageMaster ≠ c.manageMaster ∨
      (c.compMeta.thirdPartyPublishers = false ∧
        (updateContent o true t c).compMeta ≠ c.compMeta)) := by
    simp [updateContent, hmaster, updateComp, h2]
  have hcomp := updateContent_comp_iff (c := c) (t := t) hmaster
  constructor
  · intro ha
    by_cases hpub : o.side = sidePublisher
    · exact .inr (.inl hpub)
    · refine .inr (.inr (.inr (.inr (hcomp.mp ?_))))
      by_contra hch
      rw [not_and_or, not_and_or] at hch
      rcases hcm.mp (ha.comp h2 hch) with e | e | e
      · exact hpub e
      · exact e hp
      · exact e hs
  · intro hcov
    refine ⟨fun h => absurd h hnomaster, fun _ hch => hcm.mpr ?_, fun h => absurd h hnorew⟩
    rcases hcov with e | e | e | e | e
    · exact absurd e hmaster
    · exact .inl e
    · exact absurd hp e
    · exact absurd hs e
    · obtain ⟨e1, e2, e3⟩ := hcomp.mpr e
      simp [e1, e2, e3] at hch

end

/-- The balances have no part in the authorities. -/
theorem EditAuthorised.of_terms {o : ContentUpdateOp} {c c₁ c₂ : Content}
    (h : c₁.terms = c₂.terms) (ha : EditAuthorised o c c₁) : EditAuthorised o c c₂ := by
  have e1 : c₁.albumMeta = c₂.albumMeta := congrArg (·.albumMeta) h
  have e2 : c₁.trackMeta = c₂.trackMeta := congrArg (·.trackMeta) h
  have e3 : c₁.distributionsMaster = c₂.distributionsMaster := congrArg (·.distributionsMaster) h
  have e4 : c₁.manageMaster = c₂.manageMaster := congrArg (·.manageMaster) h
  have e5 : c₁.compMeta = c₂.compMeta := congrArg (·.compMeta) h
  have e6 : c₁.distributionsComp = c₂.distributionsComp := congrArg (·.distributionsComp) h
  have e7 : c₁.manageComp = c₂.manageComp := congrArg (·.manageComp) h
  have e8 : c₁.playingReward = c₂.playingReward := congrArg (·.playingReward) h
  have e9 : c₁.publishersShare = c₂.publishersShare := congrArg (·.publishersShare) h
  obtain ⟨hm, hc, hr⟩ := ha
  rw [e1, e2, e3, e4, e5] at hm
  rw [e5, e6, e7] at hc
  rw [e8, e9] at hr
  exact ⟨hm, hc, hr⟩

/-- **After hardfork 2, a content edit is authorised exactly when it is covered.** -/
theorem edit_authorised_iff [Fc] (clock n : Nat) (o : ContentUpdateOp) (d d' : Database chainSchema)
    (i : Nat) (c : Content) (hf2 : d.store.passed hardfork02 = true)
    (hc : d.store.get Kind.content i = some c) (hurl : c.url = o.url)
    (h : (applyOperation clock n (.contentUpdate o)).run d = .ok () d') :
    ∃ c' : Content, d'.store.get Kind.content i = some c' ∧
      (EditAuthorised o c c' ↔ EditCovered o c) := by
  obtain ⟨j, c₀, hc₀, hurl₀, hside, ⟨now, c', hc', e⟩, -⟩ :=
    contentUpdate_ok (show (contentUpdate o : Act n Unit).run d = .ok () d' from h)
  rw [hf2] at e
  obtain rfl := content_unique hc hc₀ (hurl.trans hurl₀.symm)
  cases hc.symm.trans hc₀
  refine ⟨c', hc', ?_⟩
  rw [← updateContent_authorised_iff (t := now) hurl (hside hf2)]
  exact ⟨EditAuthorised.of_terms e, EditAuthorised.of_terms e.symm⟩

/-! ## 4. A side that is neither -/

section

attribute [local instance] sampleFc

/-- A content with two sides, of which the init miner manages both. -/
def sampleContent : Content where
  uploader := initMinerName
  url := "ipfs://a"
  albumMeta := ⟨false, "", [], 1, none, "", 0, "", "", 0, 0, 0, 0, none, none, "", ""⟩
  trackMeta := ⟨"a", "", [], none, none, none, 1, none, "", 1, 1, none, 60, false⟩
  compMeta := ⟨"a", none, none, true, [], [], ""⟩
  trackTitle := "a"
  distributionsMaster := [⟨initMinerName, 10000⟩]
  distributionsComp := [⟨initMinerName, 10000⟩]
  manageMaster := ⟨100, [(initMinerName, 100)], []⟩
  manageComp := ⟨100, [(initMinerName, 100)], []⟩

/-- An operation that makes a content with these payees and managers. -/
def sampleContentOp (distributions : List Distribution) (management : List ManagementVote) :
    ContentOp where
  uploader := initMinerName
  url := "ipfs://a"
  albumMeta := ⟨false, "a", [], 1, none, "", 0, "", "", 0, 0, 0, 0, none, none, "", ""⟩
  trackMeta := ⟨"a", "", [], none, none, none, 1, none, "", 1, 1, none, 60, false⟩
  compMeta := ⟨"a", none, none, false, [], [], ""⟩
  distributions := distributions
  management := management
  managementThreshold := 100
  managementComp := none
  distributionsComp := none
  managementThresholdComp := none

/-- The genesis with this content in it, after hardfork 2. -/
def sampleEdits : Database chainSchema :=
  ((do
    Action.modify (S := chainSchema) Kind.hardforkProperty 0 fun p : HardforkProperty =>
      { p with processedHardforks := [genesisTime, genesisTime, genesisTime] }
    let _ ← Action.create (S := chainSchema) Kind.content sampleContent
    pure () : Act 0 Unit).run (Node.genesis sampleGenesis).db).db

/-- All royalties of the other side go to an account that asked nobody. -/
def sneakyEdit (side : Nat) : ContentUpdateOp where
  side := side
  url := sampleContent.url
  albumMeta := none
  trackMeta := none
  compMeta := none
  newDistributions := [⟨minerAccount, 10000⟩]
  newManagement := []
  newThreshold := 0
  newPlayingReward := 0
  newPublishersShare := 0

theorem side_two_unauthorised :
    ∃ (d d' : Database chainSchema) (o : ContentUpdateOp) (i : Nat) (c c' : Content),
      d.store.passed hardfork02 = true ∧ o.side < 2 ^ 32 ∧ o.validate = .ok () ∧
      (applyOperation 0 0 (.contentUpdate o)).run d = .ok () d' ∧
      d.store.get Kind.content i = some c ∧ c.url = o.url ∧
      d'.store.get Kind.content i = some c' ∧ ¬EditAuthorised o c c' := by
  have hok : ((applyOperation 0 0 (.contentUpdate (sneakyEdit 2))).run sampleEdits).isOk = true := by
    decide +kernel
  obtain ⟨_, hrun⟩ := Outcome.exists_of_isOk hok
  have hc : (sampleEdits.store.get Kind.content 0).map (fun c : Content =>
      (c.url, c.compMeta.thirdPartyPublishers, c.distributionsComp)) =
        some (sampleContent.url, true, [⟨initMinerName, 10000⟩]) := by
    decide +kernel
  have hc' : (((applyOperation 0 0 (.contentUpdate (sneakyEdit 2))).run sampleEdits).db.store.get
      Kind.content 0).map (fun c : Content => c.distributionsComp) =
        some [⟨minerAccount, 10000⟩] := by
    decide +kernel
  obtain ⟨c, hc, e⟩ := Option.map_eq_some_iff.mp hc
  obtain ⟨c', hc', e'⟩ := Option.map_eq_some_iff.mp hc'
  simp only [Prod.mk.injEq] at e
  refine ⟨sampleEdits, _, sneakyEdit 2, 0, c, c', by decide +kernel, by decide, by decide +kernel,
    hrun, hc, e.1, hc', fun ha => ?_⟩
  have hreq := ha.comp e.2.1 (.inr (.inl (by rw [e', e.2.2]; decide)))
  exact absurd hreq (by simp [Operation.requiredCompContent, sneakyEdit, sidePublisher])

/-- The same edit with the side that the enumeration has. -/
theorem edit_authorised_iff_publisher : ∃ c' : Content,
    ((applyOperation 0 0 (.contentUpdate (sneakyEdit sidePublisher))).run
        sampleEdits).db.store.get Kind.content 0 = some c' ∧
      (EditAuthorised (sneakyEdit sidePublisher) sampleContent c' ↔
        EditCovered (sneakyEdit sidePublisher) sampleContent) := by
  obtain ⟨_, hrun⟩ := Outcome.exists_of_isOk (show
    ((applyOperation 0 0 (.contentUpdate (sneakyEdit sidePublisher))).run sampleEdits).isOk = true by
      decide +kernel)
  exact edit_authorised_iff 0 0 (sneakyEdit sidePublisher) sampleEdits _ 0 sampleContent
    (by decide +kernel) rfl rfl hrun

end

end MuseChain
