/-
  File:      MuseChain/Safety/Parts.lean
  Subject:   The parts of the chain's state, and programs that write to some of them only.

  * `Part`: the indexes, and of the objects with many fields the groups of fields that are written
    together.
  * `changes l`: the law that nothing but the parts `l` changes, and that new objects are blank
    outside of them.
  * `Composed l x`: the program `x` is put together from reads and from writes to the parts `l`.
    One walk over the program (Programs.lean) gives it for every function; what is said about all
    programs of this form then holds of each of them.
-/
import MuseChain.Safety.Lookups
import MuseChain.Db.Licence

namespace MuseChain

variable {n : Nat}

/-! ## 1. Groups of fields -/

/-- Two objects that agree but for the fields that may differ. -/
def SameBut {α F : Type} {V : F → Type} (view : (f : F) → α → V f) (may : F → Prop) (a b : α) :
    Prop := ∀ f, may f ∨ view f a = view f b

section

variable {α F : Type} {V : F → Type} {view : (f : F) → α → V f} {may may' : F → Prop}

theorem SameBut.refl (a : α) : SameBut view may a a := fun _ => .inr rfl

theorem SameBut.trans {a b c : α} (h : SameBut view may a b) (h' : SameBut view may b c) :
    SameBut view may a c := by
  intro f
  rcases h f with hf | e
  · exact .inl hf
  · exact (h' f).imp_right e.trans

theorem SameBut.mono (hm : ∀ f, may f → may' f) {a b : α} (h : SameBut view may a b) :
    SameBut view may' a b := fun f => (h f).imp_left (hm f)

end

inductive AccountField where
  | identity | owner | auths | challenges | recovery | voteTime | muse | mbd | vests | proxy
  | proxied | witnessCount | platformCount | withdrawal | routeCount | bandwidth | score | friends
  | listening
  deriving DecidableEq

abbrev AccountField.Value : AccountField → Type
  | .identity => String × Nat × Bool
  | .owner => Authority × Nat
  | .auths => Authority × Authority × PublicKey × String
  | .challenges => Bool × Bool × Nat × Nat
  | .recovery => String × Nat
  | .voteTime => Nat
  | .muse => Asset
  | .mbd => Asset × Nat × Nat × Nat
  | .vests => Asset
  | .proxy => String
  | .proxied => List Int
  | .witnessCount => Nat
  | .platformCount => Nat
  | .withdrawal => Asset × Nat × Int × Int
  | .routeCount => Nat
  | .bandwidth => Nat × Nat × Nat × Nat × Nat
  | .score => Nat
  | .friends => List Nat × List Nat × List Nat
  | .listening => Nat

@[simp] def Account.view : (f : AccountField) → Account → f.Value
  | .identity, a => (a.name, a.created, a.mined)
  | .owner, a => (a.owner, a.lastOwnerUpdate)
  | .auths, a => (a.active, a.basic, a.memoKey, a.jsonMetadata)
  | .challenges, a => (a.ownerChallenged, a.activeChallenged, a.lastOwnerProved, a.lastActiveProved)
  | .recovery, a => (a.recoveryAccount, a.lastAccountRecovery)
  | .voteTime, a => a.lastVoteTime
  | .muse, a => a.balance
  | .mbd, a => (a.mbdBalance, a.mbdSeconds, a.mbdSecondsLastUpdate, a.mbdLastInterestPayment)
  | .vests, a => a.vestingShares
  | .proxy, a => a.proxy
  | .proxied, a => a.proxiedVsfVotes
  | .witnessCount, a => a.witnessesVotedFor
  | .platformCount, a => a.streamingPlatformsVotedFor
  | .withdrawal, a => (a.vestingWithdrawRate, a.nextVestingWithdrawal, a.withdrawn, a.toWithdraw)
  | .routeCount, a => a.withdrawRoutes
  | .bandwidth, a => (a.averageBandwidth, a.lifetimeBandwidth, a.lastBandwidthUpdate,
      a.averageMarketBandwidth, a.lastMarketBandwidthUpdate)
  | .score, a => a.score
  | .friends, a => (a.friends, a.secondLevel, a.waiting)
  | .listening, a => a.totalListeningTime

inductive WitnessField where
  | identity | signing | missed | aslot | confirmed | feed | votes | virtual | version
  | hardforkVote
  deriving DecidableEq

abbrev WitnessField.Value : WitnessField → Type
  | .identity => String × Nat
  | .signing => String × PublicKey × ChainProperties
  | .missed => Nat
  | .aslot => Nat
  | .confirmed => Nat
  | .feed => Price × Nat
  | .votes => Int
  | .virtual => Nat × Nat × Nat
  | .version => Version
  | .hardforkVote => Version × Nat

@[simp] def Witness.view : (f : WitnessField) → Witness → f.Value
  | .identity, w => (w.owner, w.created)
  | .signing, w => (w.url, w.signingKey, w.props)
  | .missed, w => w.totalMissed
  | .aslot, w => w.lastAslot
  | .confirmed, w => w.lastConfirmedBlockNum
  | .feed, w => (w.mbdExchangeRate, w.lastMbdExchangeUpdate)
  | .votes, w => w.votes
  | .virtual, w => (w.virtualLastUpdate, w.virtualPosition, w.virtualScheduledTime)
  | .version, w => w.runningVersion
  | .hardforkVote, w => (w.hardforkVersionVote, w.hardforkTimeVote)

inductive PropsField where
  | identity | head | time | witness | supply | fund | shares | rate | blockSize | usage | slots
  | irreversible
  deriving DecidableEq

abbrev PropsField.Value : PropsField → Type
  | .identity => Nat
  | .head => Nat × BlockId
  | .time => Nat
  | .witness => String
  | .supply => Asset × Asset × Asset × Asset × Asset
  | .fund => Asset
  | .shares => Asset
  | .rate => Nat
  | .blockSize => Nat
  | .usage => Nat × Nat × Nat
  | .slots => Nat × Nat × Nat
  | .irreversible => Nat

@[simp] def DynamicGlobalProperty.view : (f : PropsField) → DynamicGlobalProperty → f.Value
  | .identity, p => p.maximumProposalLifetime
  | .head, p => (p.headBlockNumber, p.headBlockId)
  | .time, p => p.time
  | .witness, p => p.currentWitness
  | .supply, p => (p.virtualSupply, p.currentSupply, p.currentMbdSupply, p.totalRewardFundMuse,
      p.supplyDelta)
  | .fund, p => p.totalVestingFundMuse
  | .shares, p => p.totalVestingShares
  | .rate, p => p.mbdInterestRate
  | .blockSize, p => p.maximumBlockSize
  | .usage, p => (p.averageBlockSize, p.currentReserveRatio, p.maxVirtualBandwidth)
  | .slots, p => (p.currentAslot, p.recentSlotsFilled, p.participationCount)
  | .irreversible, p => p.lastIrreversibleBlockNum

inductive ContentField where
  | identity | accumulated | plays | disabled | terms
  deriving DecidableEq

/-- What a content update may change. -/
structure ContentTerms where
  albumMeta : AlbumMeta
  trackMeta : TrackMeta
  compMeta : CompMeta
  trackTitle : String
  lastUpdate : Nat
  distributionsMaster : List Distribution
  distributionsComp : List Distribution
  playingReward : Nat
  publishersShare : Nat
  manageMaster : Authority
  manageComp : Authority

abbrev ContentField.Value : ContentField → Type
  | .identity => String × String × Nat × Nat × Bool × Bool
  | .accumulated => Asset × Asset
  | .plays => Nat × Nat
  | .disabled => Bool
  | .terms => ContentTerms

@[simp] def Content.view : (f : ContentField) → Content → f.Value
  | .identity, c => (c.uploader, c.url, c.created, c.lastPlayed, c.curationRewards, c.allowVotes)
  | .accumulated, c => (c.accumulatedBalanceMaster, c.accumulatedBalanceComp)
  | .plays, c => (c.timesPlayed, c.timesPlayed24)
  | .disabled, c => c.disabled
  | .terms, c => ⟨c.albumMeta, c.trackMeta, c.compMeta, c.trackTitle, c.lastUpdate,
      c.distributionsMaster, c.distributionsComp, c.playingReward, c.publishersShare,
      c.manageMaster, c.manageComp⟩

inductive PlatformField where
  | identity | url | votes
  deriving DecidableEq

abbrev PlatformField.Value : PlatformField → Type
  | .identity => String × Nat
  | .url => String
  | .votes => Int

@[simp] def StreamingPlatform.view : (f : PlatformField) → StreamingPlatform → f.Value
  | .identity, p => (p.owner, p.created)
  | .url, p => p.url
  | .votes, p => p.votes

inductive AssetField where
  | identity | supply | options
  deriving DecidableEq

abbrev AssetField.Value : AssetField → Type
  | .identity => String × Nat
  | .supply => Int
  | .options => Nat × AssetOptions

@[simp] def AssetObject.view : (f : AssetField) → AssetObject → f.Value
  | .identity, a => (a.symbolString, a.precision)
  | .supply, a => a.currentSupply
  | .options, a => (a.issuer, a.options)

/-! ## 2. Parts -/

inductive Part where
  /-- New objects of an index. -/
  | made (k : Kind)
  /-- Objects taken out of an index. -/
  | gone (k : Kind)
  /-- Objects without groups of fields. -/
  | whole (k : Kind)
  | account (f : AccountField)
  | witness (f : WitnessField)
  | props (f : PropsField)
  | content (f : ContentField)
  | platform (f : PlatformField)
  | asset (f : AssetField)
  deriving DecidableEq

/-- Two objects that agree but for the parts `l`. -/
def Same (l : List Part) : (k : Kind) → k.Object → k.Object → Prop
  | .account => SameBut Account.view fun f => .account f ∈ l
  | .witness => SameBut Witness.view fun f => .witness f ∈ l
  | .dynamicGlobalProperty => SameBut DynamicGlobalProperty.view fun f => .props f ∈ l
  | .content => SameBut Content.view fun f => .content f ∈ l
  | .streamingPlatform => SameBut StreamingPlatform.view fun f => .platform f ∈ l
  | .asset => SameBut AssetObject.view fun f => .asset f ∈ l
  | k => fun a b => .whole k ∈ l ∨ a = b

theorem Same.refl (l : List Part) (k : Kind) (a : k.Object) : Same l k a a := by
  cases k with
  | account | witness | dynamicGlobalProperty | content | streamingPlatform | asset =>
    exact SameBut.refl a
  | _ => exact .inr rfl

theorem Same.trans {l : List Part} {k : Kind} {a b c : k.Object} (h : Same l k a b)
    (h' : Same l k b c) : Same l k a c := by
  cases k with
  | account | witness | dynamicGlobalProperty | content | streamingPlatform | asset =>
    exact SameBut.trans h h'
  | _ =>
    rcases h with h | e
    · exact .inl h
    · exact h'.imp_right e.trans

theorem Same.mono {l l' : List Part} (hl : l ⊆ l') {k : Kind} {a b : k.Object} (h : Same l k a b) :
    Same l' k a b := by
  cases k with
  | account | witness | dynamicGlobalProperty | content | streamingPlatform | asset =>
    exact SameBut.mono (fun _ hf => hl hf) h
  | _ => exact h.imp_left fun hf => hl hf

/-- What is true of every new object but those of the genesis. -/
def Blank : (k : Kind) → k.Object → Prop
  | .account => fun a : Account => a.balance = Asset.muse 0 ∧ a.mbdBalance = Asset.mbd 0 ∧
      a.vestingShares = Asset.vests 0 ∧ a.proxy = "" ∧ a.proxiedVsfVotes = [0, 0, 0, 0] ∧
      a.witnessesVotedFor = 0 ∧ a.streamingPlatformsVotedFor = 0 ∧
      a.vestingWithdrawRate = Asset.vests 0 ∧ a.toWithdraw = 0 ∧ a.withdrawn = 0 ∧
      a.nextVestingWithdrawal = timeMaximum ∧ a.withdrawRoutes = 0 ∧ a.score = 0 ∧
      a.friends = [] ∧ a.secondLevel = [] ∧ a.waiting = [] ∧ a.totalListeningTime = 0
  | .witness => fun w : Witness => w.votes = 0 ∧ w.lastConfirmedBlockNum = 0 ∧
      w.mbdExchangeRate = Price.null
  | .streamingPlatform => fun p : StreamingPlatform => p.votes = 0
  | .content => fun c : Content => c.accumulatedBalanceMaster = Asset.muse 0 ∧
      c.accumulatedBalanceComp = Asset.muse 0 ∧ c.timesPlayed24 = 0
  | .asset => fun a : AssetObject => a.currentSupply = 0
  | _ => fun _ => True

/-- **Nothing but the parts `l` changes.** Where objects come and go, an id may stand for another
object. -/
def changes (l : List Part) : Law chainSchema where
  rel k
    | none, none => True
    | none, some b => .made k ∈ l ∧ (.gone k ∈ l ∨ ∃ a, Blank k a ∧ Same l k a b)
    | some _, none => .gone k ∈ l
    | some a, some b => (.made k ∈ l ∧ .gone k ∈ l) ∨ Same l k a b
  refl k o := by
    cases o with
    | none => trivial
    | some a => exact .inr (Same.refl l k a)
  trans k o p q h h' := by
    rcases o with _ | a <;> rcases p with _ | b <;> rcases q with _ | c
    · trivial
    · exact h'
    · trivial
    · obtain ⟨hm, hg | ⟨a, ha, hab⟩⟩ := h
      · exact ⟨hm, .inl hg⟩
      · rcases h' with hl | hbc
        · exact ⟨hm, .inl hl.2⟩
        · exact ⟨hm, .inr ⟨a, ha, hab.trans hbc⟩⟩
    · exact h
    · exact .inl ⟨h'.1, h⟩
    · exact h'
    · rcases h with hl | hab
      · exact .inl hl
      · exact h'.imp_right hab.trans

theorem changes_mono {l l' : List Part} (hl : l ⊆ l') {k : Kind} {o p : Option k.Object}
    (h : (changes l).rel k o p) : (changes l').rel k o p := by
  rcases o with _ | a <;> rcases p with _ | b
  · trivial
  · exact ⟨hl h.1, h.2.imp (fun hg => hl hg) fun ⟨a, ha, hab⟩ => ⟨a, ha, hab.mono hl⟩⟩
  · exact hl h
  · exact h.imp (fun hl' => ⟨hl hl'.1, hl hl'.2⟩) fun hab => hab.mono hl

/-! ## 3. Programs -/

/-- A program that is put together from reads and from writes to the parts `l`. -/
inductive Composed (l : List Part) : {n : Nat} → {α : Type} → Act n α → Prop
  | looks {n : Nat} {α : Type} {x : Act n α} : Looks x → Composed l x
  | bind {n : Nat} {α β : Type} {x : Act n α} {f : α → Act n β} : Composed l x →
      (∀ a, Composed l (f a)) → Composed l (x >>= f)
  | modifyWith {n : Nat} {β : Type} {k : Kind} {i : Nat} {f : k.Object → Except Exn β}
      {upd : k.Object → β → k.Object} {hkey : ∀ a b, chainSchema.SameKey k a (upd a b)} :
      (∀ a b, f a = .ok b → Same l k a (upd a b)) →
      Composed l (Action.modifyWith (S := chainSchema) k i f upd hkey : Act n Unit)
  | modifyNested {n : Nat} {β : Type} {k : Kind} {i : Nat} {body : k.Object → Act n β}
      {upd : k.Object → β → k.Object} {hkey : ∀ a b, chainSchema.SameKey k a (upd a b)} :
      (∀ a, Composed l (body a)) → (∀ a b, Same l k a (upd a b)) →
      Composed l (Action.modifyNested (S := chainSchema) k i body upd hkey)
  | create {n : Nat} {k : Kind} {a : k.Object} : .made k ∈ l → Blank k a →
      Composed l (Action.create (S := chainSchema) k a : Act n Nat)
  | remove {n : Nat} {k : Kind} {i : Nat} : .gone k ∈ l →
      Composed l (Action.remove (S := chainSchema) k i : Act n Unit)

section

variable {l l' : List Part} {α β : Type}

/-- **What a program writes to is all that it changes.** -/
theorem Composed.steps {x : Act n α} (h : Composed l x) : Steps (Obeys (changes l)) x := by
  induction h with
  | looks h => exact h.steps
  | bind _ _ ihx ihf => exact steps_bind ihx ihf
  | modifyWith h =>
    refine ⟨fun {d _ d'} hr => ?_⟩
    obtain ⟨a, b, hg, hb, hf, e⟩ := modifyWith_store hr
    rw [e]
    exact obeys_write hf hg (.inr (h a b hb))
  | modifyNested _ hupd ih => exact steps_modifyNested ih fun a b => .inr (hupd a b)
  | create hm hb => exact steps_create ⟨hm, .inr ⟨_, hb, Same.refl ..⟩⟩
  | remove hg => exact steps_remove fun _ => hg

theorem Composed.mono (hl : l ⊆ l') {x : Act n α} (h : Composed l x) : Composed l' x := by
  induction h with
  | looks h => exact .looks h
  | bind _ _ ihx ihf => exact .bind ihx ihf
  | modifyWith h => exact .modifyWith fun a b hb => (h a b hb).mono hl
  | modifyNested _ hupd ih => exact .modifyNested ih fun a b => (hupd a b).mono hl
  | create hm hb => exact .create (hl hm) hb
  | remove hg => exact .remove (hl hg)

@[simp] theorem composed_of_looks {x : Act n α} (h : Looks x) : Composed l x := .looks h

@[simp] theorem composed_bind {x : Act n α} {f : α → Act n β} (hx : Composed l x)
    (hf : ∀ a, Composed l (f a)) : Composed l (x >>= f) := .bind hx hf

@[simp] theorem composed_ite {c : Prop} [Decidable c] {x y : Act n α} (hx : c → Composed l x)
    (hy : ¬c → Composed l y) : Composed l (if c then x else y) := by
  split
  · exact hx ‹_›
  · exact hy ‹_›

@[simp] theorem composed_forEach {xs : List β} {f : β → Act n Unit} (h : ∀ b, Composed l (f b)) :
    Composed l (Action.forEach xs f) := by
  induction xs with
  | nil => exact .looks (looks_pure ())
  | cons b xs ih => exact .bind (h b) fun _ => ih

@[simp] theorem composed_foldEach {xs : List β} {f : α → β → Act n α}
    (h : ∀ a b, Composed l (f a b)) (a : α) : Composed l (Action.foldEach xs a f) := by
  induction xs generalizing a with
  | nil => exact .looks (looks_pure a)
  | cons b xs ih => exact .bind (h a b) fun a => ih a

@[simp] theorem composed_modifyWith {k : Kind} {i : Nat} {f : k.Object → Except Exn β}
    {upd : k.Object → β → k.Object} {hkey : ∀ a b, chainSchema.SameKey k a (upd a b)}
    (h : ∀ a b, Same l k a (upd a b)) :
    Composed l (Action.modifyWith (S := chainSchema) k i f upd hkey : Act n Unit) :=
  .modifyWith fun a b _ => h a b

@[simp] theorem composed_modify {k : Kind} {i : Nat} {upd : k.Object → k.Object}
    {hkey : ∀ a, chainSchema.SameKey k a (upd a)} (h : ∀ a, Same l k a (upd a)) :
    Composed l (Action.modify (S := chainSchema) k i upd hkey : Act n Unit) :=
  .modifyWith fun a _ _ => h a

end

end MuseChain
