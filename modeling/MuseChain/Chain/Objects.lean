/-
  File:      MuseChain/Chain/Objects.lean
  Subject:   The objects of the chain's database, and the schema of its indexes.

  An object's id is its place in the index, so it is not a field of the object. Left out are
  fields that nothing reads or writes and the liquidity reward and escrow indexes, which stay empty.
-/
import MuseChain.Protocol.SignState

namespace MuseChain

/-! ## 1. Objects -/

def timeMaximum : Nat := 2 ^ 32 - 1

structure Account where
  name : String
  owner : Authority := default
  active : Authority := default
  basic : Authority := default
  memoKey : PublicKey := 0
  jsonMetadata : String := ""
  proxy : String := ""
  lastOwnerUpdate : Nat := 0
  created : Nat := 0
  mined : Bool := true
  ownerChallenged : Bool := false
  activeChallenged : Bool := false
  lastOwnerProved : Nat := 0
  lastActiveProved : Nat := 0
  recoveryAccount : String := ""
  lastAccountRecovery : Nat := 0
  score : Nat := 0
  totalListeningTime : Nat := 0
  lastVoteTime : Nat := 0
  balance : Asset := Asset.muse 0
  mbdBalance : Asset := Asset.mbd 0
  mbdSeconds : Nat := 0
  mbdSecondsLastUpdate : Nat := 0
  mbdLastInterestPayment : Nat := 0
  vestingShares : Asset := Asset.vests 0
  vestingWithdrawRate : Asset := Asset.vests 0
  nextVestingWithdrawal : Nat := timeMaximum
  withdrawn : Int := 0
  toWithdraw : Int := 0
  withdrawRoutes : Nat := 0
  proxiedVsfVotes : List Int := [0, 0, 0, 0]
  witnessesVotedFor : Nat := 0
  streamingPlatformsVotedFor : Nat := 0
  averageBandwidth : Nat := 0
  lifetimeBandwidth : Nat := 0
  lastBandwidthUpdate : Nat := 0
  averageMarketBandwidth : Nat := 0
  lastMarketBandwidthUpdate : Nat := 0
  friends : List Nat := []
  secondLevel : List Nat := []
  waiting : List Nat := []

structure AccountBalance where
  owner : Nat
  assetType : Nat
  balance : Int

structure OwnerAuthorityHistory where
  account : String
  previousOwnerAuthority : Authority
  lastValidTime : Nat

structure AccountRecoveryRequest where
  accountToRecover : String
  newOwnerAuthority : Authority
  expires : Nat

structure ChangeRecoveryAccountRequest where
  accountToRecover : String
  recoveryAccount : String
  effectiveOn : Nat

structure StreamingPlatform where
  owner : String
  created : Nat
  url : String
  votes : Int

structure StreamingPlatformVote where
  streamingPlatform : Nat
  account : Nat

structure Report where
  streamingPlatform : Nat
  consumer : Nat
  content : Nat
  created : Nat
  playTime : Nat
  playlistCreator : Option Nat

structure Witness where
  owner : String
  created : Nat := 0
  url : String := ""
  totalMissed : Nat := 0
  lastAslot : Nat := 0
  lastConfirmedBlockNum : Nat := 0
  signingKey : PublicKey := 0
  props : ChainProperties := {}
  mbdExchangeRate : Price := Price.null
  lastMbdExchangeUpdate : Nat := 0
  votes : Int := 0
  virtualLastUpdate : Nat := 0
  virtualPosition : Nat := 0
  virtualScheduledTime : Nat := 2 ^ 128 - 1
  runningVersion : Version := ⟨0, 0, 0⟩
  hardforkVersionVote : Version := ⟨0, 0, 0⟩
  hardforkTimeVote : Nat := genesisTime

structure WitnessVote where
  witness : Nat
  account : Nat

structure ConvertRequest where
  owner : String
  requestid : Nat
  amount : Asset
  conversionDate : Nat

structure LimitOrder where
  created : Nat
  expiration : Nat
  seller : String
  orderid : Nat
  forSale : Int
  sellPrice : Price

namespace LimitOrder

def amountForSale (o : LimitOrder) : Asset := ⟨o.forSale, o.sellPrice.base.assetId⟩

def amountToReceive (o : LimitOrder) : Except Exn Asset := o.amountForSale.mul o.sellPrice

end LimitOrder

structure Content where
  uploader : String
  url : String
  accumulatedBalanceMaster : Asset := Asset.muse 0
  accumulatedBalanceComp : Asset := Asset.muse 0
  albumMeta : AlbumMeta
  trackMeta : TrackMeta
  compMeta : CompMeta
  trackTitle : String
  lastUpdate : Nat := 0
  created : Nat := 0
  lastPlayed : Nat := 0
  distributionsMaster : List Distribution := []
  distributionsComp : List Distribution := []
  playingReward : Nat := 1000
  publishersShare : Nat := 5000
  manageMaster : Authority := default
  manageComp : Authority := default
  timesPlayed : Nat := 0
  timesPlayed24 : Nat := 0
  curationRewards : Bool := true
  allowVotes : Bool := true
  disabled : Bool := false

structure ContentApprove where
  content : String
  approver : Nat

structure ContentVote where
  voter : Nat
  content : Nat
  weight : Int
  numChanges : Nat
  lastUpdate : Nat

structure TransactionObject where
  trx : Transaction
  trxId : Digest

structure DynamicGlobalProperty where
  headBlockNumber : Nat := 0
  headBlockId : BlockId := ⟨0, 0⟩
  time : Nat := 0
  currentWitness : String := ""
  virtualSupply : Asset := Asset.muse 0
  currentSupply : Asset := Asset.muse 0
  currentMbdSupply : Asset := Asset.mbd 0
  totalVestingFundMuse : Asset := Asset.muse 0
  totalVestingShares : Asset := Asset.vests 0
  totalRewardFundMuse : Asset := Asset.muse 0
  supplyDelta : Asset := Asset.muse 0
  maximumProposalLifetime : Nat := 86400
  mbdInterestRate : Nat := 0
  averageBlockSize : Nat := 0
  maximumBlockSize : Nat := 0
  currentAslot : Nat := 0
  recentSlotsFilled : Nat := 0
  participationCount : Nat := 0
  lastIrreversibleBlockNum : Nat := 0
  maxVirtualBandwidth : Nat := 0
  currentReserveRatio : Nat := 1

def DynamicGlobalProperty.getVestingSharePrice (p : DynamicGlobalProperty) : Price :=
  if p.totalVestingFundMuse.amount = 0 ∨ p.totalVestingShares.amount = 0 then
    ⟨Asset.muse 1000, Asset.vests 1000000⟩
  else ⟨p.totalVestingShares, p.totalVestingFundMuse⟩

structure FeedHistory where
  currentMedianHistory : Price := Price.null
  priceHistory : List Price := []

structure BlockSummary where
  blockId : BlockId := ⟨0, 0⟩

structure WitnessSchedule where
  currentVirtualTime : Nat := 0
  nextShuffleBlockNum : Nat := 1
  currentShuffledWitnesses : List String := []
  medianProps : ChainProperties := {}

structure HardforkProperty where
  processedHardforks : List Nat := []
  lastHardfork : Nat := 0
  currentHardforkVersion : Version := ⟨0, 0, 0⟩
  nextHardfork : Version := ⟨0, 0, 0⟩
  nextHardforkTime : Nat := 0

structure WithdrawVestingRoute where
  fromAccount : Nat
  toAccount : Nat
  percent : Nat
  autoVest : Bool

structure AssetObject where
  currentSupply : Int
  symbolString : String
  precision : Nat
  issuer : Nat
  options : AssetOptions

structure Proposal where
  expirationTime : Nat
  reviewPeriodTime : Option Nat
  proposedTransaction : Transaction
  requiredActiveApprovals : List String
  availableActiveApprovals : List String
  requiredOwnerApprovals : List String
  availableOwnerApprovals : List String
  requiredBasicApprovals : List String
  requiredMasterContentApprovals : List String
  requiredCompContentApprovals : List String
  availableKeyApprovals : List PublicKey
  canVeto : List String

structure Balance where
  owner : Digest
  balance : Asset
  lastClaimDate : Nat

/-! ## 2. The indexes -/

inductive Kind where
  | account | accountBalance | ownerAuthorityHistory | accountRecoveryRequest
  | changeRecoveryAccountRequest | streamingPlatform | streamingPlatformVote | report | witness
  | witnessVote | convertRequest | limitOrder | content | contentApprove | contentVote
  | transaction | dynamicGlobalProperty | feedHistory | blockSummary | witnessSchedule
  | hardforkProperty | withdrawVestingRoute | asset | proposal | balance
  deriving DecidableEq

namespace Kind

def all : List Kind :=
  [.account, .accountBalance, .ownerAuthorityHistory, .accountRecoveryRequest,
    .changeRecoveryAccountRequest, .streamingPlatform, .streamingPlatformVote, .report, .witness,
    .witnessVote, .convertRequest, .limitOrder, .content, .contentApprove, .contentVote,
    .transaction, .dynamicGlobalProperty, .feedHistory, .blockSummary, .witnessSchedule,
    .hardforkProperty, .withdrawVestingRoute, .asset, .proposal, .balance]

/-- The type of an index's objects. -/
abbrev Object : Kind → Type
  | account => Account
  | accountBalance => AccountBalance
  | ownerAuthorityHistory => OwnerAuthorityHistory
  | accountRecoveryRequest => AccountRecoveryRequest
  | changeRecoveryAccountRequest => ChangeRecoveryAccountRequest
  | streamingPlatform => StreamingPlatform
  | streamingPlatformVote => StreamingPlatformVote
  | report => Report
  | witness => Witness
  | witnessVote => WitnessVote
  | convertRequest => ConvertRequest
  | limitOrder => LimitOrder
  | content => Content
  | contentApprove => ContentApprove
  | contentVote => ContentVote
  | transaction => TransactionObject
  | dynamicGlobalProperty => DynamicGlobalProperty
  | feedHistory => FeedHistory
  | blockSummary => BlockSummary
  | witnessSchedule => WitnessSchedule
  | hardforkProperty => HardforkProperty
  | withdrawVestingRoute => WithdrawVestingRoute
  | asset => AssetObject
  | proposal => Proposal
  | balance => Balance

/-- The unique keys besides the id. A key that has the id in it is unique by itself. -/
def unique : (k : Kind) → Option (Object k → Object k → Bool)
  | account => some fun a b : Account => decide (a.name = b.name)
  | accountBalance => some fun a b : AccountBalance =>
      decide (a.owner = b.owner) && decide (a.assetType = b.assetType)
  | streamingPlatform => some fun a b : StreamingPlatform => decide (a.owner = b.owner)
  | streamingPlatformVote => some fun a b : StreamingPlatformVote =>
      decide (a.account = b.account) && decide (a.streamingPlatform = b.streamingPlatform)
  | witness => some fun a b : Witness => decide (a.owner = b.owner)
  | witnessVote => some fun a b : WitnessVote =>
      decide (a.account = b.account) && decide (a.witness = b.witness)
  | convertRequest => some fun a b : ConvertRequest =>
      decide (a.owner = b.owner) && decide (a.requestid = b.requestid)
  | limitOrder => some fun a b : LimitOrder =>
      decide (a.seller = b.seller) && decide (a.orderid = b.orderid)
  | content => some fun a b : Content => decide (a.url = b.url)
  | contentApprove => some fun a b : ContentApprove =>
      decide (a.content = b.content) || decide (a.approver = b.approver)
  | contentVote => some fun a b : ContentVote =>
      decide (a.content = b.content) && decide (a.voter = b.voter)
  | transaction => some fun a b : TransactionObject => decide (a.trxId = b.trxId)
  | withdrawVestingRoute => some fun a b : WithdrawVestingRoute =>
      decide (a.fromAccount = b.fromAccount) && decide (a.toAccount = b.toAccount)
  | asset => some fun a b : AssetObject => decide (a.symbolString = b.symbolString)
  | _ => none

theorem decide_eq_comm {α : Type} [DecidableEq α] (a b : α) : decide (a = b) = decide (b = a) := by
  rw [decide_eq_decide]
  exact eq_comm

theorem unique_comm (k : Kind) (c : Object k → Object k → Bool) (h : unique k = some c)
    (a b : Object k) : c a b = c b a := by
  cases k with
  | account | streamingPlatform | witness | content | transaction | asset =>
    cases h
    exact decide_eq_comm _ _
  | accountBalance | streamingPlatformVote | witnessVote | convertRequest | limitOrder
  | contentVote | withdrawVestingRoute | contentApprove =>
    cases h
    simp only [decide_eq_comm]
  | _ => cases h

/-- The indexes over a multi_index_container; the others are vectors. -/
def isMultiIndex : Kind → Bool
  | dynamicGlobalProperty | feedHistory | blockSummary | witnessSchedule | hardforkProperty => false
  | _ => true

end Kind

/-- The indexes that `initialize_indexes` adds. -/
abbrev chainSchema : Schema where
  Kind := Kind
  decKind := inferInstance
  kinds := Kind.all
  mem_kinds k := by cases k <;> decide
  nodup_kinds := by decide
  Obj := Kind.Object
  uniqueKey := Kind.unique
  uniqueKey_comm := Kind.unique_comm
  erases := Kind.isMultiIndex

/-- A program on the chain's database. -/
abbrev Act (n : Nat) (α : Type) : Type := Action chainSchema n α

end MuseChain
