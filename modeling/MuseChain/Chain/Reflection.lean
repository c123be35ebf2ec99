/-
  File:      MuseChain/Chain/Reflection.lean
  Subject:   What the lists of FC_REFLECT keep of each object.

  An object that is unpacked is built with its defaults, and then the members of the list are
  read. So `reread` is what is left of an object after packing and unpacking it: the listed members
  in the order of the list, and the default of every other one. Members that are listed and that
  nothing reads are in no object here.
-/
import MuseChain.Db.Files
import MuseChain.Chain.Objects

namespace MuseChain

/-! ## 1. The lists -/

def Account.reread (o : Account) : Account :=
  { name := o.name, owner := o.owner, active := o.active, basic := o.basic, memoKey := o.memoKey,
    jsonMetadata := o.jsonMetadata, proxy := o.proxy, lastOwnerUpdate := o.lastOwnerUpdate,
    created := o.created, mined := o.mined, totalListeningTime := o.totalListeningTime,
    ownerChallenged := o.ownerChallenged, activeChallenged := o.activeChallenged,
    lastOwnerProved := o.lastOwnerProved, lastActiveProved := o.lastActiveProved,
    recoveryAccount := o.recoveryAccount, lastAccountRecovery := o.lastAccountRecovery,
    lastVoteTime := o.lastVoteTime, balance := o.balance, mbdBalance := o.mbdBalance,
    mbdSeconds := o.mbdSeconds, mbdSecondsLastUpdate := o.mbdSecondsLastUpdate,
    mbdLastInterestPayment := o.mbdLastInterestPayment, vestingShares := o.vestingShares,
    vestingWithdrawRate := o.vestingWithdrawRate,
    nextVestingWithdrawal := o.nextVestingWithdrawal, withdrawn := o.withdrawn,
    toWithdraw := o.toWithdraw, withdrawRoutes := o.withdrawRoutes, score := o.score,
    proxiedVsfVotes := o.proxiedVsfVotes, witnessesVotedFor := o.witnessesVotedFor,
    streamingPlatformsVotedFor := o.streamingPlatformsVotedFor,
    averageBandwidth := o.averageBandwidth, lifetimeBandwidth := o.lifetimeBandwidth,
    lastBandwidthUpdate := o.lastBandwidthUpdate,
    averageMarketBandwidth := o.averageMarketBandwidth,
    lastMarketBandwidthUpdate := o.lastMarketBandwidthUpdate, friends := o.friends,
    secondLevel := o.secondLevel, waiting := o.waiting }

def AccountBalance.reread (o : AccountBalance) : AccountBalance :=
  { owner := o.owner, assetType := o.assetType, balance := o.balance }

def OwnerAuthorityHistory.reread (o : OwnerAuthorityHistory) : OwnerAuthorityHistory :=
  { account := o.account, previousOwnerAuthority := o.previousOwnerAuthority,
    lastValidTime := o.lastValidTime }

def AccountRecoveryRequest.reread (o : AccountRecoveryRequest) : AccountRecoveryRequest :=
  { accountToRecover := o.accountToRecover, newOwnerAuthority := o.newOwnerAuthority,
    expires := o.expires }

def ChangeRecoveryAccountRequest.reread (o : ChangeRecoveryAccountRequest) :
    ChangeRecoveryAccountRequest :=
  { accountToRecover := o.accountToRecover, recoveryAccount := o.recoveryAccount,
    effectiveOn := o.effectiveOn }

def StreamingPlatform.reread (o : StreamingPlatform) : StreamingPlatform :=
  { owner := o.owner, created := o.created, url := o.url, votes := o.votes }

def StreamingPlatformVote.reread (o : StreamingPlatformVote) : StreamingPlatformVote :=
  { streamingPlatform := o.streamingPlatform, account := o.account }

def Report.reread (o : Report) : Report :=
  { streamingPlatform := o.streamingPlatform, consumer := o.consumer, content := o.content,
    created := o.created, playTime := o.playTime, playlistCreator := o.playlistCreator }

def Witness.reread (o : Witness) : Witness :=
  { owner := o.owner, created := o.created, url := o.url, votes := o.votes,
    virtualLastUpdate := o.virtualLastUpdate, virtualPosition := o.virtualPosition,
    virtualScheduledTime := o.virtualScheduledTime, totalMissed := o.totalMissed,
    lastAslot := o.lastAslot, lastConfirmedBlockNum := o.lastConfirmedBlockNum,
    signingKey := o.signingKey, props := o.props, mbdExchangeRate := o.mbdExchangeRate,
    lastMbdExchangeUpdate := o.lastMbdExchangeUpdate, runningVersion := o.runningVersion,
    hardforkVersionVote := o.hardforkVersionVote, hardforkTimeVote := o.hardforkTimeVote }

def WitnessVote.reread (o : WitnessVote) : WitnessVote :=
  { witness := o.witness, account := o.account }

def ConvertRequest.reread (o : ConvertRequest) : ConvertRequest :=
  { owner := o.owner, requestid := o.requestid, amount := o.amount,
    conversionDate := o.conversionDate }

def LimitOrder.reread (o : LimitOrder) : LimitOrder :=
  { created := o.created, expiration := o.expiration, seller := o.seller, orderid := o.orderid,
    forSale := o.forSale, sellPrice := o.sellPrice }

/-- The list lacks `track_title` and `disabled`. -/
def Content.reread (o : Content) : Content :=
  { albumMeta := o.albumMeta, trackMeta := o.trackMeta, compMeta := o.compMeta,
    uploader := o.uploader, url := o.url, accumulatedBalanceMaster := o.accumulatedBalanceMaster,
    accumulatedBalanceComp := o.accumulatedBalanceComp, lastUpdate := o.lastUpdate,
    created := o.created, lastPlayed := o.lastPlayed, timesPlayed := o.timesPlayed,
    timesPlayed24 := o.timesPlayed24, allowVotes := o.allowVotes,
    playingReward := o.playingReward, publishersShare := o.publishersShare,
    manageMaster := o.manageMaster, manageComp := o.manageComp,
    distributionsMaster := o.distributionsMaster, distributionsComp := o.distributionsComp,
    curationRewards := o.curationRewards, trackTitle := "", disabled := false }

def ContentApprove.reread (o : ContentApprove) : ContentApprove :=
  { approver := o.approver, content := o.content }

def ContentVote.reread (o : ContentVote) : ContentVote :=
  { voter := o.voter, content := o.content, weight := o.weight, numChanges := o.numChanges,
    lastUpdate := o.lastUpdate }

def TransactionObject.reread (o : TransactionObject) : TransactionObject :=
  { trx := o.trx, trxId := o.trxId }

/-- The list lacks `maximum_proposal_lifetime`. -/
def DynamicGlobalProperty.reread (o : DynamicGlobalProperty) : DynamicGlobalProperty :=
  { headBlockNumber := o.headBlockNumber, headBlockId := o.headBlockId, time := o.time,
    currentWitness := o.currentWitness, virtualSupply := o.virtualSupply,
    currentSupply := o.currentSupply, currentMbdSupply := o.currentMbdSupply,
    totalVestingFundMuse := o.totalVestingFundMuse, totalVestingShares := o.totalVestingShares,
    totalRewardFundMuse := o.totalRewardFundMuse, supplyDelta := o.supplyDelta,
    mbdInterestRate := o.mbdInterestRate, averageBlockSize := o.averageBlockSize,
    maximumBlockSize := o.maximumBlockSize, currentAslot := o.currentAslot,
    recentSlotsFilled := o.recentSlotsFilled, participationCount := o.participationCount,
    lastIrreversibleBlockNum := o.lastIrreversibleBlockNum,
    maxVirtualBandwidth := o.maxVirtualBandwidth, currentReserveRatio := o.currentReserveRatio,
    maximumProposalLifetime := 86400 }

def FeedHistory.reread (o : FeedHistory) : FeedHistory :=
  { currentMedianHistory := o.currentMedianHistory, priceHistory := o.priceHistory }

def BlockSummary.reread (o : BlockSummary) : BlockSummary :=
  { blockId := o.blockId }

def WitnessSchedule.reread (o : WitnessSchedule) : WitnessSchedule :=
  { currentVirtualTime := o.currentVirtualTime, nextShuffleBlockNum := o.nextShuffleBlockNum,
    currentShuffledWitnesses := o.currentShuffledWitnesses, medianProps := o.medianProps }

def HardforkProperty.reread (o : HardforkProperty) : HardforkProperty :=
  { processedHardforks := o.processedHardforks, lastHardfork := o.lastHardfork,
    currentHardforkVersion := o.currentHardforkVersion, nextHardfork := o.nextHardfork,
    nextHardforkTime := o.nextHardforkTime }

def WithdrawVestingRoute.reread (o : WithdrawVestingRoute) : WithdrawVestingRoute :=
  { fromAccount := o.fromAccount, toAccount := o.toAccount, percent := o.percent,
    autoVest := o.autoVest }

def AssetObject.reread (o : AssetObject) : AssetObject :=
  { currentSupply := o.currentSupply, symbolString := o.symbolString, precision := o.precision,
    issuer := o.issuer, options := o.options }

/-- The list lacks `can_veto`. -/
def Proposal.reread (o : Proposal) : Proposal :=
  { expirationTime := o.expirationTime, reviewPeriodTime := o.reviewPeriodTime,
    proposedTransaction := o.proposedTransaction,
    requiredActiveApprovals := o.requiredActiveApprovals,
    availableActiveApprovals := o.availableActiveApprovals,
    requiredOwnerApprovals := o.requiredOwnerApprovals,
    availableOwnerApprovals := o.availableOwnerApprovals,
    requiredBasicApprovals := o.requiredBasicApprovals,
    requiredMasterContentApprovals := o.requiredMasterContentApprovals,
    requiredCompContentApprovals := o.requiredCompContentApprovals,
    availableKeyApprovals := o.availableKeyApprovals, canVeto := [] }

def Balance.reread (o : Balance) : Balance :=
  { owner := o.owner, balance := o.balance, lastClaimDate := o.lastClaimDate }

/-- An object of any index, packed and unpacked. -/
def Kind.reread : (k : Kind) → k.Object → k.Object
  | .account => Account.reread
  | .accountBalance => AccountBalance.reread
  | .ownerAuthorityHistory => OwnerAuthorityHistory.reread
  | .accountRecoveryRequest => AccountRecoveryRequest.reread
  | .changeRecoveryAccountRequest => ChangeRecoveryAccountRequest.reread
  | .streamingPlatform => StreamingPlatform.reread
  | .streamingPlatformVote => StreamingPlatformVote.reread
  | .report => Report.reread
  | .witness => Witness.reread
  | .witnessVote => WitnessVote.reread
  | .convertRequest => ConvertRequest.reread
  | .limitOrder => LimitOrder.reread
  | .content => Content.reread
  | .contentApprove => ContentApprove.reread
  | .contentVote => ContentVote.reread
  | .transaction => TransactionObject.reread
  | .dynamicGlobalProperty => DynamicGlobalProperty.reread
  | .feedHistory => FeedHistory.reread
  | .blockSummary => BlockSummary.reread
  | .witnessSchedule => WitnessSchedule.reread
  | .hardforkProperty => HardforkProperty.reread
  | .withdrawVestingRoute => WithdrawVestingRoute.reread
  | .asset => AssetObject.reread
  | .proposal => Proposal.reread
  | .balance => Balance.reread

/-! ## 2. Keys -/

/-- Every key that an index wants unique is in the list. -/
theorem Kind.sameKey_reread (k : Kind) (a : k.Object) : chainSchema.SameKey k a (k.reread a) := by
  cases k with
  | _ => exact fun _ => rfl

/-- The database after `flush` and `open`. -/
def Store.reopened (s : Store chainSchema) : Store chainSchema :=
  Store.openFiles (S := chainSchema) Kind.reread s.flush

theorem Store.get_reopened (s : Store chainSchema) (k : Kind) (i : Nat) :
    s.reopened.get k i = (s.get k i).map k.reread :=
  Store.get_openFiles Kind.sameKey_reread s k i

theorem Store.nextId_reopened (s : Store chainSchema) (k : Kind) :
    s.reopened.nextId k = s.nextId k := Store.nextId_openFiles s k

end MuseChain
