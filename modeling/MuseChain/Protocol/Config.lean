/-
  File:      MuseChain/Protocol/Config.lean
  Subject:   The constants of config.hpp, as the main chain sets them.

  Times and durations are in seconds. A constant keeps the words of its macro, without the
  leading `MUSE_`.
-/
import Mathlib.Data.Int.Notation

namespace MuseChain

/-! ## 1. Assets -/

def museSymbol : Nat := 0
def vestsSymbol : Nat := 1
def mbdSymbol : Nat := 2
def maxShareSupply : Int := 30000000000000
def minAssetSymbolLength : Nat := 3
def maxAssetSymbolLength : Nat := 8
def minAccountCreationFee : Int := 1
def minStreamingPlatformCreationFee : Int := 10000000
def activeChallengeFee : Int := 20000

/-! ## 2. Blocks and witnesses -/

def blockInterval : Nat := 3
def blocksPerDay : Nat := 28800
def blocksPerHour : Nat := 1200
def startVestingBlock : Nat := blocksPerDay
def startMinerVotingBlock : Nat := blocksPerDay
def genesisTime : Nat := 1458835200
def initMinerName : String := "initminer"
def maxVotedWitnesses : Nat := 20
def maxMiners : Nat := 21
def hardforkRequiredWitnesses : Nat := 17
def irreversibleThreshold : Nat := 5100
def maxUndoHistory : Nat := 10000
def minBlockSizeLimit : Nat := 65536
def maxBlockSize : Nat := 393216000
def maxTimeUntilExpiration : Nat := 3600

/-! ## 3. Accounts and votes -/

def proxyToSelfAccount : String := ""
def nullAccount : String := "null"
def minerAccount : String := "miners"
def tempAccount : String := "temp"
def minAccountNameLength : Nat := 3
def maxAccountNameLength : Nat := 16
def maxMemoSize : Nat := 2048
def maxUrlLength : Nat := 127
def maxWitnessUrlLength : Nat := 2048
def maxStreamingPlatformUrlLength : Nat := 2048
def maxProxyRecursionDepth : Nat := 4
def maxAccountWitnessVotes : Nat := 30
def maxVotedStreamingPlatforms : Nat := 10
def maxSigCheckDepth : Nat := 2
def ownerUpdateLimit : Nat := 3600
def ownerAuthRecoveryPeriod : Nat := 2592000
def accountRecoveryRequestExpirationPeriod : Nat := 86400
def activeChallengeCooldown : Nat := 86400
def minVoteIntervalSec : Nat := 3
def maxVoteChanges : Nat := 5
def vestingWithdrawIntervals : Nat := 13
def vestingWithdrawIntervalSeconds : Nat := 604800
def maxWithdrawRoutes : Nat := 10
def bandwidthAverageWindowSeconds : Nat := 604800
def bandwidthPrecision : Nat := 1000000
def maxReserveRatio : Nat := 20000

/-! ## 4. Rewards and prices -/

def percent100 : Nat := 10000
def defaultSbdInterestRate : Nat := 1000
def secondsPerYear : Nat := 31536000
def sbdInterestCompoundIntervalSec : Nat := 2592000
def miningReward : Int := 100
def aprPercentMultiplyPerBlock : Nat := 0x5ccce802de5f
def aprPercentShiftPerBlock : Nat := 87
def aprPercentMultiplyPerDay : Nat := 0x1347 <<< 20 ||| 0xdcd1 <<< 10 ||| 0x906D
def aprPercentShiftPerDay : Nat := 73
def aprPercentMultiplyPerBlock02 : Nat := 0x3e214e64a7380
def aprPercentShiftPerBlock02 : Nat := 91
def aprPercentMultiplyPerDay02 : Nat := 0x369c2966a19c8
def aprPercentShiftPerDay02 : Nat := 76
def contentAprPercent : Nat := 712
def contentAprPercent02 : Nat := 5000
def vestingArpPercent : Nat := 143
def vestingArpPercent02 : Nat := 3000
def producerAprPercent : Nat := 95
def producerAprPercent02 : Nat := 2000
def curateAprPercentReserve : Nat := 10
def feedIntervalBlocks : Nat := blocksPerHour
def feedHistoryWindow : Nat := 168
def maxFeedAge : Nat := 604800
def minFeeds : Nat := 1
def conversionDelay : Nat := 302400
def scoringPercentage1stLevel : Nat := 50
def scoringPercentage2stLevel : Nat := 10

/-! ## 5. Hardforks -/

def hardfork01 : Nat := 1
def hardfork02 : Nat := 2
def hardfork03 : Nat := 3
def numHardforks : Nat := 3

/-- The parts of `MUSE_BLOCKCHAIN_VERSION`. -/
def blockchainMajor : Nat := 0
def blockchainMinor : Nat := 3
def blockchainRevision : Nat := 2

/-- `_hardfork_times`. -/
def hardforkTimes : List Nat := [genesisTime, 1510617600, 1516203600, 1528383600]

/-- The minor numbers of `_hardfork_versions`; the major one is 0 in each. -/
def hardforkMinors : List Nat := [0, 1, 2, 3]

end MuseChain
