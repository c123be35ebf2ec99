/-
  File:      MuseChain/Protocol/Operations.lean
  Subject:   The operations of the static variant, their validate() and required authorities.

  * `Operation`: one constructor per operation, with the fields its evaluator or validate() reads.
    The virtual operations, which only tell observers what happened, are one constructor.
  * `Operation.validate`: validate() of each operation.
  * `requiredActive`, `requiredOwner`, `requiredBasic`, `requiredMasterContent`,
    `requiredCompContent`, `requiredOther`: what operation_get_required_authorities collects.
  Sets and maps of the source are lists; what the source takes from fc is the class `Fc`.
-/
import MuseChain.Protocol.Asset

namespace MuseChain

/-! ## 1. Keys, authorities, blocks -/

/-- A public key, as the number its bytes spell; `0` is the default key. -/
abbrev PublicKey : Type := Nat

/-- A digest, as the number its bytes spell. -/
abbrev Digest : Type := Nat

structure Authority where
  weightThreshold : Nat
  accountAuths : List (String × Nat)
  keyAuths : List (PublicKey × Nat)
  deriving DecidableEq, Inhabited

/-- A block id carries its block number in the first bytes. -/
structure BlockId where
  num : Nat
  hash : Digest
  deriving DecidableEq, Inhabited, Repr

/-- `version`; a `hardfork_version` has no revision. -/
structure Version where
  major : Nat
  minor : Nat
  revision : Nat := 0
  deriving DecidableEq, Inhabited

/-- `a < b` of the two numbers that hold the three parts. -/
def Version.lt (a b : Version) : Bool :=
  a.major < b.major || (a.major = b.major &&
    (a.minor < b.minor || (a.minor = b.minor && a.revision < b.revision)))

def Version.ge (a b : Version) : Bool := !a.lt b

/-- `block_header_extensions`. -/
inductive HeaderExtension where
  | void
  | version (v : Version)
  | hardforkVersionVote (v : Version) (time : Nat)
  deriving DecidableEq

structure SignedBlockHeader where
  previous : BlockId
  timestamp : Nat
  witness : String
  transactionMerkleRoot : Digest
  extensions : List HeaderExtension
  witnessSignature : Nat
  deriving DecidableEq

def SignedBlockHeader.blockNum (b : SignedBlockHeader) : Nat := u32 (b.previous.num + 1)

/-! ## 2. Parts of operations -/

structure Distribution where
  payee : String
  bp : Nat
  deriving DecidableEq

structure ManagementVote where
  voter : String
  percentage : Nat
  deriving DecidableEq

structure AlbumMeta where
  partOfAlbum : Bool
  albumTitle : String
  albumArtist : List String
  genre1 : Nat
  genre2 : Option Nat
  countryOfOrigin : String
  explicitFlag : Nat
  pLine : String
  cLine : String
  upcOrEan : Nat
  releaseDate : Nat
  releaseYear : Nat
  salesStartDate : Nat
  albumProducer : Option String
  albumType : Option String
  masterLabelName : String
  displayLabelName : String
  deriving DecidableEq

structure TrackArtist where
  artist : String
  aliases : Option (List String)
  isni : Option Nat
  deriving DecidableEq

structure TrackMeta where
  trackTitle : String
  isrc : String
  trackArtists : List TrackArtist
  featuredArtist : Option String
  featuredArtistIsni : Option Nat
  trackProducer : Option String
  genre1 : Nat
  genre2 : Option Nat
  pLine : String
  trackNo : Nat
  trackVolume : Nat
  jsonMetadata : Option String
  trackDuration : Nat
  samples : Bool
  deriving DecidableEq

structure Publisher where
  publisher : String
  ipiCae : Option String
  isni : Option Nat
  deriving DecidableEq

structure Writer where
  writer : String
  ipiCae : Option String
  isni : Option Nat
  role : Option Nat
  publisher : String
  deriving DecidableEq

structure CompMeta where
  compositionTitle : String
  alternateCompositionTitle : Option String
  iswc : Option String
  thirdPartyPublishers : Bool
  publishers : List Publisher
  writers : List Writer
  pro : String
  deriving DecidableEq

structure ChainProperties where
  accountCreationFee : Asset := Asset.muse minAccountCreationFee
  streamingPlatformUpdateFee : Asset := Asset.muse minStreamingPlatformCreationFee
  maximumBlockSize : Nat := minBlockSizeLimit * 2
  mbdInterestRate : Nat := defaultSbdInterestRate
  deriving DecidableEq

structure AssetOptions where
  maxSupply : Int := maxShareSupply
  marketFeePercent : Nat := 0
  maxMarketFee : Int := maxShareSupply
  issuerPermissions : Nat := 0x49
  flags : Nat := 0
  description : String := ""
  deriving DecidableEq

/-! ## 3. Operations -/

/-- The operations nobody can send. -/
inductive VirtualOp where
  | fillConvertRequest | playingReward | contentReward | curateReward | liquidityReward
  | interest | fillVestingWithdraw | fillOrder
  deriving DecidableEq

structure VoteOp where
  voter : String
  url : String
  weight : Int

structure ContentOp where
  uploader : String
  url : String
  albumMeta : AlbumMeta
  trackMeta : TrackMeta
  compMeta : CompMeta
  distributions : List Distribution
  management : List ManagementVote
  managementThreshold : Nat
  managementComp : Option (List ManagementVote)
  distributionsComp : Option (List Distribution)
  managementThresholdComp : Option Nat
  playingReward : Nat := 1000
  publishersShare : Nat := 5000

structure ContentUpdateOp where
  side : Nat
  url : String
  albumMeta : Option AlbumMeta
  trackMeta : Option TrackMeta
  compMeta : Option CompMeta
  newDistributions : List Distribution
  newManagement : List ManagementVote
  newThreshold : Nat
  newPlayingReward : Nat
  newPublishersShare : Nat

structure LimitOrderCreateOp where
  owner : String
  orderid : Nat
  amountToSell : Asset
  minToReceive : Asset
  fillOrKill : Bool
  expiration : Nat

structure LimitOrderCreate2Op where
  owner : String
  orderid : Nat
  amountToSell : Asset
  fillOrKill : Bool
  exchangeRate : Price
  expiration : Nat

structure AccountCreateOp where
  fee : Asset
  creator : String
  newAccountName : String
  owner : Authority
  active : Authority
  basic : Authority
  memoKey : PublicKey
  jsonMetadata : String

structure AccountUpdateOp where
  account : String
  owner : Option Authority
  active : Option Authority
  basic : Option Authority
  memoKey : PublicKey
  jsonMetadata : String

structure WitnessUpdateOp where
  owner : String
  url : String
  blockSigningKey : PublicKey
  props : ChainProperties
  fee : Asset

structure StreamingPlatformReportOp where
  streamingPlatform : String
  consumer : String
  content : String
  playTime : Nat
  playlistCreator : String

structure AssetCreateOp where
  issuer : String
  symbol : String
  precision : Nat
  commonOptions : AssetOptions

structure AssetUpdateOp where
  issuer : String
  assetToUpdate : Nat
  newIssuer : Option String
  newOptions : AssetOptions

structure EscrowTransferOp where
  sender : String
  receiver : String
  amount : Asset
  memo : String
  escrowId : Nat
  agent : String
  fee : Asset
  expiration : Nat

structure EscrowDisputeOp where
  sender : String
  receiver : String
  escrowId : Nat
  who : String

structure EscrowReleaseOp where
  sender : String
  receiver : String
  escrowId : Nat
  who : String
  amount : Asset

structure ProposalUpdateOp where
  proposal : Nat
  activeApprovalsToAdd : List String
  activeApprovalsToRemove : List String
  ownerApprovalsToAdd : List String
  ownerApprovalsToRemove : List String
  keyApprovalsToAdd : List PublicKey
  keyApprovalsToRemove : List PublicKey

structure BalanceClaimOp where
  depositToAccount : String
  balanceToClaim : Nat
  balanceOwnerKey : PublicKey
  totalClaimed : Asset

/-- `operation`. -/
inductive Operation where
  | vote (o : VoteOp)
  | content (o : ContentOp)
  | contentUpdate (o : ContentUpdateOp)
  | contentApprove (approver url : String)
  | contentDisable (url : String)
  | transfer (sender receiver : String) (amount : Asset) (memo : String)
  | transferToVesting (sender receiver : String) (amount : Asset)
  | withdrawVesting (account : String) (vestingShares : Asset)
  | limitOrderCreate (o : LimitOrderCreateOp)
  | limitOrderCreate2 (o : LimitOrderCreate2Op)
  | limitOrderCancel (owner : String) (orderid : Nat)
  | feedPublish (publisher : String) (exchangeRate : Price)
  | convert (owner : String) (requestid : Nat) (amount : Asset)
  | accountCreate (o : AccountCreateOp)
  | accountUpdate (o : AccountUpdateOp)
  | witnessUpdate (o : WitnessUpdateOp)
  | accountWitnessVote (account witness : String) (approve : Bool)
  | accountWitnessProxy (account proxy : String)
  | streamingPlatformUpdate (owner url : String) (fee : Asset)
  | accountStreamingPlatformVote (account streamingPlatform : String) (approve : Bool)
  | streamingPlatformReport (o : StreamingPlatformReportOp)
  | assetCreate (o : AssetCreateOp)
  | assetUpdate (o : AssetUpdateOp)
  | assetIssue (issuer : String) (assetToIssue : Asset) (issueToAccount : String)
  | assetReserve (issuer payer : String) (amountToReserve : Asset)
  | custom (requiredAuths : List String)
  | reportOverProduction (reporter : String) (firstBlock secondBlock : SignedBlockHeader)
  | customJson (requiredAuths requiredBasicAuths : List String) (id json : String)
  | setWithdrawVestingRoute (fromAccount toAccount : String) (percent : Nat) (autoVest : Bool)
  | challengeAuthority (challenger challenged : String) (requireOwner : Bool)
  | proveAuthority (challenged : String) (requireOwner : Bool)
  | requestAccountRecovery (recoveryAccount accountToRecover : String)
      (newOwnerAuthority : Authority)
  | recoverAccount (accountToRecover : String)
      (newOwnerAuthority recentOwnerAuthority : Authority)
  | changeRecoveryAccount (accountToRecover newRecoveryAccount : String)
  | escrowTransfer (o : EscrowTransferOp)
  | escrowDispute (o : EscrowDisputeOp)
  | escrowRelease (o : EscrowReleaseOp)
  | proposalCreate (proposedOps : List Operation) (expirationTime : Nat)
      (reviewPeriodSeconds : Option Nat)
  | proposalUpdate (o : ProposalUpdateOp)
  | proposalDelete (type : Nat) (proposal : Nat) (vetoer : String)
  | virtualOp (v : VirtualOp)
  | friendship (who whom : String)
  | unfriend (who whom : String)
  | balanceClaim (o : BalanceClaimOp)

/-- `signed_transaction`. -/
structure Transaction where
  refBlockNum : Nat
  refBlockPrefix : Nat
  expiration : Nat
  operations : List Operation
  signatures : List Nat

/-- `signed_block`. -/
structure SignedBlock extends SignedBlockHeader where
  transactions : List Transaction

/-- What the program takes from fc (hashes, signatures, encodings), and what C++ leaves open. -/
class Fc where
  isUtf8 : String → Bool
  jsonValid : String → Bool
  /-- `fc::json::is_valid( s, broken_nul_parser )`. -/
  jsonValidBrokenNul : String → Bool
  /-- The digest of a signed header, without the block number that the id puts in front. -/
  headerHash : SignedBlockHeader → Digest
  /-- The key recovered from a header's signature; nothing when it is malformed. -/
  signee : SignedBlockHeader → Option PublicKey
  trxId : Transaction → Digest
  /-- The keys recovered from the signatures; nothing when one is malformed. -/
  signatureKeys : Transaction → Option (List PublicKey)
  trxPackSize : Transaction → Nat
  blockPackSize : SignedBlock → Nat
  merkleDigest : Transaction → Digest
  hashPair : Digest → Digest → Digest
  /-- `fc::ripemd160::hash` of the root, as the header holds it. -/
  checksum : Digest → Digest
  /-- The bytes 4..8 of a block id, which a transaction refers to. -/
  idPrefix : BlockId → Nat
  /-- The addresses that a key can own a balance under. -/
  addresses : PublicKey → List Digest
  /-- The public key of a private key. -/
  publicKey : Nat → PublicKey
  /-- The signature of a header with a private key. -/
  sign : Nat → SignedBlockHeader → Nat
  /-- The order in which the elements of a `std::unordered_map` are walked through. -/
  walk : {α : Type} → List α → List α
  walk_perm : ∀ {α : Type} (l : List α), (walk l).Perm l

def SignedBlockHeader.id [Fc] (b : SignedBlockHeader) : BlockId := ⟨b.blockNum, Fc.headerHash b⟩

end MuseChain
