/-
  File:      MuseChain/Protocol/Validate.lean
  Subject:   validate() of every operation, and the authorities it requires.
-/
import MuseChain.Protocol.Operations

namespace MuseChain

/-! ## 1. Names, urls, parts -/

/-- `FC_ASSERT` in a function that touches no database. -/
def check (c : Prop) [Decidable c] (msg : String) : Except Exn Unit :=
  if c then .ok () else .error (.assert msg)

theorem check_ok {c : Prop} [Decidable c] {msg : String} {u : Unit} :
    check c msg = .ok u ↔ c := by
  unfold check
  split
  · rename_i h
    simp [h]
  · rename_i h
    simp [h]

theorem check_bind_ok {c : Prop} [Decidable c] {msg : String} {α : Type} {f : Unit → Except Exn α}
    {a : α} : (check c msg >>= f) = .ok a ↔ c ∧ f () = .ok a := by
  unfold check
  split
  · rename_i h
    exact ⟨fun hf => ⟨h, hf⟩, fun hf => hf.2⟩
  · rename_i h
    exact ⟨fun hf => (by cases hf), fun hf => absurd hf.1 h⟩

def checkEach {α : Type} (f : α → Except Exn Unit) : List α → Except Exn Unit
  | [] => .ok ()
  | a :: l => do
      f a
      checkEach f l

def isLower (c : Char) : Bool := 'a' ≤ c && c ≤ 'z'

def isDigit (c : Char) : Bool := '0' ≤ c && c ≤ '9'

def isUpper (c : Char) : Bool := 'A' ≤ c && c ≤ 'Z'

/-- The labels between the dots. -/
def splitDots : List Char → List (List Char)
  | [] => [[]]
  | c :: cs =>
      if c = '.' then [] :: splitDots cs
      else
        match splitDots cs with
        | [] => [[c]]
        | l :: ls => (c :: l) :: ls

def isValidLabel (l : List Char) : Bool :=
  3 ≤ l.length &&
    (match l.head? with
      | some c => isLower c
      | none => false) &&
    (match l.getLast? with
      | some c => isLower c || isDigit c
      | none => false) &&
    (l.tail.dropLast).all fun c => isLower c || isDigit c || c = '-'

def isValidAccountName (name : String) : Bool :=
  minAccountNameLength ≤ name.utf8ByteSize && name.utf8ByteSize ≤ maxAccountNameLength &&
    (splitDots name.toList).all isValidLabel

def startsWith : List Char → List Char → Bool
  | [], _ => true
  | _ :: _, [] => false
  | c :: cs, d :: ds => c = d && startsWith cs ds

def validateUrl (url : String) : Except Exn Unit := do
  check (url.utf8ByteSize < maxUrlLength) "url.size() < MUSE_MAX_URL_LENGTH"
  check (startsWith "ipfs://".toList url.toList = true) "boost::starts_with( url, \"ipfs://\" )"

def Authority.validate (a : Authority) : Except Exn Unit :=
  checkEach (fun item => check (isValidAccountName item.1) "is_valid_account_name( item.first )")
    a.accountAuths

/-- `auth_weights < weight_threshold`, the weights summed as 64-bit numbers. -/
def Authority.isImpossible (a : Authority) : Bool :=
  u64 ((a.accountAuths.map (·.2)).sum + (a.keyAuths.map (·.2)).sum) < a.weightThreshold

section

variable [Fc]

def AlbumMeta.validateMeta (m : AlbumMeta) : Except Exn Unit := do
  check (0 < m.albumTitle.utf8ByteSize ∧ m.albumTitle.utf8ByteSize < 256)
    "Title larger than size limit"
  check (Fc.isUtf8 m.albumTitle = true) "Title not formatted in UTF8"

def TrackMeta.validateMeta (m : TrackMeta) : Except Exn Unit := do
  check (0 < m.trackTitle.utf8ByteSize ∧ m.trackTitle.utf8ByteSize < 256)
    "Title larger than size limit"
  check (Fc.isUtf8 m.trackTitle = true) "Title not formatted in UTF8"
  match m.jsonMetadata with
  | none => pure ()
  | some j => do
      check (Fc.isUtf8 j = true) "JSON metadata is not UTF8-encoded"
      check (Fc.jsonValid j = true) "JSON metadata is not valid JSON"

end

/-- The sum of 32-bit numbers as the loops compute it. -/
def sum32 (l : List Nat) : Nat := l.foldl (fun s x => u32 (s + x)) 0

def checkDistributions (l : List Distribution) : Except Exn Unit :=
  checkEach (fun d => check (isValidAccountName d.payee) "is_valid_account_name(d.payee)") l

def checkManagement (l : List ManagementVote) : Except Exn Unit := do
  checkEach (fun v => check (isValidAccountName v.voter) "is_valid_account_name(v.voter)") l
  check (sum32 (l.map (·.percentage)) = 100) "Total managing votes must equal 100"

def ChainProperties.validate (p : ChainProperties) : Except Exn Unit := do
  check (minAccountCreationFee ≤ p.accountCreationFee.amount)
    "account_creation_fee.amount >= MUSE_MIN_ACCOUNT_CREATION_FEE"
  check (minStreamingPlatformCreationFee ≤ p.streamingPlatformUpdateFee.amount)
    "streaming_platform_update_fee.amount >= MUSE_MIN_STREAMING_PLATFORM_CREATION_FEE"
  check (minBlockSizeLimit ≤ p.maximumBlockSize) "maximum_block_size >= MUSE_MIN_BLOCK_SIZE_LIMIT"
  check (p.mbdInterestRate ≤ percent100) "mbd_interest_rate <= MUSE_100_PERCENT"

def AssetOptions.validate (o : AssetOptions) : Except Exn Unit := do
  check (0 < o.maxSupply) "max_supply > 0"
  check (o.maxSupply ≤ maxShareSupply) "max_supply <= MUSE_MAX_SHARE_SUPPLY"
  check (o.marketFeePercent ≤ percent100) "market_fee_percent <= MUSE_100_PERCENT"
  check (0 ≤ o.maxMarketFee ∧ o.maxMarketFee ≤ maxShareSupply)
    "max_market_fee >= 0 && max_market_fee <= MUSE_MAX_SHARE_SUPPLY"
  check (o.issuerPermissions / 128 = 0) "!(issuer_permissions & ~ ASSET_ISSUER_PERMISSION_MASK)"

def isValidSymbolRest : List Char → Bool → Bool
  | [], _ => true
  | c :: cs, dot =>
      if isUpper c || isDigit c then isValidSymbolRest cs dot
      else if c = '.' then !dot && isValidSymbolRest cs true
      else false

def isValidSymbol (symbol : String) : Bool :=
  minAssetSymbolLength ≤ symbol.utf8ByteSize && symbol.utf8ByteSize ≤ maxAssetSymbolLength &&
    (match symbol.toList.head? with
      | some c => isLower c || isUpper c
      | none => false) &&
    (match symbol.toList.getLast? with
      | some c => isLower c || isUpper c
      | none => false) &&
    isValidSymbolRest symbol.toList false

/-! ## 2. validate() -/

section

variable [Fc]

def ContentOp.validate (o : ContentOp) : Except Exn Unit := do
  check (isValidAccountName o.uploader) "is_valid_account_name(uploader)"
  o.albumMeta.validateMeta
  o.trackMeta.validateMeta
  validateUrl o.url
  checkDistributions o.distributions
  let total := sum32 (o.distributions.map (·.bp))
  check (total = 0 ∨ total = 10000) "when distributions are set, the sum must match 10000 bp"
  checkManagement o.management
  if o.compMeta.thirdPartyPublishers then do
    match o.distributionsComp with
    | none => pure ()
    | some l => do
        checkDistributions l
        let total := sum32 (l.map (·.bp))
        check (total = 0 ∨ total = 10000) "when distributions are set, the sum must match 1000 bp"
    match o.managementComp, o.managementThresholdComp with
    | some l, some _ => checkManagement l
    | _, _ => .error (.assert "management_comp && management_threshold_comp")
  check (o.playingReward < 10000) "Split maximum is 10000 bp"
  check (o.publishersShare < 10000) "Split maximum is 10000 bp"

/-- `content_update_operation::side_t`. -/
def sideMaster : Nat := 0
def sidePublisher : Nat := 1

def ContentUpdateOp.validate (o : ContentUpdateOp) : Except Exn Unit := do
  validateUrl o.url
  if o.side = sidePublisher then do
    check (o.albumMeta = none) "publisher cannot edit master side info"
    check (o.trackMeta = none) "publisher cannot edit master side info"
  match o.albumMeta with
  | some m => m.validateMeta
  | none => pure ()
  match o.trackMeta with
  | some m => m.validateMeta
  | none => pure ()
  if o.newDistributions ≠ [] then do
    checkDistributions o.newDistributions
    check (sum32 (o.newDistributions.map (·.bp)) = 10000)
      "New distributions must sum to 10000 bp"
  if o.newManagement ≠ [] then checkManagement o.newManagement
  check (o.newPlayingReward < 10000) "Split maximum is 10000 bp"
  check (o.newPublishersShare < 10000) "Split maximum is 10000 bp"

def AccountCreateOp.validate (o : AccountCreateOp) : Except Exn Unit := do
  check (isValidAccountName o.newAccountName) "Invalid account name"
  check (o.fee.assetId = museSymbol) "Account creation fee must be MUSE"
  o.owner.validate
  o.active.validate
  if 0 < o.jsonMetadata.utf8ByteSize then
    check (Fc.isUtf8 o.jsonMetadata = true) "JSON Metadata not formatted in UTF8"
  let ge ← o.fee.ge (Asset.muse 0)
  check (ge = true) "fee >= asset( 0, MUSE_SYMBOL )"

def AccountUpdateOp.validate (o : AccountUpdateOp) : Except Exn Unit := do
  check (isValidAccountName o.account) "is_valid_account_name( account )"
  match o.owner with
  | some a => a.validate
  | none => pure ()
  match o.active with
  | some a => a.validate
  | none => pure ()
  if 0 < o.jsonMetadata.utf8ByteSize then
    check (Fc.isUtf8 o.jsonMetadata = true) "JSON Metadata not formatted in UTF8"

def WitnessUpdateOp.validate (o : WitnessUpdateOp) : Except Exn Unit := do
  check (isValidAccountName o.owner) "Owner account name invalid"
  check (0 < o.url.utf8ByteSize) "URL size must be greater than 0"
  check (Fc.isUtf8 o.url = true) "fc::is_utf8( url )"
  let ge ← o.fee.ge (Asset.muse 0)
  check (ge = true) "fee >= asset( 0, MUSE_SYMBOL )"
  o.props.validate

def LimitOrderCreateOp.validate (o : LimitOrderCreateOp) : Except Exn Unit := do
  check (isValidAccountName o.owner) "is_valid_account_name( owner )"
  check (o.amountToSell.assetId = mbdSymbol ∨ o.minToReceive.assetId = mbdSymbol)
    "is_asset_type( amount_to_sell, MBD_SYMBOL ) || is_asset_type( min_to_receive, MBD_SYMBOL )"
  check (o.minToReceive.assetId ≠ vestsSymbol ∧ o.amountToSell.assetId ≠ vestsSymbol)
    "!is_asset_type( min_to_receive, VESTS_SYMBOL ) && !is_asset_type( amount_to_sell, VESTS_SYMBOL )"
  let p ← Price.ofAssets o.amountToSell o.minToReceive
  p.validate

def LimitOrderCreate2Op.validate (o : LimitOrderCreate2Op) : Except Exn Unit := do
  check (isValidAccountName o.owner) "is_valid_account_name( owner )"
  check (o.amountToSell.assetId = o.exchangeRate.base.assetId)
    "amount_to_sell.asset_id == exchange_rate.base.asset_id"
  o.exchangeRate.validate
  check (o.exchangeRate.base.assetId = mbdSymbol ∨ o.exchangeRate.quote.assetId = mbdSymbol)
    "is_asset_type( exchange_rate.base, MBD_SYMBOL ) || is_asset_type( exchange_rate.quote, MBD_SYMBOL )"
  check (o.exchangeRate.base.assetId ≠ vestsSymbol ∧ o.exchangeRate.quote.assetId ≠ vestsSymbol)
    "!is_asset_type( exchange_rate.base, VESTS_SYMBOL ) && !is_asset_type( exchange_rate.quote, VESTS_SYMBOL )"
  let a ← o.amountToSell.mul o.exchangeRate
  check (0 < a.amount) "(amount_to_sell * exchange_rate).amount > 0"

def EscrowTransferOp.validate (o : EscrowTransferOp) : Except Exn Unit := do
  check (isValidAccountName o.sender) "is_valid_account_name( from )"
  check (isValidAccountName o.receiver) "is_valid_account_name( to )"
  check (isValidAccountName o.agent) "is_valid_account_name( agent )"
  check (0 ≤ o.fee.amount) "fee.amount >= 0"
  check (0 ≤ o.amount.amount) "amount.amount >= 0"
  check (o.sender ≠ o.agent ∧ o.receiver ≠ o.agent) "from != agent && to != agent"
  check (o.fee.assetId = o.amount.assetId) "fee.asset_id == amount.asset_id"
  check (o.amount.assetId ≠ vestsSymbol) "amount.asset_id != VESTS_SYMBOL"

def ProposalUpdateOp.validate (o : ProposalUpdateOp) : Except Exn Unit := do
  check (¬(o.activeApprovalsToAdd = [] ∧ o.activeApprovalsToRemove = [] ∧
      o.ownerApprovalsToAdd = [] ∧ o.ownerApprovalsToRemove = [] ∧
      o.keyApprovalsToAdd = [] ∧ o.keyApprovalsToRemove = []))
    "!(active_approvals_to_add.empty() && ... && key_approvals_to_remove.empty())"
  checkEach (fun a => check (a ∉ o.activeApprovalsToRemove)
    "Cannot add and remove approval at the same time.") o.activeApprovalsToAdd
  checkEach (fun a => check (a ∉ o.ownerApprovalsToRemove)
    "Cannot add and remove approval at the same time.") o.ownerApprovalsToAdd
  checkEach (fun a => check (a ∉ o.keyApprovalsToRemove)
    "Cannot add and remove approval at the same time.") o.keyApprovalsToAdd

def reportOverProductionValidate (reporter : String) (first second : SignedBlockHeader) :
    Except Exn Unit := do
  check (isValidAccountName reporter) "is_valid_account_name( reporter )"
  check (isValidAccountName first.witness) "is_valid_account_name( first_block.witness )"
  check (first.witness = second.witness) "first_block.witness == second_block.witness"
  check (first.timestamp = second.timestamp) "first_block.timestamp == second_block.timestamp"
  match Fc.signee first, Fc.signee second with
  | some a, some b => check (a = b) "first_block.signee() == second_block.signee()"
  | _, _ => .error (.assert "unable to reconstruct public key from signature")
  check (first.id ≠ second.id) "first_block.id() != second_block.id()"

/-- `proposal_delete_operation::authority_type`. -/
def typeOwner : Nat := 0
def typeActive : Nat := 1
def typeBasic : Nat := 2

mutual

/-- `operation_validate`. -/
def Operation.validate : Operation → Except Exn Unit
  | .vote o => do
      check (isValidAccountName o.voter) "Voter account name invalid"
      check (-(percent100 : Int) ≤ o.weight ∧ o.weight ≤ percent100)
        "Weight is not a MUSE percentage"
      validateUrl o.url
  | .content o => o.validate
  | .contentUpdate o => o.validate
  | .contentApprove approver url => do
      check (isValidAccountName approver) "is_valid_account_name(approver)"
      validateUrl url
  | .contentDisable url => validateUrl url
  | .transfer sender receiver amount memo => do
      check (isValidAccountName sender) "Invalid 'from' account name"
      check (isValidAccountName receiver) "Invalid 'to' account name"
      check (0 < amount.amount) "Cannot transfer a negative amount (aka: stealing)"
      check (memo.utf8ByteSize < maxMemoSize) "Memo is too large"
      check (Fc.isUtf8 memo = true) "Memo is not UTF8"
  | .transferToVesting sender receiver amount => do
      check (isValidAccountName sender) "From account name invalid"
      check (amount.assetId = museSymbol) "Amount must be MUSE"
      if receiver ≠ "" then check (isValidAccountName receiver) "To account name invalid"
      let gt ← amount.gt (Asset.muse 0)
      check (gt = true) "Must transfer a nonzero amount"
  | .withdrawVesting account vestingShares => do
      check (isValidAccountName account) "Account name invalid"
      check (vestingShares.assetId = vestsSymbol) "Amount must be VESTS"
  | .limitOrderCreate o => o.validate
  | .limitOrderCreate2 o => o.validate
  | .limitOrderCancel owner _ => check (isValidAccountName owner) "is_valid_account_name( owner )"
  | .feedPublish publisher exchangeRate => do
      check (isValidAccountName publisher) "is_valid_account_name( publisher )"
      check ((exchangeRate.base.assetId = museSymbol ∧ exchangeRate.quote.assetId = mbdSymbol) ∨
          (exchangeRate.base.assetId = mbdSymbol ∧ exchangeRate.quote.assetId = museSymbol))
        "is_asset_type( exchange_rate.base, MUSE_SYMBOL ) && is_asset_type( exchange_rate.quote, MBD_SYMBOL )"
      exchangeRate.validate
  | .convert owner _ amount => do
      check (isValidAccountName owner) "is_valid_account_name( owner )"
      check (amount.assetId = mbdSymbol) "is_asset_type( amount, MBD_SYMBOL )"
      check (0 < amount.amount) "amount.amount > 0"
  | .accountCreate o => o.validate
  | .accountUpdate o => o.validate
  | .witnessUpdate o => o.validate
  | .accountWitnessVote account witness _ => do
      check (isValidAccountName account) "Account ${a}"
      check (isValidAccountName witness) "is_valid_account_name( witness )"
  | .accountWitnessProxy account proxy => do
      check (isValidAccountName account) "is_valid_account_name( account )"
      if proxy ≠ "" then check (isValidAccountName proxy) "is_valid_account_name( proxy )"
      check (proxy ≠ account) "proxy != account"
  | .streamingPlatformUpdate owner url fee => do
      check (isValidAccountName owner) "Owner account name invalid"
      check (0 < url.utf8ByteSize) "URL size must be greater than 0"
      let ge ← fee.ge (Asset.muse minStreamingPlatformCreationFee)
      check (ge = true) "fee >= asset(MUSE_MIN_STREAMING_PLATFORM_CREATION_FEE, MUSE_SYMBOL)"
      check (Fc.isUtf8 url = true) "fc::is_utf8(url)"
  | .accountStreamingPlatformVote account streamingPlatform _ => do
      check (isValidAccountName account) "Account ${a}"
      check (isValidAccountName streamingPlatform) "is_valid_account_name(streaming_platform)"
  | .streamingPlatformReport o => do
      check (isValidAccountName o.streamingPlatform) "Invalid account"
      check (isValidAccountName o.consumer) "Invalid account"
      check (0 < o.playTime) "Reported time must be greater than 0"
      check (o.playTime ≤ 86400) "Reported time cannot exceed 1 day"
  | .assetCreate o => do
      check (isValidSymbol o.symbol) "is_valid_symbol(symbol)"
      o.commonOptions.validate
      check (o.precision ≤ 12) "precision <= 12"
  | .assetUpdate o => do
      match o.newIssuer with
      | some i => check (o.issuer ≠ i) "issuer != *new_issuer"
      | none => pure ()
      o.newOptions.validate
  | .assetIssue _ assetToIssue _ => do
      check (assetToIssue.amount ≤ maxShareSupply)
        "asset_to_issue.amount.value <= MUSE_MAX_SHARE_SUPPLY"
      check (0 < assetToIssue.amount) "asset_to_issue.amount.value > 0"
  | .assetReserve _ _ amountToReserve => do
      check (amountToReserve.amount ≤ maxShareSupply)
        "amount_to_reserve.amount.value <= MUSE_MAX_SHARE_SUPPLY"
      check (0 < amountToReserve.amount) "amount_to_reserve.amount.value > 0"
  | .custom requiredAuths => check (requiredAuths ≠ []) "at least on account must be specified"
  | .reportOverProduction reporter first second => reportOverProductionValidate reporter first second
  | .customJson requiredAuths requiredBasicAuths id json => do
      check (0 < requiredAuths.length + requiredBasicAuths.length)
        "at least on account must be specified"
      check (id.utf8ByteSize ≤ 32) "id.size() <= 32"
      check (Fc.isUtf8 json = true) "JSON Metadata not formatted in UTF8"
  | .setWithdrawVestingRoute fromAccount toAccount percent _ => do
      check (isValidAccountName fromAccount) "Account name invalid"
      check (isValidAccountName toAccount) "Account name invalid"
      check (percent ≤ percent100) "Percent must be valid muse percent"
  | .challengeAuthority challenger challenged _ => do
      check (isValidAccountName challenger) "challenger account name invalid"
      check (isValidAccountName challenged) "challenged account name invalid"
      check (challenged ≠ challenger) "challenged != challenger"
  | .proveAuthority challenged _ =>
      check (isValidAccountName challenged) "challenged account name invalid"
  | .requestAccountRecovery recoveryAccount accountToRecover newOwnerAuthority => do
      check (isValidAccountName recoveryAccount) "is_valid_account_name( recovery_account )"
      check (isValidAccountName accountToRecover) "is_valid_account_name( account_to_recover )"
      newOwnerAuthority.validate
  | .recoverAccount accountToRecover newOwnerAuthority recentOwnerAuthority => do
      check (isValidAccountName accountToRecover) "is_valid_account_name( account_to_recover )"
      check (newOwnerAuthority ≠ recentOwnerAuthority)
        "!( new_owner_authority == recent_owner_authority)"
      check (newOwnerAuthority.isImpossible = false) "!new_owner_authority.is_impossible()"
      check (recentOwnerAuthority.isImpossible = false) "!recent_owner_authority.is_impossible()"
      check (newOwnerAuthority.weightThreshold ≠ 0) "new_owner_authority.weight_threshold"
      newOwnerAuthority.validate
      recentOwnerAuthority.validate
  | .changeRecoveryAccount accountToRecover newRecoveryAccount => do
      check (isValidAccountName accountToRecover) "is_valid_account_name( account_to_recover )"
      check (isValidAccountName newRecoveryAccount) "is_valid_account_name( new_recovery_account )"
  | .escrowTransfer o => o.validate
  | .escrowDispute o => do
      check (isValidAccountName o.sender) "is_valid_account_name( from )"
      check (isValidAccountName o.receiver) "is_valid_account_name( to )"
      check (isValidAccountName o.who) "is_valid_account_name( who )"
      check (o.who = o.sender ∨ o.who = o.receiver) "who == from || who == to"
  | .escrowRelease o => do
      check (isValidAccountName o.sender) "is_valid_account_name( from )"
      check (isValidAccountName o.receiver) "is_valid_account_name( to )"
      check (isValidAccountName o.who) "is_valid_account_name( who )"
      check (0 < o.amount.amount) "amount.amount > 0"
      check (o.amount.assetId ≠ vestsSymbol) "amount.asset_id != VESTS_SYMBOL"
  | .proposalCreate proposedOps _ _ => do
      check (proposedOps.isEmpty = false) "!proposed_ops.empty()"
      validateOps proposedOps
  | .proposalUpdate o => o.validate
  | .proposalDelete type _ vetoer => do
      check (vetoer ≠ "") "!vetoer.empty()"
      check (type = typeActive ∨ type = typeOwner ∨ type = typeBasic) "Invalid authority type!"
  | .virtualOp _ => .error (.assert "this is a virtual operation")
  | .friendship who whom => do
      check (isValidAccountName who) "is_valid_account_name(who)"
      check (isValidAccountName whom) "is_valid_account_name(whom)"
  | .unfriend who whom => do
      check (isValidAccountName who) "is_valid_account_name(who)"
      check (isValidAccountName whom) "is_valid_account_name(whom)"
  | .balanceClaim o =>
      check (o.balanceOwnerKey ≠ 0) "balance_owner_key != public_key_type()"

def validateOps : List Operation → Except Exn Unit
  | [] => .ok ()
  | op :: ops => do
      op.validate
      validateOps ops

end

end

/-! ## 3. Required authorities -/

namespace Operation

def requiredActive : Operation → List String
  | .accountCreate o => [o.creator]
  | .accountUpdate o => if o.owner.isSome then [] else [o.account]
  | .challengeAuthority challenger _ _ => [challenger]
  | .proveAuthority challenged requireOwner => if requireOwner then [] else [challenged]
  | .transfer sender _ amount _ => if amount.assetId = vestsSymbol then [] else [sender]
  | .escrowTransfer o => [o.sender]
  | .escrowDispute o => [o.who]
  | .escrowRelease o => [o.who]
  | .transferToVesting sender _ _ => [sender]
  | .withdrawVesting account _ => [account]
  | .setWithdrawVestingRoute fromAccount _ _ _ => [fromAccount]
  | .witnessUpdate o => [o.owner]
  | .custom requiredAuths => requiredAuths
  | .customJson requiredAuths _ _ _ => requiredAuths
  | .feedPublish publisher _ => [publisher]
  | .convert owner _ _ => [owner]
  | .limitOrderCreate o => [o.owner]
  | .limitOrderCreate2 o => [o.owner]
  | .limitOrderCancel owner _ => [owner]
  | .requestAccountRecovery recoveryAccount _ _ => [recoveryAccount]
  | .content o => [o.uploader]
  | .streamingPlatformUpdate owner _ _ => [owner]
  | .streamingPlatformReport o => [o.streamingPlatform]
  | .assetCreate o => [o.issuer]
  | .assetUpdate o => [o.issuer]
  | .assetIssue issuer _ _ => [issuer]
  | .assetReserve issuer _ _ => [issuer]
  | .proposalUpdate o => o.activeApprovalsToAdd ++ o.activeApprovalsToRemove
  | .proposalDelete type _ vetoer => if type = typeActive then [vetoer] else []
  | _ => []

def requiredOwner : Operation → List String
  | .accountUpdate o => if o.owner.isSome then [o.account] else []
  | .proveAuthority challenged requireOwner => if requireOwner then [challenged] else []
  | .transfer sender _ amount _ => if amount.assetId = vestsSymbol then [sender] else []
  | .changeRecoveryAccount accountToRecover _ => [accountToRecover]
  | .proposalUpdate o => o.ownerApprovalsToAdd ++ o.ownerApprovalsToRemove
  | .proposalDelete type _ vetoer => if type = typeOwner then [vetoer] else []
  | _ => []

def requiredBasic : Operation → List String
  | .accountWitnessVote account _ _ => [account]
  | .accountWitnessProxy account _ => [account]
  | .customJson _ requiredBasicAuths _ _ => requiredBasicAuths
  | .contentApprove approver _ => [approver]
  | .friendship who _ => [who]
  | .unfriend who _ => [who]
  | .accountStreamingPlatformVote account _ _ => [account]
  | .vote o => [o.voter]
  | .proposalDelete type _ vetoer => if type = typeBasic then [vetoer] else []
  | _ => []

def requiredMasterContent : Operation → List String
  | .contentUpdate o =>
      if o.side = sideMaster ∨ o.newPlayingReward ≠ 0 ∨ o.newPublishersShare ≠ 0 then [o.url]
      else []
  | .contentDisable url => [url]
  | _ => []

def requiredCompContent : Operation → List String
  | .contentUpdate o =>
      if o.side = sidePublisher ∨ o.newPlayingReward ≠ 0 ∨ o.newPublishersShare ≠ 0 then [o.url]
      else []
  | _ => []

/-- `auth.key_auths[k] = 1` for each key: a map, so a key counts once. -/
def keyAuthority (keys : List PublicKey) : Authority :=
  { weightThreshold := keys.dedup.length, accountAuths := [],
    keyAuths := keys.dedup.map fun k => (k, 1) }

def requiredOther : Operation → List Authority
  | .recoverAccount _ newOwnerAuthority recentOwnerAuthority =>
      [newOwnerAuthority, recentOwnerAuthority]
  | .proposalUpdate o => [keyAuthority (o.keyApprovalsToAdd ++ o.keyApprovalsToRemove)]
  | .balanceClaim o => [⟨100, [], [(o.balanceOwnerKey, 100)]⟩]
  | _ => []

/-- `is_market_operation`. -/
def isMarket : Operation → Bool
  | .limitOrderCreate _ => true
  | .limitOrderCancel _ _ => true
  | .transfer _ _ _ _ => true
  | .transferToVesting _ _ _ => true
  | _ => false

/-- `is_proposal_operation`. -/
def isProposal : Operation → Bool
  | .proposalCreate _ _ _ => true
  | _ => false

end Operation

end MuseChain
