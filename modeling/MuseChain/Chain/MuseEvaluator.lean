/-
  File:      MuseChain/Chain/MuseEvaluator.lean
  Subject:   do_apply of the evaluators of muse_evaluator.cpp and asset_evaluator.cpp.
-/
import MuseChain.Chain.BaseEvaluator

namespace MuseChain

variable {n : Nat}

/-! ## 1. Sets of accounts -/

/-- `std::set::insert`. -/
def setInsert (x : Nat) (l : List Nat) : List Nat :=
  if x ∈ l then l else l.orderedInsert (· ≤ ·) x

def setInsertAll (xs l : List Nat) : List Nat := xs.foldl (fun l x => setInsert x l) l

/-- `m[ name ] = weight` of a `flat_map`. -/
def setAuth (name : String) (weight : Nat) : List (String × Nat) → List (String × Nat)
  | [] => [(name, weight)]
  | (k, w) :: rest =>
      if k = name then (name, weight) :: rest
      else if nameLt name k then (name, weight) :: (k, w) :: rest
      else (k, w) :: setAuth name weight rest

/-- The accounts of a management vote, each with its percentage. -/
def managementAuths (l : List ManagementVote) : List (String × Nat) :=
  l.foldl (fun m v => setAuth v.voter (u16 v.percentage) m) []

/-! ## 2. Streaming platforms -/

def streamingPlatformUpdate (owner url : String) (fee : Asset) : Act n Unit := do
  let acc ← getAccountId owner
  Action.require (url.utf8ByteSize ≤ maxStreamingPlatformUrlLength)
    "o.url.size() <= MUSE_MAX_STREAMING_PLATFORM_URL_LENGTH"
  let a ← getAccount acc
  let ge ← Action.lift (a.balance.ge fee)
  Action.require (ge = true)
    "Insufficient balance to update streaming platform: have ${c}, need ${f}"
  let platform ← findRow Kind.streamingPlatform fun p : StreamingPlatform => p.owner = owner
  match platform with
  | some (i, _) =>
      Action.modify (S := chainSchema) Kind.streamingPlatform i
        fun p : StreamingPlatform => { p with url := url }
  | none => do
      let wso ← getWitnessScheduleObject
      let ge ← Action.lift (fee.ge wso.medianProps.streamingPlatformUpdateFee)
      Action.require (ge = true) "Insufficient Fee: ${f} required, ${p} provided"
      let now ← headBlockTime
      let _ ← Action.create (S := chainSchema) Kind.streamingPlatform
        { owner := owner, url := url, created := now, votes := 0 : StreamingPlatform }
      payFee acc fee

/-- Whether a platform is among the first in the order by_vote_name. -/
def isVotedStreamingPlatform (owner : String) : Act n Bool :=
  Action.read fun s =>
    (((s.rows Kind.streamingPlatform).insertionSort
      fun a b : Nat × StreamingPlatform => b.2.votes < a.2.votes ∨
        (a.2.votes = b.2.votes ∧ nameLt b.2.owner a.2.owner = false)).take
          maxVotedStreamingPlatforms).any fun r : Nat × StreamingPlatform => r.2.owner = owner

def streamingPlatformReport (o : StreamingPlatformReportOp) : Act n Unit := do
  let consumer ← getAccountId o.consumer
  let c ← getAccount consumer
  Action.require (u64 (o.playTime + c.totalListeningTime) ≤ 86400)
    "User cannot cannot listen for more than 86400 seconds per day"
  let sp ← getRow Kind.streamingPlatform
    (fun p : StreamingPlatform => p.owner = o.streamingPlatform) "spitr != spidx.end()"
  let voted ← isVotedStreamingPlatform o.streamingPlatform
  Action.require (voted = true) "db().is_voted_streaming_platform( o.streaming_platform )"
  let content ← getContentId o.content
  let co ← getObject .content content
  Action.require (co.disabled = false) "!content.disabled"
  let now ← headBlockTime
  let playlistCreator ← if o.playlistCreator ≠ "" then do
      let p ← getAccountId o.playlistCreator
      pure (some p)
    else pure none
  let _ ← Action.create (S := chainSchema) Kind.report
    { consumer := consumer, streamingPlatform := sp, created := now, content := content,
      playTime := u32 o.playTime, playlistCreator := playlistCreator : Report }
  Action.modifyWith (S := chainSchema) Kind.account consumer
    (fun a : Account => .ok (u32 (a.totalListeningTime + o.playTime)))
    fun (a : Account) x => { a with totalListeningTime := x }
  Action.modifyWith (S := chainSchema) Kind.content content
    (fun c : Content => .ok (u64 (c.timesPlayed + 1), u32 (c.timesPlayed24 + 1)))
    fun (c : Content) x => { c with timesPlayed := x.1, timesPlayed24 := x.2 }

/-- `a.streaming_platforms_voted_for++` and `--`, on a `uint16_t`. -/
def bumpPlatformsVotedFor (acc : Nat) (delta : Nat) : Act n Unit :=
  Action.modifyWith (S := chainSchema) Kind.account acc
    (fun a : Account => .ok (u16 (a.streamingPlatformsVotedFor + delta)))
    fun (a : Account) x => { a with streamingPlatformsVotedFor := x }

def accountStreamingPlatformVote (account streamingPlatform : String) (approve : Bool) :
    Act n Unit := do
  let voter ← getAccountId account
  let v ← getAccount voter
  let sp ← getStreamingPlatformId streamingPlatform
  let vote ← findRow Kind.streamingPlatformVote fun r : StreamingPlatformVote =>
    r.account = voter ∧ r.streamingPlatform = sp
  match vote with
  | none => do
      Action.require (approve = true)
        "vote doesn't exist, user must be indicate a desire to approve the streaming_platform"
      Action.require (v.streamingPlatformsVotedFor < maxAccountWitnessVotes)
        "account has voted for too many streaming_platforms"
      let _ ← Action.create (S := chainSchema) Kind.streamingPlatformVote
        { streamingPlatform := sp, account := voter : StreamingPlatformVote }
      let weight ← Action.lift v.witnessVoteWeight
      adjustStreamingPlatformVote sp weight
      bumpPlatformsVotedFor voter 1
  | some (i, _) => do
      Action.require (approve = false)
        "vote currently exists, user must indicate a desire to reject the streaming_platform"
      let weight ← Action.lift v.witnessVoteWeight
      let neg ← Action.lift (safe (-weight))
      adjustStreamingPlatformVote sp neg
      bumpPlatformsVotedFor voter 65535
      Action.remove (S := chainSchema) Kind.streamingPlatformVote i

/-! ## 3. Friends -/

/-- The friends of `whose` learn of a friend of a friend. -/
def addSecondLevel (whose : List Nat) (who : Nat) : Act n Unit :=
  Action.forEach whose fun a3 => do
    let _ ← getAccount a3
    Action.modify (S := chainSchema) Kind.account a3
      fun a : Account => { a with secondLevel := setInsert who a.secondLevel }
    recalculateScore a3

/-- `friends.insert( whom )`, and the friends of `whom` as second level. Only one of the two had
the other waiting. -/
def befriend (who whom : Nat) (theirs : List Nat) : Act n Unit := do
  Action.modify (S := chainSchema) Kind.account who fun a : Account =>
    { a with
      waiting := a.waiting.erase whom
      friends := setInsert whom a.friends
      secondLevel := (setInsertAll theirs a.secondLevel).erase who }
  recalculateScore who

def friendship (who whom : String) : Act n Unit := do
  let i1 ← getAccountId who
  let i2 ← getAccountId whom
  let a1 ← getAccount i1
  let a2 ← getAccount i2
  if i2 ∈ a1.friends then pure ()
  else if i1 ∈ a2.waiting then pure ()
  else if i2 ∈ a1.waiting then do
    addSecondLevel a2.friends i1
    addSecondLevel a1.friends i2
    let a2 ← getAccount i2
    befriend i1 i2 a2.friends
    let a1 ← getAccount i1
    befriend i2 i1 a1.friends
  else
    Action.modify (S := chainSchema) Kind.account i2
      fun a : Account => { a with waiting := setInsert i1 a.waiting }

/-- The friends of the friends of an account, without itself. -/
def secondLevelOf (acc : Nat) : Act n (List Nat) := do
  let a ← getAccount acc
  let l ← Action.foldEach a.friends [] fun l fid => do
    let f ← getAccount fid
    pure (setInsertAll f.friends l)
  pure (l.erase acc)

def rebuildSecondLevel (acc : Nat) : Act n Unit := do
  let l ← secondLevelOf acc
  Action.modify (S := chainSchema) Kind.account acc
    fun a : Account => { a with secondLevel := l }

def dropFriend (who whom : Nat) : Act n Unit :=
  Action.modify (S := chainSchema) Kind.account who
    fun a : Account => { a with friends := a.friends.erase whom, secondLevel := [] }

def rebuildFriendsOf (acc : Nat) : Act n Unit := do
  let a ← getAccount acc
  Action.forEach a.friends fun f => do
    rebuildSecondLevel f
    recalculateScore f

def unfriend (who whom : String) : Act n Unit := do
  let i1 ← getAccountId who
  let i2 ← getAccountId whom
  let a1 ← getAccount i1
  let a2 ← getAccount i2
  if i1 ∈ a2.waiting then
    Action.modify (S := chainSchema) Kind.account i2
      fun a : Account => { a with waiting := a.waiting.erase i1 }
  else if i2 ∈ a1.waiting then
    Action.modify (S := chainSchema) Kind.account i1
      fun a : Account => { a with waiting := a.waiting.erase i2 }
  else if i1 ∈ a2.friends then do
    dropFriend i2 i1
    dropFriend i1 i2
    rebuildSecondLevel i1
    rebuildSecondLevel i2
    recalculateScore i1
    recalculateScore i2
    rebuildFriendsOf i1
    rebuildFriendsOf i2

/-! ## 4. Content -/

def checkTrackJson [Fc] (m : TrackMeta) : Act n Unit :=
  match m.jsonMetadata with
  | none => pure ()
  | some j => do
      Action.require (Fc.isUtf8 j = true) "JSON Metadata must be UTF-8-encoded!"
      checkJson j "JSON Metadata not valid JSON"

def checkAccounts (names : List String) : Act n Unit :=
  Action.forEach names fun name => do
    let _ ← getAccountId name
    pure ()

/-- The content that `content_evaluator` creates. -/
def newContent (o : ContentOp) (hf2 : Bool) (now : Nat) : Content :=
  let two := o.compMeta.thirdPartyPublishers
  { uploader := o.uploader
    url := o.url
    albumMeta := o.albumMeta
    trackMeta := o.trackMeta
    compMeta := o.compMeta
    trackTitle := o.trackMeta.trackTitle
    distributionsMaster := o.distributions
    manageMaster := ⟨o.managementThreshold, managementAuths o.management, []⟩
    manageComp :=
      if two then
        ⟨o.managementThresholdComp.getD 0, managementAuths (o.managementComp.getD []), []⟩
      else default
    distributionsComp := if two then o.distributionsComp.getD [] else []
    publishersShare := if hf2 then (if two then o.publishersShare else 0) else 5000
    accumulatedBalanceMaster := Asset.muse 0
    accumulatedBalanceComp := Asset.muse 0
    created := now
    lastUpdate := now
    lastPlayed := 0
    timesPlayed := 0
    playingReward := if hf2 then o.playingReward else 1000 }

def content [Fc] (o : ContentOp) : Act n Unit := do
  let old ← findRow Kind.content fun c : Content => c.url = o.url
  Action.require (old.isNone = true) "Content with given url already exists"
  let auth ← getAccountByName o.uploader
  Action.require ((auth.ownerChallenged || auth.activeChallenged) = false)
    "!(auth.owner_challenged || auth.active_challenged )"
  checkTrackJson o.trackMeta
  checkAccounts (o.distributions.map (·.payee))
  match o.distributionsComp with
  | some l => checkAccounts (l.map (·.payee))
  | none => pure ()
  checkAccounts (o.management.map (·.voter))
  if o.compMeta.thirdPartyPublishers then
    match o.managementComp, o.managementThresholdComp with
    | some l, some _ => checkAccounts (l.map (·.voter))
    | _, _ => Action.throw (.assert "o.management_comp && o.management_threshold_comp")
  let hf2 ← hasHardfork hardfork02
  let now ← headBlockTime
  let _ ← Action.create (S := chainSchema) Kind.content (newContent o hf2 now)
  pure ()

/-- What `content_update_evaluator` writes on the master side. -/
def updateMaster (o : ContentUpdateOp) (con : Content) : Content :=
  { con with
    albumMeta := o.albumMeta.getD con.albumMeta
    trackMeta := o.trackMeta.getD con.trackMeta
    trackTitle := match o.trackMeta with
      | some m => m.trackTitle
      | none => con.trackTitle
    compMeta := if con.compMeta.thirdPartyPublishers then con.compMeta
      else o.compMeta.getD con.compMeta
    distributionsMaster := if o.newDistributions ≠ [] then o.newDistributions
      else con.distributionsMaster
    manageMaster := if o.newManagement ≠ [] then
        { con.manageMaster with
          accountAuths := managementAuths o.newManagement, weightThreshold := o.newThreshold }
      else con.manageMaster }

/-- What it writes on the other side. -/
def updateComp (o : ContentUpdateOp) (con : Content) : Content :=
  { con with
    compMeta := o.compMeta.getD con.compMeta
    distributionsComp := if o.newDistributions ≠ [] then o.newDistributions
      else con.distributionsComp
    manageComp := if o.newManagement ≠ [] then
        { con.manageComp with
          accountAuths := managementAuths o.newManagement, weightThreshold := o.newThreshold }
      else con.manageComp }

/-- The callback of `content_update_evaluator`. -/
def updateContent (o : ContentUpdateOp) (hf2 : Bool) (now : Nat) (con : Content) : Content :=
  let thirdPartyFlag := con.compMeta.thirdPartyPublishers
  let c := if o.side = sideMaster then updateMaster o con else updateComp o con
  { c with
    compMeta := { c.compMeta with thirdPartyPublishers := thirdPartyFlag }
    playingReward := if hf2 && o.newPlayingReward = 0 then c.playingReward else o.newPlayingReward
    publishersShare := if hf2 && o.newPublishersShare = 0 then c.publishersShare
      else o.newPublishersShare
    lastUpdate := now }

theorem updateContent_url (o : ContentUpdateOp) (hf2 : Bool) (now : Nat) (con : Content) :
    (updateContent o hf2 now con).url = con.url := by
  unfold updateContent
  split
  · rfl
  · rfl

theorem updateContent_sameKey (o : ContentUpdateOp) (hf2 : Bool) (now : Nat) (con : Content) :
    chainSchema.SameKey Kind.content con (updateContent o hf2 now con) := by
  intro c
  show decide (con.url = (c : Content).url) = decide ((updateContent o hf2 now con).url = c.url)
  rw [updateContent_url]

def contentUpdate [Fc] (o : ContentUpdateOp) : Act n Unit := do
  let i ← getContentId o.url
  let co ← getObject .content i
  Action.require (co.disabled = false) "!content.disabled"
  let twoSides := co.compMeta.thirdPartyPublishers
  let hf2 ← hasHardfork hardfork02
  -- before the hardfork the test was the wrong way round
  if hf2 then
    Action.require (twoSides = true ∨ o.side = sideMaster)
      "Cannot edit composition side data when only one side has been defined"
  else
    Action.require (twoSides = false ∨ o.side = sideMaster)
      "Cannot edit composition side data when only one side has been defined"
  match o.trackMeta with
  | some m => checkTrackJson m
  | none => pure ()
  checkAccounts (o.newDistributions.map (·.payee))
  checkAccounts (o.newManagement.map (·.voter))
  let accumulated := if o.side = sideMaster then co.accumulatedBalanceMaster
    else co.accumulatedBalanceComp
  let now ← headBlockTime
  Action.modify (S := chainSchema) Kind.content i (updateContent o hf2 now)
    (updateContent_sameKey o hf2 now)
  if o.newDistributions ≠ [] ∧ 0 < accumulated.amount then
    if o.side = sideMaster then payToContentMaster i (Asset.muse 0)
    else payToContentComp i (Asset.muse 0)

def contentDisable (url : String) : Act n Unit := do
  let i ← getContentId url
  let co ← getObject .content i
  Action.require (co.disabled = false) "!content.disabled"
  Action.modify (S := chainSchema) Kind.content i fun c : Content => { c with disabled := true }

def contentApprove (approver url : String) : Act n Unit := do
  let i ← getContentId url
  let co ← getObject .content i
  Action.require (co.disabled = false) "!content.disabled"
  let appr ← getAccountId approver
  let _ ← Action.create (S := chainSchema) Kind.contentApprove
    { approver := appr, content := url : ContentApprove }
  pure ()

def vote (o : VoteOp) : Act n Unit := do
  let voter ← getAccountId o.voter
  let v ← getAccount voter
  Action.require ((v.ownerChallenged || v.activeChallenged) = false)
    "!(voter.owner_challenged || voter.active_challenged )"
  let now ← headBlockTime
  Action.require ((minVoteIntervalSec : Int) ≤ elapsed now v.lastVoteTime)
    "elapsed_seconds >= MUSE_MIN_VOTE_INTERVAL_SEC"
  Action.modify (S := chainSchema) Kind.account voter
    fun a : Account => { a with lastVoteTime := now }
  if o.url ≠ "" then do
    let i ← getContentId o.url
    let co ← getObject .content i
    Action.require (co.disabled = false) "!content.disabled"
    if 0 < o.weight then Action.require (co.allowVotes = true) "content.allow_votes"
    let old ← findRow Kind.contentVote fun r : ContentVote => r.content = i ∧ r.voter = voter
    match old with
    | some (j, cv) => do
        Action.require (cv.numChanges < maxVoteChanges) "Cannot change vote again"
        Action.require (cv.weight ≠ o.weight)
          "Changing your vote requires actually changing you vote."
        Action.modifyWith (S := chainSchema) Kind.contentVote j
          (fun cv : ContentVote => .ok (cv.numChanges + 1))
          fun (cv : ContentVote) x =>
            { cv with weight := o.weight, lastUpdate := now, numChanges := x }
    | none => do
        Action.require (o.weight ≠ 0) "Weight cannot be 0"
        let _ ← Action.create (S := chainSchema) Kind.contentVote
          { voter := voter, content := i, weight := o.weight, lastUpdate := now,
            numChanges := 0 : ContentVote }
        pure ()

/-! ## 5. Balances of the genesis -/

def balanceClaim [Fc] (o : BalanceClaimOp) : Act n Unit := do
  let b ← getObject .balance o.balanceToClaim
  let gettie ← getAccountId o.depositToAccount
  Action.require (b.owner ∈ Fc.addresses o.balanceOwnerKey)
    "Balance owner key was specified as '${op}' but balance's actual owner is '${bal}'"
  let le ← Action.lift (o.totalClaimed.le b.balance)
  Action.require (le = true) "op.total_claimed <= balance.balance"
  let lt ← Action.lift (o.totalClaimed.lt b.balance)
  if lt then do
    let now ← headBlockTime
    Action.modifyWith (S := chainSchema) Kind.balance o.balanceToClaim
      (fun b : Balance => b.balance.sub o.totalClaimed)
      fun (b : Balance) x => { b with balance := x, lastClaimDate := now }
  else Action.remove (S := chainSchema) Kind.balance o.balanceToClaim
  adjustBalance gettie o.totalClaimed

/-! ## 6. Assets -/

/-- `symbol.substr( 0, symbol.rfind( '.' ) )`, when there is a dot. -/
def symbolParent (symbol : String) : Option String :=
  let rest := symbol.toList.reverse.dropWhile (· ≠ '.')
  if rest.isEmpty then none else some (String.ofList rest.tail.reverse)

def findAsset (symbol : String) : Act n (Option (Nat × AssetObject)) :=
  findRow Kind.asset fun a : AssetObject => a.symbolString = symbol

/-- The asset of an id, by the index by_id. -/
def getAssetById (i : Nat) : Act n AssetObject := do
  let found ← Action.read fun s => s.get Kind.asset i
  match found with
  | some a => pure a
  | none => Action.throw (.assert "Asset with symbol id ${d} does not exist exist")

def assetCreate (o : AssetCreateOp) : Act n Unit := do
  let old ← findAsset o.symbol
  Action.require (old.isNone = true) "Asset with symbol ${s} already exist"
  let issuer ← getAccountId o.issuer
  match symbolParent o.symbol with
  | none => pure ()
  | some p => do
      let parent ← findAsset p
      match parent with
      | none => Action.throw (.assert
          "Asset ${s} may only be created by issuer of ${p}, but ${p} has not been registered")
      | some (_, a) =>
          Action.require (a.issuer = issuer) "Asset ${s} may only be created by issuer of ${p}"
  let _ ← Action.create (S := chainSchema) Kind.asset
    { issuer := issuer, symbolString := o.symbol, precision := o.precision,
      options := o.commonOptions, currentSupply := 0 : AssetObject }
  pure ()

def changeAssetSupply (i : Nat) (delta : Int) : Act n Unit :=
  Action.modifyWith (S := chainSchema) Kind.asset i
    (fun a : AssetObject => safe (a.currentSupply + delta))
    fun (a : AssetObject) x => { a with currentSupply := x }

def assetIssue (issuer : String) (assetToIssue : Asset) (issueToAccount : String) : Act n Unit := do
  let a ← getAssetById assetToIssue.assetId
  let issuerId ← getAccountId issuer
  Action.require (issuerId = a.issuer) "db().get_account(o.issuer).id == asset_symbol_itr -> issuer"
  let acc ← getAccountId issueToAccount
  let supply ← Action.lift (safe (a.currentSupply + assetToIssue.amount))
  Action.require (supply ≤ a.options.maxSupply)
    "(asset_symbol_itr -> current_supply + o.asset_to_issue.amount) <= asset_symbol_itr -> options.max_supply"
  adjustBalance acc assetToIssue
  changeAssetSupply assetToIssue.assetId assetToIssue.amount

def assetReserve (payer : String) (amountToReserve : Asset) : Act n Unit := do
  let _ ← getAssetById amountToReserve.assetId
  let acc ← getAccountId payer
  let neg ← Action.lift amountToReserve.neg
  adjustBalance acc neg
  changeAssetSupply amountToReserve.assetId (-amountToReserve.amount)

def disableForceSettle : Nat := 0x10
def globalSettle : Nat := 0x20

/-- `asset_object::validate`. -/
def AssetOptions.validateObject (o : AssetOptions) : Except Exn Unit := do
  check (o.flags &&& (disableForceSettle ||| globalSettle) = 0)
    "!(options.flags & disable_force_settle || options.flags & global_settle)"
  check (o.issuerPermissions &&& (disableForceSettle ||| globalSettle) = 0)
    "!(options.issuer_permissions & disable_force_settle || options.issuer_permissions & global_settle)"

/-- `a & ~b` of two `uint16_t`. -/
def bitsWithout (a b : Nat) : Nat := a &&& (0xffff ^^^ b)

def assetUpdate (o : AssetUpdateOp) : Act n Unit := do
  let a ← getAssetById o.assetToUpdate
  Action.lift o.newOptions.validateObject
  let newIssuer ← match o.newIssuer with
    | some i => do
        let i ← getAccountId i
        pure (some i)
    | none => pure none
  Action.require (bitsWithout o.newOptions.issuerPermissions a.options.issuerPermissions = 0)
    "Cannot reinstate previously revoked issuer permissions on an asset."
  Action.require
    (bitsWithout (o.newOptions.flags ^^^ a.options.flags) a.options.issuerPermissions = 0)
    "Flag change is forbidden by issuer permissions"
  let issuer ← getAccountId o.issuer
  Action.require (issuer = a.issuer) "d.get_account(o.issuer).id == a.issuer"
  Action.modify (S := chainSchema) Kind.asset o.assetToUpdate fun a : AssetObject =>
    { a with issuer := newIssuer.getD a.issuer, options := o.newOptions }

end MuseChain
