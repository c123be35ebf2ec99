/-
  File:      MuseChain/Chain/Proposals.lean
  Subject:   Proposals, and apply_operation, which they run.

  * `applyOperation`: the evaluator of every operation.
  * `pushProposal`: a proposal's operations in a session of their own. One of them may approve and
    so execute another proposal; `n` is how deep that may go. The program has no such bound: it
    runs out of stack, which is a crash here.
-/
import MuseChain.Chain.MuseEvaluator

namespace MuseChain

variable {n : Nat}

/-! ## 1. Authorities of the database -/

/-- The first object of an index that `p` holds of, for one of its fields. -/
def lookup {α : Type} (s : Store chainSchema) (k : Kind) (p : k.Object → Bool)
    (field : k.Object → α) (msg : String) : Except Exn α :=
  match (s.rows k).find? fun r => p r.2 with
  | some r => .ok (field r.2)
  | none => .error (.assert msg)

def gettersOf (s : Store chainSchema) : Getters where
  active name := lookup s .account (fun a : Account => a.name = name) (fun a : Account => a.active)
    "Unable to find account '${acct}'. Did you forget to add a record for it?"
  owner name := lookup s .account (fun a : Account => a.name = name) (fun a : Account => a.owner)
    "Unable to find account '${acct}'. Did you forget to add a record for it?"
  basic name := lookup s .account (fun a : Account => a.name = name) (fun a : Account => a.basic)
    "Unable to find account '${acct}'. Did you forget to add a record for it?"
  masterContent url := lookup s .content (fun c : Content => c.url = url)
    (fun c : Content => c.manageMaster) "itr != by_url_idx.end()"
  compContent url := lookup s .content (fun c : Content => c.url = url)
    (fun c : Content => c.manageComp) "itr != by_url_idx.end()"

def Proposal.isAuthorizedToExecute (p : Proposal) : Act n Bool := do
  let hf3 ← hasHardfork hardfork03
  Action.read fun s =>
    -- nothing ever adds to `available_basic_approvals`
    let approvals : Approvals := ⟨p.availableActiveApprovals, p.availableOwnerApprovals, []⟩
    let ops := p.proposedTransaction.operations
    let keys := p.availableKeyApprovals
    (if hf3 then verifyAuthorityV2 ops keys (gettersOf s) true maxSigCheckDepth approvals
      else verifyAuthorityV1 ops keys (gettersOf s) maxSigCheckDepth approvals).isOk

/-! ## 2. Creating and deleting -/

mutual

/-- `proposal_op_visitor`. -/
def visitProposed (hf3 : Bool) : Operation → Except Exn Unit
  | .accountCreate o => if hf3 then o.basic.validate else .ok ()
  | .accountUpdate o =>
      match hf3, o.basic with
      | true, some b => b.validate
      | _, _ => .ok ()
  | .proposalDelete _ _ _ => check (hf3 = true) "Not allowed until hardfork 3"
  | .proposalCreate ops _ _ => visitProposedOps hf3 ops
  | _ => .ok ()

def visitProposedOps (hf3 : Bool) : List Operation → Except Exn Unit
  | [] => .ok ()
  | op :: ops => do
      visitProposed hf3 op
      visitProposedOps hf3 ops

end

/-- `authority_collector::collect`, with `left` levels below the last. -/
def collectAuthority : Nat → Authority → List String → Act n (List String)
  | left, auth, dest =>
      Action.foldEach auth.accountAuths dest fun dest a => do
        let parent ← getAccountByName a.1
        let dest := if parent.active.keyAuths ≠ [] then nameInsert a.1 dest else dest
        match left with
        | 0 => pure dest
        | left + 1 => collectAuthority left parent.active dest

/-- The accounts behind a list of contents. -/
def collectContents (side : Content → Authority) (urls : List String) (dest : List String) :
    Act n (List String) :=
  Action.foldEach urls dest fun dest url => do
    let i ← getContentId url
    let co ← getObject .content i
    collectAuthority maxSigCheckDepth (side co) dest

section

variable [Fc]

def proposalCreate (proposedOps : List Operation) (expirationTime : Nat)
    (reviewPeriodSeconds : Option Nat) : Act n Unit := do
  let hf3 ← hasHardfork hardfork03
  Action.lift (visitProposedOps hf3 proposedOps)
  let props ← getDynamicGlobalProperties
  let now := props.time
  Action.require (now < expirationTime) "Proposal has already expired on creation."
  Action.require (expirationTime ≤ u32 (now + props.maximumProposalLifetime))
    "Proposal expiration time is too far in the future."
  Action.require
    ((reviewPeriodSeconds.all fun r => decide ((r : Int) < elapsed expirationTime now)) = true)
    "Proposal review period must be less than its overall lifetime."
  Action.require ((proposedOps.all fun op => !op.isProposal) = true) "Cannot propose a proposal"
  Action.require (proposedOps.isEmpty = false) "A transaction must have at least one operation"
  Action.lift (validateOps proposedOps)
  let r := requiredAuthorities proposedOps
  let canVeto := nameSet (r.active ++ r.owner ++ r.basic)
  let (requiredActive, requiredBasic) ← if hf3 then do
      let basic := r.basic.filter fun id => decide (id ∉ r.active) && decide (id ∉ r.owner)
      Action.require (basic = [] ∨ (r.active = [] ∧ r.owner = [] ∧ r.masterContent = [] ∧
        r.compContent = [] ∧ r.other.isEmpty = true))
        "Cannot combine operations with basic approval and others!"
      let active ← collectContents (fun c : Content => c.manageMaster) r.masterContent r.active
      let active ← collectContents (fun c : Content => c.manageComp) r.compContent active
      pure (active, basic)
    else pure (r.active, r.basic)
  let _ ← Action.create (S := chainSchema) Kind.proposal
    { expirationTime := expirationTime
      reviewPeriodTime := reviewPeriodSeconds.map fun r => u32 (now + r)
      proposedTransaction := ⟨0, 0, expirationTime, proposedOps, []⟩
      requiredActiveApprovals := requiredActive.filter fun id => decide (id ∉ r.owner)
      availableActiveApprovals := []
      requiredOwnerApprovals := r.owner
      availableOwnerApprovals := []
      requiredBasicApprovals := requiredBasic
      requiredMasterContentApprovals := r.masterContent
      requiredCompContentApprovals := r.compContent
      availableKeyApprovals := []
      canVeto := canVeto : Proposal }
  pure ()

end

def proposalDelete (proposal : Nat) (vetoer : String) : Act n Unit := do
  let hf3 ← hasHardfork hardfork03
  Action.require (hf3 = true) "db().has_hardfork(MUSE_HARDFORK_0_3)"
  let p ← getObject .proposal proposal
  Action.require (vetoer ∈ p.canVeto) "Provided authority '${provided}' can not veto this proposal."
  Action.remove (S := chainSchema) Kind.proposal proposal

/-! ## 3. Approving -/

/-- The tests of `proposal_update_evaluator` before it changes the proposal. -/
def checkApprovals (o : ProposalUpdateOp) (p : Proposal) (hf3 : Bool) (now : Nat) :
    Except Exn Unit := do
  match p.reviewPeriodTime with
  | none => pure ()
  | some t =>
      check (now ≤ t → o.activeApprovalsToAdd = [] ∧ o.ownerApprovalsToAdd = [])
        "This proposal is in its review period. No new approvals may be added."
  checkEach (fun id => check (id ∈ p.availableActiveApprovals)
    "_proposal->available_active_approvals.find(id) != _proposal->available_active_approvals.end()")
    o.activeApprovalsToRemove
  checkEach (fun id => check (id ∈ p.availableOwnerApprovals)
    "_proposal->available_owner_approvals.find(id) != _proposal->available_owner_approvals.end()")
    o.ownerApprovalsToRemove
  if hf3 then do
    checkEach
      (fun id => do
        check (id ∉ p.availableActiveApprovals) "Already approved by active authority ${id}"
        check (id ∈ p.requiredActiveApprovals ∨ id ∈ p.requiredBasicApprovals)
          "Active approval from ${id} is not required")
      o.activeApprovalsToAdd
    checkEach
      (fun id => do
        check (id ∉ p.availableOwnerApprovals) "Already approved by owner authority ${id}"
        check (id ∈ p.requiredOwnerApprovals ∨ id ∈ p.requiredActiveApprovals ∨
          id ∈ p.requiredBasicApprovals) "Owner approval from ${id} is not required")
      o.ownerApprovalsToAdd

def ProposalUpdateOp.approve (o : ProposalUpdateOp) (p : Proposal) : Proposal :=
  { p with
    availableActiveApprovals := (p.availableActiveApprovals ++ o.activeApprovalsToAdd).filter
      fun id => decide (id ∉ o.activeApprovalsToRemove)
    availableOwnerApprovals := (p.availableOwnerApprovals ++ o.ownerApprovalsToAdd).filter
      fun id => decide (id ∉ o.ownerApprovalsToRemove)
    availableKeyApprovals := ((p.availableKeyApprovals ++ o.keyApprovalsToAdd).filter
      fun k => decide (k ∉ o.keyApprovalsToRemove)).dedup }

/-- `proposal_update_evaluator`; `push` is `push_proposal`, whose exceptions it catches. -/
def proposalUpdate (push : Nat → Act n Unit) (o : ProposalUpdateOp) : Act n Unit := do
  let p ← getObject .proposal o.proposal
  let hf3 ← hasHardfork hardfork03
  let now ← headBlockTime
  Action.lift (checkApprovals o p hf3 now)
  Action.modify (S := chainSchema) Kind.proposal o.proposal fun p : Proposal => o.approve p
  let p ← getObject .proposal o.proposal
  if p.reviewPeriodTime.isSome then pure ()
  else do
    let authorized ← p.isAuthorizedToExecute
    if authorized then Action.catching (push o.proposal) fun _ => pure ()

/-! ## 4. apply_operation -/

section

variable [Fc] (clock : Nat)

/-- `apply_operation`, with `push_proposal` as an argument. -/
def evaluate (push : Nat → Act n Unit) : Operation → Act n Unit
  | .vote o => vote o
  | .content o => content o
  | .contentUpdate o => contentUpdate o
  | .contentApprove approver url => contentApprove approver url
  | .contentDisable url => contentDisable url
  | .transfer sender receiver amount _ => transfer sender receiver amount
  | .transferToVesting sender receiver amount => transferToVesting sender receiver amount
  | .withdrawVesting account vestingShares => withdrawVesting clock account vestingShares
  | .limitOrderCreate o => limitOrderCreate o
  | .limitOrderCreate2 o => limitOrderCreate2 o
  | .limitOrderCancel owner orderid => limitOrderCancel owner orderid
  | .feedPublish publisher exchangeRate => feedPublish publisher exchangeRate
  | .convert owner requestid amount => convert owner requestid amount
  | .accountCreate o => accountCreate o
  | .accountUpdate o => accountUpdate o
  | .witnessUpdate o => witnessUpdate o
  | .accountWitnessVote account witness approve => accountWitnessVote account witness approve
  | .accountWitnessProxy account proxy => accountWitnessProxy account proxy
  | .streamingPlatformUpdate owner url fee => streamingPlatformUpdate owner url fee
  | .accountStreamingPlatformVote account sp approve => accountStreamingPlatformVote account sp approve
  | .streamingPlatformReport o => streamingPlatformReport o
  | .assetCreate o => assetCreate o
  | .assetUpdate o => assetUpdate o
  | .assetIssue issuer assetToIssue issueToAccount => assetIssue issuer assetToIssue issueToAccount
  | .assetReserve _ payer amountToReserve => assetReserve payer amountToReserve
  | .custom _ => pure ()
  | .reportOverProduction _ _ _ => reportOverProduction
  | .customJson _ requiredBasicAuths _ json => customJson requiredBasicAuths json
  | .setWithdrawVestingRoute fromAccount toAccount percent autoVest =>
      setWithdrawVestingRoute fromAccount toAccount percent autoVest
  | .challengeAuthority challenger challenged requireOwner =>
      challengeAuthority challenger challenged requireOwner
  | .proveAuthority challenged requireOwner => proveAuthority challenged requireOwner
  | .requestAccountRecovery recoveryAccount accountToRecover newOwnerAuthority =>
      requestAccountRecovery recoveryAccount accountToRecover newOwnerAuthority
  | .recoverAccount accountToRecover newOwnerAuthority recentOwnerAuthority =>
      recoverAccount accountToRecover newOwnerAuthority recentOwnerAuthority
  | .changeRecoveryAccount accountToRecover newRecoveryAccount =>
      changeRecoveryAccount accountToRecover newRecoveryAccount
  | .escrowTransfer _ => escrowTransfer
  | .escrowDispute _ => escrowDispute
  | .escrowRelease _ => escrowRelease
  | .proposalCreate proposedOps expirationTime reviewPeriodSeconds =>
      proposalCreate proposedOps expirationTime reviewPeriodSeconds
  | .proposalUpdate o => proposalUpdate push o
  | .proposalDelete _ proposal vetoer => proposalDelete proposal vetoer
  | .virtualOp _ => Action.throw (.assert "No registered evaluator for operation ${op}")
  | .friendship who whom => friendship who whom
  | .unfriend who whom => unfriend who whom
  | .balanceClaim o => balanceClaim o

/-- `push_proposal`. -/
def pushProposal : (n : Nat) → Nat → Act n Unit
  | 0, _ => Action.throw (.crash "proposals execute each other too deeply")
  | n + 1, proposal =>
      Action.nested do
        let p ← getObject .proposal proposal
        Action.forEach p.proposedTransaction.operations fun op =>
          evaluate clock (pushProposal n) op
        Action.remove (S := chainSchema) Kind.proposal proposal

/-- `apply_operation`. -/
def applyOperation (n : Nat) (op : Operation) : Act n Unit :=
  evaluate clock (pushProposal clock n) op

/-! ## 5. Expiration -/

/-- The first expired proposal in the order by_expiration. -/
def firstExpiredProposal : Act n (Option Nat) := do
  let now ← headBlockTime
  let due ← dueRows Kind.proposal (fun p : Proposal => p.expirationTime) fun t => t ≤ now
  pure (due.head?.map (·.1))

/-- The loop of `clear_expired_proposals`; every turn removes the proposal it looks at. -/
def expireEach (n : Nat) : Nat → Act n Unit
  | 0 => Action.throw (.crash "more expired proposals than there are proposals")
  | turns + 1 => do
      let first ← firstExpiredProposal
      match first with
      | none => pure ()
      | some i => do
          let executed ← Action.catching
            (do
              let p ← getObject .proposal i
              let authorized ← p.isAuthorizedToExecute
              if authorized then do
                pushProposal clock n i
                pure true
              else pure false)
            fun _ => pure false
          if executed then pure () else Action.remove (S := chainSchema) Kind.proposal i
          expireEach n turns

def clearExpiredProposals (n : Nat) : Act n Unit := do
  let hf3 ← hasHardfork hardfork03
  if hf3 then do
    let proposals ← Action.rows (S := chainSchema) Kind.proposal
    expireEach clock n (proposals.length + 1)

end

end MuseChain
