/-
  File:      MuseChain/Chain/SecondaryIndexes.lean
  Subject:   The two secondary indexes of the chain: who is in whose authorities, and whose approval
             a proposal needs.

  A `map< K, set< V > >` that makes an entry for every key it is asked for is a function into sets.
-/
import MuseChain.Chain.Objects
import MuseChain.Db.Secondary
import Mathlib.Data.Finset.Basic
import Mathlib.Data.Finset.Dedup

namespace MuseChain

/-! ## 1. account_member_index -/

structure AccountMemberIndex where
  accountToAccountMemberships : String → Finset String := fun _ => ∅
  accountToKeyMemberships : PublicKey → Finset String := fun _ => ∅
  /-- What `about_to_modify` keeps for `object_modified`. -/
  beforeAccountMembers : Finset String := ∅
  beforeKeyMembers : Finset PublicKey := ∅

/-- `for( auto item : items ) memberships[item].insert( name );` -/
def insertEach {κ : Type} [DecidableEq κ] (items : Finset κ) (name : String)
    (memberships : κ → Finset String) : κ → Finset String :=
  fun x => if x ∈ items then insert name (memberships x) else memberships x

/-- `for( auto item : items ) memberships[item].erase( name );` -/
def eraseEach {κ : Type} [DecidableEq κ] (items : Finset κ) (name : String)
    (memberships : κ → Finset String) : κ → Finset String :=
  fun x => if x ∈ items then (memberships x).erase name else memberships x

namespace AccountMemberIndex

def getAccountMembers (a : Account) : Finset String :=
  ((a.owner.accountAuths ++ a.active.accountAuths ++ a.basic.accountAuths).map Prod.fst).toFinset

def getKeyMembers (a : Account) : Finset PublicKey :=
  insert a.memoKey
    ((a.owner.keyAuths ++ a.active.keyAuths ++ a.basic.keyAuths).map Prod.fst).toFinset

def objectInserted (a : Account) (ix : AccountMemberIndex) : AccountMemberIndex :=
  { ix with
    accountToAccountMemberships :=
      insertEach (getAccountMembers a) a.name ix.accountToAccountMemberships
    accountToKeyMemberships := insertEach (getKeyMembers a) a.name ix.accountToKeyMemberships }

def objectRemoved (a : Account) (ix : AccountMemberIndex) : AccountMemberIndex :=
  { ix with
    accountToKeyMemberships := eraseEach (getKeyMembers a) a.name ix.accountToKeyMemberships
    accountToAccountMemberships :=
      eraseEach (getAccountMembers a) a.name ix.accountToAccountMemberships }

def aboutToModify (before : Account) (ix : AccountMemberIndex) : AccountMemberIndex :=
  { ix with
    beforeKeyMembers := getKeyMembers before
    beforeAccountMembers := getAccountMembers before }

/-- Only the differences to what was before are written. -/
def objectModified (after : Account) (ix : AccountMemberIndex) : AccountMemberIndex :=
  let afterAccountMembers := getAccountMembers after
  let afterKeyMembers := getKeyMembers after
  { ix with
    accountToAccountMemberships :=
      insertEach (afterAccountMembers \ ix.beforeAccountMembers) after.name
        (eraseEach (ix.beforeAccountMembers \ afterAccountMembers) after.name
          ix.accountToAccountMemberships)
    accountToKeyMemberships :=
      insertEach (afterKeyMembers \ ix.beforeKeyMembers) after.name
        (eraseEach (ix.beforeKeyMembers \ afterKeyMembers) after.name
          ix.accountToKeyMemberships) }

end AccountMemberIndex

/-! ## 2. required_approval_index -/

structure RequiredApprovalIndex where
  /-- `none` for a key that is not in the map. -/
  accountToProposals : String → Option (Finset Nat) := fun _ => none

namespace RequiredApprovalIndex

/-- `_account_to_proposals[a].insert( p )`. -/
def insert (p : Nat) (ix : RequiredApprovalIndex) (a : String) : RequiredApprovalIndex :=
  ⟨Function.update ix.accountToProposals a
    (some (Insert.insert p ((ix.accountToProposals a).getD ∅)))⟩

def remove (p : Nat) (ix : RequiredApprovalIndex) (a : String) : RequiredApprovalIndex :=
  match ix.accountToProposals a with
  | none => ix
  | some ps =>
      ⟨Function.update ix.accountToProposals a
        (if ps.erase p = ∅ then none else some (ps.erase p))⟩

def objectInserted (i : Nat) (p : Proposal) (ix : RequiredApprovalIndex) : RequiredApprovalIndex :=
  let ix := p.requiredActiveApprovals.foldl (insert i) ix
  let ix := p.requiredOwnerApprovals.foldl (insert i) ix
  p.requiredBasicApprovals.foldl (insert i) ix

def objectRemoved (i : Nat) (p : Proposal) (ix : RequiredApprovalIndex) : RequiredApprovalIndex :=
  let ix := p.requiredActiveApprovals.foldl (remove i) ix
  let ix := p.requiredOwnerApprovals.foldl (remove i) ix
  p.requiredBasicApprovals.foldl (remove i) ix

def lookup (ix : RequiredApprovalIndex) (account : String) : Finset Nat :=
  (ix.accountToProposals account).getD ∅

end RequiredApprovalIndex

/-! ## 3. Both of them -/

/-- What `initialize_indexes` adds to the account index and to the proposal index. -/
structure SecondaryIndexes where
  accountMembers : AccountMemberIndex := {}
  requiredApprovals : RequiredApprovalIndex := {}

namespace SecondaryIndexes

def objectInserted : (k : Kind) → Nat → Kind.Object k → SecondaryIndexes → SecondaryIndexes
  | .account, _, a, w => { w with accountMembers := w.accountMembers.objectInserted a }
  | .proposal, i, p, w => { w with requiredApprovals := w.requiredApprovals.objectInserted i p }
  | _, _, _, w => w

def objectRemoved : (k : Kind) → Nat → Kind.Object k → SecondaryIndexes → SecondaryIndexes
  | .account, _, a, w => { w with accountMembers := w.accountMembers.objectRemoved a }
  | .proposal, i, p, w => { w with requiredApprovals := w.requiredApprovals.objectRemoved i p }
  | _, _, _, w => w

/-- `required_approval_index` does nothing here: the set of required approvals is constant. -/
def aboutToModify : (k : Kind) → Nat → Kind.Object k → SecondaryIndexes → SecondaryIndexes
  | .account, _, a, w => { w with accountMembers := w.accountMembers.aboutToModify a }
  | _, _, _, w => w

/-- Nor here. -/
def objectModified : (k : Kind) → Nat → Kind.Object k → SecondaryIndexes → SecondaryIndexes
  | .account, _, a, w => { w with accountMembers := w.accountMembers.objectModified a }
  | _, _, _, w => w

end SecondaryIndexes

/-- The callbacks of the chain's indexes. -/
def chainObserver : Observer chainSchema SecondaryIndexes where
  objectInserted := SecondaryIndexes.objectInserted
  objectRemoved := SecondaryIndexes.objectRemoved
  aboutToModify := SecondaryIndexes.aboutToModify
  objectModified := SecondaryIndexes.objectModified

end MuseChain
