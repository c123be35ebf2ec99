/-
  File:      MuseChain/Protocol/SignState.lean
  Subject:   sign_state and verify_authority: whether keys and approvals cover what operations need.

  * `checkAuthority`: an authority against the keys and the accounts approved so far, with the
    recursion into other accounts' authorities bounded by `max_recursion`.
  * `verifyAuthorityV1`, `verifyAuthorityV2`: the rules before and after hardfork 3.
-/
import MuseChain.Protocol.Validate

namespace MuseChain

/-! ## 1. Sets of names -/

/-- `a < b` of two strings. -/
def nameLt (a b : String) : Bool := decide (a.toList < b.toList)

/-- `flat_set::insert`. -/
def nameInsert (x : String) : List String → List String
  | [] => [x]
  | y :: l => if x = y then y :: l else if nameLt x y then x :: y :: l else y :: nameInsert x l

/-- The names of a list as a `flat_set`. -/
def nameSet (l : List String) : List String := l.foldl (fun s x => nameInsert x s) []

/-! ## 2. sign_state -/

structure SignState where
  /-- `provided_signatures`, with whether each was used. -/
  provided : List (PublicKey × Bool)
  approvedBy : List String

namespace SignState

def init (sigs : List PublicKey) (approvals : List String) : SignState :=
  ⟨sigs.map fun k => (k, false), "temp" :: approvals⟩

def signedBy (s : SignState) (k : PublicKey) : Bool × SignState :=
  if s.provided.any fun p => p.1 = k then
    (true, { s with provided := s.provided.map fun p => if p.1 = k then (k, true) else p })
  else (false, s)

def hasUnused (s : SignState) : Bool := s.provided.any fun p => !p.2

end SignState

/-- A check in which keys and accounts get used up. -/
abbrev Check : Type := SignState → Except Exn (Bool × SignState)

/-- The loop over the keys: whether the threshold was reached, and the weight so far. -/
def checkKeyAuths (threshold : Nat) :
    List (PublicKey × Nat) → Nat → SignState → Bool × Nat × SignState
  | [], total, s => (false, total, s)
  | (k, w) :: rest, total, s =>
      match s.signedBy k with
      | (true, s) =>
          let total := u32 (total + w)
          if threshold ≤ total then (true, total, s) else checkKeyAuths threshold rest total s
      | (false, s) => checkKeyAuths threshold rest total s

/-- The loop over the accounts; `below` checks the authority of one that has not approved yet,
when the depth allows it. -/
def checkAccountAuths (threshold : Nat) (below : Option (String → Check)) :
    List (String × Nat) → Nat → Check
  | [], total, s => .ok (decide (threshold ≤ total), s)
  | (a, w) :: rest, total, s =>
      if a ∈ s.approvedBy then
        let total := u32 (total + w)
        if threshold ≤ total then .ok (true, s) else checkAccountAuths threshold below rest total s
      else
        match below with
        | none => checkAccountAuths threshold below rest total s
        | some check => do
            let (passed, s) ← check a s
            if passed then
              let s := { s with approvedBy := a :: s.approvedBy }
              let total := u32 (total + w)
              if threshold ≤ total then .ok (true, s)
              else checkAccountAuths threshold below rest total s
            else checkAccountAuths threshold below rest total s

section

variable (getActive : String → Except Exn Authority)

/-- `check_authority( auth, depth )`, with `left` levels below `max_recursion`. -/
def checkAuthority : Nat → Authority → Check
  | left, auth, s =>
      match checkKeyAuths auth.weightThreshold auth.keyAuths 0 s with
      | (true, _, s) => .ok (true, s)
      | (false, total, s) =>
          match left with
          | 0 => checkAccountAuths auth.weightThreshold none auth.accountAuths total s
          | left + 1 =>
              checkAccountAuths auth.weightThreshold
                (some fun a s => do
                  let au ← getActive a
                  checkAuthority left au s)
                auth.accountAuths total s

/-- `check_authority( id )`. -/
def checkAuthorityOf (maxRecursion : Nat) (id : String) : Check := fun s =>
  if id ∈ s.approvedBy then .ok (true, s)
  else do
    let au ← getActive id
    checkAuthority getActive maxRecursion au s

end

/-- `a || b`. -/
def Check.or (a b : Check) : Check := fun s => do
  let (passed, s) ← a s
  if passed then pure (true, s) else b s

/-- The check of an authority that has to be looked up first. -/
def Check.ofGetter (check : Authority → Check) (au : Except Exn Authority) : Check := fun s => do
  let au ← au
  check au s

/-- `MUSE_ASSERT` of a check, for each of a list. -/
def Check.all {α : Type} (check : α → Check) (msg : String) :
    List α → SignState → Except Exn SignState
  | [], s => .ok s
  | x :: rest, s => do
      let (passed, s) ← check x s
      if passed then Check.all check msg rest s else .error (.assert msg)

/-! ## 3. verify_authority -/

/-- The authority getters. -/
structure Getters where
  active : String → Except Exn Authority
  owner : String → Except Exn Authority
  basic : String → Except Exn Authority
  masterContent : String → Except Exn Authority
  compContent : String → Except Exn Authority

/-- What `operation_get_required_authorities` collects from a list of operations. -/
structure Required where
  active : List String
  owner : List String
  basic : List String
  masterContent : List String
  compContent : List String
  other : List Authority

def requiredAuthorities (ops : List Operation) : Required where
  active := nameSet (ops.flatMap Operation.requiredActive)
  owner := nameSet (ops.flatMap Operation.requiredOwner)
  basic := nameSet (ops.flatMap Operation.requiredBasic)
  masterContent := nameSet (ops.flatMap Operation.requiredMasterContent)
  compContent := nameSet (ops.flatMap Operation.requiredCompContent)
  other := ops.flatMap Operation.requiredOther

/-- The approvals that a proposal has collected. -/
structure Approvals where
  active : List String := []
  owner : List String := []
  basic : List String := []

/-- The part the two versions share: active, content and owner authorities. -/
def verifyActive (g : Getters) (r : Required) (maxRecursion : Nat) (ownerApprovals : List String)
    (s : SignState) : Except Exn SignState := do
  let check := checkAuthority g.active maxRecursion
  let s ← Check.all
    (fun id => (checkAuthorityOf g.active maxRecursion id).or (Check.ofGetter check (g.owner id)))
    "Missing Active Authority ${id}" r.active s
  let s ← Check.all (fun con => Check.ofGetter check (g.masterContent con))
    "Missing Content Authority for content ${con}" r.masterContent s
  let s ← Check.all (fun con => Check.ofGetter check (g.compContent con))
    "Missing Content Authority for content ${con}" r.compContent s
  Check.all
    (fun id s =>
      if id ∈ ownerApprovals then .ok (true, s) else Check.ofGetter check (g.owner id) s)
    "Missing Owner Authority ${id}" r.owner s

def verifyAuthorityV1 (ops : List Operation) (sigs : List PublicKey) (g : Getters)
    (maxRecursion : Nat) (approvals : Approvals) : Except Exn Unit := do
  let r := requiredAuthorities ops
  if r.basic ≠ [] then do
    check (r.active = []) "required_active.size() == 0"
    check (r.owner = []) "required_owner.size() == 0"
    check (r.other.isEmpty = true) "other.size() == 0"
    let below := checkAuthority g.basic maxRecursion
    let s ← Check.all
      (fun id => (checkAuthorityOf g.basic maxRecursion id).or
        ((Check.ofGetter below (g.active id)).or (Check.ofGetter below (g.owner id))))
      "Missing Posting Authority ${id}" r.basic (SignState.init sigs approvals.basic)
    check (s.hasUnused = false) "Unnecessary signature(s) detected"
  else do
    let s := SignState.init sigs (approvals.active ++ approvals.owner)
    let s ← Check.all (checkAuthority g.active maxRecursion) "Missing Authority" r.other s
    let _ ← verifyActive g r maxRecursion approvals.owner s
    pure ()

def verifyAuthorityV2 (ops : List Operation) (sigs : List PublicKey) (g : Getters)
    (allowExtraSigs : Bool) (maxRecursion : Nat) (approvals : Approvals) : Except Exn Unit := do
  let r := requiredAuthorities ops
  let basic := r.basic.filter fun id => decide (id ∉ r.active) && decide (id ∉ r.owner)
  check (basic = [] ∨ (r.active = [] ∧ r.owner = [] ∧ r.masterContent = [] ∧ r.compContent = [] ∧
    r.other.isEmpty = true)) "Cannot combine operations with basic approval and others!"
  let s := SignState.init sigs (approvals.basic ++ approvals.active ++ approvals.owner)
  let below := checkAuthority g.active maxRecursion
  let s ← Check.all below "Missing Authority" r.other s
  let s ← Check.all
    (fun id => (checkAuthorityOf g.active maxRecursion id).or
      ((Check.ofGetter below (g.active id)).or (Check.ofGetter below (g.owner id))))
    "Missing Active Authority ${id}" basic s
  let s ← verifyActive g r maxRecursion approvals.owner s
  if allowExtraSigs then pure ()
  else check (s.hasUnused = false) "Unnecessary signature(s) detected"

end MuseChain
