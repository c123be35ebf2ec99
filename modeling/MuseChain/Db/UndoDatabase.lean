/-
  File:      MuseChain/Db/UndoDatabase.lean
  Subject:   undo_database and the object database it watches, as the code computes them.

  * `KindUndo` is the part of an `undo_state` about one index: the values before the session
    (`oldValues`), the objects made in it (`newIds`), the objects taken away (`removed`) and the
    index's next id before it.
  * `Database`: the store, the stack of undo states (top first) and the flags.
  * `create`, `modify`, `remove` save what they change into the top of the stack, then change it.
  * `rollbackState`, `undo`, `merge`, `commit`, `popCommit`, `startUndoSession`.
-/
import MuseChain.Db.Store

namespace MuseChain

/-! ## 1. Undo states -/

/-- The part of an `undo_state` about one index. -/
structure KindUndo (α : Type) where
  oldValues : FMap α
  newIds : FMap Unit
  removed : FMap α
  oldNextId : Option Nat

namespace KindUndo

variable {α : Type}

def empty : KindUndo α := ⟨FMap.empty, FMap.empty, FMap.empty, none⟩

def onCreate (u : KindUndo α) (i : Nat) : KindUndo α :=
  { u with
    oldNextId := some (u.oldNextId.getD i)
    newIds := u.newIds.put i (some ()) }

def onModify (u : KindUndo α) (i : Nat) (a : α) : KindUndo α :=
  if (u.newIds.get i).isSome then u
  else if (u.oldValues.get i).isSome then u
  else { u with oldValues := u.oldValues.put i (some a) }

def onRemove (u : KindUndo α) (i : Nat) (a : α) : KindUndo α :=
  if (u.newIds.get i).isSome then { u with newIds := u.newIds.put i none }
  else
    match u.oldValues.get i with
    | some x =>
        { u with removed := u.removed.put i (some x), oldValues := u.oldValues.put i none }
    | none =>
        if (u.removed.get i).isSome then u
        else { u with removed := u.removed.put i (some a) }

/-! The loops of `merge`, over what the newer state `B` holds, changing the older one. -/

/-- `*+upd`: the older state already knows the object, or takes over the value. -/
def mergeOld (p : KindUndo α) (i : Nat) (y : α) : KindUndo α :=
  if (p.newIds.get i).isSome then p
  else if (p.oldValues.get i).isSome then p
  else { p with oldValues := p.oldValues.put i (some y) }

/-- `*+new`. -/
def mergeNew (p : KindUndo α) (i : Nat) (_ : Unit) : KindUndo α :=
  { p with newIds := p.newIds.put i (some ()) }

/-- `*+del`. -/
def mergeRemoved (p : KindUndo α) (i : Nat) (y : α) : KindUndo α :=
  if (p.newIds.get i).isSome then { p with newIds := p.newIds.put i none }
  else
    match p.oldValues.get i with
    | some x =>
        { p with removed := p.removed.put i (some x), oldValues := p.oldValues.put i none }
    | none => { p with removed := p.removed.put i (some y) }

def foldRows {β : Type} (f : KindUndo α → Nat → β → KindUndo α) :
    List (Nat × β) → KindUndo α → KindUndo α
  | [], p => p
  | (i, y) :: r, p => foldRows f r (f p i y)

/-- `merge`, for one index: `prev` becomes the composition of `prev` and `state`. -/
def merge (prev state : KindUndo α) : KindUndo α :=
  let p := foldRows mergeOld state.oldValues.rows prev
  let p := foldRows mergeNew state.newIds.rows p
  let p := { p with oldNextId := p.oldNextId.orElse fun _ => state.oldNextId }
  foldRows mergeRemoved state.removed.rows p

end KindUndo

/-- `undo_state`: what a session has changed, index by index. -/
def UndoState (S : Schema) : Type := (k : S.Kind) → KindUndo (S.Obj k)

namespace UndoState

variable {S : Schema}

def empty : UndoState S := fun _ => KindUndo.empty

def upd (u : UndoState S) (k : S.Kind) (f : KindUndo (S.Obj k) → KindUndo (S.Obj k)) :
    UndoState S := Function.update u k (f (u k))

@[simp] theorem upd_self (u : UndoState S) (k : S.Kind)
    (f : KindUndo (S.Obj k) → KindUndo (S.Obj k)) : u.upd k f k = f (u k) :=
  Function.update_self ..

theorem upd_ne (u : UndoState S) {k k' : S.Kind} (hk : k' ≠ k)
    (f : KindUndo (S.Obj k) → KindUndo (S.Obj k)) : u.upd k f k' = u k' :=
  Function.update_of_ne hk ..

def merge (prev state : UndoState S) : UndoState S := fun k => (prev k).merge (state k)

/-- The keys of one container of an undo state, in the order it is walked through. -/
def keys {β : S.Kind → Type} (o : WalkOrder (S.Kind × Nat)) (sel : (k : S.Kind) → FMap (β k)) :
    List (S.Kind × Nat) :=
  o.walk (S.kinds.flatMap fun k => (sel k).rows.map fun p => (k, p.1))

end UndoState

/-! ## 2. The loops of rollback_state

Each may throw halfway; then the store is left as far as it came. -/

/-- What a walk over the store ends in. -/
abbrev Walk (S : Schema) : Type := Except (Exn × Store S) (Store S)

def forEach {S : Schema} (step : S.Kind × Nat → Store S → Walk S) :
    List (S.Kind × Nat) → Store S → Walk S
  | [], s => .ok s
  | x :: l, s =>
      match step x s with
      | .ok s' => forEach step l s'
      | .error e => .error e

section Rollback

variable {S : Schema} (u : UndoState S)

/-- `_db.modify( _db.get_object( id ), move_from )`. -/
def restoreOld (x : S.Kind × Nat) (s : Store S) : Walk S :=
  match (u x.1).oldValues.get x.2 with
  | none => .ok s
  | some a =>
      match s.get x.1 x.2 with
      | none => .error (.assert "Unable to find Object", s)
      | some _ =>
          if h : s.free x.1 x.2 a = true then .ok (s.write x.1 x.2 a h)
          else .error
            (.assert "Could not modify object, most likely a index constraint was violated",
              s.erase x.1 x.2)

/-- `_db.remove( _db.get_object( id ) )`. -/
def removeNew (x : S.Kind × Nat) (s : Store S) : Walk S :=
  match s.get x.1 x.2 with
  | none => .error (.assert "Unable to find Object", s)
  | some _ => .ok (s.erase x.1 x.2)

def resetNextIds : List S.Kind → Store S → Store S
  | [], s => s
  | k :: ks, s =>
      match (u k).oldNextId with
      | some n => resetNextIds ks (s.setNextId k n)
      | none => resetNextIds ks s

/-- `_db.insert( std::move(*item.second) )`. -/
def insertRemoved (x : S.Kind × Nat) (s : Store S) : Walk S :=
  match (u x.1).removed.get x.2 with
  | none => .ok s
  | some a =>
      if h : s.get x.1 x.2 = none ∧ s.free x.1 x.2 a = true then
        .ok (s.write x.1 x.2 a h.2)
      else .error
        (.assert "Could not insert object, most likely a uniqueness constraint was violated", s)

def rollbackStore (o : WalkOrder (S.Kind × Nat)) (s : Store S) : Walk S := do
  let s ← forEach (restoreOld u) (UndoState.keys o fun k => (u k).oldValues) s
  let s ← forEach removeNew (UndoState.keys o fun k => (u k).newIds) s
  let s := resetNextIds u S.kinds s
  forEach (insertRemoved u) (UndoState.keys o fun k => (u k).removed) s

end Rollback

/-! ## 3. The database -/

/-- The object database with its undo database. `broken` is a history variable, which nothing
reads: some `modify` threw and its container dropped the object. -/
structure Database (S : Schema) where
  store : Store S
  /-- `_stack`, the newest state first. -/
  stack : List (UndoState S)
  activeSessions : Nat
  disabled : Bool
  maxSize : Nat
  broken : Bool
  /-- The order of the containers of an `undo_state`, which C++ leaves open. -/
  order : WalkOrder (S.Kind × Nat)

/-- How a call ends: with a result, or with an exception; either way the database is left in some
state. -/
inductive Outcome (S : Schema) (α : Type) where
  | ok (a : α) (d : Database S)
  | thrown (e : Exn) (d : Database S)

namespace Outcome

variable {S : Schema} {α : Type}

def db : Outcome S α → Database S
  | ok _ d => d
  | thrown _ d => d

def isOk : Outcome S α → Bool
  | ok _ _ => true
  | thrown _ _ => false

/-- What is returned. -/
def value : Outcome S α → Option α
  | ok a _ => some a
  | thrown _ _ => none

@[simp] theorem db_ok (a : α) (d : Database S) : (ok a d).db = d := rfl

@[simp] theorem db_thrown (e : Exn) (d : Database S) : (thrown e d : Outcome S α).db = d := rfl

theorem exists_of_isOk {o : Outcome S α} (h : o.isOk = true) : ∃ a, o = .ok a o.db := by
  cases o with
  | ok a d => exact ⟨a, rfl⟩
  | thrown e d => cases h

theorem of_value {o : Outcome S α} {a : α} (h : o.value = some a) : o = .ok a o.db := by
  cases o with
  | ok b d => exact congrArg (Outcome.ok · d) (Option.some.inj h)
  | thrown e d => cases h

theorem exists_of_thrown {o : Outcome S α} (h : o.isOk = false) : ∃ e, o = .thrown e o.db := by
  cases o with
  | ok a d => cases h
  | thrown e d => exact ⟨e, rfl⟩

end Outcome

namespace Database

variable {S : Schema}

/-- `if( _stack.empty() ) _stack.emplace_back(); auto& state = _stack.back();` and then `f` on
the part of `state` about index `k`. -/
def onTop (d : Database S) (k : S.Kind) (f : KindUndo (S.Obj k) → KindUndo (S.Obj k)) :
    Database S :=
  if d.disabled then d
  else
    match d.stack with
    | [] => { d with stack := [UndoState.empty.upd k f] }
    | u :: us => { d with stack := u.upd k f :: us }

/-- `create`: the index gives the object its next id. -/
def create (d : Database S) (k : S.Kind) (a : S.Obj k) : Outcome S Nat :=
  let i := d.store.nextId k
  if h : d.store.get k i = none ∧ d.store.free k i a = true then
    let d := { d with store := (d.store.write k i a h.2).setNextId k (i + 1) }
    .ok i (d.onTop k fun u => u.onCreate i)
  else .thrown
    (.assert "Could not create object! Most likely a uniqueness constraint is violated.") d

/-- `modify`: the old value is saved first, then the callback runs in place. When it throws, or
the new value violates a unique key, `multi_index_container::modify` erases the element. The
object is one the caller holds a reference to; there is none to an object that is not there. -/
def modify (d : Database S) (k : S.Kind) (i : Nat) (f : S.Obj k → Except Exn (S.Obj k)) :
    Outcome S Unit :=
  match d.store.get k i with
  | none => .thrown (.crash "reference to a missing object") d
  | some a =>
      let d := d.onTop k fun u => u.onModify i a
      match f a with
      | .error e =>
          -- a value half written into a vector-backed index is not followed: the undo of the
          -- session, which the exception triggers, puts the saved one back
          .thrown e (if S.erases k then { d with store := d.store.erase k i, broken := true }
            else d)
      | .ok b =>
          if h : d.store.free k i b = true then .ok () { d with store := d.store.write k i b h }
          else .thrown
            (.assert "Could not modify object, most likely a index constraint was violated")
            { d with store := d.store.erase k i, broken := true }

def remove (d : Database S) (k : S.Kind) (i : Nat) : Outcome S Unit :=
  match d.store.get k i with
  | none => .thrown (.crash "reference to a missing object") d
  | some a =>
      let d := d.onTop k fun u => u.onRemove i a
      .ok () { d with store := d.store.erase k i }

/-! ## 4. Sessions -/

/-- `start_undo_session( force_enable )`. The flag it returns is the session's
`_disable_on_exit`. -/
def startUndoSession (d : Database S) (forceEnable : Bool) : Bool × Database S :=
  if d.disabled && !forceEnable then (false, d)
  else
    (d.disabled && forceEnable,
      { d with
        disabled := if forceEnable then false else d.disabled
        -- `while( size() > max_size() ) _stack.pop_front(); _stack.emplace_back();`
        stack := UndoState.empty :: d.stack.take d.maxSize
        activeSessions := d.activeSessions + 1 })

def rollbackState (d : Database S) : Outcome S Unit :=
  match d.stack with
  | [] => .thrown (.crash "back() of an empty stack") d
  | u :: us =>
      match rollbackStore u d.order d.store with
      | .ok s => .ok () { d with store := s, stack := us }
      | .error (e, s) => .thrown e { d with store := s }

/-- `undo()`. When the rollback throws, the undo database stays disabled and the session stays
counted. -/
def undo (d : Database S) : Outcome S Unit :=
  if d.disabled then .thrown (.assert "!_disabled") d
  else if d.activeSessions = 0 then .thrown (.assert "_active_sessions > 0") d
  else
    match ({ d with disabled := true } : Database S).rollbackState with
    | .ok _ d => .ok () { d with disabled := false, activeSessions := d.activeSessions - 1 }
    | .thrown e d => .thrown e d

def merge (d : Database S) : Outcome S Unit :=
  if d.activeSessions = 0 then .thrown (.assert "_active_sessions > 0") d
  else
    match d.stack with
    | [] => .thrown (.assert "_stack.size() >=2") d
    | [_] =>
        if d.activeSessions = 1 then
          .ok () { d with stack := [], activeSessions := d.activeSessions - 1 }
        else .thrown (.assert "_stack.size() >=2") d
    | state :: prev :: us =>
        .ok ()
          { d with stack := prev.merge state :: us, activeSessions := d.activeSessions - 1 }

def commit (d : Database S) : Outcome S Unit :=
  if d.activeSessions = 0 then .thrown (.assert "_active_sessions > 0") d
  else .ok () { d with activeSessions := d.activeSessions - 1 }

/-- `pop_commit()`. Other than `undo`, it enables again when the rollback throws. -/
def popCommit (d : Database S) : Outcome S Unit :=
  if d.activeSessions ≠ 0 then .thrown (.assert "_active_sessions == 0") d
  else if d.stack.isEmpty then .thrown (.assert "!_stack.empty()") d
  else
    match ({ d with disabled := true } : Database S).rollbackState with
    | .ok _ d => .ok () { d with disabled := false }
    | .thrown e d => .thrown e { d with disabled := false }

/-- `~session()` of a session that was neither merged nor committed: `undo()`, whose exception is
logged and dropped, and then before the undo database is disabled again. -/
def dropSession (d : Database S) (disableOnExit : Bool) : Database S :=
  match d.undo with
  | .ok _ d => if disableOnExit then { d with disabled := true } else d
  | .thrown _ d => d

end Database

end MuseChain
