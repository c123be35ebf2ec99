/-
  File:      MuseChain/Db/Store.lean
  Subject:   The object database: one index per kind of object, each with its next id.

  * `Schema` says which kinds of objects there are, when two objects of a kind share a unique
    secondary key, and whether the container drops an element whose modifier throws (boost's
    multi_index does, `simple_index` and `flat_index` do not).
  * `Store` is the content of all indexes. It carries the containers' own invariant: no two
    objects of an index share a unique key. So every write asks `free` first.
  * `Store.Fresh`: every id in use is below the index's next id.
-/
import MuseChain.Lib.FMap
import Mathlib.Logic.Function.Basic
import Mathlib.Data.List.Perm.Basic

namespace MuseChain

/-- What a thrown `fc::exception` says. `crash` is no exception: the process ends there, by
undefined behaviour or by a recursion without end, and no handler sees it. -/
inductive Exn where
  | assert (msg : String)
  | overflow (msg : String)
  | crash (why : String)
  deriving DecidableEq, Repr

/-- The kinds of objects of a database and the containers that hold them. -/
structure Schema where
  Kind : Type
  decKind : DecidableEq Kind
  kinds : List Kind
  mem_kinds : ∀ k, k ∈ kinds
  nodup_kinds : kinds.Nodup
  Obj : Kind → Type
  /-- `some c` when the container has unique secondary keys: `c a b` says that `a` and `b` share
  one. -/
  uniqueKey : (k : Kind) → Option (Obj k → Obj k → Bool)
  uniqueKey_comm : ∀ k c, uniqueKey k = some c → ∀ a b, c a b = c b a
  /-- The container erases an element whose modifier throws. -/
  erases : Kind → Bool

/-- An order in which unordered containers are walked through. -/
structure WalkOrder (α : Type) where
  walk : List α → List α
  perm : ∀ l, (walk l).Perm l

instance (S : Schema) : DecidableEq S.Kind := S.decKind

namespace Schema

variable (S : Schema)

/-- Two different objects of kind `k` may not both be in the index. -/
def clashes (k : S.Kind) (a b : S.Obj k) : Bool :=
  match S.uniqueKey k with
  | none => false
  | some c => c a b

theorem clashes_comm (k : S.Kind) (a b : S.Obj k) : S.clashes k a b = S.clashes k b a := by
  unfold clashes
  cases hc : S.uniqueKey k with
  | none => rfl
  | some c => exact S.uniqueKey_comm k c hc a b

/-- `b` holds the unique keys of `a`. -/
def SameKey (k : S.Kind) (a b : S.Obj k) : Prop := ∀ c, S.clashes k a c = S.clashes k b c

theorem SameKey.refl {k : S.Kind} (a : S.Obj k) : S.SameKey k a a := fun _ => rfl

/-- What a callback that leaves the keys alone shows. -/
theorem keepsKey (k : S.Kind) : ∀ a : S.Obj k, S.SameKey k a a := fun a => SameKey.refl S a

theorem keepsKeyWith (k : S.Kind) (β : Type) : ∀ (a : S.Obj k) (_ : β), S.SameKey k a a :=
  fun a _ => SameKey.refl S a

variable {S}

theorem SameKey.trans {k : S.Kind} {a b c : S.Obj k} (h : S.SameKey k a b)
    (h' : S.SameKey k b c) : S.SameKey k a c := fun x => (h x).trans (h' x)

end Schema

/-- One index: its objects by instance, and the next instance to hand out. -/
structure Table (α : Type) where
  nextId : Nat
  map : FMap α

/-- The content of all indexes. No two objects of an index share a unique key. -/
structure Store (S : Schema) where
  table : (k : S.Kind) → Table (S.Obj k)
  unique : ∀ k i j a b, i ≠ j → (table k).map.get i = some a → (table k).map.get j = some b →
    S.clashes k a b = false

namespace Store

variable {S : Schema}

def get (s : Store S) (k : S.Kind) (i : Nat) : Option (S.Obj k) := (s.table k).map.get i

def nextId (s : Store S) (k : S.Kind) : Nat := (s.table k).nextId

/-- The objects of an index in the order of their ids. -/
def rows (s : Store S) (k : S.Kind) : List (Nat × S.Obj k) := (s.table k).map.rows

theorem ext_get {s t : Store S} (hg : ∀ k i, s.get k i = t.get k i)
    (hn : ∀ k, s.nextId k = t.nextId k) : s = t := by
  obtain ⟨ts, us⟩ := s
  obtain ⟨tt, ut⟩ := t
  have e : ts = tt := by
    funext k
    have hm : (ts k).map = (tt k).map := FMap.ext_get (hg k)
    have hi : (ts k).nextId = (tt k).nextId := hn k
    rcases hs : ts k with ⟨n, m⟩
    rcases ht : tt k with ⟨n', m'⟩
    rw [hs, ht] at hm hi
    simp only at hm hi
    rw [hm, hi]
  subst e
  rfl

/-! ## 1. The writes -/

/-- No other object of the index shares a unique key with `a`. -/
def free (s : Store S) (k : S.Kind) (i : Nat) (a : S.Obj k) : Bool :=
  match S.uniqueKey k with
  | none => true
  | some c => (s.rows k).all fun p => p.1 = i || !c a p.2

theorem free_iff {s : Store S} {k : S.Kind} {i : Nat} {a : S.Obj k} :
    s.free k i a = true ↔ ∀ j b, j ≠ i → s.get k j = some b → S.clashes k a b = false := by
  unfold free Schema.clashes
  cases S.uniqueKey k with
  | none => simp
  | some c =>
    simp only [List.all_eq_true, Bool.or_eq_true, decide_eq_true_eq, Bool.not_eq_true']
    constructor
    · intro h j b hj hb
      rcases h (j, b) (FMap.mem_rows.mpr hb) with e | hc
      · exact absurd e hj
      · exact hc
    · rintro h ⟨j, b⟩ hm
      by_cases e : j = i
      · exact Or.inl e
      · exact Or.inr (h j b e (FMap.mem_rows.mp hm))

/-- The entry `o` at instance `i` of index `k`; the index accepts it when `hf` holds. -/
def put (s : Store S) (k : S.Kind) (i : Nat) (o : Option (S.Obj k))
    (hf : ∀ a, o = some a → s.free k i a = true) : Store S where
  table := Function.update s.table k
    { nextId := (s.table k).nextId, map := (s.table k).map.put i o }
  unique := by
    intro k' x y a b hxy ha hb
    by_cases hk : k' = k
    · subst hk
      simp only [Function.update_self, FMap.get_put] at ha hb
      -- one of the two entries may be the new one; then `free` speaks about the other
      split at ha
      · rename_i ex
        subst ex
        rw [if_neg (fun e => hxy e.symm)] at hb
        exact free_iff.mp (hf a ha) y b (fun e => hxy e.symm) hb
      · split at hb
        · rename_i ey
          subst ey
          rw [S.clashes_comm]
          exact free_iff.mp (hf b hb) x a hxy ha
        · exact s.unique k' x y a b hxy ha hb
    · rw [Function.update_of_ne hk] at ha hb
      exact s.unique k' x y a b hxy ha hb

def write (s : Store S) (k : S.Kind) (i : Nat) (a : S.Obj k) (h : s.free k i a = true) :
    Store S :=
  s.put k i (some a) fun b hb => by cases hb; exact h

def erase (s : Store S) (k : S.Kind) (i : Nat) : Store S :=
  s.put k i none fun _ h => by cases h

def setNextId (s : Store S) (k : S.Kind) (n : Nat) : Store S where
  table := Function.update s.table k { nextId := n, map := (s.table k).map }
  unique := by
    intro k' x y a b hxy ha hb
    by_cases hk : k' = k
    · subst hk
      simp only [Function.update_self] at ha hb
      exact s.unique k' x y a b hxy ha hb
    · rw [Function.update_of_ne hk] at ha hb
      exact s.unique k' x y a b hxy ha hb

theorem get_put_self (s : Store S) (k : S.Kind) (i j : Nat) (o : Option (S.Obj k))
    (hf : ∀ a, o = some a → s.free k i a = true) :
    (s.put k i o hf).get k j = if j = i then o else s.get k j := by
  simp [get, put]

theorem get_put_ne (s : Store S) {k k' : S.Kind} (hk : k' ≠ k) (i j : Nat)
    (o : Option (S.Obj k)) (hf : ∀ a, o = some a → s.free k i a = true) :
    (s.put k i o hf).get k' j = s.get k' j := by
  simp [get, put, Function.update_of_ne hk]

@[simp] theorem nextId_put (s : Store S) (k k' : S.Kind) (i : Nat) (o : Option (S.Obj k))
    (hf : ∀ a, o = some a → s.free k i a = true) :
    (s.put k i o hf).nextId k' = s.nextId k' := by
  by_cases hk : k' = k
  · subst hk
    simp [nextId, put]
  · simp [nextId, put, Function.update_of_ne hk]

@[simp] theorem get_write_self (s : Store S) (k : S.Kind) (i j : Nat) (a : S.Obj k)
    (h : s.free k i a = true) :
    (s.write k i a h).get k j = if j = i then some a else s.get k j := get_put_self ..

theorem get_write_ne (s : Store S) {k k' : S.Kind} (hk : k' ≠ k) (i j : Nat) (a : S.Obj k)
    (h : s.free k i a = true) : (s.write k i a h).get k' j = s.get k' j := get_put_ne _ hk ..

@[simp] theorem nextId_write (s : Store S) (k k' : S.Kind) (i : Nat) (a : S.Obj k)
    (h : s.free k i a = true) : (s.write k i a h).nextId k' = s.nextId k' := nextId_put ..

@[simp] theorem get_erase_self (s : Store S) (k : S.Kind) (i j : Nat) :
    (s.erase k i).get k j = if j = i then none else s.get k j := get_put_self ..

theorem get_erase_ne (s : Store S) {k k' : S.Kind} (hk : k' ≠ k) (i j : Nat) :
    (s.erase k i).get k' j = s.get k' j := get_put_ne _ hk ..

@[simp] theorem nextId_erase (s : Store S) (k k' : S.Kind) (i : Nat) :
    (s.erase k i).nextId k' = s.nextId k' := nextId_put ..

@[simp] theorem get_setNextId (s : Store S) (k k' : S.Kind) (n i : Nat) :
    (s.setNextId k n).get k' i = s.get k' i := by
  by_cases hk : k' = k
  · subst hk
    simp [get, setNextId]
  · simp [get, setNextId, Function.update_of_ne hk]

theorem nextId_setNextId (s : Store S) (k k' : S.Kind) (n : Nat) :
    (s.setNextId k n).nextId k' = if k' = k then n else s.nextId k' := by
  by_cases hk : k' = k
  · subst hk
    simp [nextId, setNextId]
  · simp [nextId, setNextId, hk]

/-- A lookup after a write, without knowing whether the kinds are the same. -/
theorem get_write_of_ne (s : Store S) {k k' : S.Kind} {i j : Nat} {a : S.Obj k}
    (h : s.free k i a = true) (hne : ¬(k' = k ∧ j = i)) :
    (s.write k i a h).get k' j = s.get k' j := by
  by_cases hk : k' = k
  · subst hk
    rw [get_write_self, if_neg fun e => hne ⟨rfl, e⟩]
  · exact get_write_ne s hk i j a h

theorem get_erase_of_ne (s : Store S) {k k' : S.Kind} {i j : Nat} (hne : ¬(k' = k ∧ j = i)) :
    (s.erase k i).get k' j = s.get k' j := by
  by_cases hk : k' = k
  · subst hk
    rw [get_erase_self, if_neg fun e => hne ⟨rfl, e⟩]
  · exact get_erase_ne s hk i j

/-! ## 2. Ids in use -/

/-- Every id in use has been handed out. -/
def Fresh (s : Store S) : Prop := ∀ k i a, s.get k i = some a → i < s.nextId k

theorem Fresh.get_none {s : Store S} (h : s.Fresh) {k : S.Kind} {i : Nat}
    (hi : s.nextId k ≤ i) : s.get k i = none := by
  cases hg : s.get k i with
  | none => rfl
  | some a => exact absurd (h k i a hg) (by omega)

end Store

end MuseChain
