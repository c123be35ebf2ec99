/-
  File:      MuseChain/Db/Files.lean
  Subject:   Writing the object database to disk and reading it back: object_database::flush and
             object_database::open.

  An index file has the next id and one packed object after the other. What unpacking makes of a
  packed object is a parameter, `reread`: a member that the class does not list comes back with its
  default. `get_openFiles`: as long as rereading keeps the unique keys, every object comes back,
  reread. Without that, `insert` would throw, and `open` takes any exception for the end of the file.
-/
import MuseChain.Db.Store

namespace MuseChain

variable {S : Schema}

/-! ## 1. The files -/

/-- What `primary_index::save` writes: the next id, and the objects in the order of their ids. -/
structure IndexFile (α : Type) where
  nextId : Nat
  objects : List (Nat × α)

abbrev Files (S : Schema) : Type := (k : S.Kind) → IndexFile (S.Obj k)

namespace Store

def empty : Store S where
  table _ := ⟨0, FMap.empty⟩
  unique := by
    intro k i j a b _ ha _
    cases ha

def flush (s : Store S) : Files S := fun k => ⟨s.nextId k, s.rows k⟩

section

variable (reread : (k : S.Kind) → S.Obj k → S.Obj k)

/-- `insert` accepts the object: a multi_index_container wants the id and the unique keys new. -/
def accepts (t : Store S) (k : S.Kind) (i : Nat) (a : S.Obj k) : Bool :=
  t.free k i a && (!S.erases k || (t.get k i).isNone)

/-- The loop of `primary_index::open`, up to the first object that `insert` refuses. -/
def load (k : S.Kind) : List (Nat × S.Obj k) → Store S → Store S
  | [], t => t
  | (i, a) :: r, t =>
      if h : t.accepts k i (reread k a) = true then
        load k r (t.write k i (reread k a) (Bool.and_eq_true_iff.mp h).1)
      else t

def openIndex (t : Store S) (k : S.Kind) (f : IndexFile (S.Obj k)) : Store S :=
  load reread k f.objects (t.setNextId k f.nextId)

def openFrom (f : Files S) (l : List S.Kind) (t : Store S) : Store S :=
  l.foldl (fun t k => openIndex reread t k (f k)) t

/-- `object_database::open` of an empty database. -/
def openFiles (f : Files S) : Store S := openFrom reread f S.kinds empty

/-! ## 2. One index -/

theorem get_load_ne {k k' : S.Kind} (hk : k' ≠ k) (r : List (Nat × S.Obj k)) (t : Store S)
    (i : Nat) : (load reread k r t).get k' i = t.get k' i := by
  induction r generalizing t with
  | nil => rfl
  | cons p r ih =>
    obtain ⟨j, a⟩ := p
    unfold load
    split
    · rw [ih, get_write_ne _ hk]
    · rfl

theorem nextId_load {k : S.Kind} (r : List (Nat × S.Obj k)) (t : Store S) (k' : S.Kind) :
    (load reread k r t).nextId k' = t.nextId k' := by
  induction r generalizing t with
  | nil => rfl
  | cons p r ih =>
    obtain ⟨j, a⟩ := p
    unfold load
    split
    · rw [ih, nextId_write]
    · rfl

variable {reread}

/-- Reread objects clash as little as the objects did. -/
theorem clashes_reread (hkey : ∀ k a, S.SameKey k a (reread k a)) {s : Store S} {k : S.Kind}
    {i j : Nat} {a b : S.Obj k} (hij : i ≠ j) (ha : s.get k i = some a) (hb : s.get k j = some b) :
    S.clashes k (reread k a) (reread k b) = false := by
  rw [← hkey k a, S.clashes_comm, ← hkey k b, S.clashes_comm]
  exact s.unique k i j a b hij ha hb

/-- The rest of the objects is loaded behind the ones that are there already. -/
theorem get_load (hkey : ∀ k a, S.SameKey k a (reread k a)) {s : Store S} {k : S.Kind}
    {r : List (Nat × S.Obj k)} (hr : r.Pairwise fun p q => p.1 < q.1)
    (hs : ∀ p ∈ r, s.get k p.1 = some p.2) {t : Store S}
    (ht : ∀ i, t.get k i = if (FMap.getRows r i).isSome = true then none
      else (s.get k i).map (reread k)) (i : Nat) :
    (load reread k r t).get k i = (s.get k i).map (reread k) := by
  induction r generalizing t with
  | nil => exact ht i
  | cons p r ih =>
    obtain ⟨j, a⟩ := p
    obtain ⟨hlt, hr'⟩ := List.pairwise_cons.mp hr
    have ha : s.get k j = some a := hs (j, a) List.mem_cons_self
    have hnone : t.get k j = none := by
      rw [ht j]
      simp [FMap.getRows]
    have hfree : t.free k j (reread k a) = true := by
      refine free_iff.mpr fun j' b hj hb => ?_
      rw [ht j'] at hb
      split at hb
      · cases hb
      · obtain ⟨b', hb', rfl⟩ := Option.map_eq_some_iff.mp hb
        exact clashes_reread hkey hj.symm ha hb'
    have hacc : t.accepts k j (reread k a) = true := by
      simp [accepts, hfree, hnone]
    unfold load
    rw [dif_pos hacc]
    refine ih hr' (fun p hp => hs p (List.mem_cons_of_mem _ hp)) fun i => ?_
    rw [get_write_self]
    by_cases hij : i = j
    · subst hij
      rw [if_pos rfl, FMap.getRows_none_of_lt hlt, if_neg (by simp), ha]
      rfl
    · rw [if_neg hij, ht i]
      simp only [FMap.getRows, if_neg hij]

theorem get_openIndex (hkey : ∀ k a, S.SameKey k a (reread k a)) {s t : Store S} {k : S.Kind}
    (ht : ∀ i, t.get k i = none) (i : Nat) :
    (openIndex reread t k (s.flush k)).get k i = (s.get k i).map (reread k) := by
  unfold openIndex flush
  refine get_load hkey (s.table k).map.sorted (fun p hp => FMap.mem_rows.mp hp) (fun i => ?_) i
  rw [get_setNextId, ht i]
  split
  · rfl
  · rename_i h
    have hnone : s.get k i = none := Option.not_isSome_iff_eq_none.mp h
    rw [hnone]
    rfl

/-! ## 3. All indexes -/

theorem get_openFrom (hkey : ∀ k a, S.SameKey k a (reread k a)) {s : Store S} {l : List S.Kind}
    (hl : l.Nodup) {t : Store S} (ht : ∀ k ∈ l, ∀ i, t.get k i = none) (k : S.Kind) (i : Nat) :
    (openFrom reread s.flush l t).get k i =
      if k ∈ l then (s.get k i).map (reread k) else t.get k i := by
  induction l generalizing t with
  | nil => rfl
  | cons k' l ih =>
    obtain ⟨hk', hl⟩ := List.nodup_cons.mp hl
    have hne : ∀ x, x ≠ k' → ∀ i, (openIndex reread t k' (s.flush k')).get x i = t.get x i := by
      intro x hx i
      unfold openIndex
      rw [get_load_ne reread hx, get_setNextId]
    have hrest : ∀ x ∈ l, ∀ i, (openIndex reread t k' (s.flush k')).get x i = none := by
      intro x hx i
      rw [hne x (fun e => hk' (e ▸ hx))]
      exact ht x (List.mem_cons_of_mem _ hx) i
    show (openFrom reread s.flush l (openIndex reread t k' (s.flush k'))).get k i = _
    rw [ih hl hrest]
    by_cases hk : k = k'
    · subst hk
      rw [if_neg hk', if_pos List.mem_cons_self]
      exact get_openIndex hkey (ht k List.mem_cons_self) i
    · rw [hne k hk]
      by_cases hm : k ∈ l
      · rw [if_pos hm, if_pos (List.mem_cons_of_mem _ hm)]
      · rw [if_neg hm, if_neg fun h => (List.mem_cons.mp h).elim hk hm]

theorem nextId_openFrom (s : Store S) (l : List S.Kind) (t : Store S) (k : S.Kind) :
    (openFrom reread s.flush l t).nextId k = if k ∈ l then s.nextId k else t.nextId k := by
  induction l generalizing t with
  | nil => rfl
  | cons k' l ih =>
    show (openFrom reread s.flush l (openIndex reread t k' (s.flush k'))).nextId k = _
    have hone : (openIndex reread t k' (s.flush k')).nextId k =
        if k = k' then s.nextId k' else t.nextId k := by
      unfold openIndex
      rw [nextId_load, nextId_setNextId]
      rfl
    rw [ih, hone]
    by_cases hk : k = k'
    · subst hk
      simp
    · by_cases hm : k ∈ l
      · rw [if_pos hm, if_pos (List.mem_cons_of_mem _ hm)]
      · rw [if_neg hm, if_neg hk, if_neg fun h => (List.mem_cons.mp h).elim hk hm]

/-- **What was flushed comes back, object by object as unpacking gives it.** -/
theorem get_openFiles (hkey : ∀ k a, S.SameKey k a (reread k a)) (s : Store S) (k : S.Kind)
    (i : Nat) : (openFiles reread s.flush).get k i = (s.get k i).map (reread k) := by
  unfold openFiles
  rw [get_openFrom hkey S.nodup_kinds fun k _ i => rfl, if_pos (S.mem_kinds k)]

theorem nextId_openFiles (s : Store S) (k : S.Kind) :
    (openFiles reread s.flush).nextId k = s.nextId k := by
  unfold openFiles
  rw [nextId_openFrom, if_pos (S.mem_kinds k)]

end

end Store

end MuseChain
