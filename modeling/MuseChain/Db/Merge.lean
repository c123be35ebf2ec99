/-
  File:      MuseChain/Db/Merge.lean
  Subject:   merge() composes two undo states.

  `Sound u cur base` adds to `Undoes` what the id allocation gives: every id in use is below its
  index's next id, and what a session made has ids that were not in use before it. This is what
  rules out the N/A cells of the matrix in the comment of merge().
    * `KindUndo.merge_tells`: the matrix, one object at a time;
    * `Sound.merge`: the merged state leads from `cur` to the older `base`;
    * `Sound.create`, `Sound.modify`, `Sound.remove`: the operations keep it.
-/
import MuseChain.Db.Rollback

namespace MuseChain

/-! ## 1. The three loops, one object at a time -/

namespace KindUndo

variable {α β : Type}

theorem SameAt.refl (u : KindUndo α) (i : Nat) : SameAt u u i := ⟨rfl, rfl, rfl⟩

theorem SameAt.trans {u v w : KindUndo α} {i : Nat} (h : SameAt u v i) (h' : SameAt v w i) :
    SameAt u w i := ⟨h.1.trans h'.1, h.2.1.trans h'.2.1, h.2.2.trans h'.2.2⟩

/-- A loop body that reads and writes only what the state holds about its own object. -/
structure Local (f : KindUndo α → Nat → β → KindUndo α) : Prop where
  other : ∀ u i j y, j ≠ i → SameAt u (f u i y) j
  congr : ∀ u v i y, SameAt u v i → SameAt (f u i y) (f v i y) i
  nextId : ∀ u i y, (f u i y).oldNextId = u.oldNextId

theorem foldRows_other {f : KindUndo α → Nat → β → KindUndo α} (hf : Local f) {j : Nat} :
    ∀ {r : List (Nat × β)} {p : KindUndo α}, (∀ x ∈ r, x.1 ≠ j) → SameAt p (foldRows f r p) j
  | [], p, _ => SameAt.refl p j
  | (i, y) :: _, p, h =>
      (hf.other p i j y (Ne.symm (h (i, y) List.mem_cons_self))).trans
        (foldRows_other hf fun x hx => h x (List.mem_cons_of_mem _ hx))

theorem foldRows_mem {f : KindUndo α → Nat → β → KindUndo α} (hf : Local f) {i : Nat} {y : β} :
    ∀ {r : List (Nat × β)} {p : KindUndo α}, r.Pairwise (fun x z => x.1 < z.1) → (i, y) ∈ r →
      SameAt (f p i y) (foldRows f r p) i
  | (j, z) :: r, p, hs, hm => by
      obtain ⟨hlt, hr⟩ := List.pairwise_cons.mp hs
      rcases List.mem_cons.mp hm with e | hm
      · simp only [Prod.mk.injEq] at e
        obtain ⟨rfl, rfl⟩ := e
        refine foldRows_other hf fun x hx => ?_
        have : i < x.1 := hlt x hx
        omega
      · have hji : j < i := hlt (i, y) hm
        refine SameAt.trans ?_ (foldRows_mem (p := f p j z) hf hr hm)
        exact hf.congr p (f p j z) i y (hf.other p j i z (by omega))

theorem foldRows_nextId {f : KindUndo α → Nat → β → KindUndo α} (hf : Local f) :
    ∀ (r : List (Nat × β)) (p : KindUndo α), (foldRows f r p).oldNextId = p.oldNextId
  | [], _ => rfl
  | (i, y) :: r, p => (foldRows_nextId hf r (f p i y)).trans (hf.nextId p i y)

/-- What a loop over a whole container does to object `i`. -/
theorem foldRows_at {f : KindUndo α → Nat → β → KindUndo α} (hf : Local f) (m : FMap β)
    (p : KindUndo α) (i : Nat) :
    (∀ y, m.get i = some y → SameAt (f p i y) (foldRows f m.rows p) i) ∧
      (m.get i = none → SameAt p (foldRows f m.rows p) i) := by
  refine ⟨fun y h => foldRows_mem hf m.sorted (FMap.mem_rows.mpr h), fun h => ?_⟩
  refine foldRows_other hf fun x hx e => ?_
  have hx' : m.get x.1 = some x.2 := FMap.mem_rows.mp hx
  rw [e, h] at hx'
  cases hx'

theorem mergeOld_local : Local (@mergeOld α) where
  other u i j y h := by
    unfold mergeOld
    split
    · exact SameAt.refl u j
    · split
      · exact SameAt.refl u j
      · simp [SameAt, h]
  congr u v i y h := by
    obtain ⟨ho, hn, hr⟩ := h
    unfold mergeOld
    rw [hn, ho]
    split
    · exact ⟨ho, hn, hr⟩
    · split
      · exact ⟨ho, hn, hr⟩
      · simp [SameAt, hn, hr]
  nextId u i y := by
    unfold mergeOld
    split
    · rfl
    · split <;> rfl

theorem mergeNew_local : Local (@mergeNew α) where
  other u i j y h := by simp [SameAt, mergeNew, h]
  congr u v i y h := by simp [SameAt, mergeNew, h.1, h.2.2]
  nextId _ _ _ := rfl

theorem mergeRemoved_local : Local (@mergeRemoved α) where
  other u i j y h := by
    unfold mergeRemoved
    split
    · simp [SameAt, h]
    · split <;> simp [SameAt, h]
  congr u v i y h := by
    obtain ⟨ho, hn, hr⟩ := h
    unfold mergeRemoved
    rw [hn, ho]
    split
    · simp [SameAt, ho, hr]
    · split
      · simp [SameAt, hn]
      · simp [SameAt, ho, hn]
  nextId u i y := by
    unfold mergeRemoved
    split
    · rfl
    · split <;> rfl

/-! ## 2. The matrix of merge() -/

/-- What `merge` makes of object `i`: the cell of the matrix that `B` selects. -/
theorem merge_at (A B : KindUndo α) (i : Nat) :
    (∀ y, B.oldValues.get i = some y → B.newIds.get i = none → B.removed.get i = none →
        SameAt (mergeOld A i y) (A.merge B) i) ∧
      (B.oldValues.get i = none → (B.newIds.get i).isSome → B.removed.get i = none →
        SameAt (mergeNew A i ()) (A.merge B) i) ∧
      (∀ y, B.oldValues.get i = none → B.newIds.get i = none → B.removed.get i = some y →
        SameAt (mergeRemoved A i y) (A.merge B) i) ∧
      (B.oldValues.get i = none → B.newIds.get i = none → B.removed.get i = none →
        SameAt A (A.merge B) i) := by
  have h1 := foldRows_at mergeOld_local B.oldValues A i
  have h2 := foldRows_at mergeNew_local B.newIds (foldRows mergeOld B.oldValues.rows A) i
  have h3 := foldRows_at mergeRemoved_local B.removed
    { foldRows mergeNew B.newIds.rows (foldRows mergeOld B.oldValues.rows A) with
      oldNextId := (foldRows mergeNew B.newIds.rows
        (foldRows mergeOld B.oldValues.rows A)).oldNextId.orElse fun _ => B.oldNextId } i
  refine ⟨fun y ho hn hr => ?_, fun ho hn hr => ?_, fun y ho hn hr => ?_, fun ho hn hr => ?_⟩
  · exact ((h1.1 y ho).trans (h2.2 hn)).trans (h3.2 hr)
  · obtain ⟨u, hu⟩ := Option.isSome_iff_exists.mp hn
    exact ((mergeNew_local.congr _ _ i () (h1.2 ho)).trans (h2.1 u hu)).trans (h3.2 hr)
  · refine SameAt.trans ?_ (h3.1 y hr)
    exact mergeRemoved_local.congr _ _ i y ((h1.2 ho).trans (h2.2 hn))
  · exact ((h1.2 ho).trans (h2.2 hn)).trans (h3.2 hr)

theorem merge_nextId (A B : KindUndo α) :
    (A.merge B).oldNextId = A.oldNextId.orElse fun _ => B.oldNextId := by
  simp only [merge]
  rw [foldRows_nextId mergeRemoved_local]
  simp only
  rw [foldRows_nextId mergeNew_local, foldRows_nextId mergeOld_local]

/-- A session that says nothing more about an object once it is gone again. -/
theorem Tells.new_none {u : KindUndo α} {i : Nat} {c b : Option α} (h : u.Tells i c b)
    (hb : b = none) : u.removed.get i = none ∧ u.oldValues.get i = none := by
  have hw := h.was
  rw [hb] at hw
  unfold KindUndo.was at hw
  cases hr : u.removed.get i with
  | some x => simp [hr] at hw
  | none =>
    cases ho : u.oldValues.get i with
    | some x => simp [hr, ho] at hw
    | none => exact ⟨rfl, rfl⟩

/-- **The matrix of merge()**: `B` leads from `c` to `m`, `A` from `m` to `b`, so the merged
state leads from `c` to `b`. The objects new in a session were not there before it, nor before
an earlier one. -/
theorem merge_tells {A B : KindUndo α} {i : Nat} {c m b : Option α} (hB : B.Tells i c m)
    (hA : A.Tells i m b) (hBn : (B.newIds.get i).isSome → m = none ∧ b = none)
    (hAn : (A.newIds.get i).isSome → b = none) : (A.merge B).Tells i c b := by
  obtain ⟨mOld, mNew, mDel, mNop⟩ := merge_at A B i
  cases hnB : B.newIds.get i with
  | some v =>
    -- nop + new: nothing is known about the object in `A`
    obtain ⟨hm, hb⟩ := hBn (by simp [hnB])
    obtain ⟨hrB, hoB⟩ := hB.new_none hm
    obtain ⟨hrA, hoA⟩ := hA.new_none hb
    refine Tells.of_sameAt ?_ (mNew hoB (by simp [hnB]) hrB)
    refine ⟨by simp [KindUndo.was, mergeNew, hrA, hoA, hb], by simp [mergeNew, hoA], ?_, ?_⟩
    · exact fun _ => hB.new (by simp [hnB])
    · simp [mergeNew]
  | none =>
    cases hoB : B.oldValues.get i with
    | some y =>
      obtain ⟨hc, _, hrB⟩ := hB.old y hoB
      have hm : m = some y := by rw [hB.was]; simp [KindUndo.was, hrB, hoB]
      refine Tells.of_sameAt ?_ (mOld y hoB hnB hrB)
      unfold mergeOld
      cases hnA : A.newIds.get i with
      | some v =>
        -- new + upd
        have hb := hAn (by simp [hnA])
        obtain ⟨hrA, hoA⟩ := hA.new_none hb
        rw [if_pos (by simp)]
        exact ⟨by simp [KindUndo.was, hrA, hoA, hnA, hb], by simp [hoA], fun _ => hc,
          by simp [hrA]⟩
      | none =>
        have hrA : A.removed.get i = none := by
          cases hx : A.removed.get i with
          | none => rfl
          | some x => have := hA.removed (by simp [hx]) hnA; rw [hm] at this; cases this
        rw [if_neg (by simp)]
        cases hoA : A.oldValues.get i with
        | some x =>
          -- upd + upd
          rw [if_pos (by simp)]
          refine ⟨?_, fun _ _ => ⟨hc, hnA, hrA⟩, fun _ => hc, by simp [hrA]⟩
          rw [hA.was]
          simp [KindUndo.was, hrA, hoA]
        | none =>
          -- nop + upd
          rw [if_neg (by simp)]
          refine ⟨?_, fun _ _ => ⟨hc, hnA, hrA⟩, fun _ => hc, by simp [hrA]⟩
          rw [hA.was, hm]
          simp [KindUndo.was, hrA, hoA, hnA]
    | none =>
      cases hrB : B.removed.get i with
      | some y =>
        have hc : c = none := hB.removed (by simp [hrB]) hnB
        have hm : m = some y := by rw [hB.was]; simp [KindUndo.was, hrB]
        refine Tells.of_sameAt ?_ (mDel y hoB hnB hrB)
        unfold mergeRemoved
        cases hnA : A.newIds.get i with
        | some v =>
          -- new + del
          have hb := hAn (by simp [hnA])
          obtain ⟨hrA, hoA⟩ := hA.new_none hb
          rw [if_pos (by simp)]
          exact ⟨by simp [KindUndo.was, hrA, hoA, hb, hc], by simp [hoA], by simp,
            by simp [hc]⟩
        | none =>
          have hrA : A.removed.get i = none := by
            cases hx : A.removed.get i with
            | none => rfl
            | some x => have := hA.removed (by simp [hx]) hnA; rw [hm] at this; cases this
          rw [if_neg (by simp)]
          cases hoA : A.oldValues.get i with
          | some x =>
            -- upd + del
            refine ⟨?_, by simp, by simp [hnA], by simp [hc]⟩
            rw [hA.was]
            simp [KindUndo.was, hrA, hoA]
          | none =>
            -- nop + del
            refine ⟨?_, by simp [hoA], by simp [hnA], by simp [hc]⟩
            rw [hA.was, hm]
            simp [KindUndo.was, hrA, hoA, hnA]
      | none =>
        have hm : m = c := by rw [hB.was]; simp [KindUndo.was, hrB, hoB, hnB]
        exact Tells.of_sameAt (hm ▸ hA) (mNop hoB hnB hrB)

theorem merge_newIds {A B : KindUndo α} {i : Nat} {c m : Option α} (hB : B.Tells i c m)
    (h : ((A.merge B).newIds.get i).isSome) :
    (A.newIds.get i).isSome ∨ (B.newIds.get i).isSome := by
  obtain ⟨mOld, mNew, mDel, mNop⟩ := merge_at A B i
  cases hnB : B.newIds.get i with
  | some v => exact Or.inr rfl
  | none =>
    left
    cases hoB : B.oldValues.get i with
    | some y =>
      have e := (mOld y hoB hnB (hB.old y hoB).2.2).2.1
      rw [← e] at h
      unfold mergeOld at h
      split at h
      · exact h
      · split at h <;> exact h
    | none =>
      cases hrB : B.removed.get i with
      | some y =>
        have e := (mDel y hoB hnB hrB).2.1
        rw [← e] at h
        unfold mergeRemoved at h
        split at h
        · simp at h
        · split at h <;> exact h
      | none =>
        rw [← (mNop hoB hnB hrB).2.1] at h
        exact h

end KindUndo

/-! ## 3. Whole stores -/

/-- `u` leads from `cur` back to `base`, and what it calls new has ids handed out since. -/
structure Sound {S : Schema} (u : UndoState S) (cur base : Store S) : Prop
    extends Undoes u cur base where
  freshBase : base.Fresh
  fresh : cur.Fresh
  grows : ∀ k, base.nextId k ≤ cur.nextId k
  newIds : ∀ k i, ((u k).newIds.get i).isSome → base.nextId k ≤ i

section

variable {S : Schema} {u : UndoState S} {cur base : Store S}

theorem Sound.empty {s : Store S} (h : s.Fresh) : Sound UndoState.empty s s where
  toUndoes := Undoes.empty s
  freshBase := h
  fresh := h
  grows _ := Nat.le_refl _
  newIds k i hi := by simp [UndoState.empty, KindUndo.empty] at hi

/-- An object that appears between two stores is new in the session between them. -/
theorem Sound.new_of_appears (h : Sound u cur base) {k : S.Kind} {i : Nat} {a : S.Obj k}
    (hb : base.get k i = none) (hc : cur.get k i = some a) : base.nextId k ≤ i := by
  have ht := h.tells k i
  obtain ⟨hr, ho⟩ := ht.new_none hb
  have hw := ht.was
  rw [hb, hc] at hw
  refine h.newIds k i ?_
  cases hn : (u k).newIds.get i with
  | some _ => rfl
  | none => simp [KindUndo.was, hr, ho, hn] at hw

theorem Sound.merge {A B : UndoState S} {mid : Store S} (hB : Sound B cur mid)
    (hA : Sound A mid base) : Sound (A.merge B) cur base := by
  have hBn : ∀ k i, ((B k).newIds.get i).isSome → mid.get k i = none ∧ base.get k i = none := by
    intro k i hi
    have h1 := hB.newIds k i hi
    exact ⟨hB.freshBase.get_none h1, hA.freshBase.get_none ((hA.grows k).trans h1)⟩
  refine ⟨⟨fun k i => ?_, fun k => ?_⟩, hA.freshBase, hB.fresh,
    fun k => (hA.grows k).trans (hB.grows k), fun k i hi => ?_⟩
  · exact KindUndo.merge_tells (hB.tells k i) (hA.tells k i) (hBn k i)
      fun hn => hA.freshBase.get_none (hA.newIds k i hn)
  · rw [hA.nextId k, hB.nextId k]
    show _ = ((A k).merge (B k)).oldNextId.getD _
    rw [KindUndo.merge_nextId]
    cases (A k).oldNextId <;> rfl
  · rcases KindUndo.merge_newIds (hB.tells k i) hi with h | h
    · exact hA.newIds k i h
    · exact (hA.grows k).trans (hB.newIds k i h)

theorem Store.Fresh.write {s : Store S} (h : s.Fresh) {k : S.Kind} {i : Nat} {a : S.Obj k}
    (hf : s.free k i a = true) (hi : i < s.nextId k) : (s.write k i a hf).Fresh := by
  intro k' j b hb
  rw [Store.nextId_write]
  by_cases e : k' = k ∧ j = i
  · obtain ⟨rfl, rfl⟩ := e
    exact hi
  · rw [Store.get_write_of_ne s hf e] at hb
    exact h k' j b hb

theorem Store.Fresh.erase {s : Store S} (h : s.Fresh) (k : S.Kind) (i : Nat) :
    (s.erase k i).Fresh := by
  intro k' j b hb
  rw [Store.nextId_erase]
  by_cases e : k' = k ∧ j = i
  · obtain ⟨rfl, rfl⟩ := e
    simp at hb
  · rw [Store.get_erase_of_ne s e] at hb
    exact h k' j b hb

theorem Store.Fresh.create {s : Store S} (h : s.Fresh) {k : S.Kind} {a : S.Obj k}
    (hf : s.free k (s.nextId k) a = true) :
    ((s.write k (s.nextId k) a hf).setNextId k (s.nextId k + 1)).Fresh := by
  intro k' j b hb
  rw [Store.get_setNextId] at hb
  rw [Store.nextId_setNextId, Store.nextId_write]
  by_cases e : k' = k ∧ j = s.nextId k
  · obtain ⟨rfl, rfl⟩ := e
    simp
  · rw [Store.get_write_of_ne s hf e] at hb
    have hlt := h k' j b hb
    split
    · rename_i hk
      subst hk
      omega
    · exact hlt

theorem Sound.create (h : Sound u cur base) {k : S.Kind} {a : S.Obj k}
    (hf : cur.free k (cur.nextId k) a = true) :
    Sound (u.upd k fun w => w.onCreate (cur.nextId k))
      ((cur.write k (cur.nextId k) a hf).setNextId k (cur.nextId k + 1)) base where
  toUndoes := undoes_create h.toUndoes (h.fresh.get_none (Nat.le_refl _)) hf
  freshBase := h.freshBase
  fresh := h.fresh.create hf
  grows k' := by
    rw [Store.nextId_setNextId, Store.nextId_write]
    have := h.grows k'
    split
    · rename_i hk
      subst hk
      omega
    · exact this
  newIds k' i hi := by
    by_cases hk : k' = k
    · subst hk
      simp only [UndoState.upd_self, KindUndo.onCreate, FMap.get_put] at hi
      split at hi
      · rename_i e
        rw [e]
        exact h.grows k'
      · exact h.newIds k' i hi
    · rw [UndoState.upd_ne u hk] at hi
      exact h.newIds k' i hi

theorem Sound.modify (h : Sound u cur base) {k : S.Kind} {i : Nat} {a b : S.Obj k}
    (hg : cur.get k i = some a) (hf : cur.free k i b = true) :
    Sound (u.upd k fun w => w.onModify i a) (cur.write k i b hf) base where
  toUndoes := undoes_modify h.toUndoes hg hf
  freshBase := h.freshBase
  fresh := h.fresh.write hf (h.fresh k i a hg)
  grows k' := by rw [Store.nextId_write]; exact h.grows k'
  newIds k' j hj := by
    by_cases hk : k' = k
    · subst hk
      rw [UndoState.upd_self] at hj
      unfold KindUndo.onModify at hj
      refine h.newIds k' j ?_
      split at hj
      · exact hj
      · split at hj <;> exact hj
    · rw [UndoState.upd_ne u hk] at hj
      exact h.newIds k' j hj

theorem Sound.remove (h : Sound u cur base) {k : S.Kind} {i : Nat} {a : S.Obj k}
    (hg : cur.get k i = some a) :
    Sound (u.upd k fun w => w.onRemove i a) (cur.erase k i) base where
  toUndoes := undoes_remove h.toUndoes hg
  freshBase := h.freshBase
  fresh := h.fresh.erase k i
  grows k' := by rw [Store.nextId_erase]; exact h.grows k'
  newIds k' j hj := by
    by_cases hk : k' = k
    · subst hk
      rw [UndoState.upd_self] at hj
      unfold KindUndo.onRemove at hj
      refine h.newIds k' j ?_
      split at hj
      · simp only [FMap.get_put] at hj
        split at hj
        · cases hj
        · exact hj
      · split at hj
        · exact hj
        · split at hj <;> exact hj
    · rw [UndoState.upd_ne u hk] at hj
      exact h.newIds k' j hj

end

end MuseChain
