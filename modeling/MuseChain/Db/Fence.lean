/-
  File:      MuseChain/Db/Fence.lean
  Subject:   A law that a licence respects holds of every object, however a run ends.

  An undo puts saved values back; so the law must also hold between an object and what the undo
  states of nested sessions have saved of it (`Back`). The states below, of the sessions that are
  not undone in the run, may hold anything: `Fenced` draws the line. `Acts.obeys` makes no
  exception for an undo that stops halfway or that finds less on the stack than it put there.
-/
import MuseChain.Db.Licence

namespace MuseChain

variable {S : Schema}

/-! ## 1. Saved values against a law -/

/-- What may become of the object with an id. -/
structure IdLaw (S : Schema) where
  rel : (k : S.Kind) → Nat → Option (S.Obj k) → Option (S.Obj k) → Prop
  refl : ∀ k i o, rel k i o o
  trans : ∀ k i o p q, rel k i o p → rel k i p q → rel k i o q

/-- The same for all ids. -/
def Law.idLaw (L : Law S) : IdLaw S := ⟨fun k _ => L.rel k, fun k _ => L.refl k, fun k _ => L.trans k⟩

/-- Every object has become what the law allows. -/
def IdLaw.Kept (L : IdLaw S) (s t : Store S) : Prop := ∀ k i, L.rel k i (s.get k i) (t.get k i)

/-- The licence keeps to the law. -/
structure Licence.Respects (P : Licence S) (L : IdLaw S) : Prop where
  create : ∀ {k i a}, P.create k a → L.rel k i none (some a)
  modify : ∀ {k i a b}, P.modify k i a b → L.rel k i (some a) (some b)
  remove : ∀ {k i a}, P.remove k i a → L.rel k i (some a) none
  spoil : ∀ {k i}, P.spoil k → ∀ a, L.rel k i (some a) none

section

variable {L : IdLaw S} {s t u : Store S}

theorem IdLaw.Kept.refl (s : Store S) : L.Kept s s := fun k i => L.refl k i _

theorem IdLaw.Kept.trans (h : L.Kept s t) (h' : L.Kept t u) : L.Kept s u :=
  fun k i => L.trans k i _ _ _ (h k i) (h' k i)

theorem IdLaw.Kept.setNextId {k : S.Kind} {m : Nat} (h : L.Kept s t) :
    L.Kept s (t.setNextId k m) := by
  intro k' i
  rw [Store.get_setNextId]
  exact h k' i

theorem IdLaw.kept_put {k : S.Kind} {i : Nat} {o : Option (S.Obj k)}
    {hf : ∀ a, o = some a → s.free k i a = true} (h : L.rel k i (s.get k i) o) :
    L.Kept s (s.put k i o hf) := by
  intro k' j
  by_cases hk : k' = k
  · subst hk
    rw [Store.get_put_self]
    split
    · rename_i e
      rw [e]
      exact h
    · exact L.refl _ _ _
  · rw [Store.get_put_ne _ hk]
    exact L.refl _ _ _

theorem IdLaw.kept_write (L : IdLaw S) {k : S.Kind} {i : Nat} {a b : S.Obj k}
    (hf : s.free k i b = true) (hg : s.get k i = some a) (h : L.rel k i (some a) (some b)) :
    L.Kept s (s.write k i b hf) := by
  refine IdLaw.kept_put ?_
  rw [hg]
  exact h

end

/-- From what the objects may become, the law allows the way back. -/
def Reversible (L : IdLaw S) (s : Store S) : Prop :=
  ∀ k i o, L.rel k i (s.get k i) o → L.rel k i o (s.get k i)

theorem Reversible.back {L : IdLaw S} {s t : Store S} (h : Reversible L s) (ho : L.Kept s t) :
    L.Kept t s := fun k i => h k i _ (ho k i)

theorem Reversible.of_kept {L : IdLaw S} {s t : Store S} (h : Reversible L s)
    (ho : L.Kept s t) : Reversible L t := fun k i o hr =>
  L.trans k i _ _ _ (h k i o (L.trans k i _ _ _ (ho k i) hr)) (ho k i)

/-- Putting back what the state has saved about one index keeps to the law, also when the
container refuses it. -/
structure KindBack (L : IdLaw S) (k : S.Kind) (w : KindUndo (S.Obj k)) (s : Store S) : Prop where
  old : ∀ i a, w.oldValues.get i = some a →
    L.rel k i (s.get k i) (some a) ∧ (S.uniqueKey k = none ∨ L.rel k i (s.get k i) none)
  new : ∀ i x, w.newIds.get i = some x → L.rel k i (s.get k i) none
  removed : ∀ i a, w.removed.get i = some a → L.rel k i (s.get k i) (some a)

def Back (L : IdLaw S) (u : UndoState S) (s : Store S) : Prop := ∀ k, KindBack L k (u k) s

section

variable {L : IdLaw S} {k : S.Kind} {w v : KindUndo (S.Obj k)} {s t : Store S}

theorem KindBack.empty : KindBack L k KindUndo.empty s := by
  refine ⟨fun i a h => ?_, fun i x h => ?_, fun i a h => ?_⟩
  · cases h
  · cases h
  · cases h

theorem Back.empty : Back L UndoState.empty s := fun _ => KindBack.empty

theorem Back.of_kept {u : UndoState S} (h : Back L u s) (hs : L.Kept t s) : Back L u t := by
  intro k
  refine ⟨fun i a hi => ?_, fun i x hi => ?_, fun i a hi => ?_⟩
  · obtain ⟨h1, h2⟩ := (h k).old i a hi
    exact ⟨L.trans k i _ _ _ (hs k i) h1, h2.imp_right (L.trans k i _ _ _ (hs k i))⟩
  · exact L.trans k i _ _ _ (hs k i) ((h k).new i x hi)
  · exact L.trans k i _ _ _ (hs k i) ((h k).removed i a hi)

theorem Back.upd {u : UndoState S} {f : KindUndo (S.Obj k) → KindUndo (S.Obj k)} (h : Back L u s)
    (hf : KindBack L k (u k) s → KindBack L k (f (u k)) s) : Back L (u.upd k f) s := by
  intro k'
  by_cases hk : k' = k
  · subst hk
    rw [UndoState.upd_self]
    exact hf (h k')
  · rw [UndoState.upd_ne u hk]
    exact h k'

/-! What is put into one of the maps, and what was there. -/

theorem KindBack.putOld (h : KindBack L k w s) {i : Nat} {a : S.Obj k}
    (ha : L.rel k i (s.get k i) (some a) ∧ (S.uniqueKey k = none ∨ L.rel k i (s.get k i) none)) :
    KindBack L k { w with oldValues := w.oldValues.put i (some a) } s := by
  refine ⟨fun j b hj => ?_, h.new, h.removed⟩
  simp only [FMap.get_put] at hj
  split at hj
  · rename_i e
    cases hj
    exact e ▸ ha
  · exact h.old j b hj

theorem KindBack.putNew (h : KindBack L k w s) {i : Nat} {x : Unit}
    (hi : L.rel k i (s.get k i) none) :
    KindBack L k { w with newIds := w.newIds.put i (some x) } s := by
  refine ⟨h.old, fun j y hj => ?_, h.removed⟩
  simp only [FMap.get_put] at hj
  split at hj
  · rename_i e
    exact e ▸ hi
  · exact h.new j y hj

theorem KindBack.dropNew (h : KindBack L k w s) (i : Nat) :
    KindBack L k { w with newIds := w.newIds.put i none } s := by
  refine ⟨h.old, fun j y hj => ?_, h.removed⟩
  simp only [FMap.get_put] at hj
  split at hj
  · cases hj
  · exact h.new j y hj

theorem KindBack.putRemoved (h : KindBack L k w s) {i : Nat} {a : S.Obj k}
    (ha : L.rel k i (s.get k i) (some a)) :
    KindBack L k { w with removed := w.removed.put i (some a) } s := by
  refine ⟨h.old, h.new, fun j b hj => ?_⟩
  simp only [FMap.get_put] at hj
  split at hj
  · rename_i e
    cases hj
    exact e ▸ ha
  · exact h.removed j b hj

theorem KindBack.dropOld (h : KindBack L k w s) (i : Nat) :
    KindBack L k { w with oldValues := w.oldValues.put i none } s := by
  refine ⟨fun j b hj => ?_, h.new, h.removed⟩
  simp only [FMap.get_put] at hj
  split at hj
  · cases hj
  · exact h.old j b hj

theorem KindBack.setNext (h : KindBack L k w s) (o : Option Nat) :
    KindBack L k { w with oldNextId := o } s := ⟨h.old, h.new, h.removed⟩

/-! What `on_create`, `on_modify` and `on_remove` save. -/

theorem KindBack.onCreate (h : KindBack L k w s) {i : Nat} (hi : L.rel k i (s.get k i) none) :
    KindBack L k (w.onCreate i) s :=
  (h.setNext (some (w.oldNextId.getD i))).putNew (x := ()) hi

theorem KindBack.onModify (h : KindBack L k w s) {i : Nat} {a : S.Obj k}
    (ha : L.rel k i (s.get k i) (some a) ∧ (S.uniqueKey k = none ∨ L.rel k i (s.get k i) none)) :
    KindBack L k (w.onModify i a) s := by
  unfold KindUndo.onModify
  split
  · exact h
  · split
    · exact h
    · exact h.putOld ha

theorem KindBack.onRemove (h : KindBack L k w s) {i : Nat} {a : S.Obj k}
    (ha : L.rel k i (s.get k i) (some a)) : KindBack L k (w.onRemove i a) s := by
  unfold KindUndo.onRemove
  split
  · exact h.dropNew i
  · split
    · rename_i x hx
      exact (h.putRemoved (h.old i x hx).1).dropOld i
    · split
      · exact h
      · exact h.putRemoved ha

theorem KindBack.foldRows {β : Type} {f : KindUndo (S.Obj k) → Nat → β → KindUndo (S.Obj k)}
    {r : List (Nat × β)} (hf : ∀ w, KindBack L k w s → ∀ p ∈ r, KindBack L k (f w p.1 p.2) s)
    (h : KindBack L k w s) : KindBack L k (KindUndo.foldRows f r w) s := by
  induction r generalizing w with
  | nil => exact h
  | cons p r ih =>
    obtain ⟨i, y⟩ := p
    exact ih (fun w hw q hq => hf w hw q (List.mem_cons_of_mem _ hq))
      (hf w h (i, y) List.mem_cons_self)

theorem KindBack.merge (h : KindBack L k w s) (h' : KindBack L k v s) :
    KindBack L k (w.merge v) s := by
  unfold KindUndo.merge
  refine KindBack.foldRows (fun x hx p hp => ?_) (KindBack.setNext (KindBack.foldRows
    (fun x hx p hp => ?_) (KindBack.foldRows (fun x hx p hp => ?_) h)) _)
  · have hr := h'.removed p.1 p.2 (FMap.mem_rows.mp hp)
    unfold KindUndo.mergeRemoved
    split
    · exact hx.dropNew _
    · split
      · rename_i y hy
        exact (hx.putRemoved (hx.old p.1 y hy).1).dropOld _
      · exact hx.putRemoved hr
  · exact hx.putNew (h'.new p.1 p.2 (FMap.mem_rows.mp hp))
  · have ho := h'.old p.1 p.2 (FMap.mem_rows.mp hp)
    unfold KindUndo.mergeOld
    split
    · exact hx
    · split
      · exact hx
      · exact hx.putOld ho

end

/-! ## 2. Putting back -/

/-- The objects at the end of a walk, also of one that stopped. -/
def Walk.store : Walk S → Store S
  | .ok s => s
  | .error (_, s) => s

section

variable {L : IdLaw S} {u : UndoState S} {s : Store S}

theorem forEach_kept {step : S.Kind × Nat → Store S → Walk S} {l : List (S.Kind × Nat)}
    (h : ∀ x ∈ l, ∀ t, L.Kept s t → L.Kept s (Walk.store (step x t))) {t : Store S}
    (ht : L.Kept s t) : L.Kept s (Walk.store (forEach step l t)) := by
  induction l generalizing t with
  | nil => exact ht
  | cons x l ih =>
    have hx := h x List.mem_cons_self t ht
    unfold forEach
    cases hs : step x t with
    | ok t' =>
      rw [hs] at hx
      exact ih (fun y hy => h y (List.mem_cons_of_mem _ hy)) hx
    | error e =>
      rw [hs] at hx
      exact hx

/-- From the objects at the start of the undo, one object is set to what the law allows. -/
theorem IdLaw.Kept.then_put (hrev : Reversible L s) {t : Store S} {k : S.Kind}
    {i : Nat} {o : Option (S.Obj k)} (hf : ∀ a, o = some a → t.free k i a = true)
    (ht : L.Kept s t) (ho : L.rel k i (s.get k i) o) : L.Kept s (t.put k i o hf) :=
  ht.trans (IdLaw.kept_put (L.trans k i _ _ _ (hrev.back ht k i) ho))

theorem IdLaw.Kept.then_write (hrev : Reversible L s) {t : Store S} {k : S.Kind}
    {i : Nat} {a : S.Obj k} (hf : t.free k i a = true) (ht : L.Kept s t)
    (ha : L.rel k i (s.get k i) (some a)) : L.Kept s (t.write k i a hf) :=
  IdLaw.Kept.then_put hrev _ ht ha

theorem IdLaw.Kept.then_erase (hrev : Reversible L s) {t : Store S} {k : S.Kind}
    {i : Nat} (ht : L.Kept s t) (hi : L.rel k i (s.get k i) none) : L.Kept s (t.erase k i) :=
  IdLaw.Kept.then_put hrev _ ht hi

theorem restoreOld_kept (hrev : Reversible L s) (h : Back L u s)
    (x : S.Kind × Nat) (t : Store S) (ht : L.Kept s t) :
    L.Kept s (Walk.store (restoreOld u x t)) := by
  unfold restoreOld
  split
  · exact ht
  · rename_i a ha
    obtain ⟨h1, h2⟩ := (h x.1).old x.2 a ha
    split
    · exact ht
    · split
      · rename_i hfree
        exact ht.then_write hrev hfree h1
      · rename_i hfree
        rcases h2 with hn | h2
        · -- without a unique key there is always room
          exact absurd (by simp [Store.free, hn]) hfree
        · exact ht.then_erase hrev h2

theorem removeNew_kept (hrev : Reversible L s) (x : S.Kind × Nat)
    (hx : L.rel x.1 x.2 (s.get x.1 x.2) none) (t : Store S) (ht : L.Kept s t) :
    L.Kept s (Walk.store (removeNew x t)) := by
  unfold removeNew
  split
  · exact ht
  · exact ht.then_erase hrev hx

theorem insertRemoved_kept (hrev : Reversible L s) (h : Back L u s)
    (x : S.Kind × Nat) (t : Store S) (ht : L.Kept s t) :
    L.Kept s (Walk.store (insertRemoved u x t)) := by
  unfold insertRemoved
  split
  · exact ht
  · rename_i a ha
    split
    · rename_i hroom
      exact ht.then_write hrev hroom.2 ((h x.1).removed x.2 a ha)
    · exact ht

theorem resetNextIds_kept {l : List S.Kind} {t : Store S} (ht : L.Kept s t) :
    L.Kept s (resetNextIds u l t) := by
  induction l generalizing t with
  | nil => exact ht
  | cons k l ih =>
    unfold resetNextIds
    split
    · exact ih ht.setNextId
    · exact ih ht

/-- **An undo keeps to the law, also one that stops halfway.** -/
theorem rollbackStore_kept (hrev : Reversible L s) (h : Back L u s)
    (o : WalkOrder (S.Kind × Nat)) : L.Kept s (Walk.store (rollbackStore u o s)) := by
  have h1 : L.Kept s (Walk.store
      (forEach (restoreOld u) (UndoState.keys o fun k => (u k).oldValues) s)) :=
    forEach_kept (fun x _ => restoreOld_kept hrev h x) (IdLaw.Kept.refl s)
  unfold rollbackStore
  cases e1 : forEach (restoreOld u) (UndoState.keys o fun k => (u k).oldValues) s with
  | error e =>
    rw [e1] at h1
    exact h1
  | ok s₁ =>
    rw [e1] at h1
    have h2 : L.Kept s (Walk.store
        (forEach removeNew (UndoState.keys o fun k => (u k).newIds) s₁)) := by
      refine forEach_kept (fun x hx => ?_) h1
      obtain ⟨y, hy⟩ := Option.isSome_iff_exists.mp (UndoState.mem_keys.mp hx)
      exact removeNew_kept hrev x ((h x.1).new x.2 y hy)
    show L.Kept s (Walk.store ((forEach removeNew _ s₁).bind _))
    cases e2 : forEach removeNew (UndoState.keys o fun k => (u k).newIds) s₁ with
    | error e =>
      rw [e2] at h2
      exact h2
    | ok s₂ =>
      rw [e2] at h2
      exact forEach_kept (fun x _ => insertRemoved_kept hrev h x) (resetNextIds_kept h2)

end

/-! ## 3. The line in the stack -/

/-- `B` holds of the newest undo states, of at least `m` of them or of all there are. -/
def Fenced (B : UndoState S → Prop) (m : Nat) (d : Database S) : Prop :=
  ∃ l r, d.stack = l ++ r ∧ (∀ u ∈ l, B u) ∧ (m ≤ l.length ∨ r = [])

section

variable {B : UndoState S → Prop} {m : Nat} {d d' : Database S}

/-- Every stack has a line with nothing above it. -/
theorem Fenced.zero (B : UndoState S → Prop) (d : Database S) : Fenced B 0 d :=
  ⟨[], d.stack, rfl, List.forall_mem_nil _, .inl (Nat.zero_le _)⟩

theorem Fenced.of_le {m' : Nat} (h : Fenced B m d) (hm : m' ≤ m) : Fenced B m' d := by
  obtain ⟨l, r, hs, hl, hlen⟩ := h
  exact ⟨l, r, hs, hl, hlen.imp_left hm.trans⟩

/-- The stack does not change. -/
theorem Fenced.mono {B' : UndoState S → Prop} (h : Fenced B m d) (hst : d'.stack = d.stack)
    (hB : ∀ u, B u → B' u) : Fenced B' m d' := by
  obtain ⟨l, r, hs, hl, hlen⟩ := h
  exact ⟨l, r, hst.trans hs, fun u hu => hB u (hl u hu), hlen⟩

/-- Only the top of the stack changes. -/
theorem Fenced.onTop (h : Fenced B m d) {k : S.Kind}
    {f : KindUndo (S.Obj k) → KindUndo (S.Obj k)} (hnew : B (UndoState.empty.upd k f))
    (hf : ∀ u, B u → B (u.upd k f)) : Fenced B m (d.onTop k f) := by
  obtain ⟨l, r, hs, hl, hlen⟩ := h
  unfold Database.onTop
  split
  · exact ⟨l, r, hs, hl, hlen⟩
  · rw [hs]
    cases l with
    | nil =>
      cases r with
      | nil =>
        refine ⟨[UndoState.empty.upd k f], [], rfl, fun u hu => ?_, .inr rfl⟩
        rw [List.mem_singleton.mp hu]
        exact hnew
      | cons u r =>
        refine ⟨[], u.upd k f :: r, rfl, List.forall_mem_nil _, .inl ?_⟩
        rcases hlen with hlen | hlen
        · exact hlen
        · cases hlen
    | cons u l =>
      refine ⟨u.upd k f :: l, r, rfl, fun v hv => ?_, hlen⟩
      rcases List.mem_cons.mp hv with rfl | hv
      · exact hf u (hl u List.mem_cons_self)
      · exact hl v (List.mem_cons_of_mem _ hv)

/-- A nested session puts a line of its own. -/
theorem Fenced.start (hnew : B UndoState.empty) (h : Fenced B m d) :
    Fenced B (m + 1) (d.startUndoSession true).2 := by
  obtain ⟨l, r, hs, hl, hlen⟩ := h
  rw [Action.startUndoSession_forced]
  refine ⟨UndoState.empty :: l.take d.maxSize, r.take (d.maxSize - l.length), ?_, ?_, ?_⟩
  · simp only [hs, List.take_append, List.cons_append]
  · intro u hu
    rcases List.mem_cons.mp hu with rfl | hu
    · exact hnew
    · exact hl u (List.mem_of_mem_take hu)
  · by_cases hmax : l.length ≤ d.maxSize
    · rw [List.take_of_length_le hmax, List.length_cons]
      rcases hlen with hlen | rfl
      · exact .inl (by omega)
      · exact .inr (List.take_nil)
    · exact .inr (by rw [show d.maxSize - l.length = 0 by omega, List.take_zero])

/-- The two newest states become one. -/
theorem Fenced.merge (hB : ∀ u v, B u → B v → B (u.merge v)) (h : Fenced B (m + 1) d)
    (hm : d.merge = .ok () d') : Fenced B m d' := by
  obtain ⟨l, r, hs, hl, hlen⟩ := h
  unfold Database.merge at hm
  split at hm
  · cases hm
  · split at hm
    · cases hm
    · split at hm
      · cases hm
        exact ⟨[], [], rfl, List.forall_mem_nil _, .inr rfl⟩
      · cases hm
    · rename_i state prev us hst
      cases hm
      rw [hst] at hs
      cases l with
      | nil =>
        rcases hlen with hlen | rfl
        · cases hlen
        · cases hs
      | cons v l =>
        obtain ⟨rfl, hs'⟩ := List.cons.inj hs
        cases l with
        | nil =>
          refine ⟨[], prev.merge state :: us, rfl, List.forall_mem_nil _, .inl ?_⟩
          rcases hlen with hlen | rfl
          · exact Nat.le_of_succ_le_succ hlen
          · cases hs'
        | cons v' l =>
          obtain ⟨rfl, rfl⟩ := List.cons.inj hs'
          refine ⟨prev.merge state :: l, r, rfl, fun u hu => ?_, hlen.imp_left fun h => ?_⟩
          · rcases List.mem_cons.mp hu with rfl | hu
            · exact hB prev state (hl prev (by simp)) (hl state (by simp))
            · exact hl u (by simp [hu])
          · exact Nat.le_of_succ_le_succ h

/-- An undo above the line puts back what one of the states there has saved, or nothing. -/
theorem Fenced.undo (h : Fenced B (m + 1) d) :
    Fenced B m d.undo.db ∧ (d.undo.db.store = d.store ∨
      ∃ u, B u ∧ d.undo.db.store = Walk.store (rollbackStore u d.order d.store)) := by
  have hsame : Fenced B m d := h.of_le (Nat.le_succ m)
  unfold Database.undo
  split
  · exact ⟨hsame, .inl rfl⟩
  · split
    · exact ⟨hsame, .inl rfl⟩
    · obtain ⟨l, r, hs, hl, hlen⟩ := h
      simp only [Database.rollbackState, hs]
      cases l with
      | nil =>
        rcases hlen with hlen | rfl
        · cases hlen
        · exact ⟨⟨[], [], rfl, List.forall_mem_nil _, .inr rfl⟩, .inl rfl⟩
      | cons u l =>
        have hu := hl u List.mem_cons_self
        simp only [List.cons_append]
        cases hw : rollbackStore u d.order d.store with
        | ok t =>
          exact ⟨⟨l, r, rfl, fun v hv => hl v (List.mem_cons_of_mem _ hv),
            hlen.imp_left Nat.le_of_succ_le_succ⟩, .inr ⟨u, hu, by rw [hw]; rfl⟩⟩
        | error e =>
          exact ⟨⟨u :: l, r, rfl, hl, hlen.imp_left (Nat.le_succ m).trans⟩,
            .inr ⟨u, hu, by rw [hw]; rfl⟩⟩

/-- So does a session that is dropped, whatever its undo comes to. -/
theorem Fenced.dropSession (h : Fenced B (m + 1) d) (exit : Bool) :
    Fenced B m (d.dropSession exit) ∧ ((d.dropSession exit).store = d.store ∨
      ∃ u, B u ∧ (d.dropSession exit).store = Walk.store (rollbackStore u d.order d.store)) := by
  have hu := h.undo
  unfold Database.dropSession
  cases e : d.undo with
  | ok x d₁ =>
    rw [e] at hu
    cases exit with
    | true => exact ⟨hu.1.mono rfl fun _ h => h, hu.2⟩
    | false => exact hu
  | thrown ex d₁ =>
    rw [e] at hu
    exact hu

end

/-! ## 4. Runs -/

section

variable {P : Licence S} {L : IdLaw S} {d d' : Database S}

/-- The line between what may be put back and what is below. -/
def Backed (L : IdLaw S) (m : Nat) (d : Database S) : Prop := Fenced (fun u => Back L u d.store) m d

theorem Backed.of_kept {m : Nat} (h : Backed L m d) (hst : d'.stack = d.stack)
    (ho : L.Kept d'.store d.store) : Backed L m d' :=
  Fenced.mono h hst fun _ hu => hu.of_kept ho

theorem Backed.onTop {m : Nat} (h : Backed L m d) {k : S.Kind}
    {f : KindUndo (S.Obj k) → KindUndo (S.Obj k)}
    (hf : ∀ w, KindBack L k w d.store → KindBack L k (f w) d.store) :
    Backed L m (d.onTop k f) := by
  have h1 := Fenced.onTop h (f := f) (Back.empty.upd (hf _)) fun u hu => hu.upd (hf _)
  refine Fenced.mono h1 rfl fun u hu => ?_
  rw [onTop_store]
  exact hu

/-- **Every object obeys the law afterwards, and so does whatever may still be put back.** -/
theorem Acts.kept (hP : P.Respects L) (h : Acts P d d') (hrev : Reversible L d.store) {m : Nat}
    (hf : Backed L m d) : Backed L m d' ∧ L.Kept d.store d'.store := by
  induction h generalizing m with
  | refl d => exact ⟨hf, IdLaw.Kept.refl _⟩
  | trans _ _ ih ih' =>
    obtain ⟨hf1, ho1⟩ := ih hrev hf
    obtain ⟨hf2, ho2⟩ := ih' (hrev.of_kept ho1) hf1
    exact ⟨hf2, ho1.trans ho2⟩
  | @create d k a h =>
    unfold Database.create
    simp only
    split
    · rename_i hroom
      have ho : L.Kept d.store ((d.store.write k (d.store.nextId k) a hroom.2).setNextId k
          (d.store.nextId k + 1)) := by
        refine IdLaw.Kept.setNextId (IdLaw.kept_put ?_)
        rw [hroom.1]
        exact hP.create h
      simp only [Outcome.db_ok, onTop_store]
      generalize (d.store.write k (d.store.nextId k) a hroom.2).setNextId k
        (d.store.nextId k + 1) = t at ho ⊢
      have hf1 : Backed L m { d with store := t } := hf.of_kept rfl (hrev.back ho)
      refine ⟨hf1.onTop fun w hw => hw.onCreate ?_, ho⟩
      have hnew := hrev.back ho k (d.store.nextId k)
      rw [hroom.1] at hnew
      exact hnew
    · exact ⟨hf, IdLaw.Kept.refl _⟩
  | @save d k i a hr hg =>
    rw [onTop_store]
    refine ⟨hf.onTop fun w hw => hw.onModify ⟨?_, ?_⟩, IdLaw.Kept.refl _⟩
    · rw [hg]
      exact L.refl k _ _
    · rw [hg]
      rcases hr with hr | hr
      · exact .inr (hP.spoil hr a)
      · exact .inl hr
  | write hg h hfree =>
    have ho := L.kept_write hfree hg (hP.modify h)
    exact ⟨hf.of_kept rfl (hrev.back ho), ho⟩
  | @spoil d k i h =>
    have ho : L.Kept d.store (d.store.erase k i) := by
      refine IdLaw.kept_put ?_
      cases d.store.get k i with
      | none => exact L.refl k _ _
      | some a => exact hP.spoil h a
    exact ⟨hf.of_kept rfl (hrev.back ho), ho⟩
  | @remove d k i h =>
    unfold Database.remove
    cases hg : d.store.get k i with
    | none => exact ⟨hf, IdLaw.Kept.refl _⟩
    | some a =>
      have ho : L.Kept d.store (d.store.erase k i) := by
        refine IdLaw.kept_put ?_
        rw [hg]
        exact hP.remove (h a hg)
      simp only [Outcome.db_ok, onTop_store]
      refine ⟨(hf.onTop fun w hw => hw.onRemove ?_).of_kept rfl ?_, ho⟩
      · rw [hg]
        exact L.refl k _ _
      · rw [onTop_store]
        exact hrev.back ho
  | @merged d d₁ d₂ exit h hm ih =>
    have hs : (d.startUndoSession true).2.store = d.store := startUndoSession_store d true
    have hstart : Backed L (m + 1) (d.startUndoSession true).2 :=
      Fenced.start Back.empty (Fenced.mono hf rfl fun _ hu => hs ▸ hu)
    obtain ⟨hf1, ho1⟩ := ih (by rw [hs]; exact hrev) hstart
    have hsame := (Action.merge_same hm).1
    have hf2 : Backed L m d₂ := by
      refine Fenced.mono (Fenced.merge (fun u v hu hv k => (hu k).merge (hv k)) hf1 hm) rfl ?_
      intro u hu
      rw [hsame]
      exact hu
    rw [hs, ← hsame] at ho1
    cases exit with
    | true => exact ⟨hf2.of_kept rfl (IdLaw.Kept.refl _), ho1⟩
    | false => exact ⟨hf2, ho1⟩
  | @dropped d d₁ exit h ih =>
    have hs : (d.startUndoSession true).2.store = d.store := startUndoSession_store d true
    have hstart : Backed L (m + 1) (d.startUndoSession true).2 :=
      Fenced.start Back.empty (Fenced.mono hf rfl fun _ hu => hs ▸ hu)
    obtain ⟨hf1, ho1⟩ := ih (by rw [hs]; exact hrev) hstart
    rw [hs] at ho1
    have hrev1 := hrev.of_kept ho1
    obtain ⟨hf2, hback⟩ := Fenced.dropSession hf1 exit
    have ho2 : L.Kept d₁.store (d₁.dropSession exit).store := by
      rcases hback with e | ⟨u, hu, e⟩
      · rw [e]
        exact IdLaw.Kept.refl _
      · rw [e]
        exact rollbackStore_kept hrev1 hu _
    exact ⟨Fenced.mono hf2 rfl fun _ hu => hu.of_kept (hrev1.back ho2), ho1.trans ho2⟩

end

/-- What a program within a licence does to the objects, whether it returns or throws. -/
theorem Within.kept {n : Nat} {α : Type} {P : Licence S} {L : IdLaw S} (hP : P.Respects L)
    {x : Action S n α} (h : Within P x) {d : Database S} (hrev : Reversible L d.store) :
    L.Kept d.store (x.run d).db.store :=
  ((h.acts d).kept hP hrev (Fenced.zero _ d)).2

/-- The same for a law that does not look at the ids. -/
theorem Within.obeys {n : Nat} {α : Type} {P : Licence S} {L : Law S} (hP : P.Respects L.idLaw)
    {x : Action S n α} (h : Within P x) {d : Database S} (hrev : Reversible L.idLaw d.store) :
    Obeys L d.store (x.run d).db.store := h.kept hP hrev

end MuseChain
