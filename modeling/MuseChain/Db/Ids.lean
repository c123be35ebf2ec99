/-
  File:      MuseChain/Db/Ids.lean
  Subject:   Ids that were handed out, and objects that are gone.

  An id that was handed out is not handed out again, and an object that is gone stays gone,
  whatever programs do and however they end: an undo above the line puts back neither a next id
  that is too small nor the object (`Lost`). `g` says whether the object is gone.
-/
import MuseChain.Db.Fence

namespace MuseChain

variable {S : Schema} {g : Prop} {k : S.Kind} {j : Nat}

/-- The id was handed out, and if `g`, the object is not there any more. -/
structure Handed (g : Prop) (k : S.Kind) (j : Nat) (s : Store S) : Prop where
  absent : g → s.get k j = none
  next : j < s.nextId k

/-- The state would not bring the id back, nor the object that is gone. -/
structure Lost (g : Prop) (j : Nat) {α : Type} (w : KindUndo α) : Prop where
  removed : g → w.removed.get j = none
  next : ∀ m, w.oldNextId = some m → j < m

/-! ## 1. What is saved -/

section

variable {α : Type} {w v : KindUndo α}

theorem Lost.empty : Lost g j (KindUndo.empty : KindUndo α) := ⟨fun _ => rfl, fun _ h => nomatch h⟩

theorem Lost.onCreate (h : Lost g j w) {i : Nat} (hi : j < i) : Lost g j (w.onCreate i) := by
  refine ⟨h.removed, fun m hm => ?_⟩
  cases hw : w.oldNextId with
  | none =>
    simp only [KindUndo.onCreate, hw, Option.getD_none, Option.some.injEq] at hm
    omega
  | some b =>
    simp only [KindUndo.onCreate, hw, Option.getD_some, Option.some.injEq] at hm
    have := h.next b hw
    omega

theorem Lost.onModify (h : Lost g j w) (i : Nat) (a : α) : Lost g j (w.onModify i a) := by
  unfold KindUndo.onModify
  split
  · exact h
  · split
    · exact h
    · exact ⟨h.removed, h.next⟩

/-- Only other objects are saved as removed. -/
theorem Lost.putRemoved (h : Lost g j w) {i : Nat} {a : α} (hi : g → i ≠ j) :
    Lost g j { w with removed := w.removed.put i (some a) } := by
  refine ⟨fun hg => ?_, h.next⟩
  simp only [FMap.get_put, if_neg (Ne.symm (hi hg))]
  exact h.removed hg

theorem Lost.onRemove (h : Lost g j w) {i : Nat} {a : α} (hi : g → i ≠ j) :
    Lost g j (w.onRemove i a) := by
  unfold KindUndo.onRemove
  split
  · exact ⟨h.removed, h.next⟩
  · split
    · have := h.putRemoved hi (a := ‹α›)
      exact ⟨this.removed, h.next⟩
    · split
      · exact h
      · exact h.putRemoved hi

theorem Lost.foldRows {β : Type} {f : KindUndo α → Nat → β → KindUndo α} {r : List (Nat × β)}
    (hf : ∀ w, Lost g j w → ∀ p ∈ r, Lost g j (f w p.1 p.2)) (h : Lost g j w) :
    Lost g j (KindUndo.foldRows f r w) := by
  induction r generalizing w with
  | nil => exact h
  | cons p r ih =>
    obtain ⟨i, y⟩ := p
    exact ih (fun w hw q hq => hf w hw q (List.mem_cons_of_mem _ hq))
      (hf w h (i, y) List.mem_cons_self)

theorem Lost.merge (h : Lost g j w) (h' : Lost g j v) : Lost g j (w.merge v) := by
  unfold KindUndo.merge
  have hold : Lost g j (KindUndo.foldRows KindUndo.mergeOld v.oldValues.rows w) := by
    refine Lost.foldRows (fun x hx p _ => ?_) h
    unfold KindUndo.mergeOld
    split
    · exact hx
    · split
      · exact hx
      · exact ⟨hx.removed, hx.next⟩
  have hnew : Lost g j (KindUndo.foldRows KindUndo.mergeNew v.newIds.rows
      (KindUndo.foldRows KindUndo.mergeOld v.oldValues.rows w)) :=
    Lost.foldRows (fun x hx p _ => ⟨hx.removed, hx.next⟩) hold
  refine Lost.foldRows (fun x hx p hp => ?_) ⟨hnew.removed, fun m hm => ?_⟩
  · have hp := FMap.mem_rows.mp hp
    have hne : g → p.1 ≠ j := by
      rintro hg e
      rw [e, h'.removed hg] at hp
      cases hp
    unfold KindUndo.mergeRemoved
    split
    · exact ⟨hx.removed, hx.next⟩
    · split
      · exact ⟨(hx.putRemoved hne).removed, hx.next⟩
      · exact hx.putRemoved hne
  · generalize (KindUndo.foldRows KindUndo.mergeNew v.newIds.rows
      (KindUndo.foldRows KindUndo.mergeOld v.oldValues.rows w)) = x at hnew hm
    cases hx : x.oldNextId with
    | none =>
      simp only [hx] at hm
      exact h'.next m hm
    | some b =>
      simp only [hx] at hm
      exact hnew.next m (hx.trans hm)

end

/-! ## 2. Putting back -/

section

variable {u : UndoState S} {s : Store S}

theorem Handed.erase (h : Handed g k j s) (k' : S.Kind) (i : Nat) :
    Handed g k j (s.erase k' i) := by
  refine ⟨fun hg => ?_, by rw [Store.nextId_erase]; exact h.next⟩
  by_cases hk : k = k'
  · subst hk
    rw [Store.get_erase_self]
    split
    · rfl
    · exact h.absent hg
  · rw [Store.get_erase_ne _ hk]
    exact h.absent hg

/-- Another object is written. -/
theorem Handed.write {k' : S.Kind} {i : Nat} {a : S.Obj k'} (h : Handed g k j s)
    (hf : s.free k' i a = true) (hne : g → ¬(k = k' ∧ j = i)) :
    Handed g k j (s.write k' i a hf) := by
  refine ⟨fun hg => ?_, by rw [Store.nextId_write]; exact h.next⟩
  rw [Store.get_write_of_ne _ hf (hne hg)]
  exact h.absent hg

/-- An object that is there is not the one that is gone. -/
theorem Handed.ne {k' : S.Kind} {i : Nat} {a : S.Obj k'} (h : Handed g k j s)
    (ha : s.get k' i = some a) (hg : g) : ¬(k = k' ∧ j = i) := by
  rintro ⟨rfl, rfl⟩
  rw [h.absent hg] at ha
  cases ha

theorem forEach_handed {step : S.Kind × Nat → Store S → Walk S} {l : List (S.Kind × Nat)}
    (h : ∀ x t, Handed g k j t → Handed g k j (Walk.store (step x t))) {t : Store S} (ht : Handed g k j t) :
    Handed g k j (Walk.store (forEach step l t)) := by
  induction l generalizing t with
  | nil => exact ht
  | cons x l ih =>
    have hx := h x t ht
    unfold forEach
    cases hs : step x t with
    | ok t' =>
      rw [hs] at hx
      exact ih hx
    | error e =>
      rw [hs] at hx
      exact hx

theorem resetNextIds_handed (hu : Lost g j (u k)) {l : List S.Kind} {t : Store S}
    (ht : Handed g k j t) : Handed g k j (resetNextIds u l t) := by
  induction l generalizing t with
  | nil => exact ht
  | cons k' l ih =>
    unfold resetNextIds
    split
    · rename_i m hm
      refine ih ⟨fun hg => by rw [Store.get_setNextId]; exact ht.absent hg, ?_⟩
      rw [Store.nextId_setNextId]
      split
      · rename_i hk
        subst hk
        exact hu.next m hm
      · exact ht.next
    · exact ih ht

theorem rollbackStore_handed (hu : Lost g j (u k)) (h : Handed g k j s)
    (o : WalkOrder (S.Kind × Nat)) : Handed g k j (Walk.store (rollbackStore u o s)) := by
  have hrestore : ∀ x t, Handed g k j t → Handed g k j (Walk.store (restoreOld u x t)) := by
    intro x t ht
    unfold restoreOld
    split
    · exact ht
    · split
      · exact ht
      · rename_i b hb
        split
        · rename_i hfree
          exact ht.write hfree (ht.ne hb)
        · exact ht.erase _ _
  have hremove : ∀ x t, Handed g k j t → Handed g k j (Walk.store (removeNew x t)) := by
    intro x t ht
    unfold removeNew
    split
    · exact ht
    · exact ht.erase _ _
  have hinsert : ∀ x t, Handed g k j t → Handed g k j (Walk.store (insertRemoved u x t)) := by
    intro x t ht
    unfold insertRemoved
    split
    · exact ht
    · rename_i a ha
      split
      · rename_i hroom
        refine ht.write hroom.2 ?_
        rintro hg ⟨rfl, rfl⟩
        rw [hu.removed hg] at ha
        cases ha
      · exact ht
  have h1 := forEach_handed (l := UndoState.keys o fun k => (u k).oldValues) hrestore h
  unfold rollbackStore
  cases e1 : forEach (restoreOld u) (UndoState.keys o fun k => (u k).oldValues) s with
  | error e =>
    rw [e1] at h1
    exact h1
  | ok s₁ =>
    rw [e1] at h1
    have h2 : Handed g k j (Walk.store
        (forEach removeNew (UndoState.keys o fun k => (u k).newIds) s₁)) :=
      forEach_handed hremove h1
    show Handed g k j (Walk.store ((forEach removeNew _ s₁).bind _))
    cases e2 : forEach removeNew (UndoState.keys o fun k => (u k).newIds) s₁ with
    | error e =>
      rw [e2] at h2
      exact h2
    | ok s₂ =>
      rw [e2] at h2
      exact forEach_handed hinsert (resetNextIds_handed hu h2)

end

/-! ## 3. Runs -/

theorem UndoState.lost_upd {u : UndoState S} (h : Lost g j (u k)) {k' : S.Kind}
    {f : KindUndo (S.Obj k') → KindUndo (S.Obj k')}
    (hf : k' = k → Lost g j (u k') → Lost g j (f (u k'))) : Lost g j (u.upd k' f k) := by
  by_cases hk : k' = k
  · subst hk
    rw [UndoState.upd_self]
    exact hf rfl h
  · rw [UndoState.upd_ne u (Ne.symm hk)]
    exact h

/-- The line above which the object is lost. -/
def Unsaved (g : Prop) (k : S.Kind) (j m : Nat) (d : Database S) : Prop :=
  Fenced (fun u => Lost g j (u k)) m d

theorem Unsaved.onTop {m : Nat} {d : Database S} (h : Unsaved g k j m d) {k' : S.Kind}
    {f : KindUndo (S.Obj k') → KindUndo (S.Obj k')}
    (hf : ∀ (_ : k' = k) (w : KindUndo (S.Obj k')), Lost g j w → Lost g j (f w)) :
    Unsaved g k j m (d.onTop k' f) :=
  Fenced.onTop h (UndoState.lost_upd (u := UndoState.empty) Lost.empty fun e hw => hf e _ hw)
    fun _ hu => UndoState.lost_upd hu fun e hw => hf e _ hw

/-- **Ids stay handed out and what is gone stays gone, whatever is done within any licence.** -/
theorem Acts.handed {P : Licence S} {d d' : Database S} (h : Acts P d d')
    (hs : Handed g k j d.store) {m : Nat} (hf : Unsaved g k j m d) :
    Unsaved g k j m d' ∧ Handed g k j d'.store := by
  induction h generalizing m with
  | refl d => exact ⟨hf, hs⟩
  | trans _ _ ih ih' =>
    obtain ⟨hf1, hs1⟩ := ih hs hf
    exact ih' hs1 hf1
  | @create d k' a h =>
    unfold Database.create
    simp only
    split
    · rename_i hroom
      have hnext := hs.next
      have hw := hs.write hroom.2 (by rintro _ ⟨rfl, e⟩; omega)
      have hnew : Handed g k j ((d.store.write k' (d.store.nextId k') a hroom.2).setNextId k'
          (d.store.nextId k' + 1)) := by
        refine ⟨fun hg => by rw [Store.get_setNextId]; exact hw.absent hg, ?_⟩
        rw [Store.nextId_setNextId]
        split
        · rename_i e
          subst e
          omega
        · exact hw.next
      simp only [Outcome.db_ok, onTop_store]
      refine ⟨?_, hnew⟩
      generalize (d.store.write k' (d.store.nextId k') a hroom.2).setNextId k'
        (d.store.nextId k' + 1) = t
      have hf1 : Unsaved g k j m { d with store := t } := Fenced.mono hf rfl fun _ hu => hu
      refine hf1.onTop fun e w hlost => ?_
      subst e
      exact hlost.onCreate hnext
    · exact ⟨hf, hs⟩
  | @save d k' i a hr hi =>
    rw [onTop_store]
    exact ⟨hf.onTop fun _ w hw => hw.onModify i a, hs⟩
  | write hi h hfree => exact ⟨Fenced.mono hf rfl fun _ hu => hu, hs.write hfree (hs.ne hi)⟩
  | spoil i h => exact ⟨Fenced.mono hf rfl fun _ hu => hu, hs.erase _ _⟩
  | @remove d k' i h =>
    unfold Database.remove
    cases hi : d.store.get k' i with
    | none => exact ⟨hf, hs⟩
    | some a =>
      simp only [Outcome.db_ok, onTop_store]
      refine ⟨Fenced.mono (hf.onTop fun e w hw => hw.onRemove ?_) rfl fun _ hu => hu,
        hs.erase _ _⟩
      exact fun hg e' => hs.ne hi hg ⟨e.symm, e'.symm⟩
  | @merged d d₁ d₂ exit h hm ih =>
    have hstart : (d.startUndoSession true).2.store = d.store := startUndoSession_store d true
    obtain ⟨hf1, hs1⟩ := ih (by rw [hstart]; exact hs) (Fenced.start Lost.empty hf)
    have hf2 := Fenced.merge (fun u v hu hv => Lost.merge hu hv) hf1 hm
    rw [← (Action.merge_same hm).1] at hs1
    cases exit with
    | true => exact ⟨Fenced.mono hf2 rfl fun _ hu => hu, hs1⟩
    | false => exact ⟨hf2, hs1⟩
  | @dropped d d₁ exit h ih =>
    have hstart : (d.startUndoSession true).2.store = d.store := startUndoSession_store d true
    obtain ⟨hf1, hs1⟩ := ih (by rw [hstart]; exact hs) (Fenced.start Lost.empty hf)
    obtain ⟨hf2, hback⟩ := Fenced.dropSession hf1 exit
    refine ⟨hf2, ?_⟩
    rcases hback with e | ⟨u, hu, e⟩
    · rw [e]
      exact hs1
    · rw [e]
      exact rollbackStore_handed hu hs1 _

end MuseChain
