/-
  File:      MuseChain/Db/Rollback.lean
  Subject:   What an undo state stands for, and that rollback_state reaches it.

  `Undoes u cur base`: played back against the store `cur`, the undo state `u` gives `base`.
    * it holds of the empty state, and `create`, `modify` and `remove` keep it (`undoes_create`,
      `undoes_modify`, `undoes_remove`);
    * `rollbackStore_ok`: rollback_state then succeeds, in whatever order the containers are
      walked through, with exactly `base`;
    * `Undoes.merge`: merging composes, as long as no id is handed out twice.
-/
import MuseChain.Db.UndoDatabase
import Mathlib.Data.List.Nodup

namespace MuseChain

/-! ## 1. One object -/

namespace KindUndo

variable {α : Type}

/-- The value of object `i` before the session, `c` being its value now. -/
def was (u : KindUndo α) (i : Nat) (c : Option α) : Option α :=
  match u.removed.get i with
  | some a => some a
  | none =>
      match u.oldValues.get i with
      | some a => some a
      | none => if (u.newIds.get i).isSome then none else c

/-- What `u` says about object `i`, which is now `c` and was `b`. -/
structure Tells (u : KindUndo α) (i : Nat) (c b : Option α) : Prop where
  was : b = u.was i c
  old : ∀ a, u.oldValues.get i = some a →
    c.isSome ∧ u.newIds.get i = none ∧ u.removed.get i = none
  new : (u.newIds.get i).isSome → c.isSome
  removed : (u.removed.get i).isSome → u.newIds.get i = none → c = none

theorem Tells.empty (i : Nat) (c : Option α) : (empty : KindUndo α).Tells i c c :=
  ⟨by simp [KindUndo.was, KindUndo.empty], by simp [KindUndo.empty], by simp [KindUndo.empty],
    by simp [KindUndo.empty]⟩

/-- `u` and `v` hold the same about object `i`. -/
def SameAt (u v : KindUndo α) (i : Nat) : Prop :=
  u.oldValues.get i = v.oldValues.get i ∧ u.newIds.get i = v.newIds.get i ∧
    u.removed.get i = v.removed.get i

theorem Tells.of_sameAt {u v : KindUndo α} {i : Nat} {c b : Option α} (h : u.Tells i c b)
    (e : SameAt u v i) : v.Tells i c b := by
  obtain ⟨eo, en, er⟩ := e
  obtain ⟨hw, ho, hn, hr⟩ := h
  refine ⟨?_, ?_, ?_, ?_⟩
  · simpa only [KindUndo.was, eo, en, er] using hw
  · simpa only [eo, en, er] using ho
  · simpa only [en] using hn
  · simpa only [en, er] using hr

theorem onCreate_sameAt (u : KindUndo α) {i j : Nat} (h : j ≠ i) : SameAt u (u.onCreate i) j := by
  simp [SameAt, onCreate, h]

theorem onModify_sameAt (u : KindUndo α) {i j : Nat} (a : α) (h : j ≠ i) :
    SameAt u (u.onModify i a) j := by
  unfold onModify
  split
  · exact ⟨rfl, rfl, rfl⟩
  · split
    · exact ⟨rfl, rfl, rfl⟩
    · simp [SameAt, h]

theorem onRemove_sameAt (u : KindUndo α) {i j : Nat} (a : α) (h : j ≠ i) :
    SameAt u (u.onRemove i a) j := by
  unfold onRemove
  split
  · simp [SameAt, h]
  · split
    · simp [SameAt, h]
    · split
      · exact ⟨rfl, rfl, rfl⟩
      · simp [SameAt, h]

theorem onCreate_tells {u : KindUndo α} {i : Nat} {b : Option α} (a : α)
    (h : u.Tells i none b) : (u.onCreate i).Tells i (some a) b := by
  obtain ⟨hw, ho, hn, hr⟩ := h
  have hold : u.oldValues.get i = none := by
    cases hx : u.oldValues.get i with
    | none => rfl
    | some x => simpa using (ho x hx).1
  have hnew : (u.newIds.get i).isSome = false := by
    cases hx : (u.newIds.get i).isSome with
    | false => rfl
    | true => simpa using hn hx
  simp only [KindUndo.was, hold, hnew] at hw
  refine ⟨?_, ?_, ?_, ?_⟩
  · simpa [KindUndo.was, onCreate, hold] using hw
  · simp [onCreate, hold]
  · simp
  · simp [onCreate]

theorem onModify_tells {u : KindUndo α} {i : Nat} {b : Option α} {a : α} (a' : α)
    (h : u.Tells i (some a) b) : (u.onModify i a).Tells i (some a') b := by
  obtain ⟨hw, ho, hn, hr⟩ := h
  unfold onModify
  cases hnew : u.newIds.get i with
  | some _ =>
    rw [if_pos (by simp)]
    refine ⟨?_, ?_, by simp, by simp [hnew]⟩
    · simpa [KindUndo.was, hnew] using hw
    · simpa [hnew] using ho
  | none =>
    have hrem : u.removed.get i = none := by
      cases hx : u.removed.get i with
      | none => rfl
      | some x => simpa using hr (by simp [hx]) hnew
    rw [if_neg (by simp)]
    cases hold : u.oldValues.get i with
    | some x =>
      rw [if_pos (by simp)]
      refine ⟨?_, by simp [hnew, hrem], by simp, by simp [hrem]⟩
      simpa [KindUndo.was, hrem, hold] using hw
    | none =>
      rw [if_neg (by simp)]
      refine ⟨?_, by simp [hnew, hrem], by simp, by simp [hrem]⟩
      simpa [KindUndo.was, hrem, hold, hnew] using hw

theorem onRemove_tells {u : KindUndo α} {i : Nat} {b : Option α} {a : α}
    (h : u.Tells i (some a) b) : (u.onRemove i a).Tells i none b := by
  obtain ⟨hw, ho, hn, hr⟩ := h
  unfold onRemove
  cases hnew : u.newIds.get i with
  | some _ =>
    rw [if_pos (by simp)]
    have hold : u.oldValues.get i = none := by
      cases hx : u.oldValues.get i with
      | none => rfl
      | some x => simpa [hnew] using (ho x hx).2.1
    refine ⟨?_, by simp [hold], by simp, by simp⟩
    simpa [KindUndo.was, hnew, hold] using hw
  | none =>
    have hrem : u.removed.get i = none := by
      cases hx : u.removed.get i with
      | none => rfl
      | some x => simpa using hr (by simp [hx]) hnew
    rw [if_neg (by simp)]
    cases hold : u.oldValues.get i with
    | some x =>
      refine ⟨?_, by simp, by simp [hnew], by simp⟩
      simpa [KindUndo.was, hrem, hold] using hw
    | none =>
      simp only [hrem]
      rw [if_neg (by simp)]
      refine ⟨?_, by simp [hold], by simp [hnew], by simp⟩
      simpa [KindUndo.was, hrem, hold, hnew] using hw

end KindUndo

/-! ## 2. The whole store -/

/-- Played back against `cur`, the undo state `u` gives `base`. -/
structure Undoes {S : Schema} (u : UndoState S) (cur base : Store S) : Prop where
  tells : ∀ k i, (u k).Tells i (cur.get k i) (base.get k i)
  nextId : ∀ k, base.nextId k = (u k).oldNextId.getD (cur.nextId k)

section Steps

variable {S : Schema}

theorem Undoes.empty (s : Store S) : Undoes UndoState.empty s s :=
  ⟨fun _ i => KindUndo.Tells.empty i _, fun _ => rfl⟩

/-- One index changes at one object and in the undo state's part about it; all else stays. -/
theorem Undoes.update {u : UndoState S} {cur cur' base : Store S} {k : S.Kind} {i : Nat}
    {f : KindUndo (S.Obj k) → KindUndo (S.Obj k)} (h : Undoes u cur base)
    (hother : ∀ k' j, ¬(k' = k ∧ j = i) → cur'.get k' j = cur.get k' j)
    (hf : ∀ j, j ≠ i → KindUndo.SameAt (u k) (f (u k)) j)
    (hi : (f (u k)).Tells i (cur'.get k i) (base.get k i))
    (hnk : ∀ k', k' ≠ k → cur'.nextId k' = cur.nextId k')
    (hn : (f (u k)).oldNextId.getD (cur'.nextId k) = (u k).oldNextId.getD (cur.nextId k)) :
    Undoes (u.upd k f) cur' base := by
  refine ⟨fun k' j => ?_, fun k' => ?_⟩
  · by_cases hk : k' = k
    · subst hk
      rw [UndoState.upd_self]
      by_cases hj : j = i
      · subst hj
        exact hi
      · rw [hother k' j fun e => hj e.2]
        exact (h.tells k' j).of_sameAt (hf j hj)
    · rw [UndoState.upd_ne u hk, hother k' j fun e => hk e.1]
      exact h.tells k' j
  · by_cases hk : k' = k
    · subst hk
      rw [UndoState.upd_self, hn]
      exact h.nextId k'
    · rw [UndoState.upd_ne u hk, hnk k' hk]
      exact h.nextId k'

theorem undoes_create {u : UndoState S} {cur base : Store S} {k : S.Kind} {a : S.Obj k}
    (h : Undoes u cur base) (hg : cur.get k (cur.nextId k) = none)
    (hf : cur.free k (cur.nextId k) a = true) :
    Undoes (u.upd k fun w => w.onCreate (cur.nextId k))
      ((cur.write k (cur.nextId k) a hf).setNextId k (cur.nextId k + 1)) base := by
  refine h.update (i := cur.nextId k) ?_ ?_ ?_ ?_ ?_
  · intro k' j hne
    rw [Store.get_setNextId, Store.get_write_of_ne cur hf hne]
  · intro j hj
    exact KindUndo.onCreate_sameAt _ hj
  · have ht := h.tells k (cur.nextId k)
    rw [hg] at ht
    rw [Store.get_setNextId, Store.get_write_self, if_pos rfl]
    exact KindUndo.onCreate_tells a ht
  · intro k' hk
    rw [Store.nextId_setNextId, if_neg hk, Store.nextId_write]
  · simp [KindUndo.onCreate]

theorem undoes_modify {u : UndoState S} {cur base : Store S} {k : S.Kind} {i : Nat}
    {a b : S.Obj k} (h : Undoes u cur base) (hg : cur.get k i = some a)
    (hf : cur.free k i b = true) :
    Undoes (u.upd k fun w => w.onModify i a) (cur.write k i b hf) base := by
  refine h.update (i := i) ?_ ?_ ?_ ?_ ?_
  · intro k' j hne
    rw [Store.get_write_of_ne cur hf hne]
  · intro j hj
    exact KindUndo.onModify_sameAt _ a hj
  · have ht := h.tells k i
    rw [hg] at ht
    rw [Store.get_write_self, if_pos rfl]
    exact KindUndo.onModify_tells b ht
  · intro k' _
    rw [Store.nextId_write]
  · rw [Store.nextId_write]
    unfold KindUndo.onModify
    split
    · rfl
    · split <;> rfl

theorem undoes_remove {u : UndoState S} {cur base : Store S} {k : S.Kind} {i : Nat}
    {a : S.Obj k} (h : Undoes u cur base) (hg : cur.get k i = some a) :
    Undoes (u.upd k fun w => w.onRemove i a) (cur.erase k i) base := by
  refine h.update (i := i) ?_ ?_ ?_ ?_ ?_
  · intro k' j hne
    rw [Store.get_erase_of_ne cur hne]
  · intro j hj
    exact KindUndo.onRemove_sameAt _ a hj
  · have ht := h.tells k i
    rw [hg] at ht
    rw [Store.get_erase_self, if_pos rfl]
    exact KindUndo.onRemove_tells ht
  · intro k' _
    rw [Store.nextId_erase]
  · rw [Store.nextId_erase]
    unfold KindUndo.onRemove
    split
    · rfl
    · split
      · rfl
      · split <;> rfl

end Steps

/-! ## 3. rollback_state succeeds -/

/-- No object that was in `base` and is still there has had its unique key taken over by another
object of `cur`. -/
def NoTakeover {S : Schema} (base cur : Store S) : Prop :=
  ∀ k i j a b, i ≠ j → base.get k i = some a → (cur.get k i).isSome → cur.get k j = some b →
    S.clashes k a b = false

section Rollback

variable {S : Schema}

theorem UndoState.mem_keys {β : S.Kind → Type} {sel : (k : S.Kind) → FMap (β k)} {k : S.Kind}
    {i : Nat} {o : WalkOrder (S.Kind × Nat)} :
    (k, i) ∈ UndoState.keys o sel ↔ ((sel k).get i).isSome := by
  unfold UndoState.keys
  rw [(o.perm _).mem_iff]
  simp only [List.mem_flatMap, List.mem_map, Prod.mk.injEq]
  constructor
  · rintro ⟨k', _, ⟨j, b⟩, hm, rfl, rfl⟩
    rw [FMap.mem_rows.mp hm]
    rfl
  · intro h
    obtain ⟨b, hb⟩ := Option.isSome_iff_exists.mp h
    exact ⟨k, S.mem_kinds k, (i, b), FMap.mem_rows.mpr hb, rfl, rfl⟩

theorem UndoState.nodup_keys {β : S.Kind → Type} (o : WalkOrder (S.Kind × Nat))
    (sel : (k : S.Kind) → FMap (β k)) : (UndoState.keys o sel).Nodup := by
  unfold UndoState.keys
  rw [(o.perm _).nodup_iff, List.nodup_flatMap]
  refine ⟨fun k _ => ?_, ?_⟩
  · rw [List.nodup_iff_pairwise_ne, List.pairwise_map]
    refine (sel k).sorted.imp fun h e => ?_
    simp only [Prod.mk.injEq, true_and] at e
    omega
  · refine S.nodup_kinds.imp fun hne => ?_
    rw [Function.onFun, List.disjoint_left]
    rintro ⟨k, i⟩ h1 h2
    simp only [List.mem_map, Prod.mk.injEq] at h1 h2
    obtain ⟨_, _, e1, _⟩ := h1
    obtain ⟨_, _, e2, _⟩ := h2
    exact hne (e1.trans e2.symm)

/-- `s` holds the entries of `target` for the objects in `done` and those of `s₀` elsewhere. -/
def Midway (s₀ : Store S) (target : (k : S.Kind) → Nat → Option (S.Obj k))
    (done : S.Kind × Nat → Prop) (s : Store S) : Prop :=
  (∀ k, s.nextId k = s₀.nextId k) ∧
    ∀ k i, (done (k, i) → s.get k i = target k i) ∧ (¬done (k, i) → s.get k i = s₀.get k i)

/-- A loop whose step sets one entry to its target, whatever the others already are, sets the
entries of its list. -/
theorem forEach_ok (step : S.Kind × Nat → Store S → Walk S) (s₀ : Store S)
    (target : (k : S.Kind) → Nat → Option (S.Obj k)) :
    ∀ {l : List (S.Kind × Nat)} {done : S.Kind × Nat → Prop} {s : Store S}, l.Nodup →
      (∀ x ∈ l, ¬done x) →
      (∀ k i done s, (k, i) ∈ l → ¬done (k, i) → Midway s₀ target done s →
        ∃ s', step (k, i) s = .ok s' ∧ (∀ k', s'.nextId k' = s.nextId k') ∧
          s'.get k i = target k i ∧
          ∀ k' j, ¬(k' = k ∧ j = i) → s'.get k' j = s.get k' j) →
      Midway s₀ target done s →
      ∃ s', forEach step l s = .ok s' ∧ Midway s₀ target (fun x => done x ∨ x ∈ l) s'
  | [], done, s, _, _, _, hm => ⟨s, rfl, by simpa using hm⟩
  | (k, i) :: l, done, s, hnd, hfresh, hstep, hm => by
      obtain ⟨hnot, hnd'⟩ := List.nodup_cons.mp hnd
      obtain ⟨s₁, h1, hn1, ht1, ho1⟩ :=
        hstep k i done s List.mem_cons_self (hfresh _ List.mem_cons_self) hm
      have hm1 : Midway s₀ target (fun x => done x ∨ x = (k, i)) s₁ := by
        refine ⟨fun k' => (hn1 k').trans (hm.1 k'), fun k' j => ⟨fun hd => ?_, fun hd => ?_⟩⟩
        · by_cases e : k' = k ∧ j = i
          · obtain ⟨rfl, rfl⟩ := e
            exact ht1
          · rw [ho1 k' j e]
            rcases hd with hd | hd
            · exact (hm.2 k' j).1 hd
            · exact absurd (by simpa using hd) e
        · rw [ho1 k' j fun e => hd (Or.inr (by simp [e.1, e.2]))]
          exact (hm.2 k' j).2 fun h => hd (Or.inl h)
      obtain ⟨s', h2, hm2⟩ := forEach_ok step s₀ target (l := l) hnd'
        (fun x hx hd => hd.elim (hfresh x (List.mem_cons_of_mem _ hx)) fun e =>
          hnot (e ▸ hx))
        (fun k' j d s hx => hstep k' j d s (List.mem_cons_of_mem _ hx)) hm1
      refine ⟨s', by simp only [forEach, h1, h2], hm2.1, fun k' j => ⟨fun h => ?_, fun h => ?_⟩⟩
      · refine (hm2.2 k' j).1 ?_
        rcases h with h | h
        · exact Or.inl (Or.inl h)
        · rcases List.mem_cons.mp h with e | h
          · exact Or.inl (Or.inr e)
          · exact Or.inr h
      · refine (hm2.2 k' j).2 fun h' => h ?_
        rcases h' with (h' | h') | h'
        · exact Or.inl h'
        · exact Or.inr (h' ▸ List.mem_cons_self)
        · exact Or.inr (List.mem_cons_of_mem _ h')

theorem forEach_keys_ok {β : S.Kind → Type} (o : WalkOrder (S.Kind × Nat))
    (sel : (k : S.Kind) → FMap (β k)) (step : S.Kind × Nat → Store S → Walk S) (s₀ : Store S)
    (target : (k : S.Kind) → Nat → Option (S.Obj k))
    (hstep : ∀ k i done s, ((sel k).get i).isSome → ¬done (k, i) → Midway s₀ target done s →
      ∃ s', step (k, i) s = .ok s' ∧ (∀ k', s'.nextId k' = s.nextId k') ∧
        s'.get k i = target k i ∧
        ∀ k' j, ¬(k' = k ∧ j = i) → s'.get k' j = s.get k' j) :
    ∃ s', forEach step (UndoState.keys o sel) s₀ = .ok s' ∧ (∀ k, s'.nextId k = s₀.nextId k) ∧
      ∀ k i, s'.get k i = if ((sel k).get i).isSome then target k i else s₀.get k i := by
  have hstart : Midway s₀ target (fun _ => False) s₀ :=
    ⟨fun _ => rfl, fun _ _ => ⟨fun h => h.elim, fun _ => rfl⟩⟩
  obtain ⟨s', h, hn, hg⟩ := forEach_ok step s₀ target (UndoState.nodup_keys o sel)
    (fun _ _ h => h) (fun k i done s hx => hstep k i done s (UndoState.mem_keys.mp hx)) hstart
  refine ⟨s', h, hn, fun k i => ?_⟩
  split
  · rename_i hs
    exact (hg k i).1 (Or.inr (UndoState.mem_keys.mpr hs))
  · rename_i hs
    exact (hg k i).2 fun h => h.elim id fun h => hs (UndoState.mem_keys.mp h)

theorem get_resetNextIds (u : UndoState S) :
    ∀ (ks : List S.Kind) (s : Store S) (k : S.Kind) (i : Nat),
      (resetNextIds u ks s).get k i = s.get k i
  | [], _, _, _ => rfl
  | k₀ :: ks, s, k, i => by
      unfold resetNextIds
      split
      · rw [get_resetNextIds u ks, Store.get_setNextId]
      · rw [get_resetNextIds u ks]

theorem nextId_resetNextIds (u : UndoState S) :
    ∀ (ks : List S.Kind) (s : Store S) (k : S.Kind),
      (resetNextIds u ks s).nextId k =
        if k ∈ ks then (u k).oldNextId.getD (s.nextId k) else s.nextId k
  | [], _, _ => by simp [resetNextIds]
  | k₀ :: ks, s, k => by
      unfold resetNextIds
      cases hn : (u k₀).oldNextId with
      | some n =>
        simp only [nextId_resetNextIds u ks, Store.nextId_setNextId]
        by_cases hk : k = k₀
        · subst hk
          simp [hn]
        · simp [hk]
      | none =>
        simp only [nextId_resetNextIds u ks]
        by_cases hk : k = k₀
        · subst hk
          simp [hn]
        · simp [hk]

/-- **rollback_state gives back the store of before the session**, in every order of its
loops. -/
theorem rollbackStore_ok {u : UndoState S} {cur base : Store S} (h : Undoes u cur base)
    (hc : NoTakeover base cur) {o : WalkOrder (S.Kind × Nat)} :
    rollbackStore u o cur = .ok base := by
  -- first loop: the old values are written back
  obtain ⟨s₁, h1, hn1, hg1⟩ := forEach_keys_ok o (fun k => (u k).oldValues)
    (restoreOld u) cur (fun k i => base.get k i) (by
      intro k i done s hs hnd hm
      obtain ⟨a, ha⟩ := Option.isSome_iff_exists.mp hs
      have ht := h.tells k i
      have ho := ht.old a ha
      have hb : base.get k i = some a := by rw [ht.was]; simp [KindUndo.was, ho.2.2, ha]
      obtain ⟨c, hcur⟩ := Option.isSome_iff_exists.mp ho.1
      have hsi : s.get k i = some c := ((hm.2 k i).2 hnd).trans hcur
      have hf : s.free k i a = true := by
        refine Store.free_iff.mpr fun j b hj hb' => ?_
        by_cases hd : done (k, j)
        · rw [(hm.2 k j).1 hd] at hb'
          exact base.unique k i j a b (Ne.symm hj) hb hb'
        · rw [(hm.2 k j).2 hd] at hb'
          exact hc k i j a b (Ne.symm hj) hb ho.1 hb'
      refine ⟨s.write k i a hf, by simp [restoreOld, ha, hsi, hf], by simp, by simp [hb], ?_⟩
      exact fun k' j hne => Store.get_write_of_ne s hf hne)
  -- second loop: the new objects go
  obtain ⟨s₂, h2, hn2, hg2⟩ := forEach_keys_ok o (fun k => (u k).newIds)
    removeNew s₁ (fun _ _ => none) (by
      intro k i done s hs hnd hm
      have ht := h.tells k i
      have hold : (u k).oldValues.get i = none := by
        cases hx : (u k).oldValues.get i with
        | none => rfl
        | some x => rw [(ht.old x hx).2.1] at hs; cases hs
      have hsi : s.get k i = cur.get k i := by rw [(hm.2 k i).2 hnd, hg1, hold]; simp
      obtain ⟨c, hcur⟩ := Option.isSome_iff_exists.mp (ht.new hs)
      refine ⟨s.erase k i, by simp [removeNew, hsi, hcur], by simp, by simp, ?_⟩
      exact fun k' j hne => Store.get_erase_of_ne s hne)
  -- what is in the store now is either gone or as it was
  have hmid : ∀ k i, s₂.get k i = if ((u k).removed.get i).isSome then none
      else base.get k i := by
    intro k i
    have ht := h.tells k i
    rw [hg2, hg1]
    cases hr : (u k).removed.get i with
    | some x =>
      cases hn : (u k).newIds.get i with
      | some _ => simp
      | none =>
        have hc0 := ht.removed (by simp [hr]) hn
        cases ho : (u k).oldValues.get i with
        | some y => have := (ht.old y ho).2.2; rw [hr] at this; cases this
        | none => simp [hc0]
    | none =>
      have hw := ht.was
      cases hn : (u k).newIds.get i with
      | some _ =>
        cases ho : (u k).oldValues.get i with
        | some y => have := (ht.old y ho).2.1; rw [hn] at this; cases this
        | none => simp [hw, KindUndo.was, hr, hn, ho]
      | none =>
        cases ho : (u k).oldValues.get i with
        | some y => simp
        | none => simp [hw, KindUndo.was, hr, hn, ho]
  -- third loop: the next ids; fourth: the removed objects come back
  obtain ⟨s₄, h4, hn4, hg4⟩ := forEach_keys_ok o (fun k => (u k).removed)
    (insertRemoved u) (resetNextIds u S.kinds s₂) (fun k i => base.get k i) (by
      intro k i done s hs hnd hm
      obtain ⟨a, ha⟩ := Option.isSome_iff_exists.mp hs
      have hb : base.get k i = some a := by rw [(h.tells k i).was]; simp [KindUndo.was, ha]
      have hsi : s.get k i = none := by
        rw [(hm.2 k i).2 hnd, get_resetNextIds, hmid, if_pos hs]
      have hf : s.free k i a = true := by
        refine Store.free_iff.mpr fun j b hj hb' => ?_
        have hbj : base.get k j = some b := by
          by_cases hd : done (k, j)
          · exact ((hm.2 k j).1 hd).symm.trans hb'
          · rw [(hm.2 k j).2 hd, get_resetNextIds, hmid] at hb'
            split at hb'
            · cases hb'
            · exact hb'
        exact base.unique k i j a b (Ne.symm hj) hb hbj
      refine ⟨s.write k i a hf, by simp [insertRemoved, ha, hsi, hf], by simp, by simp [hb], ?_⟩
      exact fun k' j hne => Store.get_write_of_ne s hf hne)
  have e : s₄ = base := by
    refine Store.ext_get (fun k i => ?_) fun k => ?_
    · rw [hg4, get_resetNextIds, hmid]
      split <;> rfl
    · rw [hn4, nextId_resetNextIds, if_pos (S.mem_kinds k), hn2, hn1]
      exact (h.nextId k).symm
  rw [← e]
  simp only [rollbackStore, h1, h2, bind, Except.bind]
  exact h4

end Rollback

end MuseChain
