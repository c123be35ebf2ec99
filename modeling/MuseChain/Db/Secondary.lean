/-
  File:      MuseChain/Db/Secondary.lean
  Subject:   Secondary indexes, which see the objects only through the callbacks of primary_index.

  * `Observer` holds the four callbacks; `Observed` is a database with what its secondary indexes
    have made of them. `Observed.call` is one call to the database or to its undo stack.
  * A rollback writes old values back and takes new objects away through `primary_index`, but it
    puts removed objects back through `insert`, which makes no callback (`rollbackSeen`).
  * `Mirror`: the index holds what `E` says, and every callback keeps it so, for objects that stay
    alike. **`Mirror.run`**: then `E` holds after every run in which no rollback puts an object of
    a watched index back.
-/
import MuseChain.Db.Sessions

namespace MuseChain

variable {S : Schema} {σ : Type}

/-! ## 1. The callbacks -/

/-- `secondary_index`, for all indexes of the database. -/
structure Observer (S : Schema) (σ : Type) where
  objectInserted : (k : S.Kind) → Nat → S.Obj k → σ → σ
  objectRemoved : (k : S.Kind) → Nat → S.Obj k → σ → σ
  aboutToModify : (k : S.Kind) → Nat → S.Obj k → σ → σ
  objectModified : (k : S.Kind) → Nat → S.Obj k → σ → σ

/-- The callbacks that a loop of `rollback_state` makes; `seen` reads the store before the step. -/
def seenAlong (step : S.Kind × Nat → Store S → Walk S) (seen : S.Kind × Nat → Store S → σ → σ) :
    List (S.Kind × Nat) → Store S → σ → σ
  | [], _, w => w
  | x :: l, s, w =>
      match step x s with
      | .ok s' => seenAlong step seen l s' (seen x s w)
      | .error _ => w

namespace Observer

variable (O : Observer S σ)

/-- `primary_index::modify`, called to put an old value back. -/
def seesRestored (u : UndoState S) (x : S.Kind × Nat) (s : Store S) (w : σ) : σ :=
  match (u x.1).oldValues.get x.2, s.get x.1 x.2 with
  | some b, some a => O.objectModified x.1 x.2 b (O.aboutToModify x.1 x.2 a w)
  | _, _ => w

/-- `primary_index::remove`, called to take a new object away. -/
def seesDropped (x : S.Kind × Nat) (s : Store S) (w : σ) : σ :=
  match s.get x.1 x.2 with
  | some a => O.objectRemoved x.1 x.2 a w
  | none => w

/-- The callbacks of `rollback_state`. The last loop calls `insert`, which makes none. -/
def rollbackSeen (u : UndoState S) (o : WalkOrder (S.Kind × Nat)) (s : Store S) (w : σ) : σ :=
  let old := UndoState.keys o fun k => (u k).oldValues
  let w := seenAlong (restoreOld u) (O.seesRestored u) old s w
  match forEach (restoreOld u) old s with
  | .error _ => w
  | .ok s => seenAlong removeNew O.seesDropped (UndoState.keys o fun k => (u k).newIds) s w

end Observer

/-! ## 2. Calls -/

/-- A database with what its secondary indexes hold. -/
structure Observed (S : Schema) (σ : Type) where
  db : Database S
  sindex : σ

/-- A call to the object database or to its undo database. No modifier touches a unique key. -/
inductive ObjectCall (S : Schema) where
  | create (k : S.Kind) (a : S.Obj k)
  | modify (k : S.Kind) (i : Nat) (f : S.Obj k → Except Exn (S.Obj k))
      (hkey : ∀ a b, f a = .ok b → S.SameKey k a b)
  | remove (k : S.Kind) (i : Nat)
  | startUndoSession (forceEnable : Bool)
  | undo
  | merge
  | commit
  | popCommit
  | setMaxSize (n : Nat)

/-- The database after a call that returned. -/
def Outcome.returned {α : Type} : Outcome S α → Option (α × Database S)
  | .ok a d => some (a, d)
  | .thrown _ _ => none

namespace Observed

variable (O : Observer S σ)

/-- `sees`, when the call returned. -/
def after {α : Type} (o : Outcome S α) (sees : α → σ) : Option (Observed S σ) :=
  o.returned.map fun p => ⟨p.2, sees p.1⟩

def seesModified (w : Observed S σ) (k : S.Kind) (i : Nat) (f : S.Obj k → Except Exn (S.Obj k)) :
    σ :=
  match w.db.store.get k i with
  | none => w.sindex
  | some a =>
      match f a with
      | .error _ => O.aboutToModify k i a w.sindex
      | .ok b => O.objectModified k i b (O.aboutToModify k i a w.sindex)

def seesRolledBack (w : Observed S σ) : σ :=
  match w.db.stack with
  | [] => w.sindex
  | u :: _ => O.rollbackSeen u w.db.order w.db.store w.sindex

/-- One call; `none` when it throws. -/
def call (w : Observed S σ) : ObjectCall S → Option (Observed S σ)
  | .create k a => after (w.db.create k a) fun i => O.objectInserted k i a w.sindex
  | .modify k i f _ => after (w.db.modify k i f) fun _ => w.seesModified O k i f
  | .remove k i =>
      after (w.db.remove k i) fun _ =>
        match w.db.store.get k i with
        | some a => O.objectRemoved k i a w.sindex
        | none => w.sindex
  | .startUndoSession force => some ⟨(w.db.startUndoSession force).2, w.sindex⟩
  | .undo => after w.db.undo fun _ => w.seesRolledBack O
  | .merge => after w.db.merge fun _ => w.sindex
  | .commit => after w.db.commit fun _ => w.sindex
  | .popCommit => after w.db.popCommit fun _ => w.seesRolledBack O
  | .setMaxSize n => some ⟨{ w.db with maxSize := n }, w.sindex⟩

/-- Calls that return, one after the other, each of which meets `ok` where it is made. -/
inductive Run (ok : Observed S σ → ObjectCall S → Prop) : Observed S σ → Observed S σ → Prop
  | refl (w : Observed S σ) : Run ok w w
  | call {w w' w'' : Observed S σ} {c : ObjectCall S} :
      Run ok w w' → ok w' c → w'.call O c = some w'' → Run ok w w''

theorem Run.mono {O : Observer S σ} {ok ok' : Observed S σ → ObjectCall S → Prop} {w w' : Observed S σ}
    (hok : ∀ v c, ok v c → ok' v c) (h : Run O ok w w') : Run O ok' w w' := by
  induction h with
  | refl => exact .refl _
  | call _ hc he ih => exact .call ih (hok _ _ hc) he

/-- The call rolls the undo state `u` back. -/
def RollsBack (w : Observed S σ) (c : ObjectCall S) (u : UndoState S) : Prop :=
  (c = .undo ∨ c = .popCommit) ∧ ∃ us, w.db.stack = u :: us

end Observed

theorem after_eq_some {α : Type} {o : Outcome S α} {sees : α → σ} {w : Observed S σ}
    (h : Observed.after o sees = some w) : ∃ a d, o = .ok a d ∧ w = ⟨d, sees a⟩ := by
  cases o with
  | ok a d =>
    simp only [Observed.after, Outcome.returned, Option.map_some, Option.some.injEq] at h
    exact ⟨a, d, rfl, h.symm⟩
  | thrown e d => cases h

/-! ## 3. Mirrors -/

/-- The secondary indexes hold what `E` says of the objects. Callbacks keep it so, as long as an
object that is modified stays alike (`K`); the objects that are not `watched` do not matter. -/
structure Mirror (O : Observer S σ) (E : Store S → σ → Prop) (watched : S.Kind → Prop)
    (K : (k : S.Kind) → S.Obj k → S.Obj k → Prop) : Prop where
  congr : ∀ {s t : Store S} {w}, (∀ k i, watched k → s.get k i = t.get k i) → E s w → E t w
  inserted : ∀ {s : Store S} {w k i a} (hf : s.free k i a = true), s.get k i = none → E s w →
    E (s.write k i a hf) (O.objectInserted k i a w)
  removed : ∀ {s : Store S} {w k i a}, s.get k i = some a → E s w →
    E (s.erase k i) (O.objectRemoved k i a w)
  modified : ∀ {s : Store S} {w k i a b} (hf : s.free k i b = true), s.get k i = some a →
    S.SameKey k a b → K k a b → E s w →
    E (s.write k i b hf) (O.objectModified k i b (O.aboutToModify k i a w))
  refl : ∀ k a, K k a a
  symm : ∀ k a b, K k a b → K k b a
  trans : ∀ k a b c, K k a b → K k b c → K k a c

/-- What the undo stack tells about objects that stay alike. -/
def SameKind (K : (k : S.Kind) → S.Obj k → S.Obj k → Prop) (k : S.Kind) (a b : S.Obj k) : Prop :=
  S.SameKey k a b ∧ K k a b

/-- No object of a watched index would be put back. -/
def Quiet (watched : S.Kind → Prop) (u : UndoState S) : Prop :=
  ∀ k i, watched k → (u k).removed.get i = none

section

variable {O : Observer S σ} {E : Store S → σ → Prop} {watched : S.Kind → Prop}
  {K : (k : S.Kind) → S.Obj k → S.Obj k → Prop} {u : UndoState S}

/-- A loop whose steps keep an invariant together with what is seen. -/
theorem seenAlong_keeps {I : Store S → σ → Prop} {step : S.Kind × Nat → Store S → Walk S}
    (seen : S.Kind × Nat → Store S → σ → σ) {l : List (S.Kind × Nat)}
    (hstep : ∀ x ∈ l, ∀ s s' w, step x s = .ok s' → I s w → I s' (seen x s w)) {s s' : Store S}
    {w : σ} (hok : forEach step l s = .ok s') (h : I s w) : I s' (seenAlong step seen l s w) := by
  induction l generalizing s w with
  | nil =>
    cases hok
    exact h
  | cons x l ih =>
    simp only [forEach] at hok
    simp only [seenAlong]
    cases hx : step x s with
    | error e =>
      rw [hx] at hok
      cases hok
    | ok s₁ =>
      rw [hx] at hok
      exact ih (fun y hy => hstep y (List.mem_cons_of_mem x hy)) hok
        (hstep x List.mem_cons_self s s₁ w hx h)

/-- A loop that nobody sees. -/
theorem forEach_keeps {I : Store S → Prop} {step : S.Kind × Nat → Store S → Walk S}
    {l : List (S.Kind × Nat)} (hstep : ∀ x ∈ l, ∀ s s', step x s = .ok s' → I s → I s')
    {s s' : Store S} (hok : forEach step l s = .ok s') (h : I s) : I s' :=
  seenAlong_keeps (I := fun s _ => I s) (fun _ _ w => w) (fun x hx s s' _ => hstep x hx s s')
    (w := ()) hok h

/-- Objects are where they were, and alike. -/
def InPlace (K : (k : S.Kind) → S.Obj k → S.Obj k → Prop) (s t : Store S) : Prop :=
  ∀ k i a, s.get k i = some a → ∃ b, t.get k i = some b ∧ SameKind K k a b

/-- The first loop: old values are written back over objects that are alike. -/
theorem Mirror.restored (hM : Mirror O E watched K) {cur : Store S}
    (hu : ∀ k i b, (u k).oldValues.get i = some b → ∃ a, cur.get k i = some a ∧ SameKind K k a b)
    {x : S.Kind × Nat} {s s' : Store S} {w : σ} (hx : restoreOld u x s = .ok s')
    (h : E s w ∧ InPlace K cur s) : E s' (O.seesRestored u x s w) ∧ InPlace K cur s' := by
  obtain ⟨k, i⟩ := x
  obtain ⟨hE, hp⟩ := h
  unfold restoreOld at hx
  unfold Observer.seesRestored
  cases hb : (u k).oldValues.get i with
  | none =>
    simp only [hb] at hx ⊢
    cases hx
    exact ⟨hE, hp⟩
  | some b =>
    obtain ⟨a₀, ha₀, hk₀⟩ := hu k i b hb
    obtain ⟨a, ha, hk⟩ := hp k i a₀ ha₀
    simp only [hb, ha] at hx ⊢
    split at hx
    · rename_i hf
      cases hx
      have hsame : S.SameKey k a b := fun c => (hk.1 c).symm.trans (hk₀.1 c)
      refine ⟨hM.modified hf ha hsame (hM.trans k _ _ _ (hM.symm k _ _ hk.2) hk₀.2) hE, ?_⟩
      intro k' j a' ha'
      by_cases e : k' = k ∧ j = i
      · obtain ⟨rfl, rfl⟩ := e
        rw [ha₀] at ha'
        cases ha'
        exact ⟨b, by simp, hk₀⟩
      · rw [Store.get_write_of_ne s hf e]
        exact hp k' j a' ha'
    · cases hx

/-- The second loop: new objects are taken away. -/
theorem Mirror.dropped (hM : Mirror O E watched K) {x : S.Kind × Nat} {s s' : Store S} {w : σ}
    (hx : removeNew x s = .ok s') (h : E s w) : E s' (O.seesDropped x s w) := by
  unfold removeNew at hx
  unfold Observer.seesDropped
  cases hg : s.get x.1 x.2 with
  | none =>
    simp only [hg] at hx
    cases hx
  | some a =>
    simp only [hg] at hx ⊢
    cases hx
    exact hM.removed hg h

/-- The last loop: what is put back is not watched. -/
theorem Mirror.putBack (hM : Mirror O E watched K) (hq : Quiet watched u) {w : σ}
    {x : S.Kind × Nat} {s s' : Store S} (hx : insertRemoved u x s = .ok s') (h : E s w) :
    E s' w := by
  obtain ⟨k, i⟩ := x
  unfold insertRemoved at hx
  cases hr : (u k).removed.get i with
  | none =>
    simp only [hr] at hx
    cases hx
    exact h
  | some a =>
    simp only [hr] at hx
    split at hx
    · rename_i hf
      cases hx
      refine hM.congr (fun k' j hk' => ?_) h
      have hne : ¬(k' = k ∧ j = i) := by
        rintro ⟨rfl, rfl⟩
        rw [hq k' j hk'] at hr
        cases hr
      rw [Store.get_write_of_ne s hf.2 hne]
    · cases hx

/-- **A rollback that puts no watched object back leaves the indexes right.** -/
theorem Mirror.rolledBack (hM : Mirror O E watched K) {cur base : Store S} {w : σ}
    {o : WalkOrder (S.Kind × Nat)}
    (hu : Undoes u cur base) (ht : Alike (SameKind K) base cur) (hq : Quiet watched u)
    (hok : rollbackStore u o cur = .ok base) (h : E cur w) :
    E base (O.rollbackSeen u o cur w) := by
  have hold : ∀ k i b, (u k).oldValues.get i = some b →
      ∃ a, cur.get k i = some a ∧ SameKind K k a b := by
    intro k i b hb
    obtain ⟨hsome, _, hrem⟩ := (hu.tells k i).old b hb
    obtain ⟨a, ha⟩ := Option.isSome_iff_exists.mp hsome
    have hbase : base.get k i = some b := by
      rw [(hu.tells k i).was]
      simp only [KindUndo.was, hrem, hb]
    obtain ⟨hkey, hk⟩ := ht k i b a hbase ha
    exact ⟨a, ha, fun c => (hkey c).symm, hM.symm k _ _ hk⟩
  unfold rollbackStore at hok
  unfold Observer.rollbackSeen
  cases h1 : forEach (restoreOld u) (UndoState.keys o fun k => (u k).oldValues) cur with
  | error e =>
    rw [h1] at hok
    cases hok
  | ok s₁ =>
    rw [h1] at hok
    simp only [h1]
    have hE1 := seenAlong_keeps (I := fun s w => E s w ∧ InPlace K cur s)
      (O.seesRestored u) (fun _ _ _ _ _ hx hI => hM.restored hold hx hI) h1
      ⟨h, fun k i a ha => ⟨a, ha, Schema.SameKey.refl S a, hM.refl k a⟩⟩
    cases h2 : forEach removeNew (UndoState.keys o fun k => (u k).newIds) s₁ with
    | error e =>
      simp only [bind, Except.bind, h2] at hok
      cases hok
    | ok s₂ =>
      simp only [bind, Except.bind, h2] at hok
      have hE2 := seenAlong_keeps (I := E) O.seesDropped
        (fun _ _ _ _ _ hx hI => hM.dropped hx hI) h2 hE1.1
      have hE3 := hM.congr (fun k i _ => (get_resetNextIds u S.kinds s₂ k i).symm) hE2
      exact forEach_keeps (I := fun s => E s _) (fun _ _ _ _ hx hI => hM.putBack hq hx hI) hok hE3

end

/-! ## 4. Runs -/

/-- The database and its secondary indexes at any time of a run. -/
structure Mirrored (E : Store S → σ → Prop) (K : (k : S.Kind) → S.Obj k → S.Obj k → Prop)
    (w : Observed S σ) : Prop where
  exact : E w.db.store w.sindex
  enabled : w.db.disabled = false
  fresh : w.db.store.Fresh
  rewinds : ∃ snaps, Rewinds (Alike (SameKind K)) w.db.stack w.db.store snaps ∧
    w.db.stack.length = snaps.length

/-- A modifier keeps objects alike. -/
def ObjectCall.Alike (K : (k : S.Kind) → S.Obj k → S.Obj k → Prop) : ObjectCall S → Prop
  | .modify k _ f _ => ∀ a b, f a = .ok b → K k a b
  | _ => True

section

variable {O : Observer S σ} {E : Store S → σ → Prop} {watched : S.Kind → Prop}
  {K : (k : S.Kind) → S.Obj k → S.Obj k → Prop} {w w' : Observed S σ}

theorem Mirror.tracked_trans (hM : Mirror O E watched K) :
    ∀ (k : S.Kind) (a b c : S.Obj k), SameKind K k a b → SameKind K k b c → SameKind K k a c :=
  fun k _ _ _ h h' => ⟨h.1.trans h'.1, hM.trans k _ _ _ h.2 h'.2⟩

theorem Mirror.tracked (hM : Mirror O E watched K) : Tracked (S := S) (Alike (SameKind K)) :=
  alike_tracked (fun k a => ⟨Schema.SameKey.refl S a, hM.refl k a⟩) hM.tracked_trans

/-- A change of one object is saved into the newest undo state, or into a first one. -/
theorem Rewinds.onTop {T : Store S → Store S → Prop} (hT : Tracked T) {d : Database S}
    {s' : Store S} {k : S.Kind} {f : KindUndo (S.Obj k) → KindUndo (S.Obj k)}
    (hd : d.disabled = false) (hfresh : d.store.Fresh)
    (hf : ∀ u base, Sound u d.store base → T base d.store → Sound (u.upd k f) s' base ∧ T base s')
    (h : ∃ snaps, Rewinds T d.stack d.store snaps ∧ d.stack.length = snaps.length)
    {stack : List (UndoState S)} (hstack : stack = (d.onTop k f).stack) :
    ∃ snaps, Rewinds T stack s' snaps ∧ stack.length = snaps.length := by
  obtain ⟨snaps, hr, hlen⟩ := h
  subst hstack
  simp only [Database.onTop, hd]
  cases hst : d.stack with
  | nil =>
    obtain ⟨h1, h2⟩ := hf _ _ (Sound.empty hfresh) (hT.refl _)
    exact ⟨[d.store], .cons h1 h2 (.nil _ _), rfl⟩
  | cons u us =>
    rw [hst] at hr hlen
    cases hr with
    | nil => cases hlen
    | cons hu ht hr' =>
      obtain ⟨h1, h2⟩ := hf _ _ hu ht
      exact ⟨_, .cons h1 h2 hr', by simpa using hlen⟩

theorem Mirrored.create (hM : Mirror O E watched K) (h : Mirrored E K w) {k : S.Kind}
    {a : S.Obj k} (hc : w.call O (.create k a) = some w') : Mirrored E K w' := by
  simp only [Observed.call] at hc
  obtain ⟨i, d', hok, rfl⟩ := after_eq_some hc
  obtain ⟨rfl, hg, hf, hd⟩ := create_ok hok
  have hstore : d'.store =
      (w.db.store.write k (w.db.store.nextId k) a hf).setNextId k (w.db.store.nextId k + 1) := by
    rw [hd]
    simp
  refine ⟨?_, ?_, ?_, ?_⟩
  · show E d'.store _
    rw [hstore]
    exact hM.congr (fun k' j _ => (Store.get_setNextId _ _ _ _ _).symm) (hM.inserted hf hg h.exact)
  · rw [show d'.disabled = _ from congrArg Database.disabled hd]
    simpa using h.enabled
  · show d'.store.Fresh
    rw [hstore]
    exact h.fresh.create hf
  · show ∃ snaps, Rewinds _ d'.stack d'.store snaps ∧ _
    rw [hstore]
    refine Rewinds.onTop hM.tracked h.enabled h.fresh
      (fun u base hu ht => ⟨hu.create hf, alike_create hu ht hf⟩) h.rewinds ?_
    rw [hd]
    exact onTop_stack_congr k _ rfl rfl

theorem Mirrored.modify (hM : Mirror O E watched K) (h : Mirrored E K w) {k : S.Kind} {i : Nat}
    {f : S.Obj k → Except Exn (S.Obj k)} {hkey : ∀ a b, f a = .ok b → S.SameKey k a b}
    (hK : ∀ a b, f a = .ok b → K k a b) (hc : w.call O (.modify k i f hkey) = some w') :
    Mirrored E K w' := by
  simp only [Observed.call] at hc
  obtain ⟨_, d', hok, rfl⟩ := after_eq_some hc
  obtain ⟨a, b, hg, hb, hf, hstore, hd⟩ := modify_ok hok
  refine ⟨?_, ?_, ?_, ?_⟩
  · show E d'.store _
    rw [hstore]
    simp only [Observed.seesModified, hg, hb]
    exact hM.modified hf hg (hkey a b hb) (hK a b hb) h.exact
  · rw [show d'.disabled = _ from congrArg Database.disabled hd]
    simpa using h.enabled
  · show d'.store.Fresh
    rw [hstore]
    exact h.fresh.write hf (h.fresh k i a hg)
  · show ∃ snaps, Rewinds _ d'.stack d'.store snaps ∧ _
    rw [hstore]
    refine Rewinds.onTop hM.tracked h.enabled h.fresh (fun u base hu ht => ?_) h.rewinds
      (by rw [hd])
    exact ⟨hu.modify hg hf, alike_modify hM.tracked_trans ht hg ⟨hkey a b hb, hK a b hb⟩ hf⟩

theorem Mirrored.remove (hM : Mirror O E watched K) (h : Mirrored E K w) {k : S.Kind} {i : Nat}
    (hc : w.call O (.remove k i) = some w') : Mirrored E K w' := by
  simp only [Observed.call] at hc
  obtain ⟨_, d', hok, rfl⟩ := after_eq_some hc
  obtain ⟨a, hg, hd⟩ := remove_ok hok
  have hstore : d'.store = w.db.store.erase k i := by rw [hd]
  refine ⟨?_, ?_, ?_, ?_⟩
  · show E d'.store _
    rw [hstore]
    simp only [hg]
    exact hM.removed hg h.exact
  · rw [show d'.disabled = _ from congrArg Database.disabled hd]
    simpa using h.enabled
  · show d'.store.Fresh
    rw [hstore]
    exact h.fresh.erase k i
  · show ∃ snaps, Rewinds _ d'.stack d'.store snaps ∧ _
    rw [hstore]
    exact Rewinds.onTop hM.tracked h.enabled h.fresh
      (fun u base hu ht => ⟨hu.remove hg, alike_erase ht⟩) h.rewinds (by rw [hd])

theorem Mirrored.start (hM : Mirror O E watched K) (h : Mirrored E K w) (force : Bool) :
    Mirrored E K ⟨(w.db.startUndoSession force).2, w.sindex⟩ := by
  obtain ⟨snaps, hr, hlen⟩ := h.rewinds
  rw [startUndoSession_eq force h.enabled]
  refine ⟨h.exact, h.enabled, h.fresh, w.db.store :: snaps.take w.db.maxSize,
    startUndoSession_rewinds hM.tracked hr h.fresh, ?_⟩
  simp only [List.length_cons, List.length_take, hlen]

theorem Mirrored.merge (hM : Mirror O E watched K) (h : Mirrored E K w)
    (hc : w.call O .merge = some w') : Mirrored E K w' := by
  simp only [Observed.call] at hc
  obtain ⟨_, d', hok, rfl⟩ := after_eq_some hc
  obtain ⟨snaps, hr, hlen⟩ := h.rewinds
  unfold Database.merge at hok
  split at hok
  · cases hok
  · split at hok
    · cases hok
    · split at hok
      · cases hok
        exact ⟨h.exact, h.enabled, h.fresh, [], .nil _ _, rfl⟩
      · cases hok
    · rename_i v u us hst
      cases hok
      rw [hst] at hr hlen
      have hr0 := hr
      obtain _ | ⟨_, _, hr'⟩ := hr
      · cases hlen
      obtain _ | ⟨_, _, _⟩ := hr'
      · simp at hlen
      refine ⟨h.exact, h.enabled, h.fresh, _, hr0.merge hM.tracked, ?_⟩
      simp only [List.length_cons] at hlen ⊢
      omega

/-- **A rollback**, by `undo` or by `pop_commit`: back to the newest snapshot. -/
theorem Mirrored.rolledBack (hM : Mirror O E watched K) (h : Mirrored E K w) {u : UndoState S}
    {us : List (UndoState S)} (hst : w.db.stack = u :: us) (hq : Quiet watched u) :
    ∃ base, rollbackStore u w.db.order w.db.store = .ok base ∧ E base (w.seesRolledBack O) ∧
      base.Fresh ∧ ∃ snaps, Rewinds (Alike (SameKind K)) us base snaps ∧ us.length = snaps.length := by
  obtain ⟨snaps, hr, hlen⟩ := h.rewinds
  rw [hst] at hr hlen
  obtain _ | @⟨_, _, _, base, snaps, hu, ht, hr'⟩ := hr
  · cases hlen
  have hsteady : Steady base w.db.store := fun k i a b ha hb => (ht k i a b ha hb).1
  have hroll : rollbackStore u w.db.order w.db.store = .ok base :=
    rollbackStore_ok hu.toUndoes hsteady.noTakeover
  refine ⟨base, hroll, ?_, hu.freshBase, snaps, hr', by simpa using hlen⟩
  simp only [Observed.seesRolledBack, hst]
  exact hM.rolledBack hu.toUndoes ht hq hroll h.exact

theorem Mirrored.undo (hM : Mirror O E watched K) (h : Mirrored E K w)
    (hq : ∀ u, w.RollsBack .undo u → Quiet watched u) (hc : w.call O .undo = some w') :
    Mirrored E K w' := by
  simp only [Observed.call] at hc
  obtain ⟨_, d', hok, rfl⟩ := after_eq_some hc
  unfold Database.undo Database.rollbackState at hok
  simp only [h.enabled, Bool.false_eq_true, if_false] at hok
  split at hok
  · cases hok
  · cases hst : w.db.stack with
    | nil =>
      simp only [hst] at hok
      cases hok
    | cons u us =>
      obtain ⟨base, hroll, hE, hf, hr⟩ := h.rolledBack hM hst (hq u ⟨.inl rfl, us, hst⟩)
      simp only [hst, hroll] at hok
      cases hok
      exact ⟨hE, rfl, hf, hr⟩

theorem Mirrored.popCommit (hM : Mirror O E watched K) (h : Mirrored E K w)
    (hq : ∀ u, w.RollsBack .popCommit u → Quiet watched u)
    (hc : w.call O .popCommit = some w') : Mirrored E K w' := by
  simp only [Observed.call] at hc
  obtain ⟨_, d', hok, rfl⟩ := after_eq_some hc
  unfold Database.popCommit Database.rollbackState at hok
  split at hok
  · cases hok
  · split at hok
    · cases hok
    · cases hst : w.db.stack with
      | nil =>
        simp only [hst] at hok
        cases hok
      | cons u us =>
        obtain ⟨base, hroll, hE, hf, hr⟩ := h.rolledBack hM hst (hq u ⟨.inr rfl, us, hst⟩)
        simp only [hst, hroll] at hok
        cases hok
        exact ⟨hE, rfl, hf, hr⟩

theorem Mirrored.call (hM : Mirror O E watched K) (h : Mirrored E K w) {c : ObjectCall S}
    (hK : c.Alike K) (hq : ∀ u, w.RollsBack c u → Quiet watched u)
    (hc : w.call O c = some w') : Mirrored E K w' := by
  cases c with
  | create k a => exact h.create hM hc
  | modify k i f hkey => exact h.modify hM hK hc
  | remove k i => exact h.remove hM hc
  | startUndoSession force =>
    cases hc
    exact h.start hM force
  | undo => exact h.undo hM hq hc
  | merge => exact h.merge hM hc
  | commit =>
    simp only [Observed.call] at hc
    obtain ⟨_, d', hok, rfl⟩ := after_eq_some hc
    unfold Database.commit at hok
    split at hok
    · cases hok
    · cases hok
      exact ⟨h.exact, h.enabled, h.fresh, h.rewinds⟩
  | popCommit => exact h.popCommit hM hq hc
  | setMaxSize n =>
    cases hc
    exact ⟨h.exact, h.enabled, h.fresh, h.rewinds⟩

/-- **The indexes are right after every run in which no rollback puts a watched object back.** -/
theorem Mirror.run (hM : Mirror O E watched K) (h : Mirrored E K w)
    (hrun : Observed.Run O (fun v c => c.Alike K ∧ ∀ u, v.RollsBack c u → Quiet watched u) w w') :
    Mirrored E K w' := by
  induction hrun with
  | refl => exact h
  | call _ hok hc ih => exact ih.call hM hok.1 hok.2 hc

end

/-! ## 5. Indexes from which nothing is removed -/

/-- No undo state would put an object of index `k` back. -/
def NoneRemoved (k : S.Kind) (d : Database S) : Prop :=
  ∀ u ∈ d.stack, ∀ i, (u k).removed.get i = none

/-- The call removes no object of index `k`. -/
def ObjectCall.Spares (k : S.Kind) : ObjectCall S → Prop
  | .remove k' _ => k' ≠ k
  | _ => True

section

variable {k : S.Kind} {d : Database S}

theorem foldRows_keeps {α β : Type} {I : KindUndo α → Prop}
    {f : KindUndo α → Nat → β → KindUndo α} {r : List (Nat × β)} {p : KindUndo α}
    (hf : ∀ p, I p → ∀ x ∈ r, I (f p x.1 x.2)) (h : I p) : I (KindUndo.foldRows f r p) := by
  induction r generalizing p with
  | nil => exact h
  | cons x r ih =>
    exact ih (fun p hp y hy => hf p hp y (List.mem_cons_of_mem x hy)) (hf p h x List.mem_cons_self)

theorem merge_removed_none {α : Type} {p v : KindUndo α} (hp : ∀ i, p.removed.get i = none)
    (hv : ∀ i, v.removed.get i = none) (i : Nat) : (p.merge v).removed.get i = none := by
  have hrows : v.removed.rows = [] := by
    refine List.eq_nil_iff_forall_not_mem.mpr fun x hx => ?_
    have := FMap.mem_rows.mp hx
    rw [hv] at this
    cases this
  unfold KindUndo.merge
  simp only [hrows, KindUndo.foldRows]
  refine foldRows_keeps (I := fun q => q.removed.get i = none) (fun q hq x _ => hq)
    (foldRows_keeps (I := fun q => q.removed.get i = none) (fun q hq x _ => ?_) (hp i))
  unfold KindUndo.mergeOld
  split
  · exact hq
  · split
    · exact hq
    · exact hq

theorem NoneRemoved.onTop (h : NoneRemoved k d) (k' : S.Kind)
    (f : KindUndo (S.Obj k') → KindUndo (S.Obj k'))
    (hf : k' = k → ∀ p, (f p).removed = p.removed) {d' : Database S}
    (hst : d'.stack = (d.onTop k' f).stack) : NoneRemoved k d' := by
  have hupd : ∀ u : UndoState S, (∀ i, (u k).removed.get i = none) →
      ∀ i, (u.upd k' f k).removed.get i = none := by
    intro u hu i
    by_cases e : k = k'
    · subst e
      rw [UndoState.upd_self, hf rfl]
      exact hu i
    · rw [UndoState.upd_ne u e]
      exact hu i
  unfold NoneRemoved
  rw [hst]
  unfold Database.onTop
  split
  · exact h
  · cases hs : d.stack with
    | nil =>
      intro u hu
      obtain rfl := List.mem_singleton.mp hu
      exact hupd _ fun _ => rfl
    | cons v us =>
      intro u hu
      rcases List.mem_cons.mp hu with rfl | hu
      · exact hupd v (h v (hs ▸ List.mem_cons_self))
      · exact h u (hs ▸ List.mem_cons_of_mem v hu)

theorem NoneRemoved.of_subset (h : NoneRemoved k d) {d' : Database S}
    (hst : ∀ u ∈ d'.stack, u ∈ d.stack) : NoneRemoved k d' := fun u hu => h u (hst u hu)

theorem onModify_removed {α : Type} (p : KindUndo α) (i : Nat) (a : α) :
    (p.onModify i a).removed = p.removed := by
  unfold KindUndo.onModify
  split
  · rfl
  · split
    · rfl
    · rfl

theorem rollbackState_stack_subset {d' : Database S} (h : d.rollbackState = .ok () d') :
    ∀ u ∈ d'.stack, u ∈ d.stack := by
  unfold Database.rollbackState at h
  split at h
  · cases h
  · rename_i u us hst
    split at h
    · cases h
      intro v hv
      rw [hst]
      exact List.mem_cons_of_mem u hv
    · cases h

theorem undo_stack_subset {d' : Database S} (h : d.undo = .ok () d') :
    ∀ u ∈ d'.stack, u ∈ d.stack := by
  unfold Database.undo at h
  split at h
  · cases h
  · split at h
    · cases h
    · split at h
      · rename_i hr
        cases h
        have hsub := rollbackState_stack_subset hr
        exact hsub
      · cases h

theorem popCommit_stack_subset {d' : Database S} (h : d.popCommit = .ok () d') :
    ∀ u ∈ d'.stack, u ∈ d.stack := by
  unfold Database.popCommit at h
  split at h
  · cases h
  · split at h
    · cases h
    · split at h
      · rename_i hr
        cases h
        have hsub := rollbackState_stack_subset hr
        exact hsub
      · cases h

theorem NoneRemoved.call {O : Observer S σ} {w w' : Observed S σ} (h : NoneRemoved k w.db)
    {c : ObjectCall S} (hspare : c.Spares k) (hc : w.call O c = some w') : NoneRemoved k w'.db := by
  cases c with
  | create k' a =>
    simp only [Observed.call] at hc
    obtain ⟨_, d', hok, rfl⟩ := after_eq_some hc
    obtain ⟨_, _, _, rfl⟩ := create_ok hok
    refine h.onTop k' (fun u => u.onCreate (w.db.store.nextId k')) (fun _ _ => rfl) ?_
    exact onTop_stack_congr k' _ rfl rfl
  | modify k' i f hkey =>
    simp only [Observed.call] at hc
    obtain ⟨_, d', hok, rfl⟩ := after_eq_some hc
    obtain ⟨a, _, _, _, _, _, rfl⟩ := modify_ok hok
    exact h.onTop k' _ (fun _ p => onModify_removed p i a) rfl
  | remove k' i =>
    simp only [Observed.call] at hc
    obtain ⟨_, d', hok, rfl⟩ := after_eq_some hc
    obtain ⟨a, _, rfl⟩ := remove_ok hok
    exact h.onTop k' (fun u => u.onRemove i a) (fun e => absurd e hspare) rfl
  | startUndoSession force =>
    cases hc
    unfold Database.startUndoSession
    split
    · exact h
    · intro u hu
      rcases List.mem_cons.mp hu with rfl | hu
      · exact fun _ => rfl
      · exact h u (List.mem_of_mem_take hu)
  | undo =>
    simp only [Observed.call] at hc
    obtain ⟨_, d', hok, rfl⟩ := after_eq_some hc
    exact h.of_subset (undo_stack_subset hok)
  | merge =>
    simp only [Observed.call] at hc
    obtain ⟨_, d', hok, rfl⟩ := after_eq_some hc
    unfold Database.merge at hok
    repeat' split at hok
    all_goals cases hok
    · exact fun u hu => nomatch hu
    · rename_i v u us hst
      intro x hx
      rcases List.mem_cons.mp hx with rfl | hx
      · exact merge_removed_none (h u (by simp [hst])) (h v (by simp [hst]))
      · exact h x (by simp [hst, hx])
  | commit =>
    simp only [Observed.call] at hc
    obtain ⟨_, d', hok, rfl⟩ := after_eq_some hc
    unfold Database.commit at hok
    split at hok
    · cases hok
    · cases hok
      exact h
  | popCommit =>
    simp only [Observed.call] at hc
    obtain ⟨_, d', hok, rfl⟩ := after_eq_some hc
    exact h.of_subset (popCommit_stack_subset hok)
  | setMaxSize n =>
    cases hc
    exact h

/-- **The index of objects that are never removed is right after every run.** -/
theorem Mirror.run_sparing {O : Observer S σ} {E : Store S → σ → Prop}
    {K : (k : S.Kind) → S.Obj k → S.Obj k → Prop} {w w' : Observed S σ}
    (hM : Mirror O E (fun k' => k' = k) K) (h : Mirrored E K w) (hn : NoneRemoved k w.db)
    (hrun : Observed.Run O (fun _ c => c.Alike K ∧ c.Spares k) w w') :
    Mirrored E K w' ∧ NoneRemoved k w'.db := by
  induction hrun with
  | refl => exact ⟨h, hn⟩
  | call _ hok hc ih =>
    refine ⟨ih.1.call hM hok.1 ?_ hc, ih.2.call hok.2 hc⟩
    rintro u ⟨_, us, hst⟩ k' i rfl
    exact ih.2 u (hst ▸ List.mem_cons_self) i

end

end MuseChain
