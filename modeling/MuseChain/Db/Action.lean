/-
  File:      MuseChain/Db/Action.lean
  Subject:   The programs that run on the database, with what they owe to the undo stack.

  `Action S n α` is a program over the database with at most `n` sessions nested in it. It carries
  its own proofs that, unless a `modify` broke an object, it leaves every snapshot of the undo stack
  alone but the oldest ones that a nested session trims (`holds`), and that what lies at the bottom
  of the stack makes no difference to it (`blind`). The primitives prove it once; every program
  written with them has it by construction.
    * `Action.nested`: a forced session around a program, merged when it returns, undone when it
      throws;
    * `bind_ok` and its like say what a run that returned has done, step by step.
-/
import MuseChain.Db.Bottoms

namespace MuseChain

variable {S : Schema}

/-- What stays as it was: the ids in use are below the next ids, nobody touches the flags, and of
the stack below its top only the oldest states go. -/
structure Orderly (n : Nat) (d d' : Database S) : Prop where
  fresh : d'.store.Fresh
  maxSize : d'.maxSize = d.maxSize
  disabled : d'.disabled = d.disabled
  activeSessions : d'.activeSessions = d.activeSessions
  order : d'.order = d.order
  stack : ∀ u us, d.stack = u :: us → ∃ u' m, min us.length (d.maxSize - n) ≤ m ∧
    d'.stack = u' :: us.take m

theorem Orderly.refl (n : Nat) {d : Database S} (hf : d.store.Fresh) : Orderly n d d :=
  ⟨hf, rfl, rfl, rfl, rfl, fun u us h =>
    ⟨u, us.length, Nat.min_le_left _ _, by rw [h, List.take_length]⟩⟩

theorem Orderly.trans {n : Nat} {d d' d'' : Database S} (h : Orderly n d d')
    (h' : Orderly n d' d'') : Orderly n d d'' where
  fresh := h'.fresh
  maxSize := h'.maxSize.trans h.maxSize
  disabled := h'.disabled.trans h.disabled
  activeSessions := h'.activeSessions.trans h.activeSessions
  order := h'.order.trans h.order
  stack := by
    intro u us hst
    obtain ⟨u', m, hm, hst'⟩ := h.stack u us hst
    obtain ⟨u'', m', hm', hst''⟩ := h'.stack u' _ hst'
    rw [List.length_take, h.maxSize] at hm'
    exact ⟨u'', min m' m, by omega, by rw [hst'', List.take_take]⟩

/-- A step that only touches the store and the top of the stack. -/
theorem Orderly.of_top {n : Nat} {d d' : Database S} (hf : d'.store.Fresh)
    (hm : d'.maxSize = d.maxSize) (hd : d'.disabled = d.disabled)
    (ha : d'.activeSessions = d.activeSessions) (ho : d'.order = d.order) {k : S.Kind}
    {f : KindUndo (S.Obj k) → KindUndo (S.Obj k)} (hs : d'.stack = (d.onTop k f).stack) :
    Orderly n d d' := by
  refine ⟨hf, hm, hd, ha, ho, fun u us hst => ?_⟩
  rw [hs]
  unfold Database.onTop
  split
  · exact ⟨u, us.length, Nat.min_le_left _ _, by rw [hst, List.take_length]⟩
  · simp only [hst]
    exact ⟨u.upd k f, us.length, Nat.min_le_left _ _, by rw [List.take_length]⟩

def Tidy (n : Nat) (d d' : Database S) : Prop := n ≤ d.maxSize → d.store.Fresh → Orderly n d d'

theorem Tidy.refl (n : Nat) (d : Database S) : Tidy n d d := fun _ hf => Orderly.refl n hf

theorem Tidy.trans {n : Nat} {d d' d'' : Database S} (h : Tidy n d d') (h' : Tidy n d' d'') :
    Tidy n d d'' := by
  intro hn hf
  have h1 := h hn hf
  exact h1.trans (h' (h1.maxSize ▸ hn) h1.fresh)

theorem Tidy.mono {n n' : Nat} {d d' : Database S} (h : Tidy n d d') (hn : n ≤ n') :
    Tidy n' d d' := by
  intro hm hf
  obtain ⟨h1, h2, h3, h4, h5, h6⟩ := h (by omega) hf
  refine ⟨h1, h2, h3, h4, h5, fun u us hst => ?_⟩
  obtain ⟨u', m, hm, e⟩ := h6 u us hst
  exact ⟨u', m, by omega, e⟩

/-- What a program owes to the undo stack, on a run from `d` to `d'` in which no container
dropped an object. -/
def Holds (n : Nat) (d d' : Database S) : Prop :=
  d'.broken = false → d.broken = false ∧ Keeps Steady n d d' ∧ Tidy n d d'

theorem Holds.refl (n : Nat) (d : Database S) : Holds n d d :=
  fun h => ⟨h, Keeps.refl d, Tidy.refl n d⟩

theorem Holds.trans {n : Nat} {d d' d'' : Database S} (h : Holds n d d') (h' : Holds n d' d'') :
    Holds n d d'' := by
  intro hb
  obtain ⟨hb1, hk1, ht1⟩ := h' hb
  obtain ⟨hb0, hk0, ht0⟩ := h hb1
  exact ⟨hb0, hk0.trans hk1, ht0.trans ht1⟩

theorem Holds.mono {n n' : Nat} {d d' : Database S} (h : Holds n d d') (hn : n ≤ n') :
    Holds n' d d' := by
  intro hb
  obtain ⟨hb0, hk, ht⟩ := h hb
  exact ⟨hb0, hk.mono hn, ht.mono hn⟩

/-- A program over the database, with at most `n` sessions nested in it. -/
structure Action (S : Schema) (n : Nat) (α : Type) where
  run : Database S → Outcome S α
  holds : ∀ d, Holds n d (run d).db
  blind : Blind run

namespace Action

variable {n : Nat} {α β : Type}

/-! ## 1. The monad -/

def ret (a : α) : Action S n α := ⟨fun d => .ok a d, fun d => Holds.refl n d, blind_ok a⟩

def andThen (x : Action S n α) (f : α → Action S n β) : Action S n β where
  run d :=
    match x.run d with
    | .ok a d => (f a).run d
    | .thrown e d => .thrown e d
  holds d := by
    have hx := x.holds d
    cases h : x.run d with
    | ok a d₁ =>
      rw [h] at hx
      exact hx.trans ((f a).holds d₁)
    | thrown e d₁ =>
      rw [h] at hx
      exact hx
  blind := by
    refine x.blind.bind (fun d a d₁ h => ?_) (fun d e d₁ h => ?_) (fun a => (f a).blind)
      fun e => blind_thrown e
    · simp only [h]
    · simp only [h]

instance : Monad (Action S n) where
  pure := ret
  bind := andThen

theorem ext_run {x y : Action S n α} (h : ∀ d, x.run d = y.run d) : x = y := by
  cases x
  cases y
  congr
  exact funext h

theorem bind_assoc {γ : Type} (x : Action S n α) (f : α → Action S n β) (g : β → Action S n γ) :
    (x >>= f) >>= g = x >>= fun a => f a >>= g := by
  refine ext_run fun d => ?_
  show (andThen (andThen x f) g).run d = (andThen x fun a => andThen (f a) g).run d
  simp only [andThen]
  cases x.run d with
  | ok a d₁ => rfl
  | thrown e d₁ => rfl

/-- `FC_THROW`, and every other exception. -/
def throw (e : Exn) : Action S n α := ⟨fun d => .thrown e d, fun d => Holds.refl n d, blind_thrown e⟩

/-- `FC_ASSERT`. -/
def require (c : Prop) [Decidable c] (msg : String) : Action S n Unit :=
  if c then ret () else throw (.assert msg)

/-- A look at the objects. -/
def read (f : Store S → α) : Action S n α :=
  ⟨fun d => .ok (f d.store) d, fun d => Holds.refl n d, .look (fun _ => rfl) fun _ _ => rfl⟩

/-- `db.get( id )`. -/
def get (k : S.Kind) (i : Nat) : Action S n (S.Obj k) where
  run d :=
    match d.store.get k i with
    | some a => .ok a d
    | none => .thrown (.assert "Unable to find Object") d
  holds d := by
    cases d.store.get k i with
    | some a => exact Holds.refl n d
    | none => exact Holds.refl n d
  blind := by
    refine Blind.look (fun d => ?_) fun d t => ?_
    · cases d.store.get k i with
      | some a => rfl
      | none => rfl
    · rw [under_store]
      cases d.store.get k i with
      | some a => rfl
      | none => rfl

/-- The objects of an index with their ids, in the order of the ids. -/
def rows (k : S.Kind) : Action S n (List (Nat × S.Obj k)) := read fun s => s.rows k

/-- A computation that may throw and touches nothing. -/
def lift (x : Except Exn α) : Action S n α :=
  match x with
  | .ok a => ret a
  | .error e => throw e

/-- `try { x } catch( fc::exception& e ) { handler }`. A crash is not caught. -/
def catching (x : Action S n α) (handler : Exn → Action S n α) : Action S n α where
  run d :=
    match x.run d with
    | .ok a d => .ok a d
    | .thrown (.crash why) d => .thrown (.crash why) d
    | .thrown e d => (handler e).run d
  holds d := by
    have hx := x.holds d
    cases h : x.run d with
    | ok a d₁ =>
      rw [h] at hx
      exact hx
    | thrown e d₁ =>
      rw [h] at hx
      cases e with
      | crash why => exact hx
      | assert msg => exact hx.trans ((handler _).holds d₁)
      | overflow msg => exact hx.trans ((handler _).holds d₁)
  blind := by
    refine x.blind.bind (f := fun a d => .ok a d)
      (g := fun e d => match e with
        | .crash why => .thrown (.crash why) d
        | e => (handler e).run d)
      (fun d a d₁ h => ?_) (fun d e d₁ h => ?_) blind_ok fun e => ?_
    · simp only [h]
    · simp only [h]
      cases e with
      | crash why => rfl
      | assert msg => rfl
      | overflow msg => rfl
    · cases e with
      | crash why => exact blind_thrown _
      | assert msg => exact (handler _).blind
      | overflow msg => exact (handler _).blind

/-- `for( const auto& x : l ) f( x );` -/
def forEach : List β → (β → Action S n Unit) → Action S n Unit
  | [], _ => ret ()
  | x :: l, f => andThen (f x) fun _ => forEach l f

/-- A loop that carries a value along. -/
def foldEach : List β → α → (α → β → Action S n α) → Action S n α
  | [], a, _ => ret a
  | x :: l, a, f => andThen (f a x) fun a => foldEach l a f

/-- A program with fewer nested sessions than allowed. -/
def weaken {m : Nat} (h : m ≤ n) (x : Action S m α) : Action S n α :=
  ⟨x.run, fun d => (x.holds d).mono h, x.blind⟩

/-! ## 2. The object database -/

/-- `db.create<T>( … )`; the new object's id. -/
def create (k : S.Kind) (a : S.Obj k) : Action S n Nat where
  run d := d.create k a
  holds d := by
    cases h : d.create k a with
    | thrown e d' =>
      simp only [Database.create] at h
      split at h
      · cases h
      · cases h
        exact Holds.refl n d
    | ok i d' =>
      obtain ⟨_, _, hf, e⟩ := create_ok h
      refine fun hb => ⟨?_, create_keeps h fun u base hs ht => ?_, fun _ hfr => ?_⟩
      · rw [Outcome.db_ok, e, onTop_broken] at hb
        exact hb
      · rw [Outcome.db_ok, e, onTop_store]
        exact alike_create hs ht hf
      · rw [Outcome.db_ok, e]
        refine Orderly.of_top ?_ (by simp) (by simp) (by simp) (by simp)
          (k := k) (f := fun u => u.onCreate (d.store.nextId k)) ?_
        · rw [onTop_store]
          exact hfr.create hf
        · exact onTop_stack_congr _ _ rfl rfl
  blind := blind_create k a

/-- The value saved before a callback runs is no loss, whatever comes of the callback. -/
theorem holds_saved {k : S.Kind} {i : Nat} {a : S.Obj k} {d : Database S}
    (hg : d.store.get k i = some a) : Holds n d (d.onTop k fun u => u.onModify i a) := by
  refine fun hb => ⟨by simpa using hb, ?_, fun _ hfr =>
    Orderly.of_top (by simpa using hfr) (by simp) (by simp) (by simp) (by simp) rfl⟩
  refine Keeps.of_top (g := fun u => u.upd k fun w => w.onModify i a) (by simp)
    (by simp) (by simp) (fun hd u us hst => onTop_stack d k _ hd hst) ?_
  intro u base hs ht
  have hf : d.store.free k i a = true := Store.free_iff.mpr fun j b hj hb =>
    d.store.unique k i j a b (Ne.symm hj) hg hb
  have e : d.store.write k i a hf = d.store := by
    refine Store.ext_get (fun k' j => ?_) fun k' => Store.nextId_write ..
    by_cases e : k' = k ∧ j = i
    · obtain ⟨rfl, rfl⟩ := e
      rw [Store.get_write_self, if_pos rfl, hg]
    · exact Store.get_write_of_ne _ hf e
  have := hs.modify hg hf
  rw [e] at this
  exact ⟨by simpa using this, by simpa using ht⟩

/-- `db.modify( obj, … )`: `f` is the part of the callback that may throw, `upd` writes what it
computed into the object. No callback touches a unique key. -/
def modifyWith (k : S.Kind) (i : Nat) (f : S.Obj k → Except Exn β) (upd : S.Obj k → β → S.Obj k)
    (hkey : ∀ a b, S.SameKey k a (upd a b) := by exact Schema.keepsKeyWith _ _ _) :
    Action S n Unit where
  run d := d.modify k i fun a => (f a).map (upd a)
  holds d := by
    cases h : d.modify k i fun a => (f a).map (upd a) with
    | ok _ d' =>
      obtain ⟨a, b, hg, hb, hf, hs, e⟩ := modify_ok h
      obtain ⟨v, -, rfl⟩ : ∃ v, f a = .ok v ∧ upd a v = b := by
        cases hv : f a with
        | error _ => rw [hv] at hb; cases hb
        | ok v => rw [hv] at hb; cases hb; exact ⟨v, rfl, rfl⟩
      refine fun hbr => ⟨?_, modify_keeps h fun u base _ ht => ?_, fun _ hfr => ?_⟩
      · rw [Outcome.db_ok, e] at hbr
        simpa using hbr
      · rw [Outcome.db_ok, hs]
        exact alike_modify (fun _ _ _ _ h h' => h.trans h') ht hg (hkey a v) hf
      · rw [Outcome.db_ok, e]
        exact Orderly.of_top (hfr.write hf (hfr k i a hg)) (by simp) (by simp) (by simp) (by simp) rfl
    | thrown ex d' =>
      unfold Database.modify at h
      cases hg : d.store.get k i with
      | none =>
        simp only [hg] at h
        cases h
        exact Holds.refl n d
      | some a =>
        simp only [hg, onTop_store] at h
        split at h
        · -- the callback threw: erased, or saved and left in place
          cases h
          intro hb
          split at hb
          · cases hb
          · rename_i hne
            simp only [hne, Outcome.db_thrown] at hb ⊢
            exact holds_saved hg hb
        · split at h
          · cases h
          · cases h
            exact fun hb => by cases hb
  blind := blind_modify k i _

/-- What is left of an object whose callback threw. -/
def dropObject (k : S.Kind) (i : Nat) (d : Database S) : Database S :=
  if S.erases k then { d with store := d.store.erase k i, broken := true } else d

/-- The value is saved, the callback runs, and what it computed is written. -/
theorem blind_modifyNested {k : S.Kind} {i : Nat} {body : S.Obj k → Database S → Outcome S β}
    {rest : β → Database S → Outcome S Unit} (hbody : ∀ a, Blind (body a))
    (hrest : ∀ b, Blind (rest b)) :
    Blind fun d => match d.store.get k i with
      | none => (.thrown (.crash "reference to a missing object") d : Outcome S Unit)
      | some a =>
          match body a (d.onTop k fun u => u.onModify i a) with
          | .thrown e d => .thrown e (dropObject k i d)
          | .ok b d => rest b d := by
  have hsave : Blind fun d : Database S => match d.store.get k i with
      | none => (.thrown (.crash "reference to a missing object") d : Outcome S (S.Obj k))
      | some a => .ok a (d.onTop k fun u => u.onModify i a) := by
    refine Blind.step (fun d => ?_) (fun d => ?_) (fun d => ?_) fun d t ht => ?_
    · cases d.store.get k i with
      | none => rfl
      | some a => exact onTop_activeSessions ..
    · cases d.store.get k i with
      | none => rfl
      | some a => exact onTop_disabled ..
    · cases d.store.get k i with
      | none => exact le_rfl
      | some a => exact onTop_length ..
    · rw [under_store]
      cases d.store.get k i with
      | none => rfl
      | some a => exact congrArg (Outcome.ok a) (onTop_under ht)
  have hdrop : ∀ e, Blind fun d : Database S => (.thrown e (dropObject k i d) : Outcome S Unit) := by
    intro e
    unfold dropObject
    split
    · exact Blind.step (fun _ => rfl) (fun _ => rfl) (fun _ => le_rfl) fun _ _ _ => rfl
    · exact blind_thrown e
  refine hsave.bind (f := fun a d => match body a d with
      | .thrown e d => .thrown e (dropObject k i d)
      | .ok b d => rest b d) (g := fun e d => .thrown e d)
    (fun d a d₁ h => ?_) (fun d e d₁ h => ?_) (fun a => ?_) blind_thrown
  · cases hg : d.store.get k i with
    | none =>
      simp only [hg] at h
      cases h
    | some a' =>
      simp only [hg] at h
      cases h
      rfl
  · cases hg : d.store.get k i with
    | none =>
      simp only [hg] at h
      cases h
      rfl
    | some a' =>
      simp only [hg] at h
      cases h
  · exact (hbody a).bind (fun d b d₁ h => by simp only [h]) (fun d e d₁ h => by simp only [h])
      hrest hdrop

/-- `db.modify( obj, … )` with a callback that itself works on the database (on other objects);
`upd` writes what it computed into the object. -/
def modifyNested (k : S.Kind) (i : Nat) (body : S.Obj k → Action S n β)
    (upd : S.Obj k → β → S.Obj k)
    (hkey : ∀ a b, S.SameKey k a (upd a b) := by exact Schema.keepsKeyWith _ _ _) :
    Action S n Unit where
  run d :=
    match d.store.get k i with
    | none => .thrown (.crash "reference to a missing object") d
    | some a =>
        match (body a).run (d.onTop k fun u => u.onModify i a) with
        | .thrown e d => .thrown e (dropObject k i d)
        | .ok b d => (modifyWith k i (fun _ => .ok b) upd hkey : Action S n Unit).run d
  holds d := by
    cases hg : d.store.get k i with
    | none => exact Holds.refl n d
    | some a =>
      have hbody := (body a).holds (d.onTop k fun u => u.onModify i a)
      simp only
      cases hr : (body a).run (d.onTop k fun u => u.onModify i a) with
      | thrown e d₁ =>
        rw [hr] at hbody
        intro hb
        simp only [Outcome.db_thrown, dropObject] at hb ⊢
        split at hb
        · cases hb
        · rename_i hne
          rw [if_neg hne]
          exact ((holds_saved hg).trans hbody) hb
      | ok b d₁ =>
        rw [hr] at hbody
        exact ((holds_saved hg).trans hbody).trans (holds _ d₁)
  blind := blind_modifyNested (fun a => (body a).blind) fun b => blind _

/-- `db.modify( obj, … )` with a callback that does not throw. -/
def modify (k : S.Kind) (i : Nat) (upd : S.Obj k → S.Obj k)
    (hkey : ∀ a, S.SameKey k a (upd a) := by exact Schema.keepsKey _ _) : Action S n Unit :=
  modifyWith k i (fun _ => .ok ()) (fun a _ => upd a) fun a _ => hkey a

/-- `db.remove( obj )`. -/
def remove (k : S.Kind) (i : Nat) : Action S n Unit where
  run d := d.remove k i
  holds d := by
    cases h : d.remove k i with
    | thrown e d' =>
      unfold Database.remove at h
      split at h
      · cases h
        exact Holds.refl n d
      · cases h
    | ok _ d' =>
      obtain ⟨a, _, e⟩ := remove_ok h
      refine fun hb => ⟨?_, remove_keeps h fun u base _ ht => ?_, fun _ hfr => ?_⟩
      · rw [Outcome.db_ok, e] at hb
        simpa using hb
      · rw [Outcome.db_ok, e]
        exact alike_erase ht
      · rw [Outcome.db_ok, e]
        exact Orderly.of_top (hfr.erase k i) (by simp) (by simp) (by simp) (by simp) rfl
  blind := blind_remove k i

/-! ## 3. Nested sessions -/

theorem undo_broken (d : Database S) : d.undo.db.broken = d.broken := by
  unfold Database.undo Database.rollbackState
  split
  · rfl
  · split
    · rfl
    · simp only
      cases d.stack with
      | nil => rfl
      | cons u us =>
        simp only
        cases rollbackStore u d.order d.store with
        | ok s => rfl
        | error e => rfl

theorem dropSession_broken (d : Database S) (exit : Bool) :
    (d.dropSession exit).broken = d.broken := by
  have h := undo_broken d
  unfold Database.dropSession
  split
  · rename_i e
    rw [e] at h
    split <;> exact h
  · rename_i e
    rw [e] at h
    exact h

theorem merge_broken (d : Database S) : d.merge.db.broken = d.broken := by
  unfold Database.merge
  split
  · rfl
  · split
    · rfl
    · split <;> rfl
    · rfl

theorem startUndoSession_broken (d : Database S) (force : Bool) :
    (d.startUndoSession force).2.broken = d.broken := by
  unfold Database.startUndoSession
  split <;> rfl

/-- A session that is dropped goes back to its own snapshot. -/
theorem keeps_dropped {d d₁ : Database S} {force : Bool}
    (h : Keeps Steady n (d.startUndoSession force).2 d₁) :
    Keeps Steady (n + 1) d (d₁.dropSession (d.startUndoSession force).1) := by
  intro hd hn snaps hne hr
  have hx : (d.startUndoSession force).1 = false := by rw [startUndoSession_eq force hd]
  obtain ⟨hd1, ha1, hm1, m, hpos, hm, hr1⟩ := h.session steady_tracked hd hn hne hr
  have hst : NoTakeover d.store d₁.store := by
    generalize hq : d₁.stack = stack at hr1
    cases hr1 with
    | cons _ ht _ => exact ht.noTakeover
  obtain ⟨us, _, hr2, e⟩ := undo_ok hd1 (by omega) hr1 hst
  simp only [Database.dropSession, e, hx]
  refine ⟨hd1, ?_, hm1, m, by omega, hr2⟩
  show d₁.activeSessions - 1 = d.activeSessions
  omega

/-- The state that a forced session starts in, whether undo is enabled or not. -/
theorem startUndoSession_forced (d : Database S) :
    d.startUndoSession true = (d.disabled,
      { d with
        disabled := false
        stack := UndoState.empty :: d.stack.take d.maxSize
        activeSessions := d.activeSessions + 1 }) := by
  simp [Database.startUndoSession]

/-- The own snapshot of a forced session at the end of its body. -/
theorem forced_session {d d₁ : Database S} (hn : n ≤ d.maxSize) (hf : d.store.Fresh)
    (h : Keeps Steady n (d.startUndoSession true).2 d₁) :
    d₁.disabled = false ∧ 0 < d₁.activeSessions ∧ d₁.maxSize = d.maxSize ∧
      Rewinds Steady d₁.stack d₁.store [d.store] := by
  rw [startUndoSession_forced] at h
  have hr : Rewinds Steady (UndoState.empty :: d.stack.take d.maxSize) d.store [d.store] :=
    Rewinds.cons (Sound.empty hf) (steady_tracked.refl _) (Rewinds.nil _ _)
  obtain ⟨hd1, ha1, hm1, m, hm, hr1⟩ := h rfl hn [d.store] (by simp) hr
  obtain ⟨m', rfl⟩ : ∃ m', m = m' + 1 := by
    simp only [List.length_cons, List.length_nil] at hm
    exact ⟨m - 1, by omega⟩
  rw [List.take_succ_cons, List.take_nil] at hr1
  exact ⟨hd1, by simp only at ha1; omega, hm1, hr1⟩

/-- **A session that is dropped leaves the objects as they were.** -/
theorem dropped {d d₁ : Database S} (exit : Bool) (hd1 : d₁.disabled = false)
    (ha1 : 0 < d₁.activeSessions) (hr1 : Rewinds Steady d₁.stack d₁.store [d.store]) :
    d₁.dropSession exit = { d₁ with
      store := d.store, stack := d₁.stack.tail, activeSessions := d₁.activeSessions - 1,
      disabled := exit } := by
  have hst : NoTakeover d.store d₁.store := by
    generalize hq : d₁.stack = stack at hr1
    cases hr1 with
    | cons _ ht _ => exact ht.noTakeover
  obtain ⟨us, hus, _, e⟩ := undo_ok hd1 ha1 hr1 hst
  simp only [Database.dropSession, e, ← hus]
  cases exit with
  | true => rfl
  | false => simp [hd1]

/-- The stack below the top of a session, at the end of the session's body. -/
theorem session_stack {d d₁ : Database S} (hn : n + 1 ≤ d.maxSize)
    (h : Orderly n (d.startUndoSession true).2 d₁) :
    ∃ v m, min d.stack.length (d.maxSize - n) ≤ m ∧ d₁.stack = v :: d.stack.take m := by
  rw [startUndoSession_forced] at h
  obtain ⟨v, m, hm, e⟩ := h.stack _ _ rfl
  rw [List.take_take] at e
  rw [List.length_take] at hm
  exact ⟨v, min m d.maxSize, by simp only at hm; omega, e⟩

/-- The end of a session around a program: `merge()` when it returned; an exception, also one of
`merge()`, ends in `~session()`. -/
def closeSession (disableOnExit : Bool) : Outcome S α → Outcome S α
  | .ok a d =>
      match d.merge with
      | .ok _ d => .ok a (if disableOnExit then { d with disabled := true } else d)
      | .thrown e d => .thrown e (d.dropSession disableOnExit)
  | .thrown e d => .thrown e (d.dropSession disableOnExit)

/-- What `merge()` does when it returns: the two newest states become one. -/
theorem merge_cases {d d' : Database S} (h : d.merge = .ok () d') :
    ∃ us, d' = { d with stack := us, activeSessions := d.activeSessions - 1 } ∧
      ∀ v u rest, d.stack = v :: u :: rest → us = u.merge v :: rest := by
  unfold Database.merge at h
  split at h
  · cases h
  · split at h
    · cases h
    · rename_i hs
      split at h <;> cases h
      refine ⟨[], rfl, fun v u rest e => ?_⟩
      rw [hs] at e
      cases e
    · rename_i hs
      cases h
      refine ⟨_, rfl, fun v u rest e => ?_⟩
      rw [hs] at e
      cases e
      rfl

theorem merge_same {d d' : Database S} (h : d.merge = .ok () d') :
    d'.store = d.store ∧ d'.maxSize = d.maxSize := by
  obtain ⟨us, rfl, _⟩ := merge_cases h
  exact ⟨rfl, rfl⟩

theorem merge_disabled {d d' : Database S} (h : d.merge = .ok () d') :
    d'.disabled = d.disabled := by
  obtain ⟨us, rfl, _⟩ := merge_cases h
  rfl

theorem merge_activeSessions {d d' : Database S} (h : d.merge = .ok () d') :
    d'.activeSessions = d.activeSessions - 1 := by
  obtain ⟨us, rfl, _⟩ := merge_cases h
  rfl

theorem merge_order {d d' : Database S} (h : d.merge = .ok () d') : d'.order = d.order := by
  obtain ⟨us, rfl, _⟩ := merge_cases h
  rfl

theorem merge_stack {d d' : Database S} (h : d.merge = .ok () d') {v u : UndoState S}
    {rest : List (UndoState S)} (hs : d.stack = v :: u :: rest) :
    d'.stack = u.merge v :: rest := by
  obtain ⟨us, rfl, e⟩ := merge_cases h
  exact e v u rest hs

theorem merge_thrown {d d' : Database S} {e : Exn} (h : d.merge = .thrown e d') : d' = d := by
  unfold Database.merge at h
  split at h
  · cases h
    rfl
  · split at h
    · cases h
      rfl
    · split at h <;> cases h
      rfl
    · cases h

/-- A session that is closed before `merge()`, or by it. -/
theorem closeSession_cases (exit : Bool) (o : Outcome S α) :
    (∃ a d₁ d₂, o = .ok a d₁ ∧ d₁.merge = .ok () d₂ ∧
      closeSession exit o = .ok a (if exit then { d₂ with disabled := true } else d₂)) ∨
    ∃ e, closeSession exit o = .thrown e (o.db.dropSession exit) := by
  cases o with
  | thrown e d₁ => exact Or.inr ⟨e, rfl⟩
  | ok a d₁ =>
    cases hm : d₁.merge with
    | ok _ d₂ => exact Or.inl ⟨a, d₁, d₂, rfl, hm, by simp only [closeSession, hm]⟩
    | thrown e d₂ =>
      rw [merge_thrown hm] at hm
      exact Or.inr ⟨e, by simp only [closeSession, hm, Outcome.db_ok]⟩

theorem closeSession_holds {d : Database S} {o : Outcome S α}
    (hx : Holds n (d.startUndoSession true).2 o.db) :
    Holds (n + 1) d (closeSession (d.startUndoSession true).1 o).db := by
  have hforced := startUndoSession_forced d
  have hexit : (d.startUndoSession true).1 = d.disabled := by rw [hforced]
  obtain ⟨a, d₁, d₂, rfl, hm, e⟩ | ⟨ex, e⟩ :=
    closeSession_cases (d.startUndoSession true).1 o
  · intro hb
    obtain ⟨hst, hmax⟩ := merge_same hm
    have hb1 : d₁.broken = false := by
      have hmb := merge_broken d₁
      rw [hm, Outcome.db_ok] at hmb
      rw [← hmb]
      rw [e, Outcome.db_ok] at hb
      split at hb <;> exact hb
    obtain ⟨hb0, hk, ht⟩ := hx hb1
    rw [startUndoSession_broken] at hb0
    refine ⟨hb0, ?_, fun hn hf => ?_⟩
    · intro hd hn snaps hne hr
      have he : (d.startUndoSession true).1 = false := by rw [startUndoSession_eq true hd]
      rw [e, he]
      exact hk.merged steady_tracked hm hd hn snaps hne hr
    · have ho := ht (by rw [hforced]; show n ≤ d.maxSize; omega) (by rw [hforced]; exact hf)
      obtain ⟨v, m, hlen, hstack⟩ := session_stack hn ho
      have hact : d₁.activeSessions = d.activeSessions + 1 := by
        rw [← Outcome.db_ok a d₁, ho.activeSessions, hforced]
      have hdis : d₁.disabled = false := by rw [← Outcome.db_ok a d₁, ho.disabled, hforced]
      have hmx : d₁.maxSize = d.maxSize := by rw [← Outcome.db_ok a d₁, ho.maxSize, hforced]
      have hord : d₁.order = d.order := by rw [← Outcome.db_ok a d₁, ho.order, hforced]
      rw [e, Outcome.db_ok, hexit]
      have hact2 : d₂.activeSessions = d.activeSessions := by
        rw [merge_activeSessions hm, hact, Nat.add_sub_cancel]
      have hdis2 : d₂.disabled = false := (merge_disabled hm).trans hdis
      have hord2 : d₂.order = d.order := (merge_order hm).trans hord
      have hstack2 : ∀ u us, d.stack = u :: us → ∃ u' m, min us.length (d.maxSize - (n + 1)) ≤ m ∧
          d₂.stack = u' :: us.take m := by
        intro u us hs
        obtain ⟨m', rfl⟩ : ∃ m', m = m' + 1 := by
          rw [hs, List.length_cons] at hlen
          exact ⟨m - 1, by omega⟩
        rw [hs, List.take_succ_cons] at hstack
        rw [hs, List.length_cons] at hlen
        exact ⟨_, m', by omega, merge_stack hm hstack⟩
      have hfr : d₂.store.Fresh := hst ▸ ho.fresh
      cases hdd : d.disabled with
      | false => exact ⟨hfr, hmax.trans hmx, hdis2.trans hdd.symm, hact2, hord2, hstack2⟩
      | true => exact ⟨hfr, hmax.trans hmx, hdd.symm, hact2, hord2, hstack2⟩
  · rw [e, Outcome.db_thrown]
    intro hb
    rw [dropSession_broken] at hb
    obtain ⟨hb0, hk, ht⟩ := hx hb
    rw [startUndoSession_broken] at hb0
    refine ⟨hb0, keeps_dropped hk, fun hn hf => ?_⟩
    obtain ⟨hd1, ha1, hm1, hr1⟩ := forced_session (by omega) hf hk
    have ho := ht (by rw [hforced]; show n ≤ d.maxSize; omega) (by rw [hforced]; exact hf)
    obtain ⟨v, m, hlen, hstack⟩ := session_stack hn ho
    have hact := ho.activeSessions
    have hord := ho.order
    rw [hforced] at hact hord
    rw [dropped _ hd1 ha1 hr1, hexit]
    refine ⟨hf, hm1, rfl, by simp only [hact]; rfl, hord, fun u us hs => ?_⟩
    obtain ⟨m', rfl⟩ : ∃ m', m = m' + 1 := by
      rw [hs, List.length_cons] at hlen
      exact ⟨m - 1, by omega⟩
    rw [hs, List.take_succ_cons] at hstack
    rw [hs, List.length_cons] at hlen
    exact ⟨u, m', by omega, by simp only [hstack, List.tail_cons]⟩

theorem closeSession_under {t : List (UndoState S)} (exit : Bool)
    {o : Outcome S α} (h : Above o.db t) :
    ∃ t', closeSession exit (o.under t) = (closeSession exit o).under t' ∧ (t = [] → t' = []) ∧
      OneLess o.db (closeSession exit o).db := by
  cases o with
  | thrown e d₁ =>
    obtain ⟨hdrop, hless⟩ := dropSession_under exit h
    exact ⟨t, congrArg (Outcome.thrown e) hdrop, id, hless⟩
  | ok a d₁ =>
    rw [Outcome.db_ok] at h
    obtain ⟨t', hm, hnil, hless⟩ := merge_under h
    rw [Outcome.db_ok]
    simp only [Outcome.under_ok, closeSession, hm]
    cases hr : d₁.merge with
    | ok u d₂ =>
      rw [hr] at hless
      simp only [Outcome.under_ok]
      cases exit with
      | true => exact ⟨t', rfl, hnil, hless.sessions, hless.states, hless.above⟩
      | false => exact ⟨t', rfl, hnil, hless⟩
    | thrown e d₂ =>
      -- `merge()` that throws leaves everything as it is
      obtain rfl := merge_thrown hr
      rw [hr] at hm
      have hsame := congrArg Database.stack (merge_thrown hm)
      obtain rfl : t' = t := List.append_cancel_left hsame
      obtain ⟨hdrop, hless'⟩ := dropSession_under exit h
      exact ⟨t', congrArg (Outcome.thrown e) hdrop, id, hless'⟩

/-- **A session around a blind program is blind.** -/
theorem blind_closeSession {x : Database S → Outcome S α} (hx : Blind x) :
    Blind fun d => closeSession (d.startUndoSession true).1 (x (d.startUndoSession true).2) := by
  have hsessions : ∀ d : Database S,
      d.activeSessions + 1 ≤ (x (d.startUndoSession true).2).db.activeSessions := by
    intro d
    have h := hx.sessions (d.startUndoSession true).2
    rw [startUndoSession_forced] at h ⊢
    exact h
  refine ⟨fun d => ?_, fun d hd => ?_, fun d t ht => ?_⟩
  · obtain ⟨_, _, _, hless⟩ := closeSession_under (t := []) (d.startUndoSession true).1
      (o := x (d.startUndoSession true).2) (.inl rfl)
    have h1 := hsessions d
    have h2 := hless.sessions
    omega
  · have h1 := hsessions d
    rw [startUndoSession_forced] at h1 ⊢
    simp only [hd] at h1 ⊢
    obtain ⟨a, d₁, d₂, _, _, e⟩ | ⟨ex, e⟩ := closeSession_cases true
      (x { d with disabled := false, stack := UndoState.empty :: d.stack.take d.maxSize,
                  activeSessions := d.activeSessions + 1 })
    · rw [e]
      rfl
    · rw [e]
      exact dropSession_disabled (by omega)
  · obtain ⟨t₁, hstart, hnil, habove, hlen⟩ := startUndoSession_under true ht.above
    have hready : Ready (d.startUndoSession true).2 t₁ :=
      habove.imp_right fun h => ⟨h, .inr (by rw [startUndoSession_forced]; simp)⟩
    obtain ⟨t₂, hrun, hnil2, hstays⟩ := hx.under _ t₁ hready
    obtain ⟨t₃, hclose, hnil3, hless⟩ := closeSession_under (d.startUndoSession true).1 hstays.above
    refine ⟨t₃, ?_, hnil3 ∘ hnil2 ∘ hnil, ?_⟩
    · rw [hstart]
      simp only
      rw [hrun, hclose]
    · rcases hstays with h2 | ⟨hle, hlen2⟩
      · exact .inl (hnil3 h2)
      rcases hlen rfl with h1 | hlen1
      · exact .inl (hnil3 (hnil2 h1))
      refine .inr ⟨hless.above hle, ?_⟩
      have h3 := hless.states
      omega

/-- `auto session = start_undo_session( true ); x; session.merge();` -/
def nested (x : Action S n α) : Action S (n + 1) α where
  run d := closeSession (d.startUndoSession true).1 (x.run (d.startUndoSession true).2)
  holds _ := closeSession_holds (x.holds _)
  blind := blind_closeSession x.blind

/-- **A nested session that throws leaves the objects as they were.** -/
theorem nested_thrown {x : Action S n α} {d d' : Database S} {e : Exn}
    (h : (nested x).run d = .thrown e d') (hb : d'.broken = false) (hn : n ≤ d.maxSize)
    (hf : d.store.Fresh) : d'.store = d.store := by
  obtain ⟨a, d₁, d₂, _, _, e'⟩ | ⟨ex, e'⟩ := closeSession_cases
    (d.startUndoSession true).1 (x.run (d.startUndoSession true).2)
  · cases h.symm.trans e'
  · cases h.symm.trans e'
    rw [dropSession_broken] at hb
    obtain ⟨hd1, ha1, _, hr1⟩ := forced_session hn hf (x.holds _ hb).2.1
    rw [dropped _ hd1 ha1 hr1]

/-- A nested session that returns: its body did. -/
theorem nested_ok {x : Action S n α} {d d' : Database S} {a : α}
    (h : (nested x).run d = .ok a d') :
    ∃ d₁, x.run (d.startUndoSession true).2 = .ok a d₁ ∧ d'.store = d₁.store ∧
      d'.broken = d₁.broken := by
  obtain ⟨b, d₁, d₂, ho, hm, e⟩ | ⟨ex, e⟩ := closeSession_cases
    (d.startUndoSession true).1 (x.run (d.startUndoSession true).2)
  · cases h.symm.trans e
    have hmb := merge_broken d₁
    rw [hm, Outcome.db_ok] at hmb
    refine ⟨d₁, ho, ?_, ?_⟩
    · rw [← (merge_same hm).1]
      split <;> rfl
    · rw [← hmb]
      split <;> rfl
  · cases h.symm.trans e

/-! ## 4. Runs that return -/

section

variable {d d' : Database S} {a : α} {b : β}

theorem bind_ok {x : Action S n α} {f : α → Action S n β} :
    (x >>= f).run d = .ok b d' ↔ ∃ a d₁, x.run d = .ok a d₁ ∧ (f a).run d₁ = .ok b d' := by
  show (andThen x f).run d = _ ↔ _
  simp only [andThen]
  cases x.run d with
  | ok a d₁ => simp
  | thrown e d₁ => simp

theorem bind_thrown {x : Action S n α} {f : α → Action S n β} {e : Exn} :
    (x >>= f).run d = .thrown e d' ↔
      x.run d = .thrown e d' ∨ ∃ a d₁, x.run d = .ok a d₁ ∧ (f a).run d₁ = .thrown e d' := by
  show (andThen x f).run d = _ ↔ _
  simp only [andThen]
  cases x.run d with
  | ok a d₁ => simp
  | thrown e d₁ => simp

@[simp] theorem pure_ok : (pure a : Action S n α).run d = .ok a d := rfl

@[simp] theorem read_ok (f : Store S → α) : (read f : Action S n α).run d = .ok (f d.store) d := rfl

theorem require_ok {c : Prop} [Decidable c] {msg : String} {u : Unit} :
    (require c msg : Action S n Unit).run d = .ok u d' ↔ c ∧ d' = d := by
  unfold require
  split
  · rename_i h
    simp [ret, h, eq_comm]
  · rename_i h
    simp [throw, h]

theorem lift_ok {x : Except Exn α} :
    (lift x : Action S n α).run d = .ok a d' ↔ x = .ok a ∧ d' = d := by
  cases x with
  | ok b => simp [lift, ret, eq_comm]
  | error e => simp [lift, throw]

theorem get_ok {k : S.Kind} {i : Nat} {o : S.Obj k} :
    (get k i : Action S n (S.Obj k)).run d = .ok o d' ↔ d.store.get k i = some o ∧ d' = d := by
  simp only [get]
  cases d.store.get k i with
  | none => simp
  | some b => simp [eq_comm]

/-! The steps of a program that only look or test, taken off its front. -/

theorem bind_pure_ok {f : α → Action S n β} :
    ((pure a : Action S n α) >>= f).run d = .ok b d' ↔ (f a).run d = .ok b d' := Iff.rfl

theorem bind_read_ok {g : Store S → α} {f : α → Action S n β} :
    ((read g : Action S n α) >>= f).run d = .ok b d' ↔ (f (g d.store)).run d = .ok b d' := Iff.rfl

theorem bind_require_ok {c : Prop} [Decidable c] {msg : String} {f : Unit → Action S n β} :
    ((require c msg : Action S n Unit) >>= f).run d = .ok b d' ↔
      c ∧ (f ()).run d = .ok b d' := by
  rw [bind_ok]
  constructor
  · rintro ⟨u, d₁, h1, h2⟩
    obtain ⟨hc, rfl⟩ := require_ok.mp h1
    exact ⟨hc, h2⟩
  · rintro ⟨hc, h⟩
    exact ⟨(), d, require_ok.mpr ⟨hc, rfl⟩, h⟩

theorem bind_lift_ok {x : Except Exn α} {f : α → Action S n β} :
    ((lift x : Action S n α) >>= f).run d = .ok b d' ↔
      ∃ a, x = .ok a ∧ (f a).run d = .ok b d' := by
  simp [bind_ok, lift_ok, and_assoc]

theorem bind_get_ok {k : S.Kind} {i : Nat} {f : S.Obj k → Action S n β} :
    ((get k i : Action S n (S.Obj k)) >>= f).run d = .ok b d' ↔
      ∃ o, d.store.get k i = some o ∧ (f o).run d = .ok b d' := by
  simp [bind_ok, get_ok, and_assoc]

end

end Action

end MuseChain
