/-
  File:      MuseChain/Db/Bottoms.lean
  Subject:   What lies at the bottom of the undo stack makes no difference.

  * `d.under t`: the database `d` with the undo states `t` below those on its stack.
  * `Above d t`: every open session has its state above `t`. Then the operations of the undo
    database do the same whether `t` is there or not.
  * `Blind run`: so does a whole program. It closes no session that it did not open, and it does
    not enable undo where it was disabled.
-/
import MuseChain.Db.Sessions

namespace MuseChain

variable {S : Schema} {α β : Type}

/-! ## 1. States at the bottom -/

def Database.under (d : Database S) (t : List (UndoState S)) : Database S :=
  { d with stack := d.stack ++ t }

def Outcome.under (t : List (UndoState S)) : Outcome S α → Outcome S α
  | .ok a d => .ok a (d.under t)
  | .thrown e d => .thrown e (d.under t)

section

variable {d : Database S} {t : List (UndoState S)}

@[simp] theorem under_store : (d.under t).store = d.store := rfl

@[simp] theorem under_disabled : (d.under t).disabled = d.disabled := rfl

@[simp] theorem under_activeSessions : (d.under t).activeSessions = d.activeSessions := rfl

@[simp] theorem under_maxSize : (d.under t).maxSize = d.maxSize := rfl

@[simp] theorem under_order : (d.under t).order = d.order := rfl

@[simp] theorem under_stack : (d.under t).stack = d.stack ++ t := rfl

@[simp] theorem under_nil : d.under [] = d := by
  unfold Database.under
  rw [List.append_nil]

theorem under_under (t' : List (UndoState S)) : (d.under t).under t' = d.under (t ++ t') := by
  unfold Database.under
  rw [List.append_assoc]

@[simp] theorem Outcome.under_nil (o : Outcome S α) : o.under [] = o := by
  cases o with
  | ok a d => exact congrArg _ MuseChain.under_nil
  | thrown e d => exact congrArg _ MuseChain.under_nil

@[simp] theorem Outcome.under_ok (a : α) : (Outcome.ok a d).under t = .ok a (d.under t) := rfl

@[simp] theorem Outcome.under_thrown (e : Exn) :
    (Outcome.thrown e d : Outcome S α).under t = .thrown e (d.under t) := rfl

end

/-- Every open session has its state above `t`. -/
def Above (d : Database S) (t : List (UndoState S)) : Prop :=
  t = [] ∨ d.activeSessions ≤ d.stack.length

/-! ## 2. The operations of the undo database -/

section

variable {d d' : Database S} {t : List (UndoState S)}

/-- What is saved goes into a state above `t`. -/
theorem onTop_under {k : S.Kind} {f : KindUndo (S.Obj k) → KindUndo (S.Obj k)}
    (h : t = [] ∨ d.disabled = true ∨ d.stack ≠ []) :
    (d.under t).onTop k f = (d.onTop k f).under t := by
  rcases h with rfl | h | h
  · rw [under_nil, under_nil]
  · simp only [Database.onTop, under_disabled, h, if_true]
  · unfold Database.onTop
    rw [under_disabled]
    split
    · rfl
    · cases hs : d.stack with
      | nil => exact absurd hs h
      | cons u us =>
        rw [under_stack, hs]
        rfl

theorem onTop_length (d : Database S) (k : S.Kind)
    (f : KindUndo (S.Obj k) → KindUndo (S.Obj k)) :
    d.stack.length ≤ (d.onTop k f).stack.length := by
  unfold Database.onTop
  split
  · exact le_rfl
  · cases hs : d.stack with
    | nil => exact Nat.zero_le _
    | cons u us => exact le_rfl

/-- A session that is started, or not because undo is disabled. -/
theorem startUndoSession_under (force : Bool) (h : Above d t) :
    ∃ t', (d.under t).startUndoSession force =
        ((d.startUndoSession force).1, (d.startUndoSession force).2.under t') ∧
      (t = [] → t' = []) ∧ Above (d.startUndoSession force).2 t' ∧
      (force = true → t' = [] ∨
        (d.startUndoSession force).2.stack.length = d.stack.length + 1) := by
  by_cases hd : (d.disabled && !force) = true
  · refine ⟨t, ?_, id, ?_, ?_⟩
    · simp only [Database.startUndoSession, under_disabled, hd, if_true]
    · simpa only [Database.startUndoSession, hd, if_true] using h
    · rintro rfl
      rw [Bool.not_true, Bool.and_false] at hd
      cases hd
  · refine ⟨t.take (d.maxSize - d.stack.length), ?_, ?_, ?_, ?_⟩
    · simp only [Database.startUndoSession, under_disabled, hd, under_stack, under_maxSize,
        under_activeSessions, List.take_append]
      rfl
    · rintro rfl
      exact List.take_nil
    -- a stack that is cut itself leaves nothing of `t`
    · by_cases hlen : d.maxSize ≤ d.stack.length
      · exact .inl (by rw [show d.maxSize - d.stack.length = 0 by omega, List.take_zero])
      · rcases h with rfl | h
        · exact .inl List.take_nil
        · refine .inr ?_
          simp only [Database.startUndoSession, hd, Bool.false_eq_true, if_false, List.length_cons,
            List.length_take]
          omega
    · intro _
      by_cases hlen : d.maxSize ≤ d.stack.length
      · exact .inl (by rw [show d.maxSize - d.stack.length = 0 by omega, List.take_zero])
      · refine .inr ?_
        simp only [Database.startUndoSession, hd, Bool.false_eq_true, if_false, List.length_cons,
          List.length_take]
        omega

/-- What `undo()` costs: at most one state, and one session with it. -/
structure OneLess (d d' : Database S) : Prop where
  sessions : d.activeSessions ≤ d'.activeSessions + 1
  states : d.stack.length ≤ d'.stack.length + 1
  above : d.activeSessions ≤ d.stack.length → d'.activeSessions ≤ d'.stack.length

theorem OneLess.refl (d : Database S) : OneLess d d := ⟨Nat.le_succ _, Nat.le_succ _, id⟩

theorem undo_under (h : Above d t) :
    (d.under t).undo = d.undo.under t ∧ OneLess d d.undo.db := by
  by_cases hd : d.disabled = true
  · simp only [Database.undo, under_disabled, hd, if_true]
    exact ⟨rfl, OneLess.refl d⟩
  by_cases ha : d.activeSessions = 0
  · simp only [Database.undo, under_disabled, under_activeSessions, hd, ha, if_true]
    exact ⟨rfl, OneLess.refl d⟩
  cases hst : d.stack with
  | nil =>
    have hundo : d.undo =
        .thrown (.crash "back() of an empty stack") { d with disabled := true } := by
      simp only [Database.undo, Database.rollbackState, hd, ha, hst, if_false, Bool.false_eq_true]
    rcases h with rfl | h
    · rw [under_nil, Outcome.under_nil, hundo]
      exact ⟨rfl, Nat.le_succ _, Nat.le_succ _, id⟩
    · rw [hst] at h
      exact absurd (Nat.le_zero.mp h) ha
  | cons u us =>
    cases hr : rollbackStore u d.order d.store with
    | ok s =>
      have hundo : d.undo = .ok ()
          { d with
            store := s, stack := us, activeSessions := d.activeSessions - 1,
            disabled := false } := by
        simp only [Database.undo, Database.rollbackState, hd, ha, hst, hr, if_false,
          Bool.false_eq_true]
      have hunder : (d.under t).undo = .ok ()
          { d.under t with
            store := s, stack := us ++ t, activeSessions := d.activeSessions - 1,
            disabled := false } := by
        simp only [Database.undo, Database.rollbackState, under_disabled, under_activeSessions,
          under_stack, under_store, under_order, hd, ha, hst, hr, List.cons_append, if_false,
          Bool.false_eq_true]
      rw [hundo, hunder]
      refine ⟨rfl, ?_, ?_, fun hle => ?_⟩
      all_goals simp only [Outcome.db_ok, hst, List.length_cons] at *; omega
    | error e =>
      have hundo : d.undo = .thrown e.1 { d with store := e.2, disabled := true } := by
        simp only [Database.undo, Database.rollbackState, hd, ha, hst, hr, if_false,
          Bool.false_eq_true]
      have hunder : (d.under t).undo =
          .thrown e.1 { d.under t with store := e.2, disabled := true } := by
        simp only [Database.undo, Database.rollbackState, under_disabled, under_activeSessions,
          under_stack, under_store, under_order, hd, ha, hst, hr, List.cons_append, if_false,
          Bool.false_eq_true]
      rw [hundo, hunder]
      exact ⟨rfl, Nat.le_succ _, Nat.le_succ _, id⟩

/-- A session that is dropped disables undo again, or leaves it disabled. -/
theorem dropSession_disabled (h : 0 < d.activeSessions) : (d.dropSession true).disabled = true := by
  by_cases hd : d.disabled = true
  · simp only [Database.dropSession, Database.undo, hd, if_true]
  · have ha : d.activeSessions ≠ 0 := h.ne'
    simp only [Database.dropSession, Database.undo, Database.rollbackState, hd, ha, if_false,
      Bool.false_eq_true]
    cases d.stack with
    | nil => rfl
    | cons u us =>
      simp only
      cases rollbackStore u d.order d.store with
      | ok s => rfl
      | error e => rfl

theorem dropSession_under (exit : Bool) (h : Above d t) :
    (d.under t).dropSession exit = (d.dropSession exit).under t ∧
      OneLess d (d.dropSession exit) := by
  obtain ⟨e, hless⟩ := undo_under h
  unfold Database.dropSession
  rw [e]
  cases hu : d.undo with
  | ok u d₁ =>
    rw [hu] at hless
    cases exit with
    | true => exact ⟨rfl, hless.sessions, hless.states, hless.above⟩
    | false => exact ⟨rfl, hless⟩
  | thrown ex d₁ =>
    rw [hu] at hless
    exact ⟨rfl, hless⟩

/-- `merge()`: where the state above `t` is the only one, it goes into the first of `t`. -/
theorem merge_under (h : Above d t) :
    ∃ t', (d.under t).merge = d.merge.under t' ∧ (t = [] → t' = []) ∧ OneLess d d.merge.db := by
  by_cases ht : t = []
  · subst ht
    refine ⟨[], by rw [under_nil, Outcome.under_nil], id, ?_⟩
    unfold Database.merge
    split
    · exact OneLess.refl d
    · split
      · exact OneLess.refl d
      · rename_i hst
        split
        · refine ⟨?_, ?_, fun _ => ?_⟩
          all_goals simp only [Outcome.db_ok, hst, List.length_cons, List.length_nil]; omega
        · exact OneLess.refl d
      · rename_i hst
        refine ⟨?_, ?_, fun hle => ?_⟩
        all_goals simp only [Outcome.db_ok, hst, List.length_cons] at *; omega
  have hle : d.activeSessions ≤ d.stack.length := h.resolve_left ht
  unfold Database.merge
  rw [under_activeSessions, under_stack]
  by_cases ha : d.activeSessions = 0
  · simp only [ha, if_true]
    exact ⟨t, rfl, id, OneLess.refl d⟩
  simp only [ha, if_false]
  cases hst : d.stack with
  | nil =>
    rw [hst] at hle
    exact absurd (Nat.le_zero.mp hle) ha
  | cons u us =>
    cases us with
    | nil =>
      rw [hst, List.length_singleton] at hle
      have h1 : d.activeSessions = 1 := by omega
      obtain ⟨v, ws, rfl⟩ := List.exists_cons_of_ne_nil ht
      refine ⟨v.merge u :: ws, ?_, fun e => absurd e ht, ?_⟩
      · simp only [h1, if_true, List.singleton_append, Outcome.under_ok, Database.under,
          List.nil_append]
      · simp only [h1, if_true, Outcome.db_ok]
        refine ⟨?_, ?_, fun _ => ?_⟩
        all_goals simp only [h1, hst, List.length_cons, List.length_nil]; omega
    | cons v ws =>
      refine ⟨t, rfl, id, ?_, ?_, fun hle => ?_⟩
      all_goals simp only [Outcome.db_ok, hst, List.length_cons] at *; omega

theorem commit_under (h : Above d t) :
    (d.under t).commit = d.commit.under t ∧ Above d.commit.db t := by
  unfold Database.commit
  rw [under_activeSessions]
  split
  · exact ⟨rfl, h⟩
  · refine ⟨rfl, h.imp_right fun hle => ?_⟩
    simp only [Outcome.db_ok]
    omega

/-- `pop_commit()` that returns. -/
theorem popCommit_under (h : d.popCommit = .ok () d') :
    (d.under t).popCommit = .ok () (d'.under t) ∧ d'.activeSessions = 0 := by
  by_cases ha : d.activeSessions = 0
  · cases hst : d.stack with
    | nil =>
      simp only [Database.popCommit, ha, hst, List.isEmpty_nil, if_true, ne_eq, not_true, if_false]
        at h
      cases h
    | cons u us =>
      cases hr : rollbackStore u d.order d.store with
      | ok s =>
        simp only [Database.popCommit, Database.rollbackState, ha, hst, hr, ne_eq, not_true,
          if_false, List.isEmpty_cons, Bool.false_eq_true] at h
        cases h
        refine ⟨?_, rfl⟩
        simp only [Database.popCommit, Database.rollbackState, under_activeSessions, under_stack,
          under_store, under_order, ha, hst, hr, ne_eq, not_true, if_false, List.cons_append,
          List.isEmpty_cons, Bool.false_eq_true]
        rfl
      | error e =>
        simp only [Database.popCommit, Database.rollbackState, ha, hst, hr, ne_eq, not_true,
          if_false, List.isEmpty_cons, Bool.false_eq_true] at h
        cases h
  · simp only [Database.popCommit, ha, ne_eq, not_false_eq_true, if_true] at h
    cases h

end

/-! ## 3. Programs -/

/-- What a program leaves of the states above `t`. -/
def StaysAbove (d d' : Database S) (t : List (UndoState S)) : Prop :=
  t = [] ∨ (d'.activeSessions ≤ d'.stack.length ∧ d.stack.length ≤ d'.stack.length)

/-- A program may run: what it saves goes into a state above `t`. -/
def Ready (d : Database S) (t : List (UndoState S)) : Prop :=
  t = [] ∨ (d.activeSessions ≤ d.stack.length ∧ (d.disabled = true ∨ d.stack ≠ []))

structure Blind (run : Database S → Outcome S α) : Prop where
  sessions : ∀ d, d.activeSessions ≤ (run d).db.activeSessions
  disabled : ∀ d, d.disabled = true → (run d).db.disabled = true
  under : ∀ d t, Ready d t → ∃ t', run (d.under t) = (run d).under t' ∧ (t = [] → t' = []) ∧
    StaysAbove d (run d).db t'

section

variable {d d' : Database S} {t : List (UndoState S)}

theorem Ready.above (h : Ready d t) : Above d t := h.imp_right And.left

theorem Ready.saves (h : Ready d t) : t = [] ∨ d.disabled = true ∨ d.stack ≠ [] :=
  h.imp_right And.right

theorem StaysAbove.refl (h : Ready d t) : StaysAbove d d t := h.imp_right fun h => ⟨h.1, le_rfl⟩

theorem StaysAbove.above (h : StaysAbove d d' t) : Above d' t := h.imp_right And.left

/-- What ran may be followed by more. -/
theorem StaysAbove.ready {t' : List (UndoState S)} (h : StaysAbove d d' t') (hr : Ready d t)
    (ht : t = [] → t' = []) (hd : d.disabled = true → d'.disabled = true) : Ready d' t' := by
  rcases h with h | ⟨hle, hlen⟩
  · exact .inl h
  rcases hr with e | ⟨_, hr⟩
  · exact .inl (ht e)
  refine .inr ⟨hle, hr.imp hd fun hne e => ?_⟩
  rw [e, List.length_nil] at hlen
  exact hne (List.length_eq_zero_iff.mp (Nat.le_zero.mp hlen))

theorem StaysAbove.trans {d'' : Database S} {t' : List (UndoState S)} (h : StaysAbove d d' t)
    (h' : StaysAbove d' d'' t') (ht : t = [] → t' = []) : StaysAbove d d'' t' := by
  rcases h with h | h
  · exact .inl (ht h)
  · exact h'.imp_right fun h' => ⟨h'.1, h.2.trans h'.2⟩

end

/-- One run of a program and of what comes after it. -/
theorem Blind.bind {x : Database S → Outcome S α} {f : α → Database S → Outcome S β}
    {g : Exn → Database S → Outcome S β} {y : Database S → Outcome S β} (hx : Blind x)
    (hok : ∀ d a d₁, x d = .ok a d₁ → y d = f a d₁)
    (hthrown : ∀ d e d₁, x d = .thrown e d₁ → y d = g e d₁)
    (hf : ∀ a, Blind (f a)) (hg : ∀ e, Blind (g e)) : Blind y := by
  refine ⟨fun d => ?_, fun d hd => ?_, fun d t ht => ?_⟩
  · have h1 := hx.sessions d
    cases hr : x d with
    | ok a d₁ =>
      rw [hr] at h1
      rw [hok d a d₁ hr]
      exact h1.trans ((hf a).sessions d₁)
    | thrown e d₁ =>
      rw [hr] at h1
      rw [hthrown d e d₁ hr]
      exact h1.trans ((hg e).sessions d₁)
  · have h1 := hx.disabled d hd
    cases hr : x d with
    | ok a d₁ =>
      rw [hr] at h1
      rw [hok d a d₁ hr]
      exact (hf a).disabled d₁ h1
    | thrown e d₁ =>
      rw [hr] at h1
      rw [hthrown d e d₁ hr]
      exact (hg e).disabled d₁ h1
  · obtain ⟨t₁, h1, hnil, hstays⟩ := hx.under d t ht
    have hkeep := hx.disabled d
    cases hr : x d with
    | ok a d₁ =>
      rw [hr] at h1 hstays hkeep
      obtain ⟨t₂, h2, hnil2, hstays2⟩ := (hf a).under d₁ t₁ (hstays.ready ht hnil hkeep)
      refine ⟨t₂, ?_, hnil2 ∘ hnil, ?_⟩
      · rw [hok _ a _ h1, hok d a d₁ hr, h2]
      · rw [hok d a d₁ hr]
        exact hstays.trans hstays2 hnil2
    | thrown e d₁ =>
      rw [hr] at h1 hstays hkeep
      obtain ⟨t₂, h2, hnil2, hstays2⟩ := (hg e).under d₁ t₁ (hstays.ready ht hnil hkeep)
      refine ⟨t₂, ?_, hnil2 ∘ hnil, ?_⟩
      · rw [hthrown _ e _ h1, hthrown d e d₁ hr, h2]
      · rw [hthrown d e d₁ hr]
        exact hstays.trans hstays2 hnil2

/-- A program that looks at the objects and at nothing else. -/
theorem Blind.look {x : Database S → Outcome S α} (hdb : ∀ d, (x d).db = d)
    (h : ∀ d t, x (d.under t) = (x d).under t) : Blind x := by
  refine ⟨fun d => by rw [hdb], fun d hd => by rw [hdb]; exact hd, fun d t ht => ?_⟩
  exact ⟨t, h d t, id, by rw [hdb]; exact StaysAbove.refl ht⟩

theorem blind_ok (a : α) : Blind fun d : Database S => .ok a d :=
  Blind.look (fun _ => rfl) fun _ _ => rfl

theorem blind_thrown (e : Exn) : Blind fun d : Database S => (.thrown e d : Outcome S α) :=
  Blind.look (fun _ => rfl) fun _ _ => rfl

/-- A step that writes objects and what it saves of them. -/
theorem Blind.step {x : Database S → Outcome S α}
    (hact : ∀ d, (x d).db.activeSessions = d.activeSessions)
    (hdis : ∀ d, (x d).db.disabled = d.disabled)
    (hlen : ∀ d, d.stack.length ≤ (x d).db.stack.length)
    (h : ∀ d t, (t = [] ∨ d.disabled = true ∨ d.stack ≠ []) → x (d.under t) = (x d).under t) :
    Blind x := by
  refine ⟨fun d => (hact d).ge, fun d hd => (hdis d).trans hd, fun d t ht => ?_⟩
  refine ⟨t, h d t ht.saves, id, ht.imp_right fun hr => ?_⟩
  rw [hact d]
  exact ⟨hr.1.trans (hlen d), hlen d⟩

theorem blind_create (k : S.Kind) (a : S.Obj k) : Blind fun d : Database S => d.create k a := by
  -- the object with what is saved of it, or nothing
  have hcases : ∀ d : Database S, (∃ s, ∀ t, (d.under t).create k a = .ok (d.store.nextId k)
      (({ d.under t with store := s } : Database S).onTop k fun u =>
        u.onCreate (d.store.nextId k))) ∨
      ∃ e, ∀ t, (d.under t).create k a = .thrown e (d.under t) := by
    intro d
    by_cases h : d.store.get k (d.store.nextId k) = none ∧
        d.store.free k (d.store.nextId k) a = true
    · exact .inl ⟨(d.store.write k (d.store.nextId k) a h.2).setNextId k (d.store.nextId k + 1),
        fun t => dif_pos h⟩
    · exact .inr ⟨_, fun t => dif_neg h⟩
  have hself : ∀ d : Database S, (∃ s, d.create k a = .ok (d.store.nextId k)
      (({ d with store := s } : Database S).onTop k fun u => u.onCreate (d.store.nextId k))) ∨
      ∃ e, d.create k a = .thrown e d := by
    intro d
    rcases hcases d with ⟨s, h⟩ | ⟨e, h⟩
    · have h0 := h []
      rw [under_nil] at h0
      exact .inl ⟨s, h0⟩
    · have h0 := h []
      rw [under_nil] at h0
      exact .inr ⟨e, h0⟩
  refine Blind.step (fun d => ?_) (fun d => ?_) (fun d => ?_) fun d t ht => ?_
  · rcases hself d with ⟨s, h⟩ | ⟨e, h⟩
    · rw [h, Outcome.db_ok, onTop_activeSessions]
    · rw [h, Outcome.db_thrown]
  · rcases hself d with ⟨s, h⟩ | ⟨e, h⟩
    · rw [h, Outcome.db_ok, onTop_disabled]
    · rw [h, Outcome.db_thrown]
  · rcases hself d with ⟨s, h⟩ | ⟨e, h⟩
    · rw [h, Outcome.db_ok]
      exact onTop_length { d with store := s } _ _
    · rw [h, Outcome.db_thrown]
  · rcases hcases d with ⟨s, h⟩ | ⟨e, h⟩
    · have h0 := h []
      rw [under_nil] at h0
      rw [h, h0]
      exact congrArg (Outcome.ok _) (onTop_under (d := { d with store := s }) ht)
    · have h0 := h []
      rw [under_nil] at h0
      rw [h, h0]
      rfl

theorem blind_modify (k : S.Kind) (i : Nat) (f : S.Obj k → Except Exn (S.Obj k)) :
    Blind fun d : Database S => d.modify k i f := by
  have hcases : ∀ d : Database S, (d.modify k i f).db.activeSessions = d.activeSessions ∧
      (d.modify k i f).db.disabled = d.disabled ∧
      d.stack.length ≤ (d.modify k i f).db.stack.length := by
    intro d
    unfold Database.modify
    split
    · exact ⟨rfl, rfl, le_rfl⟩
    · simp only
      split
      · split
        · exact ⟨onTop_activeSessions .., onTop_disabled .., onTop_length ..⟩
        · exact ⟨onTop_activeSessions .., onTop_disabled .., onTop_length ..⟩
      · split
        · exact ⟨onTop_activeSessions .., onTop_disabled .., onTop_length ..⟩
        · exact ⟨onTop_activeSessions .., onTop_disabled .., onTop_length ..⟩
  refine Blind.step (fun d => (hcases d).1) (fun d => (hcases d).2.1) (fun d => (hcases d).2.2)
    fun d t ht => ?_
  unfold Database.modify
  rw [under_store]
  cases d.store.get k i with
  | none => rfl
  | some a =>
    simp only [onTop_under ht, under_store, onTop_store]
    cases f a with
    | error e =>
      simp only
      split <;> rfl
    | ok b =>
      simp only
      split <;> rfl

theorem blind_remove (k : S.Kind) (i : Nat) : Blind fun d : Database S => d.remove k i := by
  have hcases : ∀ d : Database S, (d.remove k i).db.activeSessions = d.activeSessions ∧
      (d.remove k i).db.disabled = d.disabled ∧
      d.stack.length ≤ (d.remove k i).db.stack.length := by
    intro d
    unfold Database.remove
    split
    · exact ⟨rfl, rfl, le_rfl⟩
    · exact ⟨onTop_activeSessions .., onTop_disabled .., onTop_length ..⟩
  refine Blind.step (fun d => (hcases d).1) (fun d => (hcases d).2.1) (fun d => (hcases d).2.2)
    fun d t ht => ?_
  unfold Database.remove
  rw [under_store]
  cases d.store.get k i with
  | none => rfl
  | some a =>
    simp only [onTop_under ht, under_store, onTop_store]
    rfl

end MuseChain
