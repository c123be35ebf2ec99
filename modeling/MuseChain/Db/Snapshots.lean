/-
  File:      MuseChain/Db/Snapshots.lean
  Subject:   Undo stacks with one state for each snapshot, and no others.

  `Exactly d snaps` says more than `Rewinds`: the stack is no longer than the list of snapshots, so
  whatever is popped is one of them. Programs, sessions and pops keep it (`Exactly.run`,
  `Exactly.start`, `Exactly.dropped`, `Exactly.merged`, `Exactly.popped`).

  `Unlogged x`: where the undo database is disabled, the program leaves the stack alone.
-/
import MuseChain.Db.Runs

namespace MuseChain

variable {S : Schema}

/-- The undo states lead back to the snapshots, one state for each. -/
structure Exactly (d : Database S) (snaps : List (Store S)) : Prop where
  rewinds : Rewinds Steady d.stack d.store snaps
  length : d.stack.length = snaps.length

section

variable {d : Database S} {base mid : Store S} {snaps : List (Store S)}

theorem Exactly.fresh (h : Exactly d (base :: snaps)) : d.store.Fresh :=
  h.rewinds.fresh (List.cons_ne_nil _ _)

/-- The oldest states are trimmed. -/
theorem Exactly.take (h : Exactly d snaps) (m : Nat) :
    Exactly { d with stack := d.stack.take m } (snaps.take m) := by
  refine ⟨h.rewinds.take m, ?_⟩
  simp only [List.length_take, h.length]

/-- What a session starts with, besides its undo state. -/
theorem startUndoSession_flags (hd : d.disabled = false) :
    (d.startUndoSession false).1 = false ∧ (d.startUndoSession false).2.store = d.store ∧
      (d.startUndoSession false).2.disabled = false ∧
      (d.startUndoSession false).2.activeSessions = d.activeSessions + 1 ∧
      (d.startUndoSession false).2.maxSize = d.maxSize := by
  rw [startUndoSession_eq false hd]
  exact ⟨rfl, rfl, hd, rfl, rfl⟩

/-- A session saves the objects that it starts with. -/
theorem Exactly.start (h : Exactly d snaps) (hd : d.disabled = false) (hf : d.store.Fresh) :
    Exactly (d.startUndoSession false).2 (d.store :: snaps.take d.maxSize) := by
  rw [startUndoSession_eq false hd]
  refine ⟨startUndoSession_rewinds steady_tracked h.rewinds hf, ?_⟩
  simp only [List.length_cons, List.length_take, h.length]

/-- The newest snapshot is the one that its undo state leads to. -/
theorem Exactly.newest (h : Exactly d (base :: snaps)) :
    ∃ u us, d.stack = u :: us ∧ Sound u d.store base ∧ Steady base d.store ∧
      Rewinds Steady us base snaps ∧ us.length = snaps.length := by
  have hr := h.rewinds
  have hlen := h.length
  generalize hst : d.stack = stack at hr hlen
  cases hr with
  | cons hu ht hr' =>
    refine ⟨_, _, rfl, hu, ht, hr', ?_⟩
    simpa using hlen

/-- **A program leaves all snapshots but the oldest ones, which make room for its sessions.** -/
theorem Exactly.run {n : Nat} {α : Type} {x : Action S n α} (h : Exactly d (base :: snaps))
    (hd : d.disabled = false) (hn : n ≤ d.maxSize) (hb : (x.run d).db.broken = false) :
    Orderly n d (x.run d).db ∧ ∃ m, min snaps.length (d.maxSize - n) ≤ m ∧
      Exactly (x.run d).db (base :: snaps.take m) := by
  obtain ⟨_, hkeeps, htidy⟩ := x.holds d hb
  have ho := htidy hn h.fresh
  refine ⟨ho, ?_⟩
  obtain ⟨u, us, hst, _, _, hus, hlen⟩ := h.newest
  obtain ⟨u', m, hm, hst'⟩ := ho.stack u us hst
  obtain ⟨_, _, _, m', hm', hr⟩ := hkeeps hd hn (base :: snaps) (List.cons_ne_nil _ _) h.rewinds
  -- the top still leads to `base`, and below it nothing has changed
  obtain ⟨k, rfl⟩ : ∃ k, m' = k + 1 := by
    simp only [List.length_cons] at hm'
    exact ⟨m' - 1, by omega⟩
  rw [List.take_succ_cons, hst'] at hr
  obtain _ | ⟨hu', ht', _⟩ := hr
  refine ⟨m, by omega, ?_, ?_⟩
  · rw [hst']
    exact .cons hu' ht' (hus.take m)
  · rw [hst']
    simp only [List.length_cons, List.length_take, hlen]

/-- A session that is dropped goes back to its snapshot. -/
theorem Exactly.dropped (h : Exactly d (base :: snaps)) (hd : d.disabled = false)
    (ha : 0 < d.activeSessions) :
    d.dropSession false = { d with
        store := base, stack := d.stack.tail, activeSessions := d.activeSessions - 1 } ∧
      Exactly (d.dropSession false) snaps := by
  obtain ⟨u, us, hst, _, ht, hus, hlen⟩ := h.newest
  obtain ⟨us', hus', _, e⟩ := undo_ok hd ha h.rewinds ht.noTakeover
  have hdrop : d.dropSession false = { d with
      store := base, stack := d.stack.tail, activeSessions := d.activeSessions - 1 } := by
    simp only [Database.dropSession, e, hus']
    rfl
  refine ⟨hdrop, ?_⟩
  rw [hdrop, hst]
  exact ⟨hus, hlen⟩

/-- Two sessions behind each other become one. -/
theorem Exactly.merged (h : Exactly d (mid :: base :: snaps)) (ha : 0 < d.activeSessions) :
    ∃ us, d.merge = .ok () { d with stack := us, activeSessions := d.activeSessions - 1 } ∧
      Exactly { d with stack := us, activeSessions := d.activeSessions - 1 } (base :: snaps) := by
  have hr := h.rewinds
  have hlen := h.length
  generalize hst : d.stack = stack at hr hlen
  have hr0 := hr
  obtain _ | @⟨v, us, _, _, _, _, _, hr'⟩ := hr
  obtain _ | @⟨u, us, _, _, _, _, _, _⟩ := hr'
  refine ⟨u.merge v :: us, ?_, hr0.merge steady_tracked, ?_⟩
  · unfold Database.merge
    rw [if_neg (by omega)]
    simp only [hst]
  · simp only [List.length_cons] at hlen ⊢
    omega

/-- A pop goes back to the newest snapshot. -/
theorem Exactly.popped (h : Exactly d (base :: snaps)) (ha : d.activeSessions = 0) :
    d.popCommit = .ok () { d with store := base, stack := d.stack.tail, disabled := false } ∧
      Exactly { d with store := base, stack := d.stack.tail, disabled := false } snaps := by
  obtain ⟨u, us, hst, _, ht, hus, hlen⟩ := h.newest
  obtain ⟨us', hus', _, e⟩ := popCommit_ok ha h.rewinds ht.noTakeover
  rw [e, hus']
  refine ⟨rfl, ?_⟩
  rw [← hus', hst]
  exact ⟨hus, hlen⟩

/-- Without a snapshot there is nothing to pop. -/
theorem Exactly.not_popped (h : Exactly d []) : ∃ e, d.popCommit = .thrown e d := by
  have hst : d.stack = [] := List.eq_nil_of_length_eq_zero h.length
  unfold Database.popCommit
  split
  · exact ⟨_, rfl⟩
  · rw [hst]
    exact ⟨_, rfl⟩

end

/-! ## 2. Without the undo database -/

structure Unlogged {n : Nat} {α : Type} (x : Action S n α) : Prop where
  same : ∀ d, d.disabled = true → (x.run d).db.disabled = true ∧ (x.run d).db.stack = d.stack

section

variable {n : Nat} {α β : Type}

theorem Looks.unlogged {x : Action S n α} (h : Looks x) : Unlogged x := by
  refine ⟨fun d hd => ?_⟩
  rw [h.same d]
  exact ⟨hd, rfl⟩

theorem unlogged_bind {x : Action S n α} {f : α → Action S n β} (hx : Unlogged x)
    (hf : ∀ a, Unlogged (f a)) : Unlogged (x >>= f) := by
  refine ⟨fun d hd => ?_⟩
  obtain ⟨hd1, hs1⟩ := hx.same d hd
  show ((Action.andThen x f).run d).db.disabled = true ∧ ((Action.andThen x f).run d).db.stack = _
  simp only [Action.andThen]
  cases hr : x.run d with
  | thrown e d₁ =>
    rw [hr] at hd1 hs1
    exact ⟨hd1, hs1⟩
  | ok a d₁ =>
    rw [hr] at hd1 hs1
    obtain ⟨hd2, hs2⟩ := (hf a).same d₁ hd1
    exact ⟨hd2, hs2.trans hs1⟩

theorem unlogged_ite {c : Prop} [Decidable c] {x y : Action S n α} (hx : c → Unlogged x)
    (hy : ¬c → Unlogged y) : Unlogged (if c then x else y) := by
  split
  · exact hx ‹_›
  · exact hy ‹_›

theorem unlogged_forEach {l : List β} {f : β → Action S n Unit} (h : ∀ b, Unlogged (f b)) :
    Unlogged (Action.forEach l f) := by
  induction l with
  | nil => exact (looks_pure ()).unlogged
  | cons b l ih => exact unlogged_bind (h b) fun _ => ih

theorem onTop_of_disabled {d : Database S} (hd : d.disabled = true) (k : S.Kind)
    (f : KindUndo (S.Obj k) → KindUndo (S.Obj k)) : d.onTop k f = d := by
  unfold Database.onTop
  rw [if_pos hd]

theorem unlogged_create {k : S.Kind} {a : S.Obj k} :
    Unlogged (Action.create k a : Action S n Nat) := by
  refine ⟨fun d hd => ?_⟩
  show (d.create k a).db.disabled = true ∧ (d.create k a).db.stack = d.stack
  unfold Database.create
  simp only
  split
  · rw [Outcome.db_ok, onTop_of_disabled]
    · exact ⟨hd, rfl⟩
    · exact hd
  · exact ⟨hd, rfl⟩

theorem unlogged_modifyWith {k : S.Kind} {i : Nat} {f : S.Obj k → Except Exn β}
    {upd : S.Obj k → β → S.Obj k} {hkey : ∀ a b, S.SameKey k a (upd a b)} :
    Unlogged (Action.modifyWith k i f upd hkey : Action S n Unit) := by
  refine ⟨fun d hd => ?_⟩
  show (d.modify k i fun a => (f a).map (upd a)).db.disabled = true ∧
    (d.modify k i fun a => (f a).map (upd a)).db.stack = d.stack
  unfold Database.modify
  cases d.store.get k i with
  | none => exact ⟨hd, rfl⟩
  | some a =>
    simp only [onTop_of_disabled hd]
    split
    · split
      · exact ⟨hd, rfl⟩
      · exact ⟨hd, rfl⟩
    · split
      · exact ⟨hd, rfl⟩
      · exact ⟨hd, rfl⟩

end

end MuseChain
