/-
  File:      MuseChain/Db/Sessions.lean
  Subject:   The undo stack as a stack of snapshots, over whole nests of sessions.

  `Rewinds T stack cur snaps`: the newest undo states of `stack` lead from `cur` back to the
  stores `snaps`, one after the other. The relation `T` between a snapshot and the store after
  it is what the caller wants to track besides (`Steady`: no object changed its unique keys).
    * `Keeps T n d d'`: going from `d` to `d'`, with at most `n` sessions nested in it, costs no
      snapshot but the oldest ones that `startUndoSession` trims.
    * `Keeps.merged`, `Keeps.undone`: a session around a step that keeps, merged or undone.
-/
import MuseChain.Db.Merge

namespace MuseChain

variable {S : Schema}

/-! ## 1. Snapshots -/

/-- A relation between the store before a session and the store now that composes as sessions
do. -/
structure Tracked (T : Store S → Store S → Prop) : Prop where
  refl : ∀ s, T s s
  trans : ∀ {u v base mid cur}, Sound v cur mid → Sound u mid base → T mid cur → T base mid →
    T base cur

inductive Rewinds (T : Store S → Store S → Prop) :
    List (UndoState S) → Store S → List (Store S) → Prop
  | nil (us : List (UndoState S)) (cur : Store S) : Rewinds T us cur []
  | cons {u : UndoState S} {us : List (UndoState S)} {cur base : Store S}
      {snaps : List (Store S)} : Sound u cur base → T base cur → Rewinds T us base snaps →
      Rewinds T (u :: us) cur (base :: snaps)

section

variable {T : Store S → Store S → Prop}

theorem Rewinds.length_le {us : List (UndoState S)} {cur : Store S} {snaps : List (Store S)}
    (h : Rewinds T us cur snaps) : snaps.length ≤ us.length := by
  induction h with
  | nil => exact Nat.zero_le _
  | cons _ _ _ ih => exact Nat.succ_le_succ ih

theorem Rewinds.take {us : List (UndoState S)} {cur : Store S} {snaps : List (Store S)}
    (h : Rewinds T us cur snaps) (m : Nat) : Rewinds T (us.take m) cur (snaps.take m) := by
  induction h generalizing m with
  | nil us cur => simpa using Rewinds.nil _ _
  | cons hs ht _ ih =>
    cases m with
    | zero => exact Rewinds.nil _ _
    | succ m => exact Rewinds.cons hs ht (ih m)

theorem Rewinds.fresh {us : List (UndoState S)} {cur : Store S} {snaps : List (Store S)}
    (h : Rewinds T us cur snaps) (hne : snaps ≠ []) : cur.Fresh := by
  cases h with
  | nil => exact absurd rfl hne
  | cons hs _ _ => exact hs.fresh

/-- Two snapshots behind each other are one when the undo states are merged. -/
theorem Rewinds.merge (hT : Tracked T) {v u : UndoState S} {us : List (UndoState S)}
    {cur mid base : Store S} {snaps : List (Store S)}
    (h : Rewinds T (v :: u :: us) cur (mid :: base :: snaps)) :
    Rewinds T (u.merge v :: us) cur (base :: snaps) := by
  obtain _ | ⟨hv, ht, h'⟩ := h
  obtain _ | ⟨hu, ht', h''⟩ := h'
  exact Rewinds.cons (hv.merge hu) (hT.trans hv hu ht ht') h''

end

/-! ## 2. Objects that stay alike -/

/-- The objects of `base` that are still there are alike now. -/
def Alike (R : (k : S.Kind) → S.Obj k → S.Obj k → Prop) (base cur : Store S) : Prop :=
  ∀ k i a b, base.get k i = some a → cur.get k i = some b → R k a b

section

variable {R : (k : S.Kind) → S.Obj k → S.Obj k → Prop} {base s : Store S} {k : S.Kind}

theorem alike_tracked (hrefl : ∀ k a, R k a a) (htrans : ∀ k a b c, R k a b → R k b c → R k a c) :
    Tracked (Alike R) where
  refl s := by
    intro k i a b ha hb
    rw [ha] at hb
    cases hb
    exact hrefl k a
  trans := by
    intro u v base mid cur hv hu ht ht' k i a c ha hc
    cases hm : mid.get k i with
    | some b => exact htrans k a b c (ht' k i a b ha hm) (ht k i b c hm hc)
    | none =>
      -- an id of `base` is not handed out again
      have h1 := hu.freshBase k i a ha
      have h2 := hu.grows k
      have h3 := hv.new_of_appears hm hc
      omega

theorem alike_create {a : S.Obj k} {u : UndoState S} (hs : Sound u s base) (h : Alike R base s)
    (hf : s.free k (s.nextId k) a = true) :
    Alike R base ((s.write k (s.nextId k) a hf).setNextId k (s.nextId k + 1)) := by
  intro k' i b c hb hc
  rw [Store.get_setNextId] at hc
  by_cases e : k' = k ∧ i = s.nextId k
  · -- the new id was not in use before the session
    obtain ⟨rfl, rfl⟩ := e
    have h1 := hs.freshBase _ _ b hb
    have h2 := hs.grows k'
    omega
  · rw [Store.get_write_of_ne s hf e] at hc
    exact h k' i b c hb hc

theorem alike_modify {i : Nat} {a b : S.Obj k}
    (htrans : ∀ k a b c, R k a b → R k b c → R k a c) (h : Alike R base s)
    (hg : s.get k i = some a) (hk : R k a b) (hf : s.free k i b = true) :
    Alike R base (s.write k i b hf) := by
  intro k' j x y hx hy
  by_cases e : k' = k ∧ j = i
  · obtain ⟨rfl, rfl⟩ := e
    rw [Store.get_write_self, if_pos rfl] at hy
    cases hy
    exact htrans _ _ _ _ (h _ _ x a hx hg) hk
  · rw [Store.get_write_of_ne s hf e] at hy
    exact h k' j x y hx hy

theorem alike_erase {i : Nat} (h : Alike R base s) : Alike R base (s.erase k i) := by
  intro k' j x y hx hy
  by_cases e : k' = k ∧ j = i
  · obtain ⟨rfl, rfl⟩ := e
    rw [Store.get_erase_self, if_pos rfl] at hy
    cases hy
  · rw [Store.get_erase_of_ne s e] at hy
    exact h k' j x y hx hy

end

/-- No object of `base` that is still there has other unique keys now. -/
def Steady (base cur : Store S) : Prop :=
  ∀ k i a b, base.get k i = some a → cur.get k i = some b → S.SameKey k a b

theorem steady_tracked : Tracked (Steady (S := S)) :=
  alike_tracked (fun _ a => Schema.SameKey.refl S a) fun _ _ _ _ h h' => h.trans h'

theorem Steady.noTakeover {base cur : Store S} (h : Steady base cur) : NoTakeover base cur := by
  intro k i j a b hij ha hi hb
  obtain ⟨c, hc⟩ := Option.isSome_iff_exists.mp hi
  rw [h k i a c ha hc]
  exact cur.unique k i j c b hij hc hb

/-! ## 3. What a step costs -/

/-- With at most `n` sessions nested in it, the step from `d` to `d'` leaves every snapshot but
the oldest, and the flags, alone. -/
def Keeps (T : Store S → Store S → Prop) (n : Nat) (d d' : Database S) : Prop :=
  d.disabled = false → n ≤ d.maxSize → ∀ snaps, snaps ≠ [] → Rewinds T d.stack d.store snaps →
    d'.disabled = false ∧ d'.activeSessions = d.activeSessions ∧ d'.maxSize = d.maxSize ∧
      ∃ m, min snaps.length (d.maxSize + 1 - n) ≤ m ∧
        Rewinds T d'.stack d'.store (snaps.take m)

section

variable {T : Store S → Store S → Prop} {n : Nat} {d d' d'' : Database S}

theorem Keeps.refl (d : Database S) : Keeps T n d d := by
  intro hd _ snaps _ h
  exact ⟨hd, rfl, rfl, snaps.length, Nat.min_le_left _ _, by simpa using h⟩

/-- The newest snapshot is never trimmed. -/
theorem take_ne_nil {snaps : List (Store S)} (hne : snaps ≠ []) {m max : Nat} (hn : n ≤ max)
    (h : min snaps.length (max + 1 - n) ≤ m) : snaps.take m ≠ [] := by
  intro e
  have hlen : snaps.length ≠ 0 := fun e => hne (List.length_eq_zero_iff.mp e)
  have := congrArg List.length e
  simp only [List.length_take, List.length_nil] at this
  omega

theorem Keeps.trans (h : Keeps T n d d') (h' : Keeps T n d' d'') : Keeps T n d d'' := by
  intro hd hn snaps hne hr
  obtain ⟨hd1, ha1, hm1, m, hm, hr1⟩ := h hd hn snaps hne hr
  have hlen : snaps.length ≠ 0 := fun e => hne (List.length_eq_zero_iff.mp e)
  obtain ⟨hd2, ha2, hm2, m', hm', hr2⟩ := h' hd1 (by omega) _ (take_ne_nil hne hn hm) hr1
  refine ⟨hd2, ha2.trans ha1, hm2.trans hm1, min m' m, ?_, ?_⟩
  · rw [List.length_take, hm1] at hm'
    omega
  · rwa [List.take_take] at hr2

theorem Keeps.mono {n' : Nat} (h : Keeps T n d d') (hn : n ≤ n') : Keeps T n' d d' := by
  intro hd hn' snaps hne hr
  obtain ⟨hd1, ha1, hm1, m, hm, hr1⟩ := h hd (by omega) snaps hne hr
  exact ⟨hd1, ha1, hm1, m, by omega, hr1⟩

/-- A step that only touches the store and the top of the stack. -/
theorem Keeps.of_top {g : UndoState S → UndoState S} (hdis : d'.disabled = d.disabled)
    (hact : d'.activeSessions = d.activeSessions) (hmax : d'.maxSize = d.maxSize)
    (hstack : d.disabled = false → ∀ u us, d.stack = u :: us → d'.stack = g u :: us)
    (hs : ∀ u base, Sound u d.store base → T base d.store →
      Sound (g u) d'.store base ∧ T base d'.store) : Keeps T n d d' := by
  intro hd _ snaps hne hr
  refine ⟨hdis.trans hd, hact, hmax, snaps.length, Nat.min_le_left _ _, ?_⟩
  rw [List.take_length]
  generalize hst : d.stack = stack at hr
  cases hr with
  | nil => exact absurd rfl hne
  | cons hu ht hr' =>
    obtain ⟨hu', ht'⟩ := hs _ _ hu ht
    rw [hstack hd _ _ hst]
    exact Rewinds.cons hu' ht' hr'

/-- What is saved depends on nothing but the stack and whether undo is enabled. -/
theorem onTop_stack_congr {d₁ d₂ : Database S} (k : S.Kind)
    (f : KindUndo (S.Obj k) → KindUndo (S.Obj k)) (hd : d₁.disabled = d₂.disabled)
    (hs : d₁.stack = d₂.stack) : (d₁.onTop k f).stack = (d₂.onTop k f).stack := by
  simp only [Database.onTop, hd, hs]
  split
  · exact hs
  · cases d₂.stack with
    | nil => rfl
    | cons u us => rfl

theorem onTop_stack (d : Database S) (k : S.Kind) (f : KindUndo (S.Obj k) → KindUndo (S.Obj k))
    (hd : d.disabled = false) {u : UndoState S} {us : List (UndoState S)}
    (h : d.stack = u :: us) : (d.onTop k f).stack = u.upd k f :: us := by
  simp [Database.onTop, hd, h]

@[simp] theorem onTop_store (d : Database S) (k : S.Kind)
    (f : KindUndo (S.Obj k) → KindUndo (S.Obj k)) : (d.onTop k f).store = d.store := by
  unfold Database.onTop
  split
  · rfl
  · split <;> rfl

@[simp] theorem onTop_disabled (d : Database S) (k : S.Kind)
    (f : KindUndo (S.Obj k) → KindUndo (S.Obj k)) : (d.onTop k f).disabled = d.disabled := by
  unfold Database.onTop
  split
  · rfl
  · split <;> rfl

@[simp] theorem onTop_activeSessions (d : Database S) (k : S.Kind)
    (f : KindUndo (S.Obj k) → KindUndo (S.Obj k)) :
    (d.onTop k f).activeSessions = d.activeSessions := by
  unfold Database.onTop
  split
  · rfl
  · split <;> rfl

@[simp] theorem onTop_maxSize (d : Database S) (k : S.Kind)
    (f : KindUndo (S.Obj k) → KindUndo (S.Obj k)) : (d.onTop k f).maxSize = d.maxSize := by
  unfold Database.onTop
  split
  · rfl
  · split <;> rfl

@[simp] theorem onTop_order (d : Database S) (k : S.Kind)
    (f : KindUndo (S.Obj k) → KindUndo (S.Obj k)) : (d.onTop k f).order = d.order := by
  unfold Database.onTop
  split
  · rfl
  · split <;> rfl

@[simp] theorem onTop_broken (d : Database S) (k : S.Kind)
    (f : KindUndo (S.Obj k) → KindUndo (S.Obj k)) : (d.onTop k f).broken = d.broken := by
  unfold Database.onTop
  split
  · rfl
  · split <;> rfl

end

/-! ## 4. The operations -/

section

variable {T : Store S → Store S → Prop} {n : Nat} {d d' : Database S}

theorem create_ok {k : S.Kind} {a : S.Obj k} {i : Nat} (h : d.create k a = .ok i d') :
    i = d.store.nextId k ∧ d.store.get k i = none ∧
      ∃ hf : d.store.free k (d.store.nextId k) a = true,
        d' = Database.onTop
          { d with
            store := (d.store.write k (d.store.nextId k) a hf).setNextId k (d.store.nextId k + 1) }
          k fun u => u.onCreate (d.store.nextId k) := by
  simp only [Database.create] at h
  split at h
  · rename_i hc
    cases h
    exact ⟨rfl, hc.1, hc.2, rfl⟩
  · cases h

theorem create_keeps {k : S.Kind} {a : S.Obj k} {i : Nat} (h : d.create k a = .ok i d')
    (hT : ∀ u base, Sound u d.store base → T base d.store → T base d'.store) :
    Keeps T n d d' := by
  obtain ⟨_, _, hf, rfl⟩ := create_ok h
  refine Keeps.of_top (g := fun u => u.upd k fun w => w.onCreate (d.store.nextId k))
    (by simp) (by simp) (by simp) ?_ ?_
  · intro hd u us hst
    simp [Database.onTop, hd, hst]
  · intro u base hs ht
    refine ⟨?_, hT u base hs ht⟩
    rw [onTop_store]
    exact hs.create hf

theorem modify_ok {k : S.Kind} {i : Nat} {f : S.Obj k → Except Exn (S.Obj k)}
    (h : d.modify k i f = .ok () d') :
    ∃ a b, d.store.get k i = some a ∧ f a = .ok b ∧ ∃ hf : d.store.free k i b = true,
      d'.store = d.store.write k i b hf ∧
      d' = { d.onTop k (fun u => u.onModify i a) with store := d.store.write k i b hf } := by
  unfold Database.modify at h
  cases hg : d.store.get k i with
  | none => simp [hg] at h
  | some a =>
    simp only [hg, onTop_store] at h
    cases hb : f a with
    | error e => simp [hb] at h
    | ok b =>
      simp only [hb] at h
      split at h
      · rename_i hf
        simp only [Outcome.ok.injEq, true_and] at h
        exact ⟨a, b, rfl, hb, hf, by rw [← h], h.symm⟩
      · cases h

theorem modify_keeps {k : S.Kind} {i : Nat} {f : S.Obj k → Except Exn (S.Obj k)}
    (h : d.modify k i f = .ok () d')
    (hT : ∀ u base, Sound u d.store base → T base d.store → T base d'.store) :
    Keeps T n d d' := by
  obtain ⟨a, b, hg, _, hf, -, rfl⟩ := modify_ok h
  refine Keeps.of_top (g := fun u => u.upd k fun w => w.onModify i a) (by simp) (by simp)
    (by simp) ?_ ?_
  · intro hd u us hst
    exact onTop_stack d k _ hd hst
  · intro u base hs ht
    exact ⟨hs.modify hg hf, hT u base hs ht⟩

theorem remove_ok {k : S.Kind} {i : Nat} (h : d.remove k i = .ok () d') :
    ∃ a, d.store.get k i = some a ∧
      d' = { d.onTop k (fun u => u.onRemove i a) with store := d.store.erase k i } := by
  unfold Database.remove at h
  cases hg : d.store.get k i with
  | none => simp [hg] at h
  | some a =>
    simp only [hg, onTop_store, Outcome.ok.injEq, true_and] at h
    exact ⟨a, rfl, h.symm⟩

theorem remove_keeps {k : S.Kind} {i : Nat} (h : d.remove k i = .ok () d')
    (hT : ∀ u base, Sound u d.store base → T base d.store → T base d'.store) :
    Keeps T n d d' := by
  obtain ⟨a, hg, rfl⟩ := remove_ok h
  refine Keeps.of_top (g := fun u => u.upd k fun w => w.onRemove i a) (by simp) (by simp)
    (by simp) ?_ ?_
  · intro hd u us hst
    exact onTop_stack d k _ hd hst
  · intro u base hs ht
    exact ⟨hs.remove hg, hT u base hs ht⟩

end

/-! ## 5. Sessions -/

section

variable {T : Store S → Store S → Prop} {n : Nat} {d d' d'' : Database S}

theorem startUndoSession_eq (force : Bool) (hd : d.disabled = false) :
    d.startUndoSession force = (false,
      { d with
        stack := UndoState.empty :: d.stack.take d.maxSize
        activeSessions := d.activeSessions + 1 }) := by
  unfold Database.startUndoSession
  cases force <;> simp [hd]

/-- A session that is started touches no object. -/
theorem startUndoSession_store (d : Database S) (force : Bool) :
    (d.startUndoSession force).2.store = d.store := by
  unfold Database.startUndoSession
  split
  · rfl
  · rfl

theorem startUndoSession_rewinds (hT : Tracked T) {snaps : List (Store S)}
    (hr : Rewinds T d.stack d.store snaps) (hf : d.store.Fresh) :
    Rewinds T (UndoState.empty :: d.stack.take d.maxSize) d.store
      (d.store :: snaps.take d.maxSize) :=
  Rewinds.cons (Sound.empty hf) (hT.refl _) (hr.take d.maxSize)

/-- **undo() goes back to the last snapshot.** -/
theorem undo_ok {base : Store S} {snaps : List (Store S)} (hd : d.disabled = false)
    (ha : 0 < d.activeSessions) (hr : Rewinds T d.stack d.store (base :: snaps))
    (hc : NoTakeover base d.store) :
    ∃ us, d.stack.tail = us ∧ Rewinds T us base snaps ∧
      d.undo = .ok () { d with store := base, stack := us,
                               activeSessions := d.activeSessions - 1 } := by
  generalize hst : d.stack = stack at hr
  obtain _ | @⟨u, us, _, _, _, hu, _, hr'⟩ := hr
  refine ⟨us, rfl, hr', ?_⟩
  have hroll : rollbackStore u d.order d.store = .ok base := rollbackStore_ok hu.toUndoes hc
  unfold Database.undo Database.rollbackState
  rw [if_neg (by simp [hd]), if_neg (by omega)]
  simp only [hst, hroll]
  rw [hd]

theorem popCommit_ok {base : Store S} {snaps : List (Store S)} (ha : d.activeSessions = 0)
    (hr : Rewinds T d.stack d.store (base :: snaps)) (hc : NoTakeover base d.store) :
    ∃ us, d.stack.tail = us ∧ Rewinds T us base snaps ∧
      d.popCommit = .ok () { d with store := base, stack := us, disabled := false } := by
  generalize hst : d.stack = stack at hr
  obtain _ | @⟨u, us, _, _, _, hu, _, hr'⟩ := hr
  refine ⟨us, rfl, hr', ?_⟩
  have hroll : rollbackStore u d.order d.store = .ok base := rollbackStore_ok hu.toUndoes hc
  unfold Database.popCommit Database.rollbackState
  rw [if_neg (by simp [ha]), if_neg (by simp [hst])]
  simp only [hst, hroll]

theorem merge_ok (hT : Tracked T) {mid base : Store S} {snaps : List (Store S)}
    (ha : 0 < d.activeSessions) (hr : Rewinds T d.stack d.store (mid :: base :: snaps)) :
    ∃ us, Rewinds T us d.store (base :: snaps) ∧
      d.merge = .ok () { d with stack := us, activeSessions := d.activeSessions - 1 } := by
  generalize hst : d.stack = stack at hr
  have hr0 := hr
  obtain _ | ⟨_, _, hr'⟩ := hr
  obtain _ | ⟨_, _, _⟩ := hr'
  refine ⟨_, hr0.merge hT, ?_⟩
  unfold Database.merge
  rw [if_neg (by omega)]
  simp only [hst]

/-- What holds at the end of a session's body: its own snapshot is the newest. -/
theorem Keeps.session (hT : Tracked T) {force : Bool}
    (h : Keeps T n (d.startUndoSession force).2 d') (hd : d.disabled = false)
    (hn : n + 1 ≤ d.maxSize) {snaps : List (Store S)} (hne : snaps ≠ [])
    (hr : Rewinds T d.stack d.store snaps) :
    d'.disabled = false ∧ d'.activeSessions = d.activeSessions + 1 ∧ d'.maxSize = d.maxSize ∧
      ∃ m, 0 < m ∧ min snaps.length (d.maxSize - n) ≤ m ∧
        Rewinds T d'.stack d'.store (d.store :: snaps.take m) := by
  rw [startUndoSession_eq force hd] at h
  have hlen : snaps.length ≠ 0 := fun e => hne (List.length_eq_zero_iff.mp e)
  obtain ⟨hd1, ha1, hm1, m, hm, hr1⟩ := h hd (by simp only; omega) _ (by simp)
    (startUndoSession_rewinds hT hr (hr.fresh hne))
  simp only [List.length_cons, List.length_take] at hm
  obtain ⟨m', rfl⟩ : ∃ m', m = m' + 1 := ⟨m - 1, by omega⟩
  rw [List.take_succ_cons, List.take_take] at hr1
  exact ⟨hd1, ha1, hm1, min m' d.maxSize, by omega, by omega, hr1⟩

theorem Keeps.merged (hT : Tracked T) {force : Bool}
    (h : Keeps T n (d.startUndoSession force).2 d') (hm : d'.merge = .ok () d'') :
    Keeps T (n + 1) d d'' := by
  intro hd hn snaps hne hr
  obtain ⟨hd1, ha1, hm1, m, hpos, hm', hr1⟩ := h.session hT hd hn hne hr
  cases hs : snaps.take m with
  | nil => exact absurd hs (take_ne_nil hne hn (by omega))
  | cons base rest =>
    rw [hs] at hr1
    obtain ⟨us, hr2, e⟩ := merge_ok hT (by omega) hr1
    rw [e, Outcome.ok.injEq] at hm
    obtain ⟨-, rfl⟩ := hm
    refine ⟨hd1, by simp only; omega, hm1, m, by omega, ?_⟩
    rw [hs]
    exact hr2

theorem Keeps.undone (hT : Tracked T) {force : Bool}
    (h : Keeps T n (d.startUndoSession force).2 d') (hm : d'.undo = .ok () d'')
    (hc : NoTakeover d.store d'.store) : Keeps T (n + 1) d d'' := by
  intro hd hn snaps hne hr
  obtain ⟨hd1, ha1, hm1, m, hpos, hm', hr1⟩ := h.session hT hd hn hne hr
  obtain ⟨us, _, hr2, e⟩ := undo_ok hd1 (by omega) hr1 hc
  rw [e, Outcome.ok.injEq] at hm
  obtain ⟨-, rfl⟩ := hm
  exact ⟨hd1, by simp only; omega, hm1, m, by omega, hr2⟩

end

end MuseChain
