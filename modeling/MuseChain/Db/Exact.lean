/-
  File:      MuseChain/Db/Exact.lean
  Subject:   Undo is exact, and merging composes.

  * `undo_exact`: after any calls made under a session, undo(), or commit() and pop_commit(),
    gives back the store the session started with, next ids included.
  * `merge_composes`: undoing a session after a nested one was merged gives the store that
    undoing both gives; and so it is for any tree of nested sessions (`Script`).
  * `merge_takeover`: not so when a unique key passes from one object to another.
-/
import MuseChain.Db.Sessions

namespace MuseChain

/-! ## 1. Calls -/

/-- One call of the object database. -/
inductive Call (S : Schema) where
  | create (k : S.Kind) (a : S.Obj k)
  | modify (k : S.Kind) (i : Nat) (f : S.Obj k → Except Exn (S.Obj k))
  | remove (k : S.Kind) (i : Nat)

namespace Database

variable {S : Schema}

def call (d : Database S) : Call S → Outcome S Unit
  | .create k a =>
      match d.create k a with
      | .ok _ d => .ok () d
      | .thrown e d => .thrown e d
  | .modify k i f => d.modify k i f
  | .remove k i => d.remove k i

def calls : List (Call S) → Database S → Outcome S Unit
  | [], d => .ok () d
  | c :: cs, d =>
      match d.call c with
      | .ok _ d => calls cs d
      | .thrown e d => .thrown e d

end Database

section Calls

variable {S : Schema} {d d' : Database S}

/-- What a call that succeeds leaves alone. -/
structure SameSession (d d' : Database S) : Prop where
  disabled : d'.disabled = d.disabled
  active : d'.activeSessions = d.activeSessions
  maxSize : d'.maxSize = d.maxSize

theorem SameSession.trans {d'' : Database S} (h : SameSession d d') (h' : SameSession d' d'') :
    SameSession d d'' :=
  ⟨h'.1.trans h.1, h'.2.trans h.2, h'.3.trans h.3⟩

/-- A call that succeeds changes the top of the stack so that it still leads back to `base`. -/
theorem call_undoes {c : Call S} (h : d.call c = .ok () d') (hd : d.disabled = false)
    {u : UndoState S} {us : List (UndoState S)} {base : Store S} (hst : d.stack = u :: us)
    (hu : Undoes u d.store base) :
    SameSession d d' ∧ ∃ u', d'.stack = u' :: us ∧ Undoes u' d'.store base := by
  cases c with
  | create k a =>
    simp only [Database.call] at h
    split at h
    · rename_i i d₁ hc
      cases h
      obtain ⟨_, hg, hf, rfl⟩ := create_ok hc
      subst_vars
      refine ⟨⟨by simp, by simp, by simp⟩, u.upd k fun w => w.onCreate (d.store.nextId k),
        by simp [Database.onTop, hd, hst], ?_⟩
      rw [onTop_store]
      exact undoes_create hu hg hf
    · cases h
  | modify k i f =>
    obtain ⟨a, b, hg, _, hf, _, rfl⟩ := modify_ok h
    exact ⟨⟨by simp, by simp, by simp⟩, _, onTop_stack d k _ hd hst, undoes_modify hu hg hf⟩
  | remove k i =>
    obtain ⟨a, hg, rfl⟩ := remove_ok h
    exact ⟨⟨by simp, by simp, by simp⟩, _, onTop_stack d k _ hd hst, undoes_remove hu hg⟩

theorem calls_undoes {cs : List (Call S)} (h : d.calls cs = .ok () d')
    (hd : d.disabled = false) {u : UndoState S} {us : List (UndoState S)} {base : Store S}
    (hst : d.stack = u :: us) (hu : Undoes u d.store base) :
    SameSession d d' ∧ ∃ u', d'.stack = u' :: us ∧ Undoes u' d'.store base := by
  induction cs generalizing d u with
  | nil =>
    cases h
    exact ⟨⟨rfl, rfl, rfl⟩, u, hst, hu⟩
  | cons c cs ih =>
    simp only [Database.calls] at h
    split at h
    · rename_i d₁ hc
      obtain ⟨hs, u₁, hst₁, hu₁⟩ := call_undoes hc hd hst hu
      obtain ⟨hs', hr⟩ := ih h (hs.disabled.trans hd) hst₁ hu₁
      exact ⟨hs.trans hs', hr⟩
    · cases h

end Calls

/-! ## 2. Undo is exact -/

/-- No unique key held by an object of `base` is held by a different object of `cur`. -/
def NoClash {S : Schema} (base cur : Store S) : Prop :=
  ∀ k i j a b, i ≠ j → base.get k i = some a → cur.get k j = some b → S.clashes k a b = false

theorem noClash_iff {S : Schema} {base cur : Store S} : NoClash base cur ↔
    ∀ k ∈ S.kinds, ∀ p ∈ base.rows k, ∀ q ∈ cur.rows k, p.1 = q.1 ∨
      S.clashes k p.2 q.2 = false := by
  constructor
  · rintro h k _ ⟨i, a⟩ hp ⟨j, b⟩ hq
    by_cases e : i = j
    · exact Or.inl e
    · exact Or.inr (h k i j a b e (FMap.mem_rows.mp hp) (FMap.mem_rows.mp hq))
  · intro h k i j a b hij ha hb
    exact (h k (S.mem_kinds k) (i, a) (FMap.mem_rows.mpr ha) (j, b)
      (FMap.mem_rows.mpr hb)).resolve_left hij

instance {S : Schema} (base cur : Store S) : Decidable (NoClash base cur) :=
  decidable_of_iff _ noClash_iff.symm

theorem noTakeover_iff {S : Schema} {base cur : Store S} : NoTakeover base cur ↔
    ∀ k ∈ S.kinds, ∀ p ∈ base.rows k, ∀ q ∈ cur.rows k, p.1 = q.1 ∨
      cur.get k p.1 = none ∨ S.clashes k p.2 q.2 = false := by
  constructor
  · rintro h k _ ⟨i, a⟩ hp ⟨j, b⟩ hq
    by_cases e : i = j
    · exact Or.inl e
    · cases hg : cur.get k i with
      | none => exact Or.inr (Or.inl rfl)
      | some c =>
        exact Or.inr (Or.inr (h k i j a b e (FMap.mem_rows.mp hp) (by simp [hg])
          (FMap.mem_rows.mp hq)))
  · intro h k i j a b hij ha hi hb
    rcases h k (S.mem_kinds k) (i, a) (FMap.mem_rows.mpr ha) (j, b) (FMap.mem_rows.mpr hb)
      with e | e | e
    · exact absurd e hij
    · simp only at e
      rw [e] at hi
      cases hi
    · exact e

instance {S : Schema} (base cur : Store S) : Decidable (NoTakeover base cur) :=
  haveI (k : S.Kind) (i : Nat) : Decidable (cur.get k i = none) :=
    decidable_of_iff _ Option.isNone_iff_eq_none
  decidable_of_iff _ noTakeover_iff.symm

theorem NoClash.noTakeover {S : Schema} {base cur : Store S} (h : NoClash base cur) :
    NoTakeover base cur := fun k i j a b hij ha _ hb => h k i j a b hij ha hb

/-- **Undo is exact.** After calls that succeed under a session, undo() of the session restores
the store it started with, and so do commit() and pop_commit() when no other session is active.
The rest of the undo stack is what the start of the session left of it. -/
theorem undo_exact {S : Schema} (d : Database S) (force : Bool)
    (hd : d.disabled = false ∨ force = true) (cs : List (Call S)) (d₁ : Database S)
    (hrun : (d.startUndoSession force).2.calls cs = .ok () d₁) (hc : NoClash d.store d₁.store) :
    (∃ d₂, d₁.undo = .ok () d₂ ∧ d₂.store = d.store ∧ d₂.stack = d.stack.take d.maxSize ∧
      d₂.activeSessions = d.activeSessions ∧ d₂.disabled = false) ∧
    (d.activeSessions = 0 → ∃ d₂ d₃, d₁.commit = .ok () d₂ ∧ d₂.popCommit = .ok () d₃ ∧
      d₃.store = d.store ∧ d₃.stack = d.stack.take d.maxSize ∧ d₃.activeSessions = 0) := by
  have hs : (d.startUndoSession force).2 =
      { d with
        disabled := false
        stack := UndoState.empty :: d.stack.take d.maxSize
        activeSessions := d.activeSessions + 1 } := by
    unfold Database.startUndoSession
    rcases hd with h | h
    · cases force <;> simp [h]
    · simp [h]
  rw [hs] at hrun
  obtain ⟨hsame, u, hst, hu⟩ := calls_undoes hrun rfl rfl (Undoes.empty d.store)
  have hroll : rollbackStore u d₁.order d₁.store = .ok d.store := rollbackStore_ok hu hc.noTakeover
  have hdis : d₁.disabled = false := hsame.disabled
  have hact : d₁.activeSessions = d.activeSessions + 1 := hsame.active
  refine ⟨?_, fun h0 => ?_⟩
  · refine ⟨{ d₁ with store := d.store, stack := d.stack.take d.maxSize, disabled := false,
                      activeSessions := d₁.activeSessions - 1 }, ?_, rfl, rfl, ?_, rfl⟩
    · unfold Database.undo Database.rollbackState
      rw [if_neg (by simp [hdis]), if_neg (by omega)]
      simp only [hst, hroll]
    · show d₁.activeSessions - 1 = d.activeSessions
      omega
  · refine ⟨{ d₁ with activeSessions := d₁.activeSessions - 1 },
      { d₁ with store := d.store, stack := d.stack.take d.maxSize, disabled := false,
                activeSessions := d₁.activeSessions - 1 }, ?_, ?_, rfl, rfl, ?_⟩
    · unfold Database.commit
      rw [if_neg (by omega)]
    · unfold Database.popCommit Database.rollbackState
      rw [if_neg (by simp only; omega), if_neg (by simp [hst])]
      simp only [hst, hroll]
    · show d₁.activeSessions - 1 = 0
      omega

/-! A small database for the examples below: one index, whose objects are their own unique
key. -/

def keyed : Schema where
  Kind := Unit
  decKind := inferInstance
  kinds := [()]
  mem_kinds _ := by simp
  nodup_kinds := by simp
  Obj _ := Nat
  uniqueKey _ := some fun a b : Nat => decide (a = b)
  uniqueKey_comm _ c hc a b := by
    cases hc
    simp only [decide_eq_decide]
    exact eq_comm
  erases _ := true

def keyedEmpty : Database keyed where
  store := { table := fun _ => ⟨0, FMap.empty⟩, unique := by intro _ _ _ _ _ _ h; cases h }
  stack := []
  activeSessions := 0
  disabled := false
  maxSize := 10
  broken := false
  order := ⟨fun l => l, List.Perm.refl⟩

/-- The objects and the next id a call ended with; nothing when it threw. -/
def Outcome.content (o : Outcome keyed Unit) : Option (List (Nat × Nat) × Nat) :=
  match o with
  | .ok _ d => some (d.store.rows (), d.store.nextId ())
  | .thrown _ _ => none

/-- Two objects, with keys 1 and 2. -/
def keyedTwo : Database keyed :=
  (Database.calls [.create () (1 : Nat), .create () (2 : Nat)] keyedEmpty).db

/-- Make, change and remove an object; change another one and then remove it. -/
def keyedCalls : List (Call keyed) :=
  [.create () (3 : Nat), .modify () 2 fun (a : Nat) => .ok (a + 4), .remove () 2,
    .modify () 1 fun (a : Nat) => .ok (a + 9), .remove () 1, .create () (12 : Nat)]

theorem undo_exact_keyedTwo : ∃ d₁ d₂ d₃ d₄,
    (keyedTwo.startUndoSession false).2.calls keyedCalls = .ok () d₁ ∧ d₁.undo = .ok () d₂ ∧
      d₂.store = keyedTwo.store ∧ d₁.commit = .ok () d₃ ∧ d₃.popCommit = .ok () d₄ ∧
      d₄.store = keyedTwo.store := by
  have hrun : (keyedTwo.startUndoSession false).2.calls keyedCalls =
      .ok () ((keyedTwo.startUndoSession false).2.calls keyedCalls).db := rfl
  obtain ⟨⟨d₂, h, hs, -⟩, hpop⟩ :=
    undo_exact keyedTwo false (Or.inl rfl) keyedCalls _ hrun (by decide +kernel)
  obtain ⟨d₃, d₄, hcommit, hpopped, hs', -⟩ := hpop rfl
  exact ⟨_, d₂, d₃, d₄, hrun, h, hs, hcommit, hpopped, hs'⟩

/-! ## 3. Trees of nested sessions -/

/-- What is done under a session: calls, and nested sessions that are then merged or undone. -/
inductive Script (S : Schema) where
  | done
  | call (c : Call S) (rest : Script S)
  | session (body : Script S) (merged : Bool) (rest : Script S)

/-- Why a script stopped: a call threw, or the end of a session did. -/
inductive Stop where
  | call (e : Exn)
  | session (e : Exn)

namespace Script

variable {S : Schema}

/-- How deep sessions are nested. -/
def depth : Script S → Nat
  | .done => 0
  | .call _ rest => rest.depth
  | .session body _ rest => max (body.depth + 1) rest.depth

/-- The end of a session. -/
def close (merged : Bool) (d : Database S) : Outcome S Unit := if merged then d.merge else d.undo

def play : Script S → Database S → Except Stop (Database S)
  | .done, d => .ok d
  | .call c rest, d =>
      match d.call c with
      | .ok _ d => rest.play d
      | .thrown e _ => .error (.call e)
  | .session body merged rest, d =>
      match body.play (d.startUndoSession false).2 with
      | .error e => .error e
      | .ok d =>
          match close merged d with
          | .ok _ d => rest.play d
          | .thrown e _ => .error (.session e)

/-- No undone session finds a unique key of an object that outlived it held by another one. -/
def Clean : Script S → Database S → Prop
  | .done, _ => True
  | .call c rest, d =>
      match d.call c with
      | .ok _ d => rest.Clean d
      | .thrown _ _ => True
  | .session body merged rest, d =>
      body.Clean (d.startUndoSession false).2 ∧
        match body.play (d.startUndoSession false).2 with
        | .error _ => True
        | .ok d₁ =>
            (merged = false → NoTakeover d.store d₁.store) ∧
              match close merged d₁ with
              | .ok _ d => rest.Clean d
              | .thrown _ _ => True

instance decidableClean : (script : Script S) → (d : Database S) → Decidable (script.Clean d)
  | .done, _ => .isTrue trivial
  | .call c rest, d => by
      unfold Clean
      exact
        match d.call c with
        | .ok _ d => decidableClean rest d
        | .thrown _ _ => .isTrue trivial
  | .session body merged rest, d => by
      unfold Clean
      exact @instDecidableAnd _ _ (decidableClean body _)
        (match body.play (d.startUndoSession false).2 with
        | .error _ => .isTrue trivial
        | .ok d₁ => @instDecidableAnd _ _ inferInstance
            (match close merged d₁ with
            | .ok _ d => decidableClean rest d
            | .thrown _ _ => .isTrue trivial))

end Script

section Nested

variable {S : Schema} {d d' : Database S}

/-- Nothing is tracked besides the snapshots. -/
theorem anything_tracked : Tracked fun _ _ : Store S => True :=
  ⟨fun _ => trivial, fun _ _ _ _ => trivial⟩

theorem call_keeps {c : Call S} (h : d.call c = .ok () d') {n : Nat} :
    Keeps (fun _ _ => True) n d d' := by
  cases c with
  | create k a =>
    simp only [Database.call] at h
    split at h
    · rename_i hc
      cases h
      exact create_keeps hc fun _ _ _ _ => trivial
    · cases h
  | modify k i f => exact modify_keeps h fun _ _ _ _ => trivial
  | remove k i => exact remove_keeps h fun _ _ _ _ => trivial

theorem calls_keeps {cs : List (Call S)} (h : d.calls cs = .ok () d') {n : Nat} :
    Keeps (fun _ _ => True) n d d' := by
  induction cs generalizing d with
  | nil =>
    cases h
    exact Keeps.refl _
  | cons c cs ih =>
    simp only [Database.calls] at h
    split at h
    · rename_i hc
      exact (call_keeps hc).trans (ih h)
    · cases h

/-- **A script never fails at the end of a session**, and what it has done under its own session
can be undone. -/
theorem play_keeps (script : Script S) : ∀ {d : Database S} {snaps : List (Store S)},
    d.disabled = false → script.depth ≤ d.maxSize → snaps ≠ [] →
    Rewinds (fun _ _ => True) d.stack d.store snaps → script.Clean d →
    (∀ e, script.play d ≠ .error (.session e)) ∧
      ∀ d', script.play d = .ok d' → Keeps (fun _ _ => True) script.depth d d' := by
  induction script with
  | done =>
    intro d snaps _ _ _ _ _
    refine ⟨fun e h => ?_, fun d' h => ?_⟩
    · cases h
    · cases h
      exact Keeps.refl d
  | call c rest ih =>
    intro d snaps hd hn hne hr hcl
    simp only [Script.play]
    cases hc : d.call c with
    | thrown e d₁ =>
      refine ⟨fun e h => ?_, fun d' h => ?_⟩
      · cases h
      · cases h
    | ok v d₁ =>
      have hk : Keeps (fun _ _ => True) rest.depth d d₁ := call_keeps hc
      obtain ⟨hd1, _, hm1, m, hm, hr1⟩ := hk hd hn snaps hne hr
      simp only [Script.Clean, hc] at hcl
      obtain ⟨h1, h2⟩ := ih hd1 (hm1.symm ▸ hn) (take_ne_nil hne hn hm) hr1 hcl
      exact ⟨h1, fun d' h => hk.trans (h2 d' h)⟩
  | session body merged rest ihb ihr =>
    intro d snaps hd hn hne hr hcl
    obtain ⟨hclb, hclr⟩ := hcl
    simp only [Script.depth] at hn
    have hr0 := startUndoSession_rewinds anything_tracked hr (hr.fresh hne)
    have hst := startUndoSession_eq (d := d) false hd
    obtain ⟨hb1, hb2⟩ := ihb (d := (d.startUndoSession false).2)
      (by rw [hst]; exact hd) (by rw [hst]; simp only; omega)
      (List.cons_ne_nil d.store (snaps.take d.maxSize)) (by rw [hst]; exact hr0) hclb
    simp only [Script.play]
    cases hp : body.play (d.startUndoSession false).2 with
    | error e =>
      refine ⟨fun e' h => ?_, fun d' h => ?_⟩
      · cases h
        exact hb1 e' hp
      · cases h
    | ok d₁ =>
      have hk := hb2 d₁ hp
      simp only [hp] at hclr
      obtain ⟨hc1, hc2⟩ := hclr
      obtain ⟨hd1, ha1, hm1, m, hpos, hm, hr1⟩ :=
        hk.session anything_tracked hd (by omega) hne hr
      -- the end of the session succeeds
      have hclose : ∃ d₂, Script.close merged d₁ = .ok () d₂ ∧
          Keeps (fun _ _ => True) (body.depth + 1) d d₂ := by
        cases merged with
        | true =>
          cases hs : snaps.take m with
          | nil => exact absurd hs (take_ne_nil hne (Nat.le_refl 0) (by omega))
          | cons base more =>
            rw [hs] at hr1
            obtain ⟨us, _, e⟩ := merge_ok anything_tracked (by omega) hr1
            exact ⟨_, e, hk.merged anything_tracked e⟩
        | false =>
          obtain ⟨us, _, _, e⟩ := undo_ok hd1 (by omega) hr1 (hc1 rfl)
          exact ⟨_, e, hk.undone anything_tracked e (hc1 rfl)⟩
      obtain ⟨d₂, e, hk2⟩ := hclose
      simp only [e] at hc2 ⊢
      have hk3 : Keeps (fun _ _ => True) (max (body.depth + 1) rest.depth) d d₂ :=
        hk2.mono (Nat.le_max_left _ _)
      obtain ⟨hd2, _, hm2, m2, hm2', hr2⟩ := hk3 hd hn snaps hne hr
      obtain ⟨h1, h2⟩ := ihr hd2 (by omega) (take_ne_nil hne hn hm2') hr2 hc2
      exact ⟨h1, fun d' h => hk3.trans ((h2 d' h).mono (Nat.le_max_right _ _))⟩

/-- **Merging composes.** Let a session `A` be started in `d`. When a nested session `B` has
seen calls of its own, merging `B` and undoing `A` gives the store that undoing `B` and then `A`
gives; and after any tree of nested sessions, each merged or undone, `A` can be undone. -/
theorem merge_composes (d : Database S) (hd : d.disabled = false) (hf : d.store.Fresh) :
    (∀ (A B : List (Call S)) (dA dB : Database S), 1 ≤ d.maxSize →
      (d.startUndoSession false).2.calls A = .ok () dA →
      (dA.startUndoSession false).2.calls B = .ok () dB →
      NoTakeover dA.store dB.store → NoTakeover d.store dA.store → NoTakeover d.store dB.store →
      ∃ dM dMA dU dUA, dB.merge = .ok () dM ∧ dM.undo = .ok () dMA ∧
        dB.undo = .ok () dU ∧ dU.undo = .ok () dUA ∧
        dMA.store = dUA.store ∧ dMA.store = d.store) ∧
    (∀ script : Script S, script.depth ≤ d.maxSize →
      script.Clean (d.startUndoSession false).2 →
      (∀ e, script.play (d.startUndoSession false).2 ≠ .error (.session e)) ∧
        ∀ d₁, script.play (d.startUndoSession false).2 = .ok d₁ →
          NoTakeover d.store d₁.store → ∃ d₂, d₁.undo = .ok () d₂ ∧ d₂.store = d.store) := by
  have hst := startUndoSession_eq (d := d) false hd
  have hr0 : Rewinds (fun _ _ => True) (d.startUndoSession false).2.stack
      (d.startUndoSession false).2.store [d.store] := by
    rw [hst]
    simpa using startUndoSession_rewinds anything_tracked (Rewinds.nil d.stack d.store) hf
  have hd0 : (d.startUndoSession false).2.disabled = false := by rw [hst]; exact hd
  have ha0 : (d.startUndoSession false).2.activeSessions = d.activeSessions + 1 := by rw [hst]
  have hm0 : (d.startUndoSession false).2.maxSize = d.maxSize := by rw [hst]
  refine ⟨?_, fun script hn hcl => ?_⟩
  · intro A B dA dB hmax hA hB hcAB hcA hcB
    obtain ⟨hdA, haA, hmA, m, hm, hrA⟩ :=
      calls_keeps hA (n := 0) hd0 (Nat.zero_le _) _ (by simp) hr0
    have hrA' : Rewinds (fun _ _ => True) dA.stack dA.store [d.store] := by
      rwa [List.take_of_length_le (by simp only [List.length_cons, List.length_nil] at hm ⊢; omega)]
        at hrA
    obtain ⟨hdB, haB, hmB, m', hpos, _, hrB⟩ := (calls_keeps hB (n := 0)).session
      anything_tracked hdA (by omega) (by simp) hrA'
    have hrB' : Rewinds (fun _ _ => True) dB.stack dB.store [dA.store, d.store] := by
      rwa [List.take_of_length_le (by simp only [List.length_cons, List.length_nil]; omega)] at hrB
    obtain ⟨us, hrM, eM⟩ := merge_ok anything_tracked (by omega) hrB'
    obtain ⟨usMA, _, _, eMA⟩ := undo_ok (d := { dB with
      stack := us, activeSessions := dB.activeSessions - 1 }) hdB
      (show 0 < dB.activeSessions - 1 by omega) hrM hcB
    obtain ⟨usU, _, hrU, eU⟩ := undo_ok hdB (by omega) hrB' hcAB
    obtain ⟨usUA, _, _, eUA⟩ := undo_ok (d := { dB with
      store := dA.store, stack := usU, activeSessions := dB.activeSessions - 1 }) hdB
      (show 0 < dB.activeSessions - 1 by omega) hrU hcA
    exact ⟨_, _, _, _, eM, eMA, eU, eUA, rfl, rfl⟩
  · obtain ⟨h1, h2⟩ := play_keeps script hd0 (by omega) (by simp) hr0 hcl
    refine ⟨h1, fun d₁ hp hc => ?_⟩
    obtain ⟨hd1, ha1, _, m, hm, hr1⟩ := h2 d₁ hp hd0 (by omega) _ (by simp) hr0
    have hr1' : Rewinds (fun _ _ => True) d₁.stack d₁.store [d.store] := by
      rwa [List.take_of_length_le (by simp only [List.length_cons, List.length_nil] at hm ⊢; omega)]
        at hr1
    obtain ⟨us, _, _, e⟩ := undo_ok hd1 (by omega) hr1' hc
    exact ⟨_, e, rfl⟩

end Nested

/-- Under a session the first object gets key 5; under a nested one a new object takes over
key 1. -/
def keyedTakeover : Database keyed :=
  (((keyedTwo.startUndoSession false).2.calls [.modify () 0 fun _ => .ok (5 : Nat)]).db
    |>.startUndoSession false).2.calls [.create () (1 : Nat)] |>.db

/-- Undoing one session after the other restores the two objects; undoing the merged session
throws, because the new object is still there when key 1 is to be given back. -/
theorem merge_takeover :
    keyedTakeover.undo.db.undo.content = (Outcome.ok () keyedTwo).content ∧
      keyedTakeover.merge.content = some ([(0, 5), (1, 2), (2, 1)], 3) ∧
      keyedTakeover.merge.db.undo.content = none := by
  decide +kernel

/-- A tree with a merged and an undone session in it. -/
def keyedScript : Script keyed :=
  .call (.modify () 0 fun _ => .ok (5 : Nat))
    (.session (.call (.create () (3 : Nat)) (.call (.remove () 1) .done)) true
      (.session (.call (.modify () 2 fun _ => .ok (4 : Nat)) .done) false .done))

/-- Two halves of one session, each of which touches what the other one does. -/
def keyedHalves : List (Call keyed) × List (Call keyed) :=
  ([.create () (3 : Nat), .modify () 0 fun _ => .ok (7 : Nat)],
    [.remove () 2, .modify () 0 fun (a : Nat) => .ok (a + 1)])

theorem merge_composes_keyedTwo :
    (∃ dA dB dM dMA dU dUA,
      (keyedTwo.startUndoSession false).2.calls keyedHalves.1 = .ok () dA ∧
        (dA.startUndoSession false).2.calls keyedHalves.2 = .ok () dB ∧ dB.merge = .ok () dM ∧
        dM.undo = .ok () dMA ∧ dB.undo = .ok () dU ∧ dU.undo = .ok () dUA ∧
        dMA.store = dUA.store ∧ dMA.store = keyedTwo.store) ∧
      ∃ d₁ d₂, keyedScript.play (keyedTwo.startUndoSession false).2 = .ok d₁ ∧
        d₁.undo = .ok () d₂ ∧ d₂.store = keyedTwo.store := by
  have hfresh : keyedTwo.store.Fresh := by
    intro k i a h
    have hm : ((i, a) : Nat × Nat) ∈ [(0, 1), (1, 2)] := FMap.mem_rows.mpr h
    show i < 2
    rcases List.mem_cons.mp hm with e | e
    · cases e
      decide
    · cases List.mem_singleton.mp e
      decide
  obtain ⟨hhalves, hscripts⟩ := merge_composes keyedTwo rfl hfresh
  constructor
  · obtain ⟨dA, hA⟩ : ∃ dA, (keyedTwo.startUndoSession false).2.calls keyedHalves.1 = .ok () dA :=
      ⟨_, rfl⟩
    obtain ⟨dB, hB⟩ : ∃ dB, (dA.startUndoSession false).2.calls keyedHalves.2 = .ok () dB := by
      cases hA
      exact ⟨_, rfl⟩
    obtain ⟨dM, dMA, dU, dUA, h⟩ := hhalves _ _ dA dB (by decide) hA hB
      (by cases hA; cases hB; decide +kernel) (by cases hA; decide +kernel)
      (by cases hA; cases hB; decide +kernel)
    exact ⟨dA, dB, dM, dMA, dU, dUA, hA, hB, h⟩
  · obtain ⟨d₁, hp⟩ : ∃ d₁, keyedScript.play (keyedTwo.startUndoSession false).2 = .ok d₁ :=
      ⟨_, rfl⟩
    obtain ⟨-, h⟩ := hscripts keyedScript (by decide) (by decide +kernel)
    obtain ⟨d₂, e, hs⟩ := h d₁ hp (by
      cases hp
      decide +kernel)
    exact ⟨d₁, d₂, hp, e, hs⟩

end MuseChain
