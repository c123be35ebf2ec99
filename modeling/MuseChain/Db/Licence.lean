/-
  File:      MuseChain/Db/Licence.lean
  Subject:   What a program may do to the objects, however it ends.

  * `Licence`: which objects may be made, changed, taken away, and dropped by a `modify` that
    throws.
  * `Acts P d d'`: the database goes from `d` to `d'` by steps that `P` allows, nested sessions
    included: merged or undone, in order or not.
  * `Within P x`: whatever `x` does, it does within `P`. There is one rule per way to build a
    program.
-/
import MuseChain.Db.Runs

namespace MuseChain

variable {S : Schema}

/-! ## 1. Licences -/

/-- What a program may do to the objects of each index. -/
structure Licence (S : Schema) where
  create : (k : S.Kind) → S.Obj k → Prop
  modify : (k : S.Kind) → Nat → S.Obj k → S.Obj k → Prop
  remove : (k : S.Kind) → Nat → S.Obj k → Prop
  /-- The container may drop an object because a `modify` throws. -/
  spoil : S.Kind → Prop

/-- No value that is put back can be refused, or the object may be lost. -/
def Licence.Roomy (P : Licence S) (k : S.Kind) : Prop := P.spoil k ∨ S.uniqueKey k = none

/-- A `modify` that throws does no harm, or the object may be lost. -/
def Licence.Sturdy (P : Licence S) (k : S.Kind) : Prop := P.spoil k ∨ S.erases k = false

/-- The steps that a licence allows. -/
inductive Acts (P : Licence S) : Database S → Database S → Prop
  | refl (d : Database S) : Acts P d d
  | trans {d d₁ d₂ : Database S} : Acts P d d₁ → Acts P d₁ d₂ → Acts P d d₂
  | create (d : Database S) {k : S.Kind} {a : S.Obj k} : P.create k a → Acts P d (d.create k a).db
  | save {d : Database S} {k : S.Kind} {i : Nat} {a : S.Obj k} : P.Roomy k →
      d.store.get k i = some a → Acts P d (d.onTop k fun u => u.onModify i a)
  | write {d : Database S} {k : S.Kind} {i : Nat} {a b : S.Obj k} : d.store.get k i = some a →
      P.modify k i a b → (hf : d.store.free k i b = true) →
      Acts P d { d with store := d.store.write k i b hf }
  | spoil (d : Database S) {k : S.Kind} (i : Nat) : P.spoil k →
      Acts P d { d with store := d.store.erase k i, broken := true }
  | remove {d : Database S} {k : S.Kind} {i : Nat} :
      (∀ a, d.store.get k i = some a → P.remove k i a) → Acts P d (d.remove k i).db
  | merged {d d₁ d₂ : Database S} (exit : Bool) : Acts P (d.startUndoSession true).2 d₁ →
      d₁.merge = .ok () d₂ → Acts P d (if exit then { d₂ with disabled := true } else d₂)
  | dropped {d d₁ : Database S} (exit : Bool) : Acts P (d.startUndoSession true).2 d₁ →
      Acts P d (d₁.dropSession exit)

/-- `P` allows what `P'` allows. -/
structure Licence.Le (P P' : Licence S) : Prop where
  create : ∀ {k a}, P.create k a → P'.create k a
  modify : ∀ {k i a b}, P.modify k i a b → P'.modify k i a b
  remove : ∀ {k i a}, P.remove k i a → P'.remove k i a
  spoil : ∀ {k}, P.spoil k → P'.spoil k

theorem Acts.mono {P P' : Licence S} (hP : P.Le P') {d d' : Database S} (h : Acts P d d') :
    Acts P' d d' := by
  induction h with
  | refl d => exact .refl d
  | trans _ _ ih ih' => exact ih.trans ih'
  | create d h => exact .create d (hP.create h)
  | save hr hg => exact .save (hr.imp_left hP.spoil) hg
  | write hg h hf => exact .write hg (hP.modify h) hf
  | spoil d i h => exact .spoil d i (hP.spoil h)
  | remove h => exact .remove fun a hg => hP.remove (h a hg)
  | merged exit _ hm ih => exact .merged exit ih hm
  | dropped exit _ ih => exact .dropped exit ih

/-! ## 2. Programs -/

/-- Every run of `x` keeps to the licence, whether it returns or throws. -/
structure Within {n : Nat} {α : Type} (P : Licence S) (x : Action S n α) : Prop where
  acts : ∀ d, Acts P d (x.run d).db

section

variable {n : Nat} {α β : Type} {P : Licence S}

theorem Within.mono {P' : Licence S} {x : Action S n α} (h : Within P x) (hP : P.Le P') :
    Within P' x := ⟨fun d => (h.acts d).mono hP⟩

theorem Looks.within {x : Action S n α} (h : Looks x) : Within P x := by
  refine ⟨fun d => ?_⟩
  rw [h.same d]
  exact .refl d

@[simp] theorem within_of_looks {x : Action S n α} (h : Looks x) : Within P x := h.within

/-- One run of a program and of what comes after it. -/
theorem acts_bind {x : Action S n α} {f : α → Action S n β} {d : Database S}
    (hx : Acts P d (x.run d).db)
    (hf : ∀ a d₁, x.run d = .ok a d₁ → Acts P d₁ ((f a).run d₁).db) :
    Acts P d ((x >>= f).run d).db := by
  show Acts P d ((Action.andThen x f).run d).db
  simp only [Action.andThen]
  cases hr : x.run d with
  | ok a d₁ =>
    rw [hr] at hx
    exact hx.trans (hf a d₁ hr)
  | thrown e d₁ =>
    rw [hr] at hx
    exact hx

@[simp] theorem within_bind {x : Action S n α} {f : α → Action S n β} (hx : Within P x)
    (hf : ∀ a, Within P (f a)) : Within P (x >>= f) :=
  ⟨fun d => acts_bind (hx.acts d) fun a d₁ _ => (hf a).acts d₁⟩

@[simp] theorem within_ite {c : Prop} [Decidable c] {x y : Action S n α} (hx : c → Within P x)
    (hy : ¬c → Within P y) : Within P (if c then x else y) := by
  split
  · exact hx ‹_›
  · exact hy ‹_›

@[simp] theorem within_forEach {l : List β} {f : β → Action S n Unit} (h : ∀ b, Within P (f b)) :
    Within P (Action.forEach l f) := by
  induction l with
  | nil => exact (looks_pure ()).within
  | cons b l ih => exact within_bind (h b) fun _ => ih

@[simp] theorem within_foldEach {l : List β} {f : α → β → Action S n α}
    (h : ∀ a b, Within P (f a b)) (a : α) : Within P (Action.foldEach l a f) := by
  induction l generalizing a with
  | nil => exact (looks_pure a).within
  | cons b l ih => exact within_bind (h a b) fun a => ih a

theorem acts_catching {x : Action S n α} {handler : Exn → Action S n α} {d : Database S}
    (hx : Acts P d (x.run d).db)
    (hh : ∀ e d₁, x.run d = .thrown e d₁ → Acts P d₁ ((handler e).run d₁).db) :
    Acts P d ((Action.catching x handler).run d).db := by
  simp only [Action.catching]
  cases hr : x.run d with
  | ok a d₁ =>
    rw [hr] at hx
    exact hx
  | thrown e d₁ =>
    rw [hr] at hx
    cases e with
    | crash why => exact hx
    | assert msg => exact hx.trans (hh _ d₁ hr)
    | overflow msg => exact hx.trans (hh _ d₁ hr)

@[simp] theorem within_catching {x : Action S n α} {handler : Exn → Action S n α}
    (hx : Within P x) (hh : ∀ e, Within P (handler e)) :
    Within P (Action.catching x handler) :=
  ⟨fun d => acts_catching (hx.acts d) fun e d₁ _ => (hh e).acts d₁⟩

theorem within_create {k : S.Kind} {a : S.Obj k} (h : P.create k a) :
    Within P (Action.create k a : Action S n Nat) := ⟨fun d => .create d h⟩

theorem within_remove {k : S.Kind} {i : Nat} (h : ∀ a, P.remove k i a) :
    Within P (Action.remove k i : Action S n Unit) := ⟨fun _ => .remove fun a _ => h a⟩

/-- What is left of an object whose callback threw. -/
theorem acts_dropObject (d : Database S) {k : S.Kind} (i : Nat) (h : P.Sturdy k) :
    Acts P d (Action.dropObject k i d) := by
  unfold Action.dropObject
  split
  · rename_i he
    rcases h with hs | hn
    · exact .spoil d i hs
    · rw [he] at hn
      cases hn
  · exact .refl d

/-- An object that keeps its unique keys has room. -/
theorem free_of_sameKey {s : Store S} {k : S.Kind} {i : Nat} {a b : S.Obj k}
    (hg : s.get k i = some a) (hk : S.SameKey k a b) : s.free k i b = true := by
  refine Store.free_iff.mpr fun j c hj hc => ?_
  rw [← hk c]
  exact s.unique k i j a c (Ne.symm hj) hg hc

theorem within_modifyWith {k : S.Kind} {i : Nat} {f : S.Obj k → Except Exn β}
    {upd : S.Obj k → β → S.Obj k} {hkey : ∀ a b, S.SameKey k a (upd a b)} (hr : P.Roomy k)
    (hs : P.Sturdy k ∨ ∀ a, (f a).isOk = true)
    (h : ∀ a b, f a = .ok b → P.modify k i a (upd a b)) :
    Within P (Action.modifyWith k i f upd hkey : Action S n Unit) := by
  refine ⟨fun d => ?_⟩
  show Acts P d (d.modify k i fun a => (f a).map (upd a)).db
  unfold Database.modify
  cases hg : d.store.get k i with
  | none => exact .refl d
  | some a =>
    have hsave : Acts P d (d.onTop k fun u => u.onModify i a) := .save hr hg
    cases hf : f a with
    | error e =>
      simp only [hf, Except.map]
      rcases hs with hs | hs
      · exact hsave.trans (acts_dropObject _ i hs)
      · have ha := hs a
        rw [hf] at ha
        cases ha
    | ok b =>
      have hg' : (d.onTop k fun u => u.onModify i a).store.get k i = some a := by
        rw [onTop_store]
        exact hg
      have hfree := free_of_sameKey hg' (hkey a b)
      simp only [hf, Except.map, hfree, dite_true]
      exact hsave.trans (.write hg' (h a b hf) hfree)

theorem within_modify {k : S.Kind} {i : Nat} {upd : S.Obj k → S.Obj k}
    {hkey : ∀ a, S.SameKey k a (upd a)} (hr : P.Roomy k) (h : ∀ a, P.modify k i a (upd a)) :
    Within P (Action.modify k i upd hkey : Action S n Unit) :=
  within_modifyWith hr (.inr fun _ => rfl) fun a _ _ => h a

theorem within_modifyNested {k : S.Kind} {i : Nat} {body : S.Obj k → Action S n β}
    {upd : S.Obj k → β → S.Obj k} {hkey : ∀ a b, S.SameKey k a (upd a b)} (hr : P.Roomy k)
    (hs : P.Sturdy k) (hb : ∀ a, Within P (body a)) (h : ∀ a b, P.modify k i a (upd a b)) :
    Within P (Action.modifyNested k i body upd hkey) := by
  refine ⟨fun d => ?_⟩
  simp only [Action.modifyNested]
  cases hg : d.store.get k i with
  | none => exact .refl d
  | some a =>
    have hsave : Acts P d (d.onTop k fun u => u.onModify i a) := .save hr hg
    have hbody := hsave.trans ((hb a).acts _)
    simp only
    cases hx : (body a).run (d.onTop k fun u => u.onModify i a) with
    | thrown e d₁ =>
      rw [hx] at hbody
      exact hbody.trans (acts_dropObject d₁ i hs)
    | ok b d₁ =>
      rw [hx] at hbody
      exact hbody.trans ((within_modifyWith hr (.inl hs) fun a' b' _ => h a' b').acts d₁)

/-- **A session around a program stays within its licence.** -/
theorem acts_nested {x : Action S n α} {d : Database S}
    (hx : Acts P (d.startUndoSession true).2 (x.run (d.startUndoSession true).2).db) :
    Acts P d ((Action.nested x).run d).db := by
  show Acts P d (Action.closeSession (d.startUndoSession true).1
    (x.run (d.startUndoSession true).2)).db
  obtain ⟨a, d₁, d₂, ho, hm, e⟩ | ⟨ex, e⟩ :=
    @Action.closeSession_cases S α (d.startUndoSession true).1 (x.run (d.startUndoSession true).2)
  · rw [e, Outcome.db_ok]
    rw [ho, Outcome.db_ok] at hx
    exact .merged _ hx hm
  · rw [e, Outcome.db_thrown]
    exact .dropped _ hx

end

end MuseChain
