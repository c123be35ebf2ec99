/-
  File:      MuseChain/Db/Runs.lean
  Subject:   Rules for what a program does to the objects, whenever it returns.

  * `Looks x`: no run of `x` changes anything.
  * `Steps R x`: every run of `x` that returns relates the objects before and after by `R`. There
    is one rule per way to build a program; the rules for a preorder are simp lemmas, so that the
    frame of a straight-line program is found by unfolding it.
  * `Obeys L`: every object has become what the law `L` allows for it. `Upholds k P`: what is true
    of every object of one index stays so.
  * `Runs R x`: the same for programs with nested sessions, which are undone when they throw. It
    asks for what undo rests on: no container dropped an object, the undo stack has room for the
    nesting, and the ids in use are below the next ids.
  * `NoCrash why x`: no run of `x` crashes with the words `why`. `Safe why P x`: no run from objects
    of which `P` is true, and `P` stays true.
-/
import MuseChain.Db.Action
import Mathlib.Order.Defs.Unbundled

namespace MuseChain

variable {S : Schema}

/-! ## 1. Looking -/

/-- The program changes nothing, whether it returns or throws. -/
structure Looks {n : Nat} {α : Type} (x : Action S n α) : Prop where
  same : ∀ d, (x.run d).db = d

section

variable {n : Nat} {α β : Type}

@[simp] theorem looks_pure (a : α) : Looks (pure a : Action S n α) := ⟨fun _ => rfl⟩

@[simp] theorem looks_throw (e : Exn) : Looks (Action.throw e : Action S n α) := ⟨fun _ => rfl⟩

@[simp] theorem looks_read (f : Store S → α) : Looks (Action.read f : Action S n α) :=
  ⟨fun _ => rfl⟩

@[simp] theorem looks_rows (k : S.Kind) :
    Looks (Action.rows k : Action S n (List (Nat × S.Obj k))) := looks_read _

@[simp] theorem looks_get (k : S.Kind) (i : Nat) :
    Looks (Action.get k i : Action S n (S.Obj k)) := by
  refine ⟨fun d => ?_⟩
  simp only [Action.get]
  split
  · rfl
  · rfl

@[simp] theorem looks_require (c : Prop) [Decidable c] (msg : String) :
    Looks (Action.require c msg : Action S n Unit) := by
  unfold Action.require
  split
  · exact looks_pure ()
  · exact looks_throw _

@[simp] theorem looks_lift (x : Except Exn α) : Looks (Action.lift x : Action S n α) := by
  cases x with
  | ok a => exact looks_pure a
  | error e => exact looks_throw e

@[simp] theorem looks_bind {x : Action S n α} {f : α → Action S n β} (hx : Looks x)
    (hf : ∀ a, Looks (f a)) : Looks (x >>= f) := by
  refine ⟨fun d => ?_⟩
  have h := hx.same d
  show ((Action.andThen x f).run d).db = d
  simp only [Action.andThen]
  cases hr : x.run d with
  | ok a d₁ =>
    rw [hr] at h
    exact ((hf a).same d₁).trans h
  | thrown e d₁ =>
    rw [hr] at h
    exact h

@[simp] theorem looks_ite {c : Prop} [Decidable c] {x y : Action S n α} (hx : c → Looks x)
    (hy : ¬c → Looks y) : Looks (if c then x else y) := by
  split
  · exact hx ‹_›
  · exact hy ‹_›

@[simp] theorem looks_forEach {l : List β} {f : β → Action S n Unit} (h : ∀ b, Looks (f b)) :
    Looks (Action.forEach l f) := by
  induction l with
  | nil => exact looks_pure ()
  | cons b l ih => exact looks_bind (h b) fun _ => ih

@[simp] theorem looks_foldEach {l : List β} {f : α → β → Action S n α}
    (h : ∀ a b, Looks (f a b)) (a : α) : Looks (Action.foldEach l a f) := by
  induction l generalizing a with
  | nil => exact looks_pure a
  | cons b l ih => exact looks_bind (h a b) fun a => ih a

theorem Looks.of_ok {x : Action S n α} (h : Looks x) {d d' : Database S} {a : α}
    (hr : x.run d = .ok a d') : d' = d := by
  have hd := h.same d
  rw [hr] at hd
  exact hd

end

/-! ## 2. Steps -/

/-- Every run of `x` that returns relates the objects before and after it. -/
structure Steps {n : Nat} {α : Type} (R : Store S → Store S → Prop) (x : Action S n α) :
    Prop where
  step : ∀ {d a d'}, x.run d = .ok a d' → R d.store d'.store

section

variable {n : Nat} {α β : Type} {R R' R'' : Store S → Store S → Prop}

theorem Steps.mono {x : Action S n α} (h : Steps R x) (hR : ∀ s t, R s t → R' s t) :
    Steps R' x := ⟨fun e => hR _ _ (h.step e)⟩

/-- The rule of composition. -/
theorem Steps.comp {x : Action S n α} {f : α → Action S n β} (hx : Steps R x)
    (hf : ∀ a, Steps R' (f a)) (hc : ∀ s t u, R s t → R' t u → R'' s u) :
    Steps R'' (x >>= f) := by
  refine ⟨fun {d b d'} h => ?_⟩
  obtain ⟨a, d₁, h1, h2⟩ := Action.bind_ok.mp h
  exact hc _ _ _ (hx.step h1) ((hf a).step h2)

theorem steps_throw (e : Exn) : Steps R (Action.throw e : Action S n α) := by
  refine ⟨fun {d a d'} h => ?_⟩
  cases h

@[simp] theorem steps_throw_iff (e : Exn) : Steps R (Action.throw e : Action S n α) ↔ True :=
  iff_true_intro (steps_throw e)

/-- What is done after a look. -/
theorem Looks.steps_bind {x : Action S n α} {f : α → Action S n β} (hx : Looks x)
    (hf : ∀ a, Steps R (f a)) : Steps R (x >>= f) := by
  refine ⟨fun {d b d'} h => ?_⟩
  obtain ⟨a, d₁, h1, h2⟩ := Action.bind_ok.mp h
  rw [hx.of_ok h1] at h2
  exact (hf a).step h2

/-! ### Programs that change nothing -/

section

variable [IsPreorder (Store S) R]

theorem Looks.steps {x : Action S n α} (h : Looks x) : Steps R x := by
  refine ⟨fun {d a d'} hr => ?_⟩
  rw [h.of_ok hr]
  exact refl_of R d.store

@[simp] theorem steps_of_looks {x : Action S n α} (h : Looks x) : Steps R x := h.steps

end

/-! ### Composition -/

@[simp] theorem steps_ite {c : Prop} [Decidable c] {x y : Action S n α} (hx : c → Steps R x)
    (hy : ¬c → Steps R y) : Steps R (if c then x else y) := by
  split
  · exact hx ‹_›
  · exact hy ‹_›

/-- A value that the program goes on with. -/
theorem steps_bind_lift {x : Except Exn β} {f : β → Action S n α}
    (h : ∀ b, x = .ok b → Steps R (f b)) : Steps R (Action.lift x >>= f) := by
  refine ⟨fun {d a d'} hr => ?_⟩
  obtain ⟨b, hb, hr⟩ := Action.bind_lift_ok.mp hr
  exact (h b hb).step hr

/-- The part of a program after a branch, which all branches share. -/
theorem steps_join {jp : β → Action S n α} {body : (β → Action S n α) → Action S n α}
    (hjp : ∀ b, Steps R (jp b)) (hbody : ∀ j, (∀ b, Steps R (j b)) → Steps R (body j)) :
    Steps R (have j := jp; body j) := hbody jp hjp

/-- The same, of a value that all branches say something of. -/
theorem steps_join_of {P : β → Prop} {jp : β → Action S n α}
    {body : (β → Action S n α) → Action S n α} (hjp : ∀ b, P b → Steps R (jp b))
    (hbody : ∀ j, (∀ b, P b → Steps R (j b)) → Steps R (body j)) :
    Steps R (have j := jp; body j) := hbody jp hjp

section

variable [IsPreorder (Store S) R]

@[simp] theorem steps_bind {x : Action S n α} {f : α → Action S n β} (hx : Steps R x)
    (hf : ∀ a, Steps R (f a)) : Steps R (x >>= f) :=
  hx.comp hf fun _ _ _ => trans_of R

theorem steps_forEach_mem {l : List β} {f : β → Action S n Unit} (h : ∀ b ∈ l, Steps R (f b)) :
    Steps R (Action.forEach l f) := by
  induction l with
  | nil => exact (looks_pure ()).steps
  | cons b l ih =>
    exact steps_bind (h b List.mem_cons_self) fun _ =>
      ih fun b hb => h b (List.mem_cons_of_mem _ hb)

@[simp] theorem steps_forEach {l : List β} {f : β → Action S n Unit} (h : ∀ b, Steps R (f b)) :
    Steps R (Action.forEach l f) :=
  steps_forEach_mem fun b _ => h b

@[simp] theorem steps_foldEach {l : List β} {f : α → β → Action S n α}
    (h : ∀ a b, Steps R (f a b)) (a : α) : Steps R (Action.foldEach l a f) := by
  induction l generalizing a with
  | nil => exact (looks_pure a).steps
  | cons b l ih => exact steps_bind (h a b) fun a => ih a

end

/-! ### The writes -/

theorem create_store {k : S.Kind} {a : S.Obj k} {d d' : Database S} {i : Nat}
    (h : (Action.create k a : Action S n Nat).run d = .ok i d') :
    i = d.store.nextId k ∧ d.store.get k i = none ∧
      ∃ hf : d.store.free k (d.store.nextId k) a = true,
        d'.store = (d.store.write k (d.store.nextId k) a hf).setNextId k (d.store.nextId k + 1) := by
  obtain ⟨hi, hn, hf, e⟩ := create_ok h
  exact ⟨hi, hn, hf, by rw [e, onTop_store]⟩

theorem modifyWith_store {k : S.Kind} {i : Nat} {f : S.Obj k → Except Exn β}
    {upd : S.Obj k → β → S.Obj k} {hkey : ∀ a b, S.SameKey k a (upd a b)} {d d' : Database S}
    {u : Unit} (h : (Action.modifyWith k i f upd hkey : Action S n Unit).run d = .ok u d') :
    ∃ a v, d.store.get k i = some a ∧ f a = .ok v ∧
      ∃ hf : d.store.free k i (upd a v) = true, d'.store = d.store.write k i (upd a v) hf := by
  obtain ⟨a, b, hg, hb, hf, hs, _⟩ := modify_ok h
  cases hv : f a with
  | error _ =>
    rw [hv] at hb
    cases hb
  | ok v =>
    rw [hv] at hb
    cases hb
    exact ⟨a, v, hg, hv, hf, hs⟩

theorem modify_store {k : S.Kind} {i : Nat} {upd : S.Obj k → S.Obj k}
    {hkey : ∀ a, S.SameKey k a (upd a)} {d d' : Database S} {u : Unit}
    (h : (Action.modify k i upd hkey : Action S n Unit).run d = .ok u d') :
    ∃ a, d.store.get k i = some a ∧
      ∃ hf : d.store.free k i (upd a) = true, d'.store = d.store.write k i (upd a) hf := by
  obtain ⟨a, v, hg, _, hs⟩ := modifyWith_store h
  exact ⟨a, hg, hs⟩

/-- The callback works on the object as it was before the call. -/
theorem modifyNested_store {k : S.Kind} {i : Nat} {body : S.Obj k → Action S n β}
    {upd : S.Obj k → β → S.Obj k} {hkey : ∀ a b, S.SameKey k a (upd a b)} {d d' : Database S}
    {u : Unit} (h : (Action.modifyNested k i body upd hkey).run d = .ok u d') :
    ∃ a v d₀ d₁ a', d.store.get k i = some a ∧ d₀.store = d.store ∧
      (body a).run d₀ = .ok v d₁ ∧ d₁.store.get k i = some a' ∧
      ∃ hf : d₁.store.free k i (upd a' v) = true, d'.store = d₁.store.write k i (upd a' v) hf := by
  simp only [Action.modifyNested] at h
  split at h
  · cases h
  · rename_i a hg
    split at h
    · cases h
    · rename_i v d₁ hb
      obtain ⟨a', v', hg', e, hs⟩ := modifyWith_store h
      cases e
      exact ⟨a, v, _, d₁, a', hg, onTop_store .., hb, hg', hs⟩

theorem remove_store {k : S.Kind} {i : Nat} {d d' : Database S} {u : Unit}
    (h : (Action.remove k i : Action S n Unit).run d = .ok u d') :
    ∃ a, d.store.get k i = some a ∧ d'.store = d.store.erase k i := by
  obtain ⟨a, hg, e⟩ := remove_ok h
  exact ⟨a, hg, by rw [e]⟩

end

/-! ## 3. Laws for single objects -/

/-- What may become of one object of each kind; `none` is an object that is not there. -/
structure Law (S : Schema) where
  rel : (k : S.Kind) → Option (S.Obj k) → Option (S.Obj k) → Prop
  refl : ∀ k o, rel k o o
  trans : ∀ k o p q, rel k o p → rel k p q → rel k o q

/-- Every object has become what the law allows. -/
def Obeys (L : Law S) (s t : Store S) : Prop := ∀ k i, L.rel k (s.get k i) (t.get k i)

section

variable {n : Nat} {α β : Type} {L : Law S}

instance : IsPreorder (Store S) (Obeys L) where
  refl s k i := L.refl k (s.get k i)
  trans _ _ _ h h' k i := L.trans k _ _ _ (h k i) (h' k i)

theorem Obeys.put {s : Store S} {k : S.Kind} {i : Nat} {o : Option (S.Obj k)}
    {hf : ∀ a, o = some a → s.free k i a = true} (h : L.rel k (s.get k i) o) :
    Obeys L s (s.put k i o hf) := by
  intro k' j
  by_cases hk : k' = k
  · subst hk
    rw [Store.get_put_self]
    split
    · rename_i e
      rw [e]
      exact h
    · exact L.refl _ _
  · rw [Store.get_put_ne _ hk]
    exact L.refl _ _

theorem Obeys.setNextId {s t : Store S} {k : S.Kind} {m : Nat} (h : Obeys L s t) :
    Obeys L s (t.setNextId k m) := by
  intro k' i
  rw [Store.get_setNextId]
  exact h k' i

theorem steps_create {k : S.Kind} {a : S.Obj k} (h : L.rel k none (some a)) :
    Steps (Obeys L) (Action.create k a : Action S n Nat) := by
  refine ⟨fun {d i d'} hr => ?_⟩
  obtain ⟨hi, hn, hf, e⟩ := create_store hr
  rw [e]
  refine (Obeys.put ?_).setNextId
  rw [← hi, hn]
  exact h

theorem steps_remove {k : S.Kind} {i : Nat} (h : ∀ a, L.rel k (some a) none) :
    Steps (Obeys L) (Action.remove k i : Action S n Unit) := by
  refine ⟨fun {d _ d'} hr => ?_⟩
  obtain ⟨a, hg, e⟩ := remove_store hr
  rw [e]
  refine Obeys.put ?_
  rw [hg]
  exact h a

theorem obeys_write {s : Store S} {k : S.Kind} {i : Nat} {a b : S.Obj k}
    (hf : s.free k i b = true) (hg : s.get k i = some a) (h : L.rel k (some a) (some b)) :
    Obeys L s (s.write k i b hf) := by
  refine Obeys.put ?_
  rw [hg]
  exact h

theorem steps_modifyWith {k : S.Kind} {i : Nat} {f : S.Obj k → Except Exn β}
    {upd : S.Obj k → β → S.Obj k} {hkey : ∀ a b, S.SameKey k a (upd a b)}
    (h : ∀ a b, L.rel k (some a) (some (upd a b))) :
    Steps (Obeys L) (Action.modifyWith k i f upd hkey : Action S n Unit) := by
  refine ⟨fun {d _ d'} hr => ?_⟩
  obtain ⟨a, b, hg, _, hf, e⟩ := modifyWith_store hr
  rw [e]
  exact obeys_write hf hg (h a b)

theorem steps_modify {k : S.Kind} {i : Nat} {upd : S.Obj k → S.Obj k}
    {hkey : ∀ a, S.SameKey k a (upd a)} (h : ∀ a, L.rel k (some a) (some (upd a))) :
    Steps (Obeys L) (Action.modify k i upd hkey : Action S n Unit) :=
  steps_modifyWith fun a _ => h a

theorem steps_modifyNested {k : S.Kind} {i : Nat} {body : S.Obj k → Action S n β}
    {upd : S.Obj k → β → S.Obj k} {hkey : ∀ a b, S.SameKey k a (upd a b)}
    (hb : ∀ a, Steps (Obeys L) (body a)) (h : ∀ a b, L.rel k (some a) (some (upd a b))) :
    Steps (Obeys L) (Action.modifyNested k i body upd hkey) := by
  refine ⟨fun {d _ d'} hr => ?_⟩
  obtain ⟨a, b, d₀, d₁, a', _, e0, hr1, hg, hf, e⟩ := modifyNested_store hr
  have h1 := (hb a).step hr1
  rw [e0] at h1
  rw [e]
  exact trans_of (Obeys L) h1 (obeys_write hf hg (h a' b))

end

/-! ### One index left alone -/

/-- The objects of one index stay as they are. -/
def Untouched (k : S.Kind) (s t : Store S) : Prop := t.get k = s.get k

section

variable {n : Nat} {α β : Type} {k k' : S.Kind}

instance : IsPreorder (Store S) (Untouched k) where
  refl _ := rfl
  trans _ _ _ h h' := Eq.trans h' h

theorem untouched_put {s : Store S} {i : Nat} {o : Option (S.Obj k')}
    {hf : ∀ a, o = some a → s.free k' i a = true} (h : k ≠ k') :
    Untouched k s (s.put k' i o hf) := funext fun j => Store.get_put_ne s h i j o hf

theorem untouched_create {a : S.Obj k'} (h : k ≠ k') :
    Steps (Untouched k) (Action.create k' a : Action S n Nat) := by
  refine ⟨fun {d i d'} hr => ?_⟩
  obtain ⟨_, _, hf, e⟩ := create_store hr
  rw [e]
  funext j
  rw [Store.get_setNextId]
  exact Store.get_write_ne _ h _ _ _ hf

theorem untouched_modifyWith {i : Nat} {f : S.Obj k' → Except Exn β}
    {upd : S.Obj k' → β → S.Obj k'} {hkey : ∀ a b, S.SameKey k' a (upd a b)} (h : k ≠ k') :
    Steps (Untouched k) (Action.modifyWith k' i f upd hkey : Action S n Unit) := by
  refine ⟨fun {d _ d'} hr => ?_⟩
  obtain ⟨a, b, _, _, hf, e⟩ := modifyWith_store hr
  rw [e]
  exact untouched_put h

theorem untouched_modifyNested {i : Nat} {body : S.Obj k' → Action S n β}
    {upd : S.Obj k' → β → S.Obj k'} {hkey : ∀ a b, S.SameKey k' a (upd a b)} (h : k ≠ k')
    (hb : ∀ a, Steps (Untouched k) (body a)) :
    Steps (Untouched k) (Action.modifyNested k' i body upd hkey) := by
  refine ⟨fun {d _ d'} hr => ?_⟩
  obtain ⟨a, b, d₀, d₁, a', _, e0, hr1, _, hf, e⟩ := modifyNested_store hr
  have h1 := (hb a).step hr1
  rw [e0] at h1
  rw [e]
  exact trans_of (Untouched k) h1 (untouched_put h)

end

/-! ### What is true of all objects of one index -/

/-- What is true of every object of an index stays true of every one. -/
def Upholds (k : S.Kind) (P : S.Obj k → Prop) (s t : Store S) : Prop :=
  (∀ i a, s.get k i = some a → P a) → ∀ i a, t.get k i = some a → P a

section

variable {n : Nat} {β : Type} {k : S.Kind} {P : S.Obj k → Prop}

instance : IsPreorder (Store S) (Upholds k P) where
  refl _ h := h
  trans _ _ _ h h' hs := h' (h hs)

theorem Untouched.upholds {s t : Store S} (h : Untouched k s t) : Upholds k P s t := by
  intro hs i a ha
  rw [show t.get k = s.get k from h] at ha
  exact hs i a ha

theorem upholds_write {s : Store S} {i : Nat} {a : S.Obj k} (hf : s.free k i a = true)
    (h : (∀ i b, s.get k i = some b → P b) → P a) : Upholds k P s (s.write k i a hf) := by
  intro hs j b hb
  rw [Store.get_write_self] at hb
  split at hb
  · obtain rfl := Option.some.inj hb
    exact h hs
  · exact hs j b hb

theorem upholds_create {a : S.Obj k} (h : P a) :
    Steps (Upholds k P) (Action.create k a : Action S n Nat) := by
  refine ⟨fun {d i d'} hr hs j b hb => ?_⟩
  obtain ⟨_, _, hf, e⟩ := create_store hr
  rw [e, Store.get_setNextId] at hb
  exact upholds_write hf (fun _ => h) hs j b hb

theorem upholds_modifyWith {i : Nat} {f : S.Obj k → Except Exn β} {upd : S.Obj k → β → S.Obj k}
    {hkey : ∀ a b, S.SameKey k a (upd a b)} (h : ∀ a b, f a = .ok b → P a → P (upd a b)) :
    Steps (Upholds k P) (Action.modifyWith k i f upd hkey : Action S n Unit) := by
  refine ⟨fun {d _ d'} hr => ?_⟩
  obtain ⟨a, b, hg, hb, hf, e⟩ := modifyWith_store hr
  rw [e]
  exact upholds_write hf fun hs => h a b hb (hs i a hg)

theorem upholds_modify {i : Nat} {upd : S.Obj k → S.Obj k} {hkey : ∀ a, S.SameKey k a (upd a)}
    (h : ∀ a, P a → P (upd a)) :
    Steps (Upholds k P) (Action.modify k i upd hkey : Action S n Unit) :=
  upholds_modifyWith fun a _ _ => h a

end

/-! ## 4. Programs with nested sessions -/

/-- Every run of `x` that returns, with undo in order, relates the objects before and after. -/
structure Runs {n : Nat} {α : Type} (R : Store S → Store S → Prop) (x : Action S n α) :
    Prop where
  step : ∀ {d a d'}, x.run d = .ok a d' → d'.broken = false → n ≤ d.maxSize → d.store.Fresh →
    R d.store d'.store

section

variable {n : Nat} {α β : Type} {R R' R'' : Store S → Store S → Prop}

theorem Steps.runs {x : Action S n α} (h : Steps R x) : Runs R x := ⟨fun hr _ _ _ => h.step hr⟩

theorem Runs.mono {x : Action S n α} (h : Runs R x) (hR : ∀ s t, R s t → R' s t) :
    Runs R' x := ⟨fun e hb hn hf => hR _ _ (h.step e hb hn hf)⟩

theorem Runs.comp {x : Action S n α} {f : α → Action S n β} (hx : Runs R x)
    (hf : ∀ a, Runs R' (f a)) (hc : ∀ s t u, R s t → R' t u → R'' s u) :
    Runs R'' (x >>= f) := by
  refine ⟨fun {d b d'} h hb hn hfr => ?_⟩
  obtain ⟨a, d₁, h1, h2⟩ := Action.bind_ok.mp h
  have hh2 := (f a).holds d₁
  rw [h2, Outcome.db_ok] at hh2
  have hb1 := (hh2 hb).1
  have hh1 := x.holds d
  rw [h1, Outcome.db_ok] at hh1
  have ho := (hh1 hb1).2.2 hn hfr
  exact hc _ _ _ (hx.step h1 hb1 hn hfr) ((hf a).step h2 hb (ho.maxSize ▸ hn) ho.fresh)

theorem Runs.bind [IsPreorder (Store S) R] {x : Action S n α} {f : α → Action S n β}
    (hx : Runs R x) (hf : ∀ a, Runs R (f a)) : Runs R (x >>= f) :=
  hx.comp hf fun _ _ _ => trans_of R

/-- What is done after a look. -/
theorem Looks.runs_bind {x : Action S n α} {f : α → Action S n β} (hx : Looks x)
    (hf : ∀ a, Runs R (f a)) : Runs R (x >>= f) := by
  refine ⟨fun {d b d'} h hb hn hfr => ?_⟩
  obtain ⟨a, d₁, h1, h2⟩ := Action.bind_ok.mp h
  rw [hx.of_ok h1] at h2
  exact (hf a).step h2 hb hn hfr

theorem Runs.and {x : Action S n α} (h : Runs R x) (h' : Steps R' x) :
    Runs (fun s t => R s t ∧ R' s t) x :=
  ⟨fun hr hb hn hf => ⟨h.step hr hb hn hf, h'.step hr⟩⟩

theorem Runs.ite {c : Prop} [Decidable c] {x y : Action S n α} (hx : c → Runs R x)
    (hy : ¬c → Runs R y) : Runs R (if c then x else y) := by
  split
  · exact hx ‹_›
  · exact hy ‹_›

theorem Runs.forEach [IsPreorder (Store S) R] {l : List β} {f : β → Action S n Unit}
    (h : ∀ b ∈ l, Runs R (f b)) : Runs R (Action.forEach l f) := by
  induction l with
  | nil => exact (looks_pure ()).steps.runs
  | cons b l ih =>
    exact Runs.bind (h b List.mem_cons_self) fun _ => ih fun c hc =>
      h c (List.mem_cons_of_mem _ hc)

/-- **A nested session does what its body does.** -/
theorem Runs.nested {x : Action S n α} (h : Runs R x) : Runs R (Action.nested x) := by
  refine ⟨fun {d a d'} hr hb hn hf => ?_⟩
  obtain ⟨d₁, hx, hs, hbr⟩ := Action.nested_ok hr
  have e := Action.startUndoSession_forced d
  have h1 := h.step hx (hbr ▸ hb)
  rw [e] at h1
  rw [hs]
  exact h1 (by simp only; omega) hf

/-- When the program throws what a handler can catch, the objects are as they were. -/
structure Fails (x : Action S n α) : Prop where
  same : ∀ {d e d'}, x.run d = .thrown e d' → (∀ why, e ≠ .crash why) → d'.broken = false →
    n ≤ d.maxSize → d.store.Fresh → d'.store = d.store

theorem Looks.fails {x : Action S n α} (h : Looks x) : Fails x := by
  refine ⟨fun {d e d'} hr _ _ _ _ => ?_⟩
  have hs := h.same d
  rw [hr] at hs
  exact congrArg Database.store hs

theorem Looks.fails_bind {x : Action S n α} {f : α → Action S n β} (h : Looks x)
    (hf : ∀ a, Fails (f a)) : Fails (x >>= f) := by
  refine ⟨fun {d e d'} hr he hb hn hfr => ?_⟩
  change (Action.andThen x f).run d = _ at hr
  have hs := h.same d
  simp only [Action.andThen] at hr
  split at hr
  · rename_i a d₁ hx
    rw [hx] at hs
    obtain rfl : d₁ = d := hs
    exact (hf a).same hr he hb hn hfr
  · rename_i e' d₁ hx
    rw [hx] at hs
    cases hr
    exact congrArg Database.store hs

theorem Fails.bind_pure {x : Action S n α} (h : Fails x) (f : α → β) :
    Fails (x >>= fun a => pure (f a)) := by
  refine ⟨fun {d e d'} hr he hb hn hfr => ?_⟩
  change (Action.andThen x fun a => pure (f a)).run d = _ at hr
  simp only [Action.andThen] at hr
  split at hr
  · cases hr
  · rename_i e' d₁ hx
    cases hr
    exact h.same hx he hb hn hfr

theorem Fails.ite {c : Prop} [Decidable c] {x y : Action S n α} (hx : c → Fails x)
    (hy : ¬c → Fails y) : Fails (if c then x else y) := by
  split
  · exact hx ‹_›
  · exact hy ‹_›

/-- **A nested session that throws has done nothing.** -/
theorem fails_nested (x : Action S n α) : Fails (Action.nested x) :=
  ⟨fun hr _ hb hn hf => Action.nested_thrown hr hb (by omega) hf⟩

/-- A program whose exceptions are handled. -/
theorem Runs.catching [IsPreorder (Store S) R] {x : Action S n α} (h : Runs R x) (hx : Fails x)
    {handler : Exn → Action S n α} (hh : ∀ e, Runs R (handler e)) :
    Runs R (Action.catching x handler) := by
  refine ⟨fun {d a d'} hr hb hn hf => ?_⟩
  simp only [Action.catching] at hr
  split at hr
  · rename_i b d₁ hx
    cases hr
    exact h.step hx hb hn hf
  · cases hr
  · rename_i e d₁ he hr1
    have hh2 := (handler e).holds d₁
    rw [hr, Outcome.db_ok] at hh2
    have hb1 := (hh2 hb).1
    have hs := hx.same hr1 (fun why e' => he why e') hb1 hn hf
    have hh1 := x.holds d
    rw [hr1, Outcome.db_thrown] at hh1
    have ho := (hh1 hb1).2.2 hn hf
    have := (hh e).step hr hb (ho.maxSize ▸ hn) ho.fresh
    rwa [hs] at this

/-! ## 5. Crashes -/

/-- The program does not crash with the words `why`. -/
structure NoCrash (why : String) (x : Action S n α) : Prop where
  never : ∀ d d', x.run d ≠ .thrown (.crash why) d'

section

variable {why : String}

theorem NoCrash.bind {x : Action S n α} {f : α → Action S n β} (hx : NoCrash why x)
    (hf : ∀ a, NoCrash why (f a)) : NoCrash why (x >>= f) := by
  refine ⟨fun d d' hr => ?_⟩
  obtain h | ⟨a, d₁, _, h⟩ := Action.bind_thrown.mp hr
  · exact hx.never d d' h
  · exact (hf a).never d₁ d' h

theorem NoCrash.ite {c : Prop} [Decidable c] {x y : Action S n α} (hx : c → NoCrash why x)
    (hy : ¬c → NoCrash why y) : NoCrash why (if c then x else y) := by
  split
  · exact hx ‹_›
  · exact hy ‹_›

theorem noCrash_pure (a : α) : NoCrash why (pure a : Action S n α) := ⟨fun _ _ => nofun⟩

theorem noCrash_read (f : Store S → α) : NoCrash why (Action.read f : Action S n α) :=
  ⟨fun _ _ => nofun⟩

theorem noCrash_get (k : S.Kind) (i : Nat) :
    NoCrash why (Action.get k i : Action S n (S.Obj k)) := by
  refine ⟨fun d d' hr => ?_⟩
  simp only [Action.get] at hr
  split at hr <;> cases hr

theorem noCrash_lift {x : Except Exn α} (h : x ≠ .error (.crash why)) :
    NoCrash why (Action.lift x : Action S n α) := by
  refine ⟨fun d d' hr => ?_⟩
  cases x with
  | ok a => cases hr
  | error e =>
    cases hr
    exact h rfl

theorem noCrash_require (c : Prop) [Decidable c] (msg : String) :
    NoCrash why (Action.require c msg : Action S n Unit) := by
  unfold Action.require
  exact .ite (fun _ => noCrash_pure ()) fun _ => ⟨fun _ _ => nofun⟩

theorem NoCrash.forEach {l : List β} {f : β → Action S n Unit} (h : ∀ b, NoCrash why (f b)) :
    NoCrash why (Action.forEach l f) := by
  induction l with
  | nil => exact noCrash_pure ()
  | cons b l ih => exact (h b).bind fun _ => ih

/-- A write crashes in the callback, or where the object is missing. -/
theorem noCrash_modifyWith {k : S.Kind} {i : Nat} {f : S.Obj k → Except Exn β}
    {upd : S.Obj k → β → S.Obj k} {hkey : ∀ a b, S.SameKey k a (upd a b)}
    (hwhy : why ≠ "reference to a missing object") (h : ∀ a, f a ≠ .error (.crash why)) :
    NoCrash why (Action.modifyWith k i f upd hkey : Action S n Unit) := by
  refine ⟨fun d d' hr => ?_⟩
  change d.modify k i (fun a => (f a).map (upd a)) = _ at hr
  unfold Database.modify at hr
  split at hr
  · cases hr
    exact hwhy rfl
  · rename_i a _
    dsimp only at hr
    split at hr
    · rename_i e he
      cases hr
      cases hf : f a with
      | ok b =>
        rw [hf] at he
        cases he
      | error e' =>
        rw [hf] at he
        cases he
        exact h a hf
    · split at hr <;> cases hr

/-- A write whose callback does not throw. -/
theorem noCrash_write {k : S.Kind} {i : Nat} {f : S.Obj k → β} {upd : S.Obj k → β → S.Obj k}
    {hkey : ∀ a b, S.SameKey k a (upd a b)} (hwhy : why ≠ "reference to a missing object") :
    NoCrash why (Action.modifyWith k i (fun a => .ok (f a)) upd hkey : Action S n Unit) :=
  noCrash_modifyWith hwhy fun _ => nofun

theorem noCrash_remove {k : S.Kind} {i : Nat} (hwhy : why ≠ "reference to a missing object") :
    NoCrash why (Action.remove k i : Action S n Unit) := by
  refine ⟨fun d d' hr => ?_⟩
  change d.remove k i = _ at hr
  unfold Database.remove at hr
  split at hr
  · cases hr
    exact hwhy rfl
  · cases hr

/-- From the objects of which `P` is true the program does not crash with the words `why`, and `P`
stays true. -/
structure Safe (why : String) (P : Store S → Prop) (x : Action S n α) : Prop where
  never : ∀ {d d'}, P d.store → x.run d ≠ .thrown (.crash why) d'
  keeps : ∀ {d a d'}, P d.store → x.run d = .ok a d' → P d'.store

variable {P : Store S → Prop}

theorem NoCrash.safe {x : Action S n α} (h : NoCrash why x) (hs : Steps R x)
    (hP : ∀ s t, R s t → P s → P t) : Safe why P x :=
  ⟨fun _ => h.never _ _, fun hd hr => hP _ _ (hs.step hr) hd⟩

theorem NoCrash.safe_looks {x : Action S n α} (h : NoCrash why x) (hx : Looks x) : Safe why P x :=
  ⟨fun _ => h.never _ _, fun hd hr => hx.of_ok hr ▸ hd⟩

theorem Safe.bind {x : Action S n α} {f : α → Action S n β} (hx : Safe why P x)
    (hf : ∀ a, Safe why P (f a)) : Safe why P (x >>= f) where
  never hd hr := by
    obtain h | ⟨a, d₁, h1, h2⟩ := Action.bind_thrown.mp hr
    · exact hx.never hd h
    · exact (hf a).never (hx.keeps hd h1) h2
  keeps hd hr := by
    obtain ⟨a, d₁, h1, h2⟩ := Action.bind_ok.mp hr
    exact (hf a).keeps (hx.keeps hd h1) h2

theorem Safe.ite {c : Prop} [Decidable c] {x y : Action S n α} (hx : c → Safe why P x)
    (hy : ¬c → Safe why P y) : Safe why P (if c then x else y) := by
  split
  · exact hx ‹_›
  · exact hy ‹_›

theorem Safe.forEach {l : List β} {f : β → Action S n Unit} (h : ∀ b, Safe why P (f b)) :
    Safe why P (Action.forEach l f) := by
  induction l with
  | nil => exact (noCrash_pure ()).safe_looks (looks_pure ())
  | cons b l ih => exact (h b).bind fun _ => ih

end

end

end MuseChain
