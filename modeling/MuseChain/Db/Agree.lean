/-
  File:      MuseChain/Db/Agree.lean
  Subject:   Two programs that do the same in the states that a condition allows.

  The condition `I` is one that steps within the licence keep. There is one rule per way to build
  a program; what the first of two programs returned is known to come from such a state.
-/
import MuseChain.Db.Fence

namespace MuseChain

variable {S : Schema} {n : Nat} {α β : Type}

/-- Steps within the licence keep the condition. -/
def Licence.Keeps (P : Licence S) (I : Store S → Prop) : Prop :=
  ∀ d d' : Database S, Acts P d d' → I d.store → I d'.store

/-- Where `I` holds, the two programs have the same outcome, and they stay within the licence. -/
structure Agree (I : Store S → Prop) (P : Licence S) (x y : Action S n α) : Prop where
  same : ∀ d, I d.store → x.run d = y.run d
  acts : ∀ d, I d.store → Acts P d (x.run d).db

section

variable {I : Store S → Prop} {P : Licence S} {x y : Action S n α}

theorem Within.agree (h : Within P x) : Agree I P x x := ⟨fun _ _ => rfl, fun d _ => h.acts d⟩

theorem Agree.mono {P' : Licence S} (h : Agree I P x y) (hP : P.Le P') : Agree I P' x y :=
  ⟨h.same, fun d hd => (h.acts d hd).mono hP⟩

theorem Agree.bind {f g : α → Action S n β} (hP : P.Keeps I) (hx : Agree I P x y)
    (hf : ∀ d a d₁, I d.store → x.run d = .ok a d₁ → Agree I P (f a) (g a)) :
    Agree I P (x >>= f) (y >>= g) := by
  refine ⟨fun d hd => ?_, fun d hd => acts_bind (hx.acts d hd) fun a d₁ hr => ?_⟩
  · show (Action.andThen x f).run d = (Action.andThen y g).run d
    simp only [Action.andThen, ← hx.same d hd]
    have ha := hx.acts d hd
    cases hr : x.run d with
    | thrown e d₁ => rfl
    | ok a d₁ =>
      rw [hr] at ha
      exact (hf d a d₁ hd hr).same d₁ (hP _ _ ha hd)
  · have ha := hx.acts d hd
    rw [hr] at ha
    exact (hf d a d₁ hd hr).acts d₁ (hP _ _ ha hd)

/-- The same first program on both sides. -/
theorem Agree.after {f g : α → Action S n β} (hP : P.Keeps I) (hx : Within P x)
    (hf : ∀ a, Agree I P (f a) (g a)) : Agree I P (x >>= f) (x >>= g) :=
  hx.agree.bind hP fun _ a _ _ _ => hf a

theorem Agree.ite {c : Prop} [Decidable c] {x' y' : Action S n α} (h : c → Agree I P x y)
    (h' : ¬c → Agree I P x' y') : Agree I P (if c then x else x') (if c then y else y') := by
  split
  · exact h ‹_›
  · exact h' ‹_›

/-- A step that both programs skip or take. -/
theorem Agree.unless {c : Prop} [Decidable c] {x : Action S n Unit} {f g : Unit → Action S n β}
    (hP : P.Keeps I) (hx : Within P x) (hf : Agree I P (f ()) (g ())) :
    Agree I P (if c then f () else x >>= f) (if c then g () else x >>= g) :=
  .ite (fun _ => hf) fun _ => .after hP hx fun _ => hf

theorem Agree.forEach (hP : P.Keeps I) {l : List β} {f g : β → Action S n Unit}
    (h : ∀ b ∈ l, Agree I P (f b) (g b)) :
    Agree I P (Action.forEach l f) (Action.forEach l g) := by
  induction l with
  | nil => exact (looks_pure ()).within.agree
  | cons b l ih =>
    exact (h b List.mem_cons_self).bind hP fun _ _ _ _ _ =>
      ih fun c hc => h c (List.mem_cons_of_mem _ hc)

theorem Agree.catching (hP : P.Keeps I) {handler handler' : Exn → Action S n α}
    (hx : Agree I P x y) (hh : ∀ e, Agree I P (handler e) (handler' e)) :
    Agree I P (Action.catching x handler) (Action.catching y handler') := by
  refine ⟨fun d hd => ?_, fun d hd => acts_catching (hx.acts d hd) fun e d₁ hr => ?_⟩
  · simp only [Action.catching, ← hx.same d hd]
    have ha := hx.acts d hd
    cases hr : x.run d with
    | ok a d₁ => rfl
    | thrown e d₁ =>
      rw [hr] at ha
      cases e with
      | crash why => rfl
      | assert msg => exact (hh _).same d₁ (hP _ _ ha hd)
      | overflow msg => exact (hh _).same d₁ (hP _ _ ha hd)
  · have ha := hx.acts d hd
    rw [hr] at ha
    exact (hh e).acts d₁ (hP _ _ ha hd)

/-- **Sessions around programs that agree agree.** -/
theorem Agree.nested (hx : Agree I P x y) : Agree I P (Action.nested x) (Action.nested y) := by
  have hs : ∀ d : Database S, (d.startUndoSession true).2.store = d.store := fun d =>
    startUndoSession_store d true
  refine ⟨fun d hd => ?_, fun d hd => acts_nested (hx.acts _ ?_)⟩
  · show Action.closeSession (d.startUndoSession true).1 (x.run (d.startUndoSession true).2) =
      Action.closeSession (d.startUndoSession true).1 (y.run (d.startUndoSession true).2)
    rw [hx.same _ (by rw [hs]; exact hd)]
  · rw [hs]
    exact hd

end

end MuseChain
