/-
  File:      MuseChain/Lib/Ranges.lean
  Subject:   The elements of a sorted list between two bounds.

  A test that is false at first and true from some place on cuts the list at its first true place
  (`take_findIdx`, `drop_findIdx`); two such tests, one above the other, cut out a range, which is
  what a filter would give (`range_eq_filter`).
-/
import Mathlib.Data.List.Basic
import Mathlib.Tactic.Common

namespace MuseChain

namespace Ranges

variable {α : Type} {p q : α → Bool} {l : List α}

/-- Once true, true to the end. -/
def Rises (p : α → Bool) (l : List α) : Prop := l.Pairwise fun a b => p a = true → p b = true

theorem take_findIdx (h : Rises p l) : l.take (l.findIdx p) = l.filter fun x => !p x := by
  induction l with
  | nil => rfl
  | cons a l ih =>
    obtain ⟨ha, hl⟩ := List.pairwise_cons.mp h
    rw [List.findIdx_cons]
    cases hp : p a with
    | false =>
      rw [List.filter_cons_of_pos (by rw [hp]; rfl), ← ih hl]
      rfl
    | true =>
      have hnone : ∀ x ∈ a :: l, ¬(!p x) = true := by
        intro x hx
        have hpx : p x = true := by
          rcases List.mem_cons.mp hx with rfl | hx
          · exact hp
          · exact ha x hx hp
        rw [hpx]
        exact Bool.false_ne_true
      rw [List.filter_eq_nil_iff.mpr hnone]
      rfl

theorem drop_findIdx (h : Rises p l) : l.drop (l.findIdx p) = l.filter p := by
  induction l with
  | nil => rfl
  | cons a l ih =>
    obtain ⟨ha, hl⟩ := List.pairwise_cons.mp h
    rw [List.findIdx_cons]
    cases hp : p a with
    | false =>
      rw [List.filter_cons_of_neg (by rw [hp]; exact Bool.false_ne_true), ← ih hl]
      rfl
    | true =>
      rw [List.filter_cons_of_pos hp, List.filter_eq_self.mpr fun x hx => ha x hx hp]
      rfl

theorem findIdx_eq_length (h : Rises p l) : l.findIdx p = (l.filter fun x => !p x).length := by
  rw [← take_findIdx h, List.length_take, Nat.min_eq_left List.findIdx_le_length]

/-- What is cut off below the lower test was below the upper one. -/
theorem filter_filter_of_imp (h : ∀ x ∈ l, q x = true → p x = true) :
    (l.filter fun x => !q x).filter (fun x => !p x) = l.filter fun x => !p x := by
  rw [List.filter_filter]
  refine List.filter_congr fun x hx => ?_
  cases hq : q x with
  | false => exact Bool.and_true _
  | true =>
    rw [h x hx hq]
    rfl

theorem findIdx_le (hp : Rises p l) (hq : Rises q l) (h : ∀ x ∈ l, q x = true → p x = true) :
    l.findIdx p ≤ l.findIdx q := by
  rw [findIdx_eq_length hp, findIdx_eq_length hq, ← filter_filter_of_imp h]
  exact List.length_filter_le _ _

/-- **The range between two cuts.** -/
theorem range_eq_filter (hp : Rises p l) (hq : Rises q l)
    (h : ∀ x ∈ l, q x = true → p x = true) :
    (l.take (l.findIdx q)).drop (l.findIdx p) = l.filter fun x => p x && !q x := by
  have hlower : l.findIdx p = (l.filter fun x => !q x).findIdx p := by
    rw [findIdx_eq_length hp, findIdx_eq_length (List.Pairwise.filter _ hp),
      filter_filter_of_imp h]
  rw [take_findIdx hq, hlower, drop_findIdx (List.Pairwise.filter _ hp), List.filter_filter]

end Ranges

end MuseChain
