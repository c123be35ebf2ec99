/-
  File:      MuseChain/Lib/Ranks.lean
  Subject:   The element at a position of a sorted list, and how many elements reach it.

  * `sub_le_countP_rank`: behind position `k` everything reaches the element there.
  * `countP_rank_lt`: what is greater than that element is reached only behind the position.
  * `rank_eq_iff`: the two numbers that tell whether an element is the one at a position.
  * `exists_head_insertionSort`: the front of a sorted list.
  * `IsFirst R k l first`: the first `k` elements of a list in an order.
-/
import Mathlib.Data.List.Sort
import Mathlib.Order.Basic

namespace MuseChain

namespace Ranks

variable {α : Type} [LinearOrder α] {l s : List α} {k : Nat} {x y : α}

/-- The element that `std::nth_element` puts at position `k`. -/
def rank (l : List α) (k : Nat) : Option α := (l.insertionSort (· ≤ ·))[k]?

theorem exists_rank (h : k < l.length) : ∃ x, rank l k = some x := by
  have hlen : k < (l.insertionSort (· ≤ ·)).length := by
    rw [List.length_insertionSort]
    exact h
  exact ⟨_, List.getElem?_eq_getElem hlen⟩

theorem le_of_mem_drop (hs : s.Pairwise (· ≤ ·)) (h : s[k]? = some x) (hy : y ∈ s.drop k) :
    x ≤ y := by
  obtain ⟨hk, rfl⟩ := List.getElem?_eq_some_iff.mp h
  obtain ⟨i, hi, rfl⟩ := List.mem_iff_getElem.mp hy
  rw [List.getElem_drop]
  obtain rfl | hpos := Nat.eq_zero_or_pos i
  · exact le_rfl
  · exact List.pairwise_iff_getElem.mp hs k (k + i) hk _ (by omega)

theorem le_of_mem_take (hs : s.Pairwise (· ≤ ·)) (h : s[k]? = some x) (hy : y ∈ s.take (k + 1)) :
    y ≤ x := by
  obtain ⟨hk, rfl⟩ := List.getElem?_eq_some_iff.mp h
  obtain ⟨i, hi, rfl⟩ := List.mem_iff_getElem.mp hy
  rw [List.length_take] at hi
  rw [List.getElem_take]
  obtain rfl | hlt := Nat.eq_or_lt_of_le (show i ≤ k by omega)
  · exact le_rfl
  · exact List.pairwise_iff_getElem.mp hs i k _ hk hlt

/-- **Everything from the position on reaches the element.** -/
theorem sub_le_countP_rank (h : rank l k = some x) :
    l.length - k ≤ l.countP fun a => x ≤ a := by
  have hperm : (l.insertionSort (· ≤ ·)).Perm l := List.perm_insertionSort _ _
  have hsorted : (l.insertionSort (· ≤ ·)).Pairwise (· ≤ ·) := List.pairwise_insertionSort _ _
  rw [← hperm.countP_eq, ← hperm.length_eq]
  unfold rank at h
  generalize l.insertionSort (· ≤ ·) = s at h hsorted
  have hdrop : (s.drop k).countP (fun a => x ≤ a) = (s.drop k).length :=
    List.countP_eq_length.mpr fun a ha => decide_eq_true (le_of_mem_drop hsorted h ha)
  calc s.length - k = (s.drop k).countP (fun a => x ≤ a) := by rw [hdrop, List.length_drop]
    _ ≤ s.countP (fun a => x ≤ a) := (List.drop_sublist k s).countP_le

/-- **What is greater is reached only behind the position.** -/
theorem countP_rank_lt (h : rank l k = some x) (hxy : x < y) :
    (l.countP fun a => y ≤ a) < l.length - k := by
  have hperm : (l.insertionSort (· ≤ ·)).Perm l := List.perm_insertionSort _ _
  have hsorted : (l.insertionSort (· ≤ ·)).Pairwise (· ≤ ·) := List.pairwise_insertionSort _ _
  rw [← hperm.countP_eq, ← hperm.length_eq]
  unfold rank at h
  generalize l.insertionSort (· ≤ ·) = s at h hsorted
  obtain ⟨hk, _⟩ := List.getElem?_eq_some_iff.mp h
  have htake : (s.take (k + 1)).countP (fun a => y ≤ a) = 0 := by
    refine List.countP_eq_zero.mpr fun a ha hle => ?_
    exact not_le_of_gt hxy ((of_decide_eq_true hle).trans (le_of_mem_take hsorted h ha))
  have hsplit : (s.take (k + 1) ++ s.drop (k + 1)).countP (fun a => y ≤ a) =
      (s.take (k + 1)).countP (fun a => y ≤ a) + (s.drop (k + 1)).countP fun a => y ≤ a :=
    List.countP_append
  rw [List.take_append_drop, htake, Nat.zero_add] at hsplit
  have hrest : (s.drop (k + 1)).countP (fun a => y ≤ a) ≤ s.length - (k + 1) := by
    rw [← List.length_drop]
    exact List.countP_le_length
  omega

/-- Everything up to the position is at most the element. -/
theorem lt_countP_rank (h : rank l k = some x) : k < l.countP fun a => a ≤ x := by
  have hperm : (l.insertionSort (· ≤ ·)).Perm l := List.perm_insertionSort _ _
  have hsorted : (l.insertionSort (· ≤ ·)).Pairwise (· ≤ ·) := List.pairwise_insertionSort _ _
  rw [← hperm.countP_eq]
  unfold rank at h
  generalize l.insertionSort (· ≤ ·) = s at h hsorted
  obtain ⟨hk, _⟩ := List.getElem?_eq_some_iff.mp h
  have htake : (s.take (k + 1)).countP (fun a => a ≤ x) = (s.take (k + 1)).length :=
    List.countP_eq_length.mpr fun a ha => decide_eq_true (le_of_mem_take hsorted h ha)
  have hle : (s.take (k + 1)).countP (fun a => a ≤ x) ≤ s.countP fun a => a ≤ x :=
    (List.take_sublist _ s).countP_le
  rw [htake, List.length_take] at hle
  omega

/-- **The element at a position is known by the numbers of what is smaller and of what is not
greater.** -/
theorem rank_eq_iff (h : rank l k = some x) :
    x = y ↔ (l.countP fun a => a < y) ≤ k ∧ k < l.countP fun a => a ≤ y := by
  have hfrom := sub_le_countP_rank h
  have hupto := lt_countP_rank h
  have hsplit := List.length_eq_countP_add_countP (fun a => decide (x ≤ a)) (l := l)
  simp only [decide_eq_true_eq, not_le] at hsplit
  have hk : k < l.length := hupto.trans_le List.countP_le_length
  refine ⟨?_, fun ⟨hless, hmore⟩ => ?_⟩
  · rintro rfl
    exact ⟨by omega, hupto⟩
  · rcases lt_trichotomy x y with hxy | hxy | hxy
    · -- too many are smaller than `y`
      have hmono : (l.countP fun a => a ≤ x) ≤ l.countP fun a => a < y :=
        List.countP_mono_left fun a _ ha =>
          decide_eq_true (lt_of_le_of_lt (of_decide_eq_true ha) hxy)
      omega
    · exact hxy
    · have hmono : (l.countP fun a => a ≤ y) ≤ l.countP fun a => a < x :=
        List.countP_mono_left fun a _ ha =>
          decide_eq_true (lt_of_le_of_lt (of_decide_eq_true ha) hxy)
      omega

/-- **The front of a sorted list is not behind anything in it.** -/
theorem exists_head_insertionSort {α : Type} (R : α → α → Prop) [DecidableRel R] [Std.Total R]
    [IsTrans α R] {l : List α} {x : α} (hx : x ∈ l) :
    ∃ y, (l.insertionSort R).head? = some y ∧ y ∈ l ∧ R y x := by
  have hmem := (List.mem_insertionSort R).mpr hx
  have hsorted := List.pairwise_insertionSort R l
  cases he : l.insertionSort R with
  | nil =>
    rw [he] at hmem
    cases hmem
  | cons y rest =>
    rw [he] at hmem hsorted
    refine ⟨y, rfl, (List.mem_insertionSort R).mp (he ▸ List.mem_cons_self), ?_⟩
    rcases List.mem_cons.mp hmem with rfl | hx
    · exact (Std.Total.total x x).elim id id
    · exact (List.pairwise_cons.mp hsorted).1 x hx

/-! ## The first of an order -/

section

variable {α : Type} {R : α → α → Prop} {k : Nat} {l s first : List α}

/-- `first` are the first `k` elements of `l` in the order `R`, or all when there are fewer. -/
def IsFirst (R : α → α → Prop) (k : Nat) (l first : List α) : Prop :=
  first.length = min k l.length ∧ ∃ rest, (first ++ rest).Perm l ∧ (first ++ rest).Pairwise R

/-- **Who is filtered out of a sorted list, and taken from its front, is first.** -/
theorem isFirst_take_filter (hs : s.Pairwise R) (hp : s.Perm l) (p : α → Bool) (k : Nat) :
    IsFirst R k (l.filter p) ((s.filter p).take k) := by
  have hperm : (s.filter p).Perm (l.filter p) := hp.filter p
  refine ⟨?_, (s.filter p).drop k, ?_, ?_⟩
  · rw [List.length_take, hperm.length_eq]
  · rw [List.take_append_drop]
    exact hperm
  · rw [List.take_append_drop]
    exact hs.filter p

end

end Ranks

end MuseChain
