/-
  File:      MuseChain/Lib/Records.lean
  Subject:   Files of records of one size, and files that are appended to.

  A file of records is the list of them. A record that is written beyond the end leaves a gap of
  zero records, as a file system does; read with the zero record as the default, a file answers
  every position, and a write changes one answer (`getD_write`). A slice that was read once is
  read again after more was appended (`slice_append`).
-/
import Mathlib.Data.List.Basic
import Mathlib.Order.Nat

namespace MuseChain

namespace Records

variable {α : Type} {zero a : α} {l : List α} {n k : Nat}

/-! ## 1. Records -/

/-- Writes a record at a position. -/
def write (zero : α) (l : List α) (n : Nat) (a : α) : List α :=
  if n < l.length then l.set n a else l ++ List.replicate (n - l.length) zero ++ [a]

theorem getD_set (hn : n < l.length) :
    (l.set n a).getD k zero = if k = n then a else l.getD k zero := by
  rw [List.getD_eq_getElem?_getD, List.getElem?_set, List.getD_eq_getElem?_getD]
  by_cases hk : k = n
  · rw [if_pos hk, if_pos hk.symm, if_pos hn]
    rfl
  · rw [if_neg hk, if_neg (Ne.symm hk)]

theorem getD_write :
    (write zero l n a).getD k zero = if k = n then a else l.getD k zero := by
  unfold write
  split
  · rename_i hn
    exact getD_set hn
  · rename_i hn
    rw [List.getD_eq_getElem?_getD, List.getD_eq_getElem?_getD, List.append_assoc]
    rcases lt_trichotomy k n with hk | rfl | hk
    · rw [if_neg hk.ne]
      by_cases hl : k < l.length
      · rw [List.getElem?_append_left hl]
      · -- in the gap
        rw [List.getElem?_append_right (by omega), List.getElem?_append_left
          (by rw [List.length_replicate]; omega), List.getElem?_replicate_of_lt (by omega),
          List.getElem?_eq_none (by omega)]
        rfl
    · rw [if_pos rfl, List.getElem?_append_right (by omega),
        List.getElem?_append_right (by rw [List.length_replicate]), List.length_replicate,
        Nat.sub_self]
      rfl
    · rw [if_neg hk.ne', List.getElem?_eq_none, List.getElem?_eq_none (by omega)]
      simp only [List.length_append, List.length_replicate, List.length_singleton]
      omega

theorem getD_take : (l.take n).getD k zero = if k < n then l.getD k zero else zero := by
  rw [List.getD_eq_getElem?_getD, List.getElem?_take, List.getD_eq_getElem?_getD]
  split
  · rfl
  · rfl

theorem getD_of_length_le (h : l.length ≤ k) : l.getD k zero = zero := by
  rw [List.getD_eq_getElem?_getD, List.getElem?_eq_none h]
  rfl

theorem getD_of_some (h : l[k]? = some a) : l.getD k zero = a := by
  rw [List.getD_eq_getElem?_getD, h]
  rfl

/-! ## 2. Slices -/

variable {file more data : List α} {pos size : Nat}

/-- What is read from a position on, if the file is long enough. -/
def slice (file : List α) (pos size : Nat) : Option (List α) :=
  if ((file.drop pos).take size).length = size then some ((file.drop pos).take size) else none

@[simp] theorem slice_zero : slice file pos 0 = some [] := by
  unfold slice
  rw [List.take_zero]
  rfl

theorem slice_end : slice (file ++ data) file.length data.length = some data := by
  unfold slice
  rw [List.drop_left, List.take_length, if_pos rfl]

theorem slice_le (h : slice file pos size = some data) (hsize : 0 < size) :
    pos + size ≤ file.length := by
  unfold slice at h
  split at h
  · rename_i hlen
    rw [List.length_take, List.length_drop] at hlen
    omega
  · cases h

theorem slice_append (h : slice file pos size = some data) :
    slice (file ++ more) pos size = some data := by
  rcases Nat.eq_zero_or_pos size with rfl | hsize
  · rw [slice_zero] at h ⊢
    exact h
  · have hle := slice_le h hsize
    have hsame : ((file ++ more).drop pos).take size = (file.drop pos).take size := by
      rw [List.drop_append_of_le_length (by omega), List.take_append_of_le_length]
      rw [List.length_drop]
      omega
    unfold slice at h ⊢
    rw [hsame]
    exact h

end Records

end MuseChain
