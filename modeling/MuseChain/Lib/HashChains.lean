/-
  File:      MuseChain/Lib/HashChains.lean
  Subject:   Lists in which every item names the one before it.

  `id a` is the name of an item, `prev a` the name it gives its predecessor; the first item names
  `start`. Where no two different items of two chains have the same name, a common name at one
  position is a common history up to there: `take_eq_of_id_eq`.
-/
import Mathlib.Data.List.Basic

namespace MuseChain

namespace HashChains

variable {α ι : Type}

/-- Every item names the one before it, and the first one `start`. -/
structure IsChain (id prev : α → ι) (start : ι) (l : List α) : Prop where
  first : ∀ a, l[0]? = some a → prev a = start
  next : ∀ k a b, l[k]? = some a → l[k + 1]? = some b → prev b = id a

section

variable {id prev : α → ι} {start : ι} {l l' : List α} {a : α}

theorem isChain_nil : IsChain id prev start [] where
  first _ h := by cases h
  next _ _ _ h := by cases h

/-- The name that the next item has to give. -/
def lastId (id : α → ι) (start : ι) (l : List α) : ι := (l.getLast?.map id).getD start

theorem lastId_snoc : lastId id start (l ++ [a]) = id a := by
  unfold lastId
  rw [List.getLast?_concat]
  rfl

theorem IsChain.snoc (h : IsChain id prev start l) (ha : prev a = lastId id start l) :
    IsChain id prev start (l ++ [a]) where
  first b hb := by
    cases l with
    | nil =>
      cases hb
      exact ha
    | cons c l => exact h.first b hb
  next k b c hb hc := by
    have hk : k + 1 < (l ++ [a]).length := (List.getElem?_eq_some_iff.mp hc).1
    rw [List.length_append, List.length_singleton] at hk
    rw [List.getElem?_append_left (by omega)] at hb
    obtain hlt | hend := Nat.lt_or_ge (k + 1) l.length
    · rw [List.getElem?_append_left hlt] at hc
      exact h.next k b c hb hc
    · have hlen : l.length = k + 1 := by omega
      rw [← hlen, List.getElem?_concat_length] at hc
      cases hc
      rw [ha, lastId, List.getLast?_eq_getElem?, hlen, Nat.add_sub_cancel, hb]
      rfl

/-- **A common name at a position is a common history up to it.** -/
theorem take_eq_of_id_eq {a' : α} {k : Nat} (h : IsChain id prev start l)
    (h' : IsChain id prev start l') (hinj : ∀ b ∈ l, ∀ c ∈ l', id b = id c → b = c)
    (ha : l[k]? = some a) (ha' : l'[k]? = some a') (hid : id a = id a') :
    l.take (k + 1) = l'.take (k + 1) := by
  induction k generalizing a a' with
  | zero =>
    obtain rfl := hinj a (List.mem_of_getElem? ha) a' (List.mem_of_getElem? ha') hid
    rw [List.take_add_one, List.take_add_one, ha, ha', List.take_zero, List.take_zero]
  | succ k ih =>
    obtain rfl := hinj a (List.mem_of_getElem? ha) a' (List.mem_of_getElem? ha') hid
    have hk := (List.getElem?_eq_some_iff.mp ha).1
    have hk' := (List.getElem?_eq_some_iff.mp ha').1
    have hb : l[k]? = some l[k] := List.getElem?_eq_getElem (by omega)
    have hb' : l'[k]? = some l'[k] := List.getElem?_eq_getElem (by omega)
    have hsame : id l[k] = id l'[k] := (h.next k _ a hb ha).symm.trans (h'.next k _ a hb' ha')
    rw [List.take_add_one, ih hb hb' hsame, ha, List.take_add_one (i := k + 1), ha']

end

end HashChains

end MuseChain
