/-
  File:      MuseChain/Lib/Labels.lean
  Subject:   Words made of labels with a dot between any two neighbours.

  An alphabet says which characters may begin a label, end it and stand inside it; the dot is none
  of them. A dotted word is read from its first dot: `dotted_of_not_mem`, `dotted_append`. A label
  is told by its characters one by one (`isLabel_iff`), and a map that keeps the alphabet keeps the
  dotted words (`Dotted.map`).
-/
import Mathlib.Data.List.Basic

namespace MuseChain

/-- A list is split at the first place of `a` in one way only. -/
theorem append_cons_left_inj {α : Type} {a : α} {x y u v : List α} (hx : a ∉ x) (hy : a ∉ y)
    (h : x ++ a :: u = y ++ a :: v) : x = y ∧ u = v := by
  induction x generalizing y with
  | nil =>
    cases y with
    | nil => exact ⟨rfl, List.cons.inj h |>.2⟩
    | cons d y =>
      obtain rfl : a = d := List.cons.inj h |>.1
      exact absurd List.mem_cons_self hy
  | cons c x ih =>
    cases y with
    | nil =>
      obtain rfl : c = a := List.cons.inj h |>.1
      exact absurd List.mem_cons_self hx
    | cons d y =>
      obtain ⟨rfl, htail⟩ := List.cons.inj h
      obtain ⟨rfl, hrest⟩ := ih (List.not_mem_of_not_mem_cons hx)
        (List.not_mem_of_not_mem_cons hy) htail
      exact ⟨rfl, hrest⟩

structure Alphabet (α : Type) where
  dot : α
  first : α → Bool
  inner : α → Bool
  last : α → Bool
  first_dot : first dot = false
  inner_dot : inner dot = false
  last_dot : last dot = false

namespace Alphabet

variable {α β : Type}

/-- A label has at least three characters: the first, the last, and some between them. -/
inductive IsLabel (A : Alphabet α) : List α → Prop
  | mk {c d : α} {mid : List α} (hc : A.first c = true) (hmid : mid ≠ [])
      (hinner : ∀ x ∈ mid, A.inner x = true) (hd : A.last d = true) :
      IsLabel A (c :: (mid ++ [d]))

/-- One or more labels with dots between them. -/
inductive Dotted (A : Alphabet α) : List α → Prop
  | label {l : List α} (hl : A.IsLabel l) : Dotted A l
  | dot {l rest : List α} (hl : A.IsLabel l) (hrest : Dotted A rest) :
      Dotted A (l ++ A.dot :: rest)

/-- A character that may occur in a dotted word. -/
def Letter (A : Alphabet α) (x : α) : Prop :=
  x = A.dot ∨ A.first x = true ∨ A.inner x = true ∨ A.last x = true

variable {A : Alphabet α} {l rest : List α}

theorem IsLabel.dot_not_mem (h : A.IsLabel l) : A.dot ∉ l := by
  obtain ⟨hc, _, hinner, hd⟩ := h
  intro hmem
  rcases List.mem_cons.mp hmem with rfl | hmem
  · rw [A.first_dot] at hc
    cases hc
  · rcases List.mem_append.mp hmem with hmem | hmem
    · have hdot := hinner _ hmem
      rw [A.inner_dot] at hdot
      cases hdot
    · obtain rfl := List.mem_singleton.mp hmem
      rw [A.last_dot] at hd
      cases hd

theorem dotted_of_not_mem (h : A.dot ∉ l) : A.Dotted l ↔ A.IsLabel l := by
  constructor
  · intro hl
    cases hl with
    | label hl => exact hl
    | dot _ _ => exact absurd (List.mem_append_right _ List.mem_cons_self) h
  · exact Dotted.label

/-- What stands before the first dot is the first label. -/
theorem dotted_append (h : A.dot ∉ l) :
    A.Dotted (l ++ A.dot :: rest) ↔ A.IsLabel l ∧ A.Dotted rest := by
  constructor
  · intro hall
    generalize hword : l ++ A.dot :: rest = w at hall
    cases hall with
    | label hw =>
      subst hword
      exact absurd (List.mem_append_right _ List.mem_cons_self) hw.dot_not_mem
    | dot hl hrest =>
      obtain ⟨rfl, rfl⟩ := append_cons_left_inj h hl.dot_not_mem hword
      exact ⟨hl, hrest⟩
  · exact fun hall => Dotted.dot hall.1 hall.2

/-- A label by its places. -/
theorem isLabel_iff : A.IsLabel l ↔ 3 ≤ l.length ∧ (∃ c, l[0]? = some c ∧ A.first c = true) ∧
    (∃ d, l[l.length - 1]? = some d ∧ A.last d = true) ∧
    ∀ i x, 0 < i → i < l.length - 1 → l[i]? = some x → A.inner x = true := by
  constructor
  · rintro ⟨hc, hmid, hinner, hd⟩
    rename_i c d mid
    have hlen : 0 < mid.length := List.length_pos_of_ne_nil hmid
    refine ⟨?_, ⟨c, rfl, hc⟩, ⟨d, ?_, hd⟩, ?_⟩
    · rw [List.length_cons, List.length_append, List.length_singleton]
      omega
    · simp
    · intro i x hpos hi hx
      obtain ⟨j, rfl⟩ := Nat.exists_eq_succ_of_ne_zero (Nat.ne_of_gt hpos)
      rw [List.length_cons, List.length_append, List.length_singleton] at hi
      rw [List.getElem?_cons_succ, List.getElem?_append_left (by omega)] at hx
      exact hinner x (List.mem_of_getElem? hx)
  · rintro ⟨hlen, ⟨c, hc, hfirst⟩, ⟨d, hd, hlast⟩, hinner⟩
    cases l with
    | nil => cases hc
    | cons c' tail =>
      obtain rfl : c' = c := Option.some.inj hc
      rcases List.eq_nil_or_concat tail with rfl | ⟨mid, d', rfl⟩
      · exact absurd hlen (by simp)
      · obtain rfl : d' = d := by simpa using hd
        rw [List.length_cons, List.concat_eq_append, List.length_append,
          List.length_singleton] at hlen hinner
        rw [List.concat_eq_append]
        refine ⟨hfirst, ?_, ?_, hlast⟩
        · exact List.ne_nil_of_length_pos (by omega)
        · intro x hx
          obtain ⟨i, hi, rfl⟩ := List.mem_iff_getElem.mp hx
          refine hinner (i + 1) _ i.succ_pos (by omega) ?_
          rw [List.getElem?_cons_succ, List.getElem?_append_left hi, List.getElem?_eq_getElem hi]

/-- A dotted word is one or more labels joined by dots. -/
theorem dotted_iff_intercalate : A.Dotted l ↔ ∃ labels : List (List α), labels ≠ [] ∧
    l = List.intercalate [A.dot] labels ∧ ∀ x ∈ labels, A.IsLabel x := by
  constructor
  · intro h
    induction h with
    | label hl =>
      refine ⟨[_], List.cons_ne_nil _ _, (List.intercalate_singleton ..).symm, fun x hx => ?_⟩
      obtain rfl := List.mem_singleton.mp hx
      exact hl
    | dot hl _ ih =>
      obtain ⟨labels, hne, rfl, hall⟩ := ih
      refine ⟨_ :: labels, List.cons_ne_nil _ _, ?_, List.forall_mem_cons.mpr ⟨hl, hall⟩⟩
      rw [List.intercalate_cons_of_ne_nil hne]
      simp
  · rintro ⟨labels, hne, rfl, hall⟩
    induction labels with
    | nil => exact absurd rfl hne
    | cons x labels ih =>
      obtain ⟨hx, hrest⟩ := List.forall_mem_cons.mp hall
      cases labels with
      | nil =>
        rw [List.intercalate_singleton]
        exact .label hx
      | cons y labels =>
        rw [List.intercalate_cons_cons]
        have hdot := Dotted.dot hx (ih (List.cons_ne_nil _ _) hrest)
        simpa using hdot

theorem IsLabel.letter (h : A.IsLabel l) : ∀ x ∈ l, A.Letter x := by
  obtain ⟨hc, _, hinner, hd⟩ := h
  intro x hx
  rcases List.mem_cons.mp hx with rfl | hx
  · exact .inr (.inl hc)
  · rcases List.mem_append.mp hx with hx | hx
    · exact .inr (.inr (.inl (hinner x hx)))
    · obtain rfl := List.mem_singleton.mp hx
      exact .inr (.inr (.inr hd))

theorem Dotted.letter (h : A.Dotted l) : ∀ x ∈ l, A.Letter x := by
  induction h with
  | label hl => exact hl.letter
  | dot hl _ ih =>
    intro x hx
    rcases List.mem_append.mp hx with hx | hx
    · exact hl.letter x hx
    · rcases List.mem_cons.mp hx with rfl | hx
      · exact .inl rfl
      · exact ih x hx

/-- `f` carries the characters of `A` to characters of `B` of the same kinds. -/
structure Keeps (A : Alphabet α) (B : Alphabet β) (f : α → β) : Prop where
  dot : f A.dot = B.dot
  first : ∀ x, A.first x = true → B.first (f x) = true
  inner : ∀ x, A.inner x = true → B.inner (f x) = true
  last : ∀ x, A.last x = true → B.last (f x) = true

variable {B : Alphabet β} {f : α → β}

theorem IsLabel.map (hf : Keeps A B f) (h : A.IsLabel l) : B.IsLabel (l.map f) := by
  obtain ⟨hc, hmid, hinner, hd⟩ := h
  rw [List.map_cons, List.map_append]
  refine ⟨hf.first _ hc, mt List.map_eq_nil_iff.mp hmid, ?_, hf.last _ hd⟩
  intro y hy
  obtain ⟨x, hx, rfl⟩ := List.mem_map.mp hy
  exact hf.inner x (hinner x hx)

theorem Dotted.map (hf : Keeps A B f) (h : A.Dotted l) : B.Dotted (l.map f) := by
  induction h with
  | label hl => exact .label (hl.map hf)
  | dot hl _ ih =>
    rw [List.map_append, List.map_cons, hf.dot]
    exact .dot (hl.map hf) ih

end Alphabet

end MuseChain
