/-
  File:      MuseChain/Lib/Trees.lean
  Subject:   Trees that pair the neighbours of a list level by level.

  `level f l`: every two neighbours joined by `f`, an odd last element carried up. `levelRoot f l`:
  what is left when one element is left. Over trees of its elements the list can be read back from
  the root (`leaves_levelRoot`), and a map that carries one way of joining to another carries the
  roots (`levelRoot_map`). A fold that tells leaves from joins tells all trees apart
  (`Tree.fold_inj`).
-/
import Mathlib.Data.List.Basic
import Mathlib.Tactic.Common

namespace MuseChain

section

variable {α β : Type} (f : α → α → α)

def level : List α → List α
  | a :: b :: rest => f a b :: level rest
  | l => l

theorem length_level : ∀ l : List α, (level f l).length = (l.length + 1) / 2
  | [] => by simp [level]
  | [_] => by simp [level]
  | a :: b :: rest => by
    rw [level, List.length_cons, length_level rest, List.length_cons, List.length_cons]
    omega

/-- The last element left when level after level is joined. -/
def levelRoot : List α → Option α
  | [] => none
  | [a] => some a
  | a :: b :: rest => levelRoot (level f (a :: b :: rest))
termination_by l => l.length
decreasing_by
  rw [length_level, List.length_cons, List.length_cons]
  omega

/-- Joining one more level changes nothing. -/
theorem levelRoot_level : ∀ l : List α, levelRoot f (level f l) = levelRoot f l
  | [] => rfl
  | [_] => rfl
  | a :: b :: rest => (levelRoot.eq_3 f a b rest).symm

theorem levelRoot_isSome (l : List α) (h : l ≠ []) : ∃ a, levelRoot f l = some a := by
  match l, h with
  | [a], _ => exact ⟨a, by rw [levelRoot]⟩
  | a :: b :: rest, _ =>
    have hne : level f (a :: b :: rest) ≠ [] := List.cons_ne_nil _ _
    rw [levelRoot]
    exact levelRoot_isSome _ hne
termination_by l.length
decreasing_by
  rw [length_level, List.length_cons, List.length_cons]
  omega

/-- Two elements behind a list of even length are joined with each other. -/
theorem level_append_two (a b : α) : ∀ l : List α, l.length % 2 = 0 →
    level f (l ++ [a, b]) = level f l ++ [f a b]
  | [], _ => rfl
  | [_], h => by cases h
  | c :: d :: rest, h => by
    have hrest : rest.length % 2 = 0 := by
      rw [List.length_cons, List.length_cons] at h
      omega
    rw [List.cons_append, List.cons_append, level, level, level_append_two a b rest hrest,
      List.cons_append]

/-- One element behind a list of even length is carried up. -/
theorem level_append_one (a : α) : ∀ l : List α, l.length % 2 = 0 →
    level f (l ++ [a]) = level f l ++ [a]
  | [], _ => rfl
  | [_], h => by cases h
  | c :: d :: rest, h => by
    have hrest : rest.length % 2 = 0 := by
      rw [List.length_cons, List.length_cons] at h
      omega
    rw [List.cons_append, List.cons_append, level, level, level_append_one a rest hrest,
      List.cons_append]

variable {f} {g : β → β → β} {h : α → β}

theorem level_map (hf : ∀ a b, h (f a b) = g (h a) (h b)) :
    ∀ l : List α, level g (l.map h) = (level f l).map h
  | [] => rfl
  | [_] => rfl
  | a :: b :: rest => by
    rw [List.map_cons, List.map_cons, level, level, List.map_cons, hf, level_map hf rest]

theorem levelRoot_map (hf : ∀ a b, h (f a b) = g (h a) (h b)) (l : List α) :
    levelRoot g (l.map h) = (levelRoot f l).map h := by
  match l with
  | [] => rw [List.map_nil, levelRoot, levelRoot, Option.map_none]
  | [a] => rw [List.map_cons, List.map_nil, levelRoot, levelRoot, Option.map_some]
  | a :: b :: rest =>
    rw [← levelRoot_level, level_map hf, levelRoot_map hf (level f (a :: b :: rest)),
      levelRoot_level]
termination_by l.length
decreasing_by
  rw [length_level, List.length_cons, List.length_cons]
  omega

end

/-- A binary tree with its values at the leaves. -/
inductive Tree (α : Type) where
  | leaf (a : α)
  | node (left right : Tree α)

namespace Tree

variable {α β : Type}

def leaves : Tree α → List α
  | leaf a => [a]
  | node l r => l.leaves ++ r.leaves

def fold (f : β → β → β) (g : α → β) : Tree α → β
  | leaf a => g a
  | node l r => f (l.fold f g) (r.fold f g)

/-- Two trees with one fold are the same, when nothing is lost at a leaf or a join and no leaf is
    taken for a join. -/
theorem fold_inj {f : β → β → β} {g : α → β} {P : α → Prop}
    (hg : ∀ a b, P a → P b → g a = g b → a = b)
    (hf : ∀ a b c d, f a b = f c d → a = c ∧ b = d) (hgf : ∀ a b c, P a → g a ≠ f b c) :
    ∀ {s t : Tree α}, (∀ a ∈ s.leaves, P a) → (∀ a ∈ t.leaves, P a) →
      s.fold f g = t.fold f g → s = t
  | leaf a, leaf b, hs, ht, h =>
    congrArg leaf (hg a b (hs a List.mem_cons_self) (ht b List.mem_cons_self) h)
  | leaf a, node _ _, hs, _, h => absurd h (hgf a _ _ (hs a List.mem_cons_self))
  | node _ _, leaf b, _, ht, h => absurd h.symm (hgf b _ _ (ht b List.mem_cons_self))
  | node l r, node l' r', hs, ht, h => by
    obtain ⟨hl, hr⟩ := hf _ _ _ _ h
    have hleft := fold_inj hg hf hgf (fun a ha => hs a (List.mem_append_left _ ha))
      (fun a ha => ht a (List.mem_append_left _ ha)) hl
    have hright := fold_inj hg hf hgf (fun a ha => hs a (List.mem_append_right _ ha))
      (fun a ha => ht a (List.mem_append_right _ ha)) hr
    rw [hleft, hright]

theorem flatMap_leaves_level : ∀ l : List (Tree α),
    (level node l).flatMap leaves = l.flatMap leaves
  | [] => rfl
  | [_] => rfl
  | a :: b :: rest => by
    rw [level, List.flatMap_cons, flatMap_leaves_level rest, List.flatMap_cons, List.flatMap_cons,
      leaves, List.append_assoc]

theorem leaves_levelRoot (l : List (Tree α)) {t : Tree α} (h : levelRoot node l = some t) :
    t.leaves = l.flatMap leaves := by
  match l, h with
  | [], h => rw [levelRoot] at h; cases h
  | [a], h =>
    rw [levelRoot] at h
    obtain rfl := Option.some.inj h
    rw [List.flatMap_cons, List.flatMap_nil, List.append_nil]
  | a :: b :: rest, h =>
    rw [levelRoot] at h
    rw [leaves_levelRoot _ h, flatMap_leaves_level]
termination_by l.length
decreasing_by
  rw [length_level, List.length_cons, List.length_cons]
  omega

/-- The tree over a list. -/
def ofList (l : List α) : Option (Tree α) := levelRoot node (l.map leaf)

/-- The list is read back from its tree. -/
theorem leaves_ofList {l : List α} {t : Tree α} (h : ofList l = some t) : t.leaves = l := by
  rw [leaves_levelRoot _ h, List.flatMap_map]
  exact List.flatMap_singleton' l

theorem exists_ofList {l : List α} (h : l ≠ []) : ∃ t, ofList l = some t :=
  levelRoot_isSome node _ (mt List.map_eq_nil_iff.mp h)

/-- Joining the values themselves is folding the tree over them. -/
theorem levelRoot_eq_fold (f : α → α → α) (l : List α) :
    levelRoot f l = (ofList l).map (fold f id) := by
  have hmap := levelRoot_map (f := node) (g := f) (h := fold f id) (fun _ _ => rfl) (l.map leaf)
  rw [List.map_map] at hmap
  rw [ofList, ← hmap]
  exact congrArg _ (List.map_id l).symm

end Tree

end MuseChain
