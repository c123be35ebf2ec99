/-
  File:      MuseChain/Lib/TwoStep.lean
  Subject:   The vertices two steps away in a graph, and what one edge changes.

  * `twoStep G a`: the neighbours of the neighbours of `a`, without `a`.
  * A new edge between `a` and `b`: the neighbours of the one find the other two steps away
    (`mem_twoStep_link_of_ne`), and each of the two finds the neighbours of the other
    (`twoStep_link_left`).
  * An edge that is gone: only its ends and their neighbours notice
    (`twoStep_unlink_of_not_adj`).
-/
import Mathlib.Combinatorics.SimpleGraph.Operations

namespace MuseChain

namespace TwoStep

open SimpleGraph

variable {V : Type} {G : SimpleGraph V} {a b c x : V}

def twoStep (G : SimpleGraph V) (a : V) : Set V := (⋃ f ∈ G.neighborSet a, G.neighborSet f) \ {a}

theorem mem_twoStep : x ∈ twoStep G a ↔ (∃ f, G.Adj a f ∧ G.Adj f x) ∧ x ≠ a := by
  simp [twoStep]

/-! ## 1. A new edge -/

def link (G : SimpleGraph V) (a b : V) : SimpleGraph V := G ⊔ edge a b

theorem link_comm (G : SimpleGraph V) (a b : V) : link G a b = link G b a := by
  unfold link
  rw [edge_comm]

theorem link_adj : (link G a b).Adj c x ↔
    G.Adj c x ∨ (c = a ∧ x = b ∨ c = b ∧ x = a) ∧ c ≠ x := by
  unfold link
  rw [sup_adj, edge_adj]

theorem neighborSet_link_left (h : a ≠ b) :
    (link G a b).neighborSet a = insert b (G.neighborSet a) := by
  ext x
  rw [mem_neighborSet, link_adj, Set.mem_insert_iff, mem_neighborSet]
  constructor
  · rintro (hx | ⟨⟨-, rfl⟩ | ⟨rfl, rfl⟩, hne⟩)
    · exact .inr hx
    · exact .inl rfl
    · exact absurd rfl hne
  · rintro (rfl | hx)
    · exact .inr ⟨.inl ⟨rfl, rfl⟩, h⟩
    · exact .inl hx

theorem neighborSet_link_right (h : a ≠ b) :
    (link G a b).neighborSet b = insert a (G.neighborSet b) := by
  rw [link_comm]
  exact neighborSet_link_left h.symm

theorem neighborSet_link_of_ne (ha : c ≠ a) (hb : c ≠ b) :
    (link G a b).neighborSet c = G.neighborSet c := by
  ext x
  simp [link_adj, ha, hb]

/-- **The ends of a new edge find the neighbours of each other.** -/
theorem twoStep_link_left (h : a ≠ b) :
    twoStep (link G a b) a = (twoStep G a ∪ G.neighborSet b) \ {a} := by
  ext x
  simp only [mem_twoStep, Set.mem_sdiff, Set.mem_union, Set.mem_singleton_iff, mem_neighborSet]
  refine and_congr_left fun hx => ?_
  constructor
  · rintro ⟨f, hf, hfx⟩
    rw [link_adj] at hf hfx
    rcases hf with hf | ⟨⟨-, rfl⟩ | ⟨rfl, rfl⟩, hne⟩
    · rcases hfx with hfx | ⟨⟨rfl, rfl⟩ | ⟨rfl, rfl⟩, -⟩
      · exact .inl ⟨⟨f, hf, hfx⟩, hx⟩
      · exact absurd hf G.irrefl
      · exact absurd rfl hx
    · rcases hfx with hfx | ⟨⟨rfl, -⟩ | ⟨-, rfl⟩, -⟩
      · exact .inr hfx
      · exact absurd rfl h
      · exact absurd rfl hx
    · exact absurd rfl hne
  · rintro (⟨⟨f, hf, hfx⟩, -⟩ | hbx)
    · exact ⟨f, link_adj.mpr (.inl hf), link_adj.mpr (.inl hfx)⟩
    · exact ⟨b, link_adj.mpr (.inr ⟨.inl ⟨rfl, rfl⟩, h⟩), link_adj.mpr (.inl hbx)⟩

theorem twoStep_link_right (h : a ≠ b) :
    twoStep (link G a b) b = (twoStep G b ∪ G.neighborSet a) \ {b} := by
  rw [link_comm]
  exact twoStep_link_left h.symm

/-- **The neighbours of an end of a new edge find the other end.** -/
theorem mem_twoStep_link_of_ne (h : a ≠ b) (ha : c ≠ a) (hb : c ≠ b) :
    x ∈ twoStep (link G a b) c ↔
      x ∈ twoStep G c ∨ (G.Adj b c ∧ x = a) ∨ (G.Adj a c ∧ x = b) := by
  simp only [mem_twoStep]
  constructor
  · rintro ⟨⟨f, hf, hfx⟩, hx⟩
    rw [← mem_neighborSet, neighborSet_link_of_ne ha hb, mem_neighborSet] at hf
    rcases link_adj.mp hfx with hfx | ⟨⟨rfl, rfl⟩ | ⟨rfl, rfl⟩, -⟩
    · exact .inl ⟨⟨f, hf, hfx⟩, hx⟩
    · exact .inr (.inr ⟨hf.symm, rfl⟩)
    · exact .inr (.inl ⟨hf.symm, rfl⟩)
  · rintro (⟨⟨f, hf, hfx⟩, hx⟩ | ⟨hbc, rfl⟩ | ⟨hac, rfl⟩)
    · exact ⟨⟨f, link_adj.mpr (.inl hf), link_adj.mpr (.inl hfx)⟩, hx⟩
    · exact ⟨⟨b, link_adj.mpr (.inl hbc.symm), link_adj.mpr (.inr ⟨.inr ⟨rfl, rfl⟩, h.symm⟩)⟩,
        ha.symm⟩
    · exact ⟨⟨a, link_adj.mpr (.inl hac.symm), link_adj.mpr (.inr ⟨.inl ⟨rfl, rfl⟩, h⟩)⟩, hb.symm⟩

/-! ## 2. An edge less -/

def unlink (G : SimpleGraph V) (a b : V) : SimpleGraph V := G \ edge a b

theorem unlink_comm (G : SimpleGraph V) (a b : V) : unlink G a b = unlink G b a := by
  unfold unlink
  rw [edge_comm]

theorem unlink_adj : (unlink G a b).Adj c x ↔
    G.Adj c x ∧ ¬((c = a ∧ x = b ∨ c = b ∧ x = a) ∧ c ≠ x) := by
  unfold unlink
  rw [sdiff_adj, edge_adj]

theorem unlink_le : unlink G a b ≤ G := sdiff_le

theorem neighborSet_unlink_left (h : a ≠ b) :
    (unlink G a b).neighborSet a = G.neighborSet a \ {b} := by
  ext x
  rw [mem_neighborSet, unlink_adj, Set.mem_sdiff, mem_neighborSet, Set.mem_singleton_iff]
  refine and_congr_right fun _ => ?_
  constructor
  · rintro hn rfl
    exact hn ⟨.inl ⟨rfl, rfl⟩, h⟩
  · rintro hn ⟨⟨-, rfl⟩ | ⟨rfl, -⟩, -⟩
    · exact hn rfl
    · exact h rfl

theorem neighborSet_unlink_right (h : a ≠ b) :
    (unlink G a b).neighborSet b = G.neighborSet b \ {a} := by
  rw [unlink_comm]
  exact neighborSet_unlink_left h.symm

theorem neighborSet_unlink_of_ne (ha : c ≠ a) (hb : c ≠ b) :
    (unlink G a b).neighborSet c = G.neighborSet c := by
  ext x
  simp [unlink_adj, ha, hb]

/-- **Who is not next to an end of the edge does not notice that it is gone.** -/
theorem twoStep_unlink_of_not_adj (ha : c ≠ a) (hb : c ≠ b) (hna : ¬G.Adj a c)
    (hnb : ¬G.Adj b c) : twoStep (unlink G a b) c = twoStep G c := by
  ext x
  simp only [mem_twoStep]
  refine and_congr_left fun _ => exists_congr fun f => ?_
  rw [← mem_neighborSet, neighborSet_unlink_of_ne ha hb, mem_neighborSet]
  refine and_congr_right fun hcf => ?_
  have hfa : f ≠ a := fun e => hna (e ▸ hcf.symm)
  have hfb : f ≠ b := fun e => hnb (e ▸ hcf.symm)
  rw [← mem_neighborSet, neighborSet_unlink_of_ne hfa hfb, mem_neighborSet]

end TwoStep

end MuseChain
