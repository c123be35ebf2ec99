/-
  File:      MuseChain/Db/Weights.lean
  Subject:   Sums over all objects of a database.

  A weight gives each object a number. The sum over all objects of all indexes changes with a
  write by the new object minus the old one (`weight_put`), whatever the index, and depends only on
  what each entry contributes (`weight_congr`).
-/
import MuseChain.Db.Runs

namespace MuseChain

variable {S : Schema}

/-- A number for every object. -/
abbrev Weight (S : Schema) : Type := (k : S.Kind) → S.Obj k → Int

namespace Store

/-- The sum over all objects. -/
def weight (w : Weight S) (s : Store S) : Int :=
  (S.kinds.map fun k => (s.table k).map.sum (w k)).sum

theorem weight_congr {w : Weight S} {s t : Store S}
    (h : ∀ k i, FMap.part (w k) (s.get k i) = FMap.part (w k) (t.get k i)) :
    s.weight w = t.weight w := by
  unfold weight
  congr 1
  exact List.map_congr_left fun k _ => FMap.sum_congr (h k)

/-- One term of a sum over distinct keys changes. -/
theorem sum_map_update {α : Type} {f g : α → Int} {a : α} {l : List α}
    (hl : l.Nodup) (ha : a ∈ l) (h : ∀ b, b ≠ a → f b = g b) :
    (l.map g).sum = (l.map f).sum - f a + g a := by
  induction l with
  | nil => cases ha
  | cons b l ih =>
    obtain ⟨hb, hl⟩ := List.nodup_cons.mp hl
    simp only [List.map_cons, List.sum_cons]
    by_cases e : b = a
    · subst e
      have hrest : l.map g = l.map f :=
        List.map_congr_left fun c hc => (h c fun e => hb (e ▸ hc)).symm
      rw [hrest]
      ring
    · have hmem : a ∈ l := (List.mem_cons.mp ha).resolve_left fun e' => e e'.symm
      rw [ih hl hmem, h b e]
      ring

/-- **A write changes the sum by the new object minus the old one.** -/
theorem weight_put (w : Weight S) (s : Store S) (k : S.Kind) (i : Nat) (o : Option (S.Obj k))
    (hf : ∀ a, o = some a → s.free k i a = true) :
    (s.put k i o hf).weight w =
      s.weight w - FMap.part (w k) (s.get k i) + FMap.part (w k) o := by
  have hsum : (s.put k i o hf).weight w = s.weight w - (s.table k).map.sum (w k) +
      ((s.put k i o hf).table k).map.sum (w k) := by
    refine sum_map_update S.nodup_kinds (S.mem_kinds k) fun k' hk => ?_
    simp only [put]
    rw [Function.update_of_ne hk]
  rw [hsum]
  simp only [put, Function.update_self, FMap.sum_put]
  unfold get
  omega

theorem weight_write (w : Weight S) (s : Store S) (k : S.Kind) (i : Nat) {a b : S.Obj k}
    (hg : s.get k i = some a) (hf : s.free k i b = true) :
    (s.write k i b hf).weight w = s.weight w - w k a + w k b := by
  unfold write
  rw [weight_put, hg]
  rfl

theorem weight_erase (w : Weight S) (s : Store S) (k : S.Kind) (i : Nat) {a : S.Obj k}
    (hg : s.get k i = some a) : (s.erase k i).weight w = s.weight w - w k a := by
  unfold erase
  rw [weight_put, hg]
  simp

theorem weight_setNextId (w : Weight S) (s : Store S) (k : S.Kind) (n : Nat) :
    (s.setNextId k n).weight w = s.weight w :=
  weight_congr fun k' i => by rw [get_setNextId]

theorem weight_create (w : Weight S) (s : Store S) (k : S.Kind) (i n : Nat) {a : S.Obj k}
    (hg : s.get k i = none) (hf : s.free k i a = true) :
    ((s.write k i a hf).setNextId k n).weight w = s.weight w + w k a := by
  rw [weight_setNextId]
  unfold write
  rw [weight_put, hg]
  simp

end Store

end MuseChain
