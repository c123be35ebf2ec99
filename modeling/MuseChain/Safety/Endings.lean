/-
  File:      MuseChain/Safety/Endings.lean
  Subject:   Programs that return, and what is true when they do.

  `Finishes x d Q`: the program `x` returns from `d`, with objects of which `Q` is true. One rule for
  each way a program may begin; a program that ends is taken apart from the front.
-/
import MuseChain.Safety.Lookups
import MuseChain.Db.Licence

namespace MuseChain

variable {n : Nat} {α β : Type} {d e : Database chainSchema} {Q : Store chainSchema → Prop}

/-- The program returns, with objects of which `Q` is true. -/
def Finishes (x : Act n α) (d : Database chainSchema) (Q : Store chainSchema → Prop) : Prop :=
  ∃ a e, x.run d = .ok a e ∧ Q e.store

theorem finishes_ite {c : Prop} [Decidable c] {x y : Act n α} (hx : c → Finishes x d Q)
    (hy : ¬c → Finishes y d Q) : Finishes (if c then x else y) d Q := by
  split
  · exact hx ‹_›
  · exact hy ‹_›

theorem finishes_pure {a : α} (h : Q d.store) : Finishes (pure a : Act n α) d Q := ⟨a, d, rfl, h⟩

theorem finishes_bind {x : Act n α} {f : α → Act n β} {a : α} (hx : x.run d = .ok a e)
    (hf : Finishes (f a) e Q) : Finishes (x >>= f) d Q := by
  obtain ⟨b, d₂, hr, hQ⟩ := hf
  exact ⟨b, d₂, Action.bind_ok.mpr ⟨a, e, hx, hr⟩, hQ⟩

/-- A step that is taken or not, before the rest. -/
theorem finishes_ite_bind {c : Prop} [Decidable c] {x : Act n Unit} {f : Unit → Act n β}
    {R : Store chainSchema → Prop} (hx : Finishes (if c then x else pure ()) d R)
    (hf : ∀ e, R e.store → Finishes (f ()) e Q) : Finishes (if c then x >>= f else f ()) d Q := by
  obtain ⟨_, e, hr, hR⟩ := hx
  split
  · rename_i hc
    rw [if_pos hc] at hr
    exact finishes_bind hr (hf e hR)
  · rename_i hc
    rw [if_neg hc] at hr
    cases hr
    exact hf d hR

theorem Finishes.bind {x : Act n α} {f : α → Act n β} {R : Store chainSchema → Prop}
    (hx : Finishes x d R) (hf : ∀ a e, R e.store → Finishes (f a) e Q) : Finishes (x >>= f) d Q := by
  obtain ⟨a, e, hr, hR⟩ := hx
  exact finishes_bind hr (hf a e hR)

theorem Finishes.mono {x : Act n α} {R : Store chainSchema → Prop} (hx : Finishes x d R)
    (h : ∀ s, R s → Q s) : Finishes x d Q := by
  obtain ⟨a, e, hr, hR⟩ := hx
  exact ⟨a, e, hr, h _ hR⟩

theorem finishes_require {c : Prop} [Decidable c] {msg : String} {f : Unit → Act n β} (hc : c)
    (hf : Finishes (f ()) d Q) : Finishes (Action.require c msg >>= f) d Q := by
  obtain ⟨b, d₂, hr, hQ⟩ := hf
  exact ⟨b, d₂, Action.bind_require_ok.mpr ⟨hc, hr⟩, hQ⟩

theorem finishes_getObject {k : Kind} {i : Nat} {a : k.Object} {f : k.Object → Act n β}
    (hg : d.store.get k i = some a) (hf : Finishes (f a) d Q) :
    Finishes ((getObject k i : Act n k.Object) >>= f) d Q := by
  obtain ⟨b, d₂, hr, hQ⟩ := hf
  exact ⟨b, d₂, bind_getObject_ok.mpr ⟨a, hg, hr⟩, hQ⟩

theorem finishes_getDgp {p : DynamicGlobalProperty} {f : DynamicGlobalProperty → Act n β}
    (hg : d.store.get Kind.dynamicGlobalProperty 0 = some p) (hf : Finishes (f p) d Q) :
    Finishes ((getDynamicGlobalProperties : Act n DynamicGlobalProperty) >>= f) d Q :=
  finishes_getObject hg hf

theorem finishes_getRow {k : Kind} {p : k.Object → Bool} {msg : String} {f : Nat → Act n β}
    (h : ∃ i a, d.store.get k i = some a ∧ p a = true)
    (hf : ∀ i a, d.store.get k i = some a → p a = true → Finishes (f i) d Q) :
    Finishes ((getRow k p msg : Act n Nat) >>= f) d Q := by
  obtain ⟨i, a, hg, hp⟩ := h
  cases hfind : (d.store.rows k).find? fun r => p r.2 with
  | none => exact absurd hp (List.find?_eq_none.mp hfind (i, a) (FMap.mem_rows.mpr hg))
  | some r =>
    have hmem : d.store.get k r.1 = some r.2 :=
      FMap.mem_rows.mp (List.mem_of_find?_eq_some hfind)
    have hp' : p r.2 = true := List.find?_some (p := fun r : Nat × k.Object => p r.2) hfind
    refine finishes_bind (a := r.1) (e := d) ?_ (hf r.1 r.2 hmem hp')
    unfold getRow
    exact Action.bind_ok.mpr ⟨some r, d, congrArg (Outcome.ok · d) hfind, rfl⟩

theorem finishes_hasHardfork {hardfork : Nat} {f : Bool → Act n β} {p : HardforkProperty}
    (hg : d.store.get Kind.hardforkProperty 0 = some p)
    (hf : Finishes (f (decide (hardfork < p.processedHardforks.length))) d Q) :
    Finishes ((hasHardfork hardfork : Act n Bool) >>= f) d Q :=
  finishes_bind (Action.bind_get_ok.mpr ⟨p, hg, rfl⟩) hf

theorem finishes_passed {hardfork : Nat} {f : Bool → Act n β}
    (hg : ∃ p : HardforkProperty, d.store.get Kind.hardforkProperty 0 = some p)
    (hf : Finishes (f (d.store.passed hardfork)) d Q) :
    Finishes ((hasHardfork hardfork : Act n Bool) >>= f) d Q := by
  obtain ⟨p, hp⟩ := hg
  rw [Store.passed, hp] at hf
  exact finishes_hasHardfork hp hf

theorem finishes_create {k : Kind} {a : k.Object} {f : Nat → Act n β} (hfresh : d.store.Fresh)
    (hfree : d.store.free k (d.store.nextId k) a = true)
    (hf : ∀ e, e.store = (d.store.write k (d.store.nextId k) a hfree).setNextId k
      (d.store.nextId k + 1) → Finishes (f (d.store.nextId k)) e Q) :
    Finishes ((Action.create (S := chainSchema) k a : Act n Nat) >>= f) d Q := by
  have hok : ((Action.create (S := chainSchema) k a : Act n Nat).run d).isOk = true := by
    change (d.create k a).isOk = true
    unfold Database.create
    rw [dif_pos ⟨hfresh.get_none le_rfl, hfree⟩]
    rfl
  obtain ⟨i, hrun⟩ := Outcome.exists_of_isOk hok
  obtain ⟨rfl, _, _, hstore⟩ := create_store hrun
  exact finishes_bind hrun (hf _ hstore)

theorem finishes_modifyWith {k : Kind} {i : Nat} {a : k.Object} {b : β} {f : k.Object → Except Exn β}
    {upd : k.Object → β → k.Object} {hkey : ∀ a b, chainSchema.SameKey k a (upd a b)}
    (hg : d.store.get k i = some a) (hb : f a = .ok b)
    (hQ : ∀ hf, Q (d.store.write k i (upd a b) hf)) :
    Finishes (Action.modifyWith (S := chainSchema) k i f upd hkey : Act n Unit) d Q := by
  have hfree : d.store.free k i (upd a b) = true := free_of_sameKey hg (hkey a b)
  have hok : ((Action.modifyWith (S := chainSchema) k i f upd hkey : Act n Unit).run d).isOk =
      true := by
    change (d.modify k i _).isOk = true
    unfold Database.modify
    simp only [hg, hb, Except.map, onTop_store]
    rw [dif_pos hfree]
    rfl
  obtain ⟨_, hrun⟩ := Outcome.exists_of_isOk hok
  obtain ⟨a', b', hg', hb', hf, hstore⟩ := modifyWith_store hrun
  cases hg.symm.trans hg'
  cases hb.symm.trans hb'
  exact ⟨_, _, hrun, hstore ▸ hQ hf⟩

theorem finishes_remove {k : Kind} {i : Nat} {a : k.Object} (hg : d.store.get k i = some a)
    (hQ : Q (d.store.erase k i)) :
    Finishes (Action.remove (S := chainSchema) k i : Act n Unit) d Q := by
  have hok : ((Action.remove (S := chainSchema) k i : Act n Unit).run d).isOk = true := by
    change (d.remove k i).isOk = true
    unfold Database.remove
    rw [hg]
    rfl
  obtain ⟨_, hrun⟩ := Outcome.exists_of_isOk hok
  obtain ⟨_, _, hstore⟩ := remove_store hrun
  exact ⟨_, _, hrun, hstore ▸ hQ⟩

/-- A callback that leaves the objects alone. -/
theorem finishes_modifyNested {k : Kind} {i : Nat} {a : k.Object} {body : k.Object → Act n β}
    {upd : k.Object → β → k.Object} {hkey : ∀ a b, chainSchema.SameKey k a (upd a b)}
    (hg : d.store.get k i = some a)
    (hbody : ∀ e : Database chainSchema, e.store = d.store → ∃ b, (body a).run e = .ok b e)
    (hQ : ∀ b hf, Q (d.store.write k i (upd a b) hf)) :
    Finishes (Action.modifyNested (S := chainSchema) k i body upd hkey : Act n Unit) d Q := by
  obtain ⟨b, hb⟩ := hbody (d.onTop k fun u => u.onModify i a) (onTop_store ..)
  obtain ⟨u, e, hr, he⟩ : Finishes (Action.modifyWith (S := chainSchema) k i (fun _ => .ok b) upd
      hkey : Act n Unit) (d.onTop k fun u => u.onModify i a) Q := by
    refine finishes_modifyWith (by rw [onTop_store]; exact hg) rfl fun hf => ?_
    simp only [onTop_store] at hf ⊢
    exact hQ b hf
  refine ⟨u, e, ?_, he⟩
  simp only [Action.modifyNested, hg, hb]
  exact hr

/-- What every run of a program does is true when it ends. -/
theorem Finishes.steps {x : Act n α} {R : Store chainSchema → Store chainSchema → Prop}
    (hx : Finishes x d Q) (hs : Steps R x) : Finishes x d fun t => Q t ∧ R d.store t := by
  obtain ⟨a, e, hr, hQ⟩ := hx
  exact ⟨a, e, hr, hQ, hs.step hr⟩

theorem finishes_lift {x : Except Exn α} {f : α → Act n β} {a : α} (hx : x = .ok a)
    (hf : Finishes (f a) d Q) : Finishes ((Action.lift x : Act n α) >>= f) d Q := by
  obtain ⟨b, d₂, hr, hQ⟩ := hf
  exact ⟨b, d₂, Action.bind_lift_ok.mpr ⟨a, hx, hr⟩, hQ⟩

/-- A loop whose passes keep what the next ones need. -/
theorem finishes_forEach {l : List β} {f : β → Act n Unit} (h : Q d.store)
    (hf : ∀ b ∈ l, ∀ e, Q e.store → Finishes (f b) e Q) : Finishes (Action.forEach l f) d Q := by
  induction l generalizing d with
  | nil => exact ⟨(), d, rfl, h⟩
  | cons b l ih =>
    obtain ⟨_, e, hr, hQ⟩ := hf b List.mem_cons_self d h
    have hrest := ih hQ fun b hb => hf b (List.mem_cons_of_mem _ hb)
    exact finishes_bind hr hrest

end MuseChain
