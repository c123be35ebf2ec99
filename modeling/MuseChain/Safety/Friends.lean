/-
  File:      MuseChain/Safety/Friends.lean
  Subject:   The friend graph: friendship and unfriend keep it, nothing else writes to it.

  * `Lists l X`: the list stands for the set, as a `std::set` does.
  * `Drawn C s`: the lists of the accounts are the sets `C`. Each part of the two evaluators
    redraws them in one place (`Drawn.addSecondLevel`, `Drawn.befriend`, ...).
  * `Sociable G W s`: the lists are the neighbours, and the vertices two steps away, in the
    graph `G`, and `W` are the requests. An acceptance links two accounts in it, the end of a
    friendship unlinks them.
-/
import MuseChain.Lib.TwoStep
import MuseChain.Safety.Votes

namespace MuseChain

open TwoStep

variable {n : Nat} {d d' : Database chainSchema} {u : Unit}

/-! ## 1. Sets of accounts -/

structure Lists (l : List Nat) (X : Set Nat) : Prop where
  nodup : l.Nodup
  mem : ∀ x, x ∈ l ↔ x ∈ X

namespace Lists

variable {l l' : List Nat} {X Y : Set Nat} {x : Nat}

theorem nil : Lists [] ∅ := ⟨List.nodup_nil, fun x => by simp⟩

theorem congr (h : Lists l X) (hXY : ∀ x, x ∈ X ↔ x ∈ Y) : Lists l Y :=
  ⟨h.nodup, fun x => (h.mem x).trans (hXY x)⟩

theorem setInsert (h : Lists l X) (x : Nat) : Lists (setInsert x l) (insert x X) := by
  unfold MuseChain.setInsert
  split
  · rename_i hx
    exact h.congr fun y => ⟨.inr, fun hy => hy.elim (fun e => e ▸ (h.mem x).mp hx) id⟩
  · rename_i hx
    have hperm := List.perm_orderedInsert (· ≤ ·) x l
    refine ⟨hperm.nodup_iff.mpr (List.nodup_cons.mpr ⟨hx, h.nodup⟩), fun y => ?_⟩
    rw [hperm.mem_iff, List.mem_cons, h.mem]
    rfl

theorem setInsertAll (h : Lists l X) (xs : List Nat) :
    Lists (setInsertAll xs l) (X ∪ {x | x ∈ xs}) := by
  unfold MuseChain.setInsertAll
  induction xs generalizing l X with
  | nil => exact h.congr fun x => by simp
  | cons y ys ih =>
    refine (ih (h.setInsert y)).congr fun x => ?_
    simp only [Set.mem_union, Set.mem_insert_iff, Set.mem_ofPred_eq, List.mem_cons]
    tauto

theorem erase (h : Lists l X) (x : Nat) : Lists (l.erase x) (X \ {x}) := by
  refine ⟨h.nodup.erase x, fun y => ?_⟩
  rw [h.nodup.mem_erase_iff, h.mem]
  exact and_comm

end Lists

/-! ## 2. The lists of the accounts -/

/-- For every account its friends, their friends, and who asked for its friendship. -/
structure Circles where
  friends : Nat → Set Nat
  secondLevel : Nat → Set Nat
  waiting : Nat → Set Nat

namespace Circles

variable (C : Circles) (i : Nat)

/-- The friends of the friends. -/
def two : Set Nat := (⋃ f ∈ C.friends i, C.friends f) \ {i}

def setSecondLevel (X : Set Nat) : Circles :=
  { C with secondLevel := Function.update C.secondLevel i X }

def setWaiting (X : Set Nat) : Circles := { C with waiting := Function.update C.waiting i X }

def setFriends (X : Set Nat) : Circles := { C with friends := Function.update C.friends i X }

end Circles

/-- The lists of one account are the sets. -/
structure Account.Draws (a : Account) (friends secondLevel waiting : Set Nat) : Prop where
  friends : Lists a.friends friends
  secondLevel : Lists a.secondLevel secondLevel
  waiting : Lists a.waiting waiting

def Drawn (C : Circles) (s : Store chainSchema) : Prop :=
  ∀ i (a : Account), s.get Kind.account i = some a →
    a.Draws (C.friends i) (C.secondLevel i) (C.waiting i)

variable {C C' : Circles}

theorem Drawn.write {s : Store chainSchema} (h : Drawn C s) {i : Nat} {b : Account}
    (hf : s.free Kind.account i b = true)
    (hfr : ∀ j, j ≠ i → C'.friends j = C.friends j)
    (hsl : ∀ j, j ≠ i → C'.secondLevel j = C.secondLevel j)
    (hwt : ∀ j, j ≠ i → C'.waiting j = C.waiting j)
    (hb : b.Draws (C'.friends i) (C'.secondLevel i) (C'.waiting i)) :
    Drawn C' (s.write Kind.account i b hf) := by
  intro j c hc
  rw [Store.get_write_self] at hc
  split at hc
  · rename_i e
    subst e
    cases hc
    exact hb
  · rename_i hj
    rw [hfr j hj, hsl j hj, hwt j hj]
    exact h j c hc

/-- One account gets other lists. -/
theorem Drawn.modify {i : Nat} {upd : Account → Account}
    {hkey : ∀ a, chainSchema.SameKey Kind.account a (upd a)}
    (hr : (Action.modify (S := chainSchema) Kind.account i upd hkey : Act n Unit).run d = .ok u d')
    (h : Drawn C d.store)
    (hfr : ∀ j, j ≠ i → C'.friends j = C.friends j)
    (hsl : ∀ j, j ≠ i → C'.secondLevel j = C.secondLevel j)
    (hwt : ∀ j, j ≠ i → C'.waiting j = C.waiting j)
    (hupd : ∀ a : Account, a.Draws (C.friends i) (C.secondLevel i) (C.waiting i) →
      (upd a).Draws (C'.friends i) (C'.secondLevel i) (C'.waiting i)) : Drawn C' d'.store := by
  obtain ⟨a, ha, hf, e⟩ := modify_store hr
  rw [e]
  exact h.write hf hfr hsl hwt (hupd a (h i a ha))

/-- One account has other requests. -/
theorem Drawn.modifyWaiting {i : Nat} {f : List Nat → List Nat} {X : Set Nat}
    (hf : ∀ l, Lists l (C.waiting i) → Lists (f l) X)
    (hr : (Action.modify (S := chainSchema) Kind.account i
      (fun a : Account => { a with waiting := f a.waiting }) : Act n Unit).run d = .ok u d')
    (h : Drawn C d.store) : Drawn (C.setWaiting i X) d'.store := by
  refine h.modify hr (fun _ _ => rfl) (fun _ _ => rfl) (fun j hj => Function.update_of_ne hj ..)
    fun a ⟨hfr, hsl, hwt⟩ => ⟨hfr, hsl, ?_⟩
  simp only [Circles.setWaiting, Function.update_self]
  exact hf a.waiting hwt

/-- What is not a list of the accounts may change, and new accounts come with empty lists. -/
def circling : Law chainSchema where
  rel
    | .account => fun o p =>
        (∀ a : Account, o = some a → ∃ b : Account, p = some b ∧
          b.friends = a.friends ∧ b.secondLevel = a.secondLevel ∧ b.waiting = a.waiting) ∧
        (o = none → ∀ b : Account, p = some b →
          b.friends = [] ∧ b.secondLevel = [] ∧ b.waiting = [])
    | _ => fun _ _ => True
  refl k o := by
    cases k with
    | account => exact ⟨fun a ha => ⟨a, ha, rfl, rfl, rfl⟩, fun h b hb => by simp [h] at hb⟩
    | _ => trivial
  trans k o p q h h' := by
    cases k with
    | account =>
      refine ⟨fun a ha => ?_, fun ho c hc => ?_⟩
      · obtain ⟨b, hb, h1, h2, h3⟩ := h.1 a ha
        obtain ⟨c, hc, h4, h5, h6⟩ := h'.1 b hb
        exact ⟨c, hc, h4.trans h1, h5.trans h2, h6.trans h3⟩
      · cases hp : p with
        | none => exact h'.2 hp c hc
        | some b =>
          obtain ⟨h1, h2, h3⟩ := h.2 ho b hp
          obtain ⟨c', hc', h4, h5, h6⟩ := h'.1 b hp
          obtain rfl : c' = c := Option.some.inj (hc'.symm.trans hc)
          exact ⟨h4.trans h1, h5.trans h2, h6.trans h3⟩
    | _ => trivial

theorem circling_of_changes {l : List Part} {s t : Store chainSchema} (h : Obeys (changes l) s t)
    (hg : .gone .account ∉ l) (hw : .account .friends ∉ l) : Obeys circling s t := by
  intro k i
  cases k with
  | account =>
    have hsame : ∀ {a b : Account}, Same l Kind.account a b →
        b.friends = a.friends ∧ b.secondLevel = a.secondLevel ∧ b.waiting = a.waiting := by
      intro a b hab
      have hv := Or.resolve_left (hab .friends) hw
      simp only [Account.view, Prod.mk.injEq] at hv
      exact ⟨hv.1.symm, hv.2.1.symm, hv.2.2.symm⟩
    obtain ⟨a, b, ha, hb, hab⟩ | ⟨ha, hb⟩ | ⟨a, b, ha, hb, _, hblank, hab⟩ :=
      changes_cases (h Kind.account i) hg
    · rw [ha, hb]
      refine ⟨fun a' e => ⟨b, rfl, ?_⟩, fun e => nomatch e⟩
      cases e
      exact hsame hab
    · rw [ha, hb]
      exact ⟨fun a' e => (nomatch e), fun _ b' e => nomatch e⟩
    · rw [ha, hb]
      refine ⟨fun a' e => (nomatch e), fun _ b' e => ?_⟩
      cases e
      obtain ⟨h1, h2, h3⟩ := hsame hab
      obtain ⟨_, _, _, _, _, _, _, _, _, _, _, _, _, hf, hsl, hwt, _⟩ := hblank
      exact ⟨h1.trans hf, h2.trans hsl, h3.trans hwt⟩
  | _ => trivial

theorem circling_of_composed {α : Type} {l : List Part} {x : Act n α} (h : Composed l x)
    (hg : .gone .account ∉ l) (hw : .account .friends ∉ l) : Steps (Obeys circling) x :=
  h.steps.mono fun _ _ hst => circling_of_changes hst hg hw

/-- A new score is no new friend. -/
theorem Drawn.score {acc : Nat} (hr : (recalculateScore acc : Act n Unit).run d = .ok u d')
    (h : Drawn C d.store) : Drawn C d'.store := by
  have hc : Composed [.account .score] (recalculateScore acc : Act n Unit) := by simp
  intro i b hb
  obtain ⟨a, b', ha, hb', hab⟩ | ⟨_, hn⟩ | ⟨_, _, _, _, hm, _⟩ :=
    changes_cases (hc.steps.step hr Kind.account i) (by decide)
  · obtain rfl : b' = b := Option.some.inj (hb'.symm.trans hb)
    have hv := Or.resolve_left (hab .friends) (by decide)
    simp only [Account.view, Prod.mk.injEq] at hv
    obtain ⟨hfr, hsl, hwt⟩ := h i a ha
    exact ⟨hv.1 ▸ hfr, hv.2.1 ▸ hsl, hv.2.2 ▸ hwt⟩
  · exact nomatch hn.symm.trans hb
  · exact absurd hm (by decide)

/-! ## 3. The evaluators redraw the lists -/

theorem Drawn.addSecondLevel {whose : List Nat} {who : Nat}
    (hr : (addSecondLevel whose who : Act n Unit).run d = .ok u d') (h : Drawn C d.store) :
    Drawn { C with secondLevel := fun i =>
      {x | x ∈ C.secondLevel i ∨ i ∈ whose ∧ x = who} } d'.store := by
  unfold MuseChain.addSecondLevel at hr
  induction whose generalizing C d with
  | nil =>
    cases hr
    intro i a ha
    obtain ⟨hfr, hsl, hwt⟩ := h i a ha
    exact ⟨hfr, hsl.congr fun x => by simp, hwt⟩
  | cons a3 rest ih =>
    obtain ⟨_, d₁, h1, h2⟩ := Action.bind_ok.mp hr
    obtain ⟨_, _, h1⟩ := bind_getAccount_ok.mp h1
    obtain ⟨_, d₂, h3, h4⟩ := Action.bind_ok.mp h1
    have hd₂ : Drawn (C.setSecondLevel a3 (insert who (C.secondLevel a3))) d₂.store := by
      refine h.modify h3 (fun _ _ => rfl) (fun j hj => Function.update_of_ne hj ..)
        (fun _ _ => rfl) fun a ⟨hfr, hsl, hwt⟩ => ⟨hfr, ?_, hwt⟩
      simp only [Circles.setSecondLevel, Function.update_self]
      exact hsl.setInsert who
    have hlast := ih h2 (hd₂.score h4)
    intro i a ha
    obtain ⟨hfr, hsl, hwt⟩ := hlast i a ha
    refine ⟨hfr, hsl.congr fun x => ?_, hwt⟩
    by_cases hi : i = a3
    · subst hi
      simp only [Circles.setSecondLevel, Function.update_self, Set.mem_ofPred_eq,
        Set.mem_insert_iff, List.mem_cons, true_or, true_and]
      tauto
    · simp [Circles.setSecondLevel, hi]

theorem Drawn.befriend {who whom : Nat} {theirs : List Nat} {T : Set Nat} (ht : Lists theirs T)
    (hr : (befriend who whom theirs : Act n Unit).run d = .ok u d') (h : Drawn C d.store) :
    Drawn (((C.setWaiting who (C.waiting who \ {whom})).setFriends who
        (insert whom (C.friends who))).setSecondLevel who ((C.secondLevel who ∪ T) \ {who}))
      d'.store := by
  unfold MuseChain.befriend at hr
  obtain ⟨_, d₁, h1, h2⟩ := Action.bind_ok.mp hr
  refine Drawn.score h2 ?_
  refine h.modify h1 (fun j hj => Function.update_of_ne hj ..)
    (fun j hj => Function.update_of_ne hj ..) (fun j hj => Function.update_of_ne hj ..)
    fun a ⟨hfr, hsl, hwt⟩ => ?_
  simp only [Circles.setSecondLevel, Circles.setFriends, Circles.setWaiting, Function.update_self]
  refine ⟨hfr.setInsert whom, ?_, hwt.erase whom⟩
  refine Lists.erase ((hsl.setInsertAll theirs).congr fun x => ?_) who
  rw [Set.mem_union, Set.mem_union, ← ht.mem]
  rfl

theorem Drawn.dropFriend {who whom : Nat}
    (hr : (dropFriend who whom : Act n Unit).run d = .ok u d') (h : Drawn C d.store) :
    Drawn ((C.setFriends who (C.friends who \ {whom})).setSecondLevel who ∅) d'.store := by
  refine h.modify hr (fun j hj => Function.update_of_ne hj ..)
    (fun j hj => Function.update_of_ne hj ..) (fun _ _ => rfl) fun a ⟨hfr, hsl, hwt⟩ => ?_
  simp only [Circles.setSecondLevel, Circles.setFriends, Function.update_self]
  exact ⟨hfr.erase whom, Lists.nil, hwt⟩

/-- The loop that collects the friends of the friends. -/
theorem Drawn.collect {l : List Nat} {acc out : List Nat} {X : Set Nat} (h : Drawn C d.store)
    (hr : (Action.foldEach l acc fun l fid => do
      let f ← getAccount fid
      pure (setInsertAll f.friends l) : Act n (List Nat)).run d = .ok out d')
    (hacc : Lists acc X) : Lists out (X ∪ {x | ∃ f ∈ l, x ∈ C.friends f}) := by
  induction l generalizing acc X with
  | nil =>
    cases hr
    exact hacc.congr fun x => by simp
  | cons f l ih =>
    obtain ⟨next, d₁, h1, h2⟩ := Action.bind_ok.mp hr
    obtain ⟨a, ha, h1⟩ := bind_getAccount_ok.mp h1
    cases h1
    refine (ih h2 (hacc.setInsertAll a.friends)).congr fun x => ?_
    have hx := (h f a ha).friends.mem x
    simp only [Set.mem_union, Set.mem_ofPred_eq, List.mem_cons, exists_eq_or_imp, hx]
    tauto

theorem Drawn.secondLevelOf {acc : Nat} {l : List Nat} (h : Drawn C d.store)
    (hr : (secondLevelOf acc : Act n (List Nat)).run d = .ok l d') : Lists l (C.two acc) := by
  unfold MuseChain.secondLevelOf at hr
  obtain ⟨a, ha, hr⟩ := bind_getAccount_ok.mp hr
  obtain ⟨l₁, d₁, h1, h2⟩ := Action.bind_ok.mp hr
  cases h2
  refine Lists.erase ((h.collect h1 Lists.nil).congr fun x => ?_) acc
  have hmem : ∀ f, f ∈ a.friends ↔ f ∈ C.friends acc := (h acc a ha).friends.mem
  simp [hmem]

theorem Drawn.rebuildSecondLevel {acc : Nat}
    (hr : (rebuildSecondLevel acc : Act n Unit).run d = .ok u d') (h : Drawn C d.store) :
    Drawn (C.setSecondLevel acc (C.two acc)) d'.store := by
  unfold MuseChain.rebuildSecondLevel at hr
  obtain ⟨l, d₁, h1, h2⟩ := Action.bind_ok.mp hr
  obtain rfl := (looks_secondLevelOf acc).of_ok h1
  refine h.modify h2 (fun _ _ => rfl) (fun j hj => Function.update_of_ne hj ..) (fun _ _ => rfl)
    fun a ⟨hfr, _, hwt⟩ => ⟨hfr, ?_, hwt⟩
  simp only [Circles.setSecondLevel, Function.update_self]
  exact h.secondLevelOf h1

theorem Drawn.rebuildFriendsOf {acc : Nat}
    (hr : (rebuildFriendsOf acc : Act n Unit).run d = .ok u d') (h : Drawn C d.store) :
    Drawn { C with secondLevel := fun i =>
      {x | i ∈ C.friends acc ∧ x ∈ C.two i ∨ i ∉ C.friends acc ∧ x ∈ C.secondLevel i} }
      d'.store := by
  unfold MuseChain.rebuildFriendsOf at hr
  obtain ⟨a, ha, hloop⟩ := bind_getAccount_ok.mp hr
  have hmem := (h acc a ha).friends.mem
  simp only [← hmem]
  clear hmem ha hr
  -- the friends are as they were: one of them after the other gets its second level
  generalize a.friends = l at hloop ⊢
  induction l generalizing C d with
  | nil =>
    cases hloop
    intro i a ha
    obtain ⟨hfr, hsl, hwt⟩ := h i a ha
    exact ⟨hfr, hsl.congr fun x => by simp, hwt⟩
  | cons f rest ih =>
    obtain ⟨_, d₁, h1, h2⟩ := Action.bind_ok.mp hloop
    obtain ⟨_, d₂, h3, h4⟩ := Action.bind_ok.mp h1
    have hlast := ih ((h.rebuildSecondLevel h3).score h4) h2
    intro i a ha
    obtain ⟨hfr, hsl, hwt⟩ := hlast i a ha
    refine ⟨hfr, hsl.congr fun x => ?_, hwt⟩
    have htwo : (C.setSecondLevel f (C.two f)).two = C.two := rfl
    simp only [Set.mem_ofPred_eq, List.mem_cons, htwo]
    by_cases hi : i = f
    · subst hi
      simp only [Circles.setSecondLevel, Function.update_self]
      tauto
    · simp [Circles.setSecondLevel, hi]

/-! ## 4. The friend graph -/

/-- The accounts that are friends, and who waits for whom: `W i` are the accounts that asked `i`. -/
structure Sociable (G : SimpleGraph Nat) (W : Nat → Set Nat) (s : Store chainSchema) : Prop where
  drawn : Drawn ⟨G.neighborSet, twoStep G, W⟩ s
  known : ∀ i x, G.Adj i x → ∃ a : Account, s.get Kind.account i = some a
  knownWaiting : ∀ i x, x ∈ W i → ∃ a : Account, s.get Kind.account i = some a
  apart : ∀ i x, x ∈ W i → ¬G.Adj i x
  oneWay : ∀ i x, i ≠ x → x ∈ W i → i ∉ W x

def Friendly (s : Store chainSchema) : Prop := ∃ G W, Sociable G W s

/-- Nothing but the lists of friends matters. -/
theorem Friendly.of_circling {s t : Store chainSchema} (hs : Friendly s) (h : Obeys circling s t) :
    Friendly t := by
  obtain ⟨G, W, hs⟩ := hs
  have hstays : ∀ i, (∃ a : Account, s.get Kind.account i = some a) →
      ∃ b : Account, t.get Kind.account i = some b := fun i ⟨a, ha⟩ =>
    let ⟨b, hb, _⟩ := (h Kind.account i).1 a ha
    ⟨b, hb⟩
  refine ⟨G, W, fun i b hb => ?_, fun i x hx => hstays i (hs.known i x hx),
    fun i x hx => hstays i (hs.knownWaiting i x hx), hs.apart, hs.oneWay⟩
  cases ha : s.get Kind.account i with
  | some a =>
    obtain ⟨b', hb', hfr, hsl, hwt⟩ := (h Kind.account i).1 a ha
    obtain rfl : b' = b := Option.some.inj (hb'.symm.trans hb)
    obtain ⟨h1, h2, h3⟩ := hs.drawn i a ha
    exact ⟨hfr ▸ h1, hsl ▸ h2, hwt ▸ h3⟩
  | none =>
    -- a new account is in no list yet
    obtain ⟨hfr, hsl, hwt⟩ := (h Kind.account i).2 ha b hb
    have hnone : ¬∃ a : Account, s.get Kind.account i = some a := fun ⟨a, ha'⟩ =>
      nomatch ha.symm.trans ha'
    have hadj : ∀ x, ¬G.Adj i x := fun x hx => hnone (hs.known i x hx)
    refine ⟨hfr ▸ Lists.nil.congr fun x => ?_, hsl ▸ Lists.nil.congr fun x => ?_,
      hwt ▸ Lists.nil.congr fun x => ?_⟩
    · exact iff_of_false (Set.notMem_empty x) (hadj x)
    · refine iff_of_false (Set.notMem_empty x) fun hx => ?_
      obtain ⟨⟨f, hf, _⟩, _⟩ := mem_twoStep.mp hx
      exact hadj f hf
    · exact iff_of_false (Set.notMem_empty x) fun hx => hnone (hs.knownWaiting i x hx)

theorem Drawn.congr {s : Store chainSchema} (h : Drawn C s)
    (hfr : ∀ i x, x ∈ C.friends i ↔ x ∈ C'.friends i)
    (hsl : ∀ i x, x ∈ C.secondLevel i ↔ x ∈ C'.secondLevel i)
    (hwt : ∀ i x, x ∈ C.waiting i ↔ x ∈ C'.waiting i) : Drawn C' s := fun i a ha =>
  ⟨(h i a ha).friends.congr (hfr i), (h i a ha).secondLevel.congr (hsl i),
    (h i a ha).waiting.congr (hwt i)⟩

theorem accounts_stay {l : List Part} {s t : Store chainSchema} (h : Obeys (changes l) s t)
    (hg : .gone .account ∉ l) (i : Nat) (hi : ∃ a : Account, s.get Kind.account i = some a) :
    ∃ b : Account, t.get Kind.account i = some b := by
  obtain ⟨a, ha⟩ := hi
  obtain ⟨_, b, _, hb, _⟩ | ⟨hn, _⟩ | ⟨_, _, hn, _⟩ := changes_cases (h Kind.account i) hg
  · exact ⟨b, hb⟩
  · exact nomatch ha.symm.trans hn
  · exact nomatch ha.symm.trans hn

section

variable {G : SimpleGraph Nat} {W : Nat → Set Nat} {i1 i2 : Nat}

/-- The requests after account `i` got one more. -/
theorem Sociable.request {s t : Store chainSchema} (hs : Sociable G W s)
    (ht : Drawn ⟨G.neighborSet, twoStep G, Function.update W i2 (insert i1 (W i2))⟩ t)
    (hstay : ∀ i, (∃ a : Account, s.get Kind.account i = some a) →
      ∃ b : Account, t.get Kind.account i = some b)
    (h2 : ∃ a : Account, s.get Kind.account i2 = some a) (hadj : ¬G.Adj i1 i2)
    (hback : i2 ∉ W i1) : Sociable G (Function.update W i2 (insert i1 (W i2))) t := by
  have hmem : ∀ i x, x ∈ Function.update W i2 (insert i1 (W i2)) i ↔
      x ∈ W i ∨ i = i2 ∧ x = i1 := by
    intro i x
    by_cases hi : i = i2
    · subst hi
      simp [or_comm]
    · simp [hi]
  refine ⟨ht, fun i x hx => hstay i (hs.known i x hx), fun i x hx => hstay i ?_, fun i x hx => ?_,
    fun i x hne hx hback' => ?_⟩
  · rcases (hmem i x).mp hx with hx | ⟨rfl, -⟩
    · exact hs.knownWaiting i x hx
    · exact h2
  · rcases (hmem i x).mp hx with hx | ⟨rfl, rfl⟩
    · exact hs.apart i x hx
    · exact fun h => hadj h.symm
  · rcases (hmem i x).mp hx with hxi | ⟨rfl, rfl⟩
    · rcases (hmem x i).mp hback' with hix | ⟨rfl, rfl⟩
      · exact hs.oneWay i x hne hxi hix
      · exact hback hxi
    · rcases (hmem x i).mp hback' with hix | ⟨e, -⟩
      · exact hback hix
      · exact hne e.symm

/-- Fewer requests. -/
theorem Sociable.withdraw {W' : Nat → Set Nat} {s t : Store chainSchema} (hs : Sociable G W s)
    (ht : Drawn ⟨G.neighborSet, twoStep G, W'⟩ t)
    (hstay : ∀ i, (∃ a : Account, s.get Kind.account i = some a) →
      ∃ b : Account, t.get Kind.account i = some b)
    (hsub : ∀ i, W' i ⊆ W i) : Sociable G W' t :=
  ⟨ht, fun i x hx => hstay i (hs.known i x hx),
    fun i x hx => hstay i (hs.knownWaiting i x (hsub i hx)),
    fun i x hx => hs.apart i x (hsub i hx),
    fun i x hne hx hback => hs.oneWay i x hne (hsub i hx) (hsub x hback)⟩

/-- **Two accounts become friends.** -/
theorem Sociable.accept {a1 a2 : Account} (hs : Sociable G W d.store)
    (ha1 : d.store.get Kind.account i1 = some a1) (ha2 : d.store.get Kind.account i2 = some a2)
    (hne : i1 ≠ i2) (hadj : ¬G.Adj i1 i2) (hback : i1 ∉ W i2)
    (hr : (do
      addSecondLevel a2.friends i1
      addSecondLevel a1.friends i2
      let a2 ← getAccount i2
      befriend i1 i2 a2.friends
      let a1 ← getAccount i1
      befriend i2 i1 a1.friends : Act n Unit).run d = .ok u d')
    (hstay : ∀ i, (∃ a : Account, d.store.get Kind.account i = some a) →
      ∃ b : Account, d'.store.get Kind.account i = some b) :
    Sociable (link G i1 i2) (Function.update W i1 (W i1 \ {i2})) d'.store := by
  have hfr1 := (hs.drawn i1 a1 ha1).friends.mem
  have hfr2 := (hs.drawn i2 a2 ha2).friends.mem
  simp only [SimpleGraph.mem_neighborSet] at hfr1 hfr2
  obtain ⟨_, d₁, h1, hr⟩ := Action.bind_ok.mp hr
  obtain ⟨_, d₂, h2, hr⟩ := Action.bind_ok.mp hr
  obtain ⟨b2, hb2, hr⟩ := bind_getAccount_ok.mp hr
  obtain ⟨_, d₃, h3, hr⟩ := Action.bind_ok.mp hr
  obtain ⟨b1, hb1, h4⟩ := bind_getAccount_ok.mp hr
  have hd₂ := (hs.drawn.addSecondLevel h1).addSecondLevel h2
  have hd₃ := hd₂.befriend (hd₂ i2 b2 hb2).friends h3
  have hlast := hd₃.befriend (hd₃ i1 b1 hb1).friends h4
  have hsub : ∀ i, Function.update W i1 (W i1 \ {i2}) i ⊆ W i := by
    intro i x hx
    by_cases hi : i = i1
    · subst hi
      rw [Function.update_self] at hx
      exact hx.1
    · rwa [Function.update_of_ne hi] at hx
  refine ⟨hlast.congr (fun i x => ?_) (fun i x => ?_) fun i x => ?_, fun i x hx => hstay i ?_,
    fun i x hx => hstay i (hs.knownWaiting i x (hsub i hx)), fun i x hx => ?_,
    fun i x hix hx hb => hs.oneWay i x hix (hsub i hx) (hsub x hb)⟩
  · by_cases e2 : i = i2
    · subst e2
      simp [Circles.setSecondLevel, Circles.setFriends, Circles.setWaiting, hne.symm,
        neighborSet_link_right hne]
    · by_cases e1 : i = i1
      · subst e1
        simp [Circles.setSecondLevel, Circles.setFriends, Circles.setWaiting, hne,
          neighborSet_link_left hne]
      · simp [Circles.setSecondLevel, Circles.setFriends, Circles.setWaiting, e1, e2,
          neighborSet_link_of_ne e1 e2]
  · by_cases e2 : i = i2
    · subst e2
      simp [Circles.setSecondLevel, Circles.setFriends, Circles.setWaiting, hne.symm,
        twoStep_link_right hne, hfr1, hfr2, hadj]
    · by_cases e1 : i = i1
      · subst e1
        have hadj' : ¬G.Adj i2 i := fun h => hadj h.symm
        simp [Circles.setSecondLevel, Circles.setFriends, Circles.setWaiting, hne,
          twoStep_link_left hne, hfr1, hfr2, hadj']
      · simp [Circles.setSecondLevel, Circles.setFriends, Circles.setWaiting, e1, e2,
          mem_twoStep_link_of_ne hne e1 e2, hfr1, hfr2, or_assoc]
  · by_cases e2 : i = i2
    · subst e2
      simp only [Circles.setSecondLevel, Circles.setFriends, Circles.setWaiting,
        Function.update_self, Function.update_of_ne hne.symm, Set.mem_sdiff,
        Set.mem_singleton_iff]
      exact ⟨fun h => h.1, fun h => ⟨h, fun e => hback (e ▸ h)⟩⟩
    · simp [Circles.setSecondLevel, Circles.setFriends, Circles.setWaiting, e2]
  · rcases link_adj.mp hx with hx | ⟨⟨rfl, -⟩ | ⟨rfl, -⟩, -⟩
    · exact hs.known i x hx
    · exact ⟨a1, ha1⟩
    · exact ⟨a2, ha2⟩
  · have hW := hsub i hx
    rw [link_adj]
    rintro (h | ⟨⟨rfl, rfl⟩ | ⟨rfl, rfl⟩, -⟩)
    · exact hs.apart i x hW h
    · rw [Function.update_self] at hx
      exact hx.2 rfl
    · exact hback hW

/-- **A friendship ends.** -/
theorem Sociable.part (hs : Sociable G W d.store) (hne : i1 ≠ i2)
    (hr : (do
      dropFriend i2 i1
      dropFriend i1 i2
      rebuildSecondLevel i1
      rebuildSecondLevel i2
      recalculateScore i1
      recalculateScore i2
      rebuildFriendsOf i1
      rebuildFriendsOf i2 : Act n Unit).run d = .ok u d')
    (hstay : ∀ i, (∃ a : Account, d.store.get Kind.account i = some a) →
      ∃ b : Account, d'.store.get Kind.account i = some b) :
    Sociable (unlink G i1 i2) W d'.store := by
  obtain ⟨_, d₁, h1, hr⟩ := Action.bind_ok.mp hr
  obtain ⟨_, d₂, h2, hr⟩ := Action.bind_ok.mp hr
  obtain ⟨_, d₃, h3, hr⟩ := Action.bind_ok.mp hr
  obtain ⟨_, d₄, h4, hr⟩ := Action.bind_ok.mp hr
  obtain ⟨_, d₅, h5, hr⟩ := Action.bind_ok.mp hr
  obtain ⟨_, d₆, h6, hr⟩ := Action.bind_ok.mp hr
  obtain ⟨_, d₇, h7, h8⟩ := Action.bind_ok.mp hr
  -- from here on the lists of friends are the new graph
  have hd₂ : Drawn ⟨(unlink G i1 i2).neighborSet, fun i => {x | i ≠ i1 ∧ i ≠ i2 ∧ x ∈ twoStep G i},
      W⟩ d₂.store := by
    refine ((hs.drawn.dropFriend h1).dropFriend h2).congr (fun i x => ?_) (fun i x => ?_)
      fun _ _ => Iff.rfl
    · by_cases e1 : i = i1
      · subst e1
        simp [Circles.setSecondLevel, Circles.setFriends, hne, neighborSet_unlink_left hne]
      · by_cases e2 : i = i2
        · subst e2
          simp [Circles.setSecondLevel, Circles.setFriends, e1, neighborSet_unlink_right hne]
        · simp [Circles.setSecondLevel, Circles.setFriends, e1, e2,
            neighborSet_unlink_of_ne e1 e2]
    · by_cases e1 : i = i1
      · subst e1
        simp [Circles.setSecondLevel, Circles.setFriends]
      · by_cases e2 : i = i2
        · subst e2
          simp [Circles.setSecondLevel, Circles.setFriends, e1]
        · simp [Circles.setSecondLevel, Circles.setFriends, e1, e2]
  have hd₆ : Drawn ⟨(unlink G i1 i2).neighborSet, fun i => {x | (i = i1 ∨ i = i2) ∧
      x ∈ twoStep (unlink G i1 i2) i ∨ i ≠ i1 ∧ i ≠ i2 ∧ x ∈ twoStep G i}, W⟩ d₆.store := by
    refine ((((hd₂.rebuildSecondLevel h3).rebuildSecondLevel h4).score h5).score h6).congr
      (fun _ _ => Iff.rfl) (fun i x => ?_) fun _ _ => Iff.rfl
    by_cases e2 : i = i2
    · subst e2
      simp [Circles.setSecondLevel, Circles.two, twoStep]
    · by_cases e1 : i = i1
      · subst e1
        simp [Circles.setSecondLevel, Circles.two, twoStep, e2]
      · simp [Circles.setSecondLevel, e1, e2]
  have hlast := (hd₆.rebuildFriendsOf h7).rebuildFriendsOf h8
  refine ⟨hlast.congr (fun _ _ => Iff.rfl) (fun i x => ?_) fun _ _ => Iff.rfl,
    fun i x hx => hstay i (hs.known i x (unlink_le hx)),
    fun i x hx => hstay i (hs.knownWaiting i x hx), fun i x hx h => hs.apart i x hx (unlink_le h),
    hs.oneWay⟩
  -- an account that is neither one of the two nor next to one of them has the old second level
  have hfar : i ≠ i1 → i ≠ i2 → ¬(unlink G i1 i2).Adj i1 i → ¬(unlink G i1 i2).Adj i2 i →
      twoStep (unlink G i1 i2) i = twoStep G i := by
    intro e1 e2 n1 n2
    refine twoStep_unlink_of_not_adj e1 e2 (fun h => n1 ?_) fun h => n2 ?_
    · exact unlink_adj.mpr ⟨h, fun hc => hc.1.elim (fun hc => e2 hc.2) fun hc => e1 hc.2⟩
    · exact unlink_adj.mpr ⟨h, fun hc => hc.1.elim (fun hc => e2 hc.2) fun hc => e1 hc.2⟩
  simp only [Set.mem_ofPred_eq, SimpleGraph.mem_neighborSet]
  show _ ∧ x ∈ twoStep (unlink G i1 i2) i ∨ _ ∧ (_ ∧ x ∈ twoStep (unlink G i1 i2) i ∨ _) ↔ _
  by_cases n2 : (unlink G i1 i2).Adj i2 i
  · simp only [n2, true_and, not_true_eq_false, false_and, or_false]
  · by_cases n1 : (unlink G i1 i2).Adj i1 i
    · simp only [n1, n2, true_and, not_true_eq_false, not_false_eq_true, false_and, or_false,
        false_or]
    · simp only [n1, n2, true_and, not_false_eq_true, false_and, false_or]
      by_cases e : i = i1 ∨ i = i2
      · exact ⟨fun h => h.elim (·.2) fun h => absurd e (not_or.mpr ⟨h.1, h.2.1⟩),
          fun h => .inl ⟨e, h⟩⟩
      · obtain ⟨e1, e2⟩ := not_or.mp e
        rw [hfar e1 e2 n1 n2]
        exact ⟨fun h => h.elim (fun h => absurd h.1 e) (·.2.2), fun h => .inr ⟨e1, e2, h⟩⟩

end

/-! ## 5. The two operations -/

theorem Friendly.of_friendship {who whom : String}
    (hr : (friendship who whom : Act n Unit).run d = .ok u d') (hs : Friendly d.store) :
    Friendly d'.store := by
  have hcomp : Composed [.account .friends, .account .score] (friendship who whom : Act n Unit) := by
    simp
  have hstay := accounts_stay (hcomp.steps.step hr) (by decide)
  obtain ⟨G, W, hs⟩ := hs
  unfold MuseChain.friendship at hr
  obtain ⟨i1, _, _, _, hr⟩ := bind_getAccountId_ok hr
  obtain ⟨i2, _, _, _, hr⟩ := bind_getAccountId_ok hr
  obtain ⟨a1, ha1, hr⟩ := bind_getAccount_ok.mp hr
  obtain ⟨a2, ha2, hr⟩ := bind_getAccount_ok.mp hr
  obtain ⟨hfr1, _, hwt1⟩ := hs.drawn i1 a1 ha1
  obtain ⟨_, _, hwt2⟩ := hs.drawn i2 a2 ha2
  split at hr
  · cases hr
    exact ⟨G, W, hs⟩
  · rename_i hfriends
    have hadj : ¬G.Adj i1 i2 := fun h => hfriends ((hfr1.mem i2).mpr h)
    split at hr
    · cases hr
      exact ⟨G, W, hs⟩
    · rename_i hasked
      have hback : i1 ∉ W i2 := fun h => hasked ((hwt2.mem i1).mpr h)
      split at hr
      · rename_i hwaits
        -- who waits for himself has asked himself, and asking again does nothing
        have hne : i1 ≠ i2 := by
          rintro rfl
          exact hback ((hwt1.mem i1).mp hwaits)
        exact ⟨_, _, hs.accept ha1 ha2 hne hadj hback hr hstay⟩
      · rename_i hnew
        have hfirst : i2 ∉ W i1 := fun h => hnew ((hwt1.mem i2).mpr h)
        have hdrawn := hs.drawn.modifyWaiting (fun l hl => hl.setInsert i1) hr
        exact ⟨_, _, hs.request hdrawn hstay ⟨a2, ha2⟩ hadj hfirst⟩

theorem Friendly.of_unfriend {who whom : String}
    (hr : (unfriend who whom : Act n Unit).run d = .ok u d') (hs : Friendly d.store) :
    Friendly d'.store := by
  have hcomp : Composed [.account .friends, .account .score] (unfriend who whom : Act n Unit) := by
    simp
  have hstay := accounts_stay (hcomp.steps.step hr) (by decide)
  obtain ⟨G, W, hs⟩ := hs
  -- a request that is withdrawn, of either of the two
  have herase : ∀ {i j : Nat}, (Action.modify (S := chainSchema) Kind.account i
      (fun a : Account => { a with waiting := a.waiting.erase j }) : Act n Unit).run d = .ok u d' →
      Friendly d'.store := by
    intro i j hr
    have hdrawn := hs.drawn.modifyWaiting (fun l hl => hl.erase j) hr
    refine ⟨G, _, hs.withdraw hdrawn hstay fun k => ?_⟩
    by_cases hk : k = i
    · subst hk
      rw [Function.update_self]
      exact Set.sdiff_subset
    · rw [Function.update_of_ne hk]
  unfold MuseChain.unfriend at hr
  obtain ⟨i1, _, _, _, hr⟩ := bind_getAccountId_ok hr
  obtain ⟨i2, _, _, _, hr⟩ := bind_getAccountId_ok hr
  obtain ⟨a1, ha1, hr⟩ := bind_getAccount_ok.mp hr
  obtain ⟨a2, ha2, hr⟩ := bind_getAccount_ok.mp hr
  split at hr
  · exact herase hr
  · split at hr
    · exact herase hr
    · split at hr
      · rename_i hfriends
        have hadj : G.Adj i2 i1 := ((hs.drawn i2 a2 ha2).friends.mem i1).mp hfriends
        exact ⟨_, _, hs.part hadj.symm.ne hr hstay⟩
      · cases hr
        exact ⟨G, W, hs⟩

/-- **Every step keeps the friend graph.** -/
theorem ChainStep.friendly [Fc] {ok : Store chainSchema → Operation → Prop}
    {s t : Store chainSchema} (h : ChainStep ok s t) (hs : Friendly s) : Friendly t := by
  cases h with
  | operation clock n push op _ ha _ hr =>
    cases op with
    | friendship who whom => exact hs.of_friendship hr
    | unfriend who whom => exact hs.of_unfriend hr
    | proposalUpdate o => cases ha
    | _ =>
      exact hs.of_circling ((circling_of_composed (composed_evaluate clock push ha)
        (by simp +decide [Operation.parts]) (by simp +decide [Operation.parts])).step hr)
  | routine n r hr =>
    refine hs.of_circling ((circling_of_composed (Routine.composed_act r) ?_ ?_).step hr)
    · cases r <;> simp +decide [Routine.parts]
    · cases r <;> simp +decide [Routine.parts]

theorem circling_initGenesis [Fc] (g : GenesisState) : Steps (Obeys circling) (initGenesis g) :=
  (made_initGenesis g).mono fun _ _ h => circling_of_changes h (by decide) (by decide)

theorem friendly_genesis [Fc] {g : GenesisState} {d : Database chainSchema}
    (h : (initGenesis g).run emptyDatabase = .ok u d) :
    Friendly d.store := by
  refine Friendly.of_circling (s := emptyStore) ?_ ((circling_initGenesis g).step h)
  have hno : ∀ i (a : Account), emptyStore.get Kind.account i ≠ some a := fun i a ha => nomatch ha
  exact ⟨⊥, fun _ => ∅, fun i a ha => absurd ha (hno i a), fun _ _ h => h.elim,
    fun _ _ h => h.elim, fun _ _ h => h.elim, fun _ _ _ h => h.elim⟩

/-- **Friendship is symmetric and irreflexive, no request is open between friends or in both
directions, and the second level is the friends of the friends.** -/
theorem friends_consistent [Fc] {ok : Store chainSchema → Operation → Prop} {g : GenesisState}
    {s : Store chainSchema} (h : Reached ok g s) {i : Nat} {a : Account}
    (ha : s.get Kind.account i = some a) :
    i ∉ a.friends ∧
    (∀ x ∈ a.friends, ∃ b : Account, s.get Kind.account x = some b ∧ i ∈ b.friends) ∧
    (∀ x ∈ a.friends, x ∉ a.waiting) ∧
    (∀ x (b : Account), x ≠ i → s.get Kind.account x = some b → x ∈ a.waiting → i ∉ b.waiting) ∧
    (∀ x, x ∈ a.secondLevel ↔ x ≠ i ∧ ∃ f ∈ a.friends, ∃ b : Account,
      s.get Kind.account f = some b ∧ x ∈ b.friends) := by
  obtain ⟨G, W, hs⟩ : Friendly s := h.invariant friendly_genesis fun hst => hst.friendly
  obtain ⟨hfr, hsl, hwt⟩ := hs.drawn i a ha
  have hother : ∀ {x}, G.Adj i x → ∃ b : Account, s.get Kind.account x = some b ∧
      ∀ y, y ∈ b.friends ↔ G.Adj x y := fun {x} hx =>
    let ⟨b, hb⟩ := hs.known x i hx.symm
    ⟨b, hb, (hs.drawn x b hb).friends.mem⟩
  refine ⟨fun hi => ?_, fun x hx => ?_, fun x hx hw => ?_, fun x b hne hb hx hi => ?_, fun x => ?_⟩
  · exact G.irrefl ((hfr.mem i).mp hi)
  · have hadj : G.Adj i x := (hfr.mem x).mp hx
    obtain ⟨b, hb, hmem⟩ := hother hadj
    exact ⟨b, hb, (hmem i).mpr hadj.symm⟩
  · exact hs.apart i x ((hwt.mem x).mp hw) ((hfr.mem x).mp hx)
  · exact hs.oneWay i x hne.symm ((hwt.mem x).mp hx) (((hs.drawn x b hb).waiting.mem i).mp hi)
  · rw [hsl.mem]
    refine mem_twoStep.trans (and_comm.trans (and_congr_right fun _ => ?_))
    constructor
    · rintro ⟨f, hf, hfx⟩
      obtain ⟨b, hb, hmem⟩ := hother hf
      exact ⟨f, (hfr.mem f).mpr hf, b, hb, (hmem x).mpr hfx⟩
    · rintro ⟨f, hf, b, hb, hx⟩
      exact ⟨f, (hfr.mem f).mp hf, ((hs.drawn f b hb).friends.mem x).mp hx⟩

section

attribute [local instance] sampleFc

def friendsGenesis : GenesisState :=
  { sampleGenesis with
    initialAccounts := [{ name := "alice", ownerKey := 1 }, { name := "bob", ownerKey := 2 },
      { name := "carol", ownerKey := 3 }] }

def friendsStart : Database chainSchema :=
  ((initGenesis friendsGenesis).run emptyDatabase).db

/-- Bob accepted alice, and carol accepted bob. -/
def threeFriends : Database chainSchema :=
  evaluated (.friendship "carol" "bob") (evaluated (.friendship "bob" "carol")
    (evaluated (.friendship "bob" "alice") (evaluated (.friendship "alice" "bob") friendsStart)))

theorem reached_threeFriends : Reached (fun _ _ => True) friendsGenesis threeFriends.store := by
  have hstart : Reached (fun _ _ => True) friendsGenesis friendsStart.store := by
    obtain ⟨u, hu⟩ := Outcome.exists_of_isOk (show ((initGenesis friendsGenesis).run
      emptyDatabase).isOk = true by decide +kernel)
    exact ⟨u, _, hu, .refl⟩
  refine Reached.evaluated ?_ (by decide) rfl trivial (by decide +kernel)
  refine Reached.evaluated ?_ (by decide) rfl trivial (by decide +kernel)
  refine Reached.evaluated ?_ (by decide) rfl trivial (by decide +kernel)
  exact hstart.evaluated (by decide) rfl trivial (by decide +kernel)

/-- Carol is a friend of a friend of alice. -/
theorem friends_consistent_alice :
    ∃ a : Account, threeFriends.store.get Kind.account 4 = some a ∧
      (a.friends = [5] ∧ a.secondLevel = [6]) ∧ 4 ∉ a.friends ∧
      (∀ x ∈ a.friends, ∃ b : Account,
        threeFriends.store.get Kind.account x = some b ∧ 4 ∈ b.friends) ∧
      (∀ x ∈ a.friends, x ∉ a.waiting) ∧
      (∀ x (b : Account), x ≠ 4 → threeFriends.store.get Kind.account x = some b →
        x ∈ a.waiting → 4 ∉ b.waiting) ∧
      (∀ x, x ∈ a.secondLevel ↔ x ≠ 4 ∧ ∃ f ∈ a.friends, ∃ b : Account,
        threeFriends.store.get Kind.account f = some b ∧ x ∈ b.friends) := by
  have hlists : (threeFriends.store.get Kind.account 4).map
      (fun a : Account => (a.friends, a.secondLevel)) = some ([5], [6]) := by decide +kernel
  obtain ⟨a, ha, e⟩ := Option.map_eq_some_iff.mp hlists
  exact ⟨a, ha, Prod.mk.inj e, friends_consistent reached_threeFriends ha⟩

end

end MuseChain
