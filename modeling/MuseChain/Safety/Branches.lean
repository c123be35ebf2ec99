/-
  File:      MuseChain/Safety/Branches.lean
  Subject:   The branches of two blocks in the fork database.

  * `ForkDb.Grown f made`: the fork databases that its operations lead to, with all items that were
    ever made. The parent links are set when an item is made.
  * `Walk f a w z`: the items `w` from `a` down to `z`, as the parent links can be followed now.
  * **`fetch_branch_spec`**: fetch_branch_from ends. What it returns are two chains, not empty,
    down to blocks with the same previous block. It throws where a parent that it needs was dropped,
    or where the two blocks have no common ancestor.
-/
import MuseChain.Chain.ForkDatabase
import MuseChain.Chain.Genesis
import Mathlib.Data.List.Chain
import Mathlib.Logic.Relation

namespace MuseChain

namespace ForkDb

variable {f f' : ForkDb} {made : List ForkItem} {a b x y z p : ForkItem}

/-! ## 1. What a fork database holds -/

/-- The items that a weak pointer can be locked to. -/
def alive (f : ForkDb) : List ForkItem := f.index ++ f.head.toList

section

variable [Fc]

/-- The fork databases that are reached, with the items that were made on the way. The head is set
to, and kept alive by, items that were made before. -/
inductive Grown : ForkDb → List ForkItem → Prop
  | empty (size : Nat) : Grown { ForkDb.empty with maxSize := size } []
  | startBlock {f : ForkDb} {made : List ForkItem} (b : SignedBlock) : Grown f made →
      Grown (f.startBlock b) (itemOf f.nextTag b none :: made)
  | pushBlock {f f' : ForkDb} {made : List ForkItem} {b : SignedBlock} {prev : Option Nat} :
      Grown f made → f.linkOf b = .ok prev → f.pushBlock b = .ok f' →
      Grown f' (itemOf f.nextTag b prev :: made)
  | popBlock {f f' : ForkDb} {made held : List ForkItem} : Grown f made → held ⊆ made →
      f.popBlock held = .ok f' → Grown f' made
  | setHead {f : ForkDb} {made : List ForkItem} {item : ForkItem} : Grown f made → item ∈ made →
      Grown (f.setHead item) made
  | remove {f : ForkDb} {made : List ForkItem} (id : BlockId) : Grown f made →
      Grown (f.remove id) made
  | setMaxSize {f : ForkDb} {made : List ForkItem} (size : Nat) : Grown f made →
      Grown (f.setMaxSize size) made

end

/-- The parent that the link of an item was set to. -/
def IsParent (made : List ForkItem) (x p : ForkItem) : Prop := p ∈ made ∧ x.prev = some p.tag

/-- The invariant of a fork database. -/
structure Sound (f : ForkDb) (made : List ForkItem) : Prop where
  tags : made.Pairwise fun x y => x.tag ≠ y.tag
  fresh : ∀ x ∈ made, x.tag < f.nextTag
  alive : f.alive ⊆ made
  num : ∀ x ∈ made, x.num = x.id.num
  small : ∀ x ∈ made, x.num < 2 ^ 32
  above : ∀ x ∈ made, x.num = u32 (x.data.previous.num + 1)
  parent : ∀ x ∈ made, ∀ t, x.prev = some t →
    ∃ p, IsParent made x p ∧ p.id = x.data.previous ∧ p.num + 1 = x.num

theorem eq_of_tag (hs : Sound f made) (hx : x ∈ made) (hy : y ∈ made) (h : x.tag = y.tag) :
    x = y := by
  have hsymm : Std.Symm fun x y : ForkItem => x.tag ≠ y.tag := ⟨fun _ _ => Ne.symm⟩
  by_contra hne
  exact hs.tags.forall hx hy hne h

theorem lock_some {held : List ForkItem} {prev : Option Nat} (h : f.lock held prev = some p) :
    prev = some p.tag ∧ p ∈ f.alive ++ held := by
  unfold lock at h
  split at h
  · cases h
  · have htest := List.find?_some h
    exact ⟨congrArg some (of_decide_eq_true htest).symm, List.mem_of_find?_eq_some h⟩

/-- A change that makes no items. -/
theorem Sound.of_alive (hs : Sound f made) (htag : f'.nextTag = f.nextTag)
    (h : f'.alive ⊆ made) : Sound f' made :=
  ⟨hs.tags, fun x hx => htag ▸ hs.fresh x hx, h, hs.num, hs.small, hs.above, hs.parent⟩

theorem mem_alive : x ∈ f.alive ↔ x ∈ f.index ∨ f.head = some x := by
  unfold alive
  rw [List.mem_append, Option.mem_toList]

theorem Sound.index (hs : Sound f made) (h : x ∈ f.index) : x ∈ made :=
  hs.alive (mem_alive.mpr (.inl h))

theorem Sound.head (hs : Sound f made) (h : f.head = some x) : x ∈ made :=
  hs.alive (mem_alive.mpr (.inr h))

theorem mem_insert (h : x ∈ (f.insert p).index) : x ∈ f.index ∨ x = p := by
  unfold insert at h
  dsimp only at h
  split at h
  · exact .inl h
  · exact (List.mem_append.mp h).imp_right List.mem_singleton.mp

theorem mem_alive_advance (h : x ∈ (f.advance p).alive) : x ∈ f.alive ∨ x = p := by
  unfold advance at h
  split at h
  · obtain h | h := mem_alive.mp h
    · exact .inl (mem_alive.mpr (.inl h))
    · exact .inr (Option.some.inj h).symm
  · split at h
    · obtain h | h := mem_alive.mp h
      · exact .inl (mem_alive.mpr (.inl (List.mem_of_mem_filter h)))
      · exact .inr (Option.some.inj h).symm
    · exact .inl h

section

variable [Fc]

/-- An item of a block, with a link to the item of the block before it. -/
theorem Sound.make (hs : Sound f made) (b : SignedBlock) {prev : Option Nat}
    (hlink : ∀ t, prev = some t → ∃ p ∈ made, p.tag = t ∧ p.id = b.previous ∧
      p.num + 1 = b.blockNum) (htag : f'.nextTag = f.nextTag + 1)
    (halive : ∀ x ∈ f'.alive, x ∈ f.alive ∨ x = itemOf f.nextTag b prev) :
    Sound f' (itemOf f.nextTag b prev :: made) := by
  refine ⟨List.pairwise_cons.mpr ⟨fun y hy => (hs.fresh y hy).ne', hs.tags⟩, ?_, ?_, ?_, ?_, ?_, ?_⟩
  · rintro x (_ | ⟨_, hx⟩)
    · rw [htag]
      exact Nat.lt_succ_self _
    · rw [htag]
      exact (hs.fresh x hx).trans (Nat.lt_succ_self _)
  · intro x hx
    obtain hx | rfl := halive x hx
    · exact List.mem_cons_of_mem _ (hs.alive hx)
    · exact List.mem_cons_self
  · rintro x (_ | ⟨_, hx⟩)
    · rfl
    · exact hs.num x hx
  · rintro x (_ | ⟨_, hx⟩)
    · exact Nat.mod_lt _ (by decide)
    · exact hs.small x hx
  · rintro x (_ | ⟨_, hx⟩)
    · rfl
    · exact hs.above x hx
  · rintro x (_ | ⟨_, hx⟩) t ht
    · obtain ⟨p, hp, rfl, hid, hnum⟩ := hlink t ht
      exact ⟨p, ⟨List.mem_cons_of_mem _ hp, ht⟩, hid, hnum⟩
    · obtain ⟨p, ⟨hp, htp⟩, hid, hnum⟩ := hs.parent x hx t ht
      exact ⟨p, ⟨List.mem_cons_of_mem _ hp, htp⟩, hid, hnum⟩

omit [Fc] in
/-- A link goes to the item of the previous block, one number below. -/
theorem linkOf_parent (hs : Sound f made) {b : SignedBlock} {prev : Option Nat}
    (h : f.linkOf b = .ok prev) {t : Nat} (ht : prev = some t) :
    ∃ p ∈ made, p.tag = t ∧ p.id = b.previous ∧ p.num + 1 = b.blockNum := by
  unfold linkOf at h
  split at h
  · cases h
    cases ht
  · rename_i top _
    split at h
    · cases h
    · rename_i hrecent
      split at h
      · cases h
        cases ht
      · split at h
        · rename_i p hfind
          cases h
          obtain rfl := Option.some.inj ht
          have htest := List.find?_some hfind
          have hid : p.id = b.previous := of_decide_eq_true htest
          have hp := hs.index (List.mem_of_find?_eq_some hfind)
          refine ⟨p, hp, rfl, hid, ?_⟩
          -- the number of a block that is pushed is not 0
          have hnum : p.num = b.previous.num := (hs.num p hp).trans (congrArg BlockId.num hid)
          have hsmall := hs.small p hp
          unfold SignedBlockHeader.blockNum u32 at hrecent ⊢
          omega
        · cases h

/-- **The items and their links stay sound.** -/
theorem Grown.sound (h : Grown f made) : Sound f made := by
  induction h with
  | empty size =>
    exact ⟨.nil, by simp, by simp [alive, ForkDb.empty], by simp, by simp, by simp, by simp⟩
  | startBlock b _ ih =>
    refine ih.make b (by simp) rfl fun x hx => ?_
    obtain hx | hx := mem_alive.mp hx
    · exact (mem_insert hx).imp_left fun h => mem_alive.mpr (.inl h)
    · exact .inr (Option.some.inj hx).symm
  | @pushBlock f f' made b prev _ hlink hpush ih =>
    unfold ForkDb.pushBlock at hpush
    rw [hlink] at hpush
    obtain rfl := Except.ok.inj hpush
    refine ih.make b (fun t ht => linkOf_parent ih hlink ht) ?_ fun x hx => ?_
    · unfold advance insert
      dsimp only
      split
      · rfl
      · split
        · rfl
        · rfl
    · obtain hx | hx := mem_alive_advance hx
      · obtain hx | hx := mem_alive.mp hx
        · exact (mem_insert hx).imp_left fun h => mem_alive.mpr (.inl h)
        · exact .inl (mem_alive.mpr (.inr hx))
      · exact .inr hx
  | popBlock _ hheld hpop ih =>
    unfold ForkDb.popBlock at hpop
    split at hpop
    · cases hpop
    · split at hpop
      · cases hpop
      · rename_i p hlock
        obtain rfl := Except.ok.inj hpop
        refine ih.of_alive rfl fun x hx => ?_
        obtain hx | hx := mem_alive.mp hx
        · exact ih.index hx
        · obtain rfl := Option.some.inj hx
          obtain hp | hp := List.mem_append.mp (lock_some hlock).2
          · exact ih.alive hp
          · exact hheld hp
  | setHead _ hitem ih =>
    refine ih.of_alive rfl fun x hx => ?_
    obtain hx | hx := mem_alive.mp hx
    · exact ih.index hx
    · obtain rfl := Option.some.inj hx
      exact hitem
  | remove id _ ih =>
    refine ih.of_alive rfl fun x hx => ?_
    obtain hx | hx := mem_alive.mp hx
    · exact ih.index (List.mem_of_mem_filter hx)
    · exact ih.head hx
  | setMaxSize size _ ih =>
    unfold ForkDb.setMaxSize
    split
    · exact ih.of_alive rfl ih.alive
    · refine ih.of_alive rfl fun x hx => ?_
      obtain hx | hx := mem_alive.mp hx
      · exact ih.index (List.mem_of_mem_filter hx)
      · exact ih.head hx

end

/-! ## 2. Walks -/

/-- The items `w` from `a` on, each the parent of the one before as the links can be followed now,
and `z`, the parent of the last. -/
inductive Walk (f : ForkDb) : ForkItem → List ForkItem → ForkItem → Prop
  | here (a : ForkItem) : Walk f a [] a
  | up {a p z : ForkItem} {w : List ForkItem} : f.lock [] a.prev = some p → Walk f p w z →
      Walk f a (a :: w) z

/-- An item and those that it descends from. -/
def Ancestor (made : List ForkItem) : ForkItem → ForkItem → Prop :=
  Relation.ReflTransGen (IsParent made)

/-- The block of the second item comes right before that of the first. -/
def Follows (x y : ForkItem) : Prop := x.data.previous = y.id

/-- The parent of an item was dropped: it was linked, and the link cannot be followed. -/
def Dropped (f : ForkDb) (made : List ForkItem) (x : ForkItem) : Prop :=
  ∃ p, IsParent made x p ∧ p.id = x.data.previous ∧ p ∉ f.alive

section

variable (hs : Sound f made) {w : List ForkItem}

include hs

theorem lock_parent (hx : x ∈ made) (h : f.lock [] x.prev = some p) :
    IsParent made x p ∧ Follows x p ∧ p.num + 1 = x.num ∧ p ∈ f.alive := by
  obtain ⟨htag, hp⟩ := lock_some h
  rw [List.append_nil] at hp
  obtain ⟨q, hq, hid, hnum⟩ := hs.parent x hx _ htag
  obtain rfl := eq_of_tag hs (hs.alive hp) hq.1 (Option.some.inj (htag.symm.trans hq.2))
  exact ⟨hq, hid.symm, hnum, hp⟩

theorem lock_none (hx : x ∈ made) (h : f.lock [] x.prev = none) :
    x.prev = none ∨ Dropped f made x := by
  cases ht : x.prev with
  | none => exact .inl rfl
  | some t =>
    obtain ⟨p, hp, hid, _⟩ := hs.parent x hx t ht
    refine .inr ⟨p, hp, hid, fun halive => ?_⟩
    unfold lock at h
    rw [hp.2] at h
    exact List.find?_eq_none.mp h p (List.mem_append_left _ halive) (decide_eq_true rfl)

theorem IsParent.unique (hp : IsParent made x p) (hy : IsParent made x y) : p = y :=
  eq_of_tag hs hp.1 hy.1 (Option.some.inj (hp.2.symm.trans hy.2))

theorem IsParent.num (hx : x ∈ made) (h : IsParent made x p) : p.num + 1 = x.num := by
  obtain ⟨q, hq, _, hnum⟩ := hs.parent x hx _ h.2
  obtain rfl := h.unique hs hq
  exact hnum

theorem Ancestor.mem (h : Ancestor made x z) (hx : x ∈ made) : z ∈ made ∧ z.num ≤ x.num := by
  induction h with
  | refl => exact ⟨hx, le_rfl⟩
  | tail _ hp ih =>
    have hnum := hp.num hs ih.1
    exact ⟨hp.1, by omega⟩

/-- Two ancestors of an item: the lower one is an ancestor of the higher one. -/
theorem Ancestor.between (hy : Ancestor made x y) (hz : Ancestor made x z) (hx : x ∈ made)
    (h : z.num ≤ y.num) : Ancestor made y z := by
  induction hy using Relation.ReflTransGen.head_induction_on with
  | refl => exact hz
  | head hp hrest ih =>
    rename_i x p
    rcases Relation.ReflTransGen.cases_head hz with rfl | ⟨q, hq, hqz⟩
    · -- the higher one is below the first item
      have hnum := hp.num hs hx
      have hle := (Ancestor.mem hs hrest hp.1).2
      omega
    · obtain rfl := hp.unique hs hq
      exact ih hqz hp.1

/-- At one height there is one ancestor. -/
theorem Ancestor.eq (hy : Ancestor made x y) (hz : Ancestor made x z) (hx : x ∈ made)
    (h : z.num = y.num) : z = y := by
  have hyz := Ancestor.between hs hy hz hx h.le
  rcases Relation.ReflTransGen.cases_head hyz with rfl | ⟨q, hq, hqz⟩
  · rfl
  · have hnum := hq.num hs (Ancestor.mem hs hy hx).1
    have hle := (Ancestor.mem hs hqz hq.1).2
    omega

theorem Walk.ancestor (h : Walk f a w z) (ha : a ∈ made) : Ancestor made a z := by
  induction h with
  | here => exact .refl
  | up hlock _ ih =>
    have hparent := (lock_parent hs ha hlock).1
    exact .head hparent (ih hparent.1)

theorem Walk.num (h : Walk f a w z) (ha : a ∈ made) : a.num = z.num + w.length := by
  induction h with
  | here => rfl
  | up hlock _ ih =>
    obtain ⟨hparent, _, hnum, _⟩ := lock_parent hs ha hlock
    have hrest := ih hparent.1
    rw [List.length_cons]
    omega

/-- What is walked over are alive items, from the highest down. -/
theorem Walk.alive (h : Walk f a w z) (ha : a ∈ f.alive) :
    (∀ x ∈ w ++ [z], x ∈ f.alive) ∧ (w ++ [z]).Pairwise fun x y => y.num < x.num := by
  induction h with
  | here => simpa using ha
  | @up a p z w hlock hrest ih =>
    obtain ⟨hparent, _, hnum, hp⟩ := lock_parent hs (hs.alive ha) hlock
    obtain ⟨halive, hsorted⟩ := ih hp
    refine ⟨?_, List.pairwise_cons.mpr ⟨fun x hx => ?_, hsorted⟩⟩
    · rintro x (_ | ⟨_, hx⟩)
      · exact ha
      · exact halive x hx
    · -- everything further on is at most as high as the parent
      have hle : x.num ≤ p.num := by
        cases hrest with
        | here =>
          obtain rfl := List.mem_singleton.mp hx
          exact le_rfl
        | up =>
          obtain _ | ⟨_, hx⟩ := hx
          · exact le_rfl
          · exact (List.rel_of_pairwise_cons hsorted hx).le
      omega

/-- **A walk is no longer than there are items.** -/
theorem Walk.length_lt (h : Walk f a w z) (ha : a ∈ f.alive) : w.length < f.index.length + 2 := by
  obtain ⟨halive, hsorted⟩ := h.alive hs ha
  have hnodup : (w ++ [z]).Nodup := hsorted.imp fun hlt he => by
    rw [he] at hlt
    exact lt_irrefl _ hlt
  have hlen := (hnodup.subperm halive).length_le
  have hhead : f.head.toList.length ≤ 1 := by cases f.head <;> simp
  unfold ForkDb.alive at hlen
  rw [List.length_append, List.length_append, List.length_singleton] at hlen
  omega

theorem Walk.mem_ancestor (h : Walk f a w z) (ha : a ∈ made) (hx : x ∈ w ++ [z]) :
    Ancestor made a x := by
  induction h with
  | here =>
    obtain rfl := List.mem_singleton.mp hx
    exact .refl
  | up hlock _ ih =>
    have hparent := (lock_parent hs ha hlock).1
    obtain _ | ⟨_, hx⟩ := hx
    · exact .refl
    · exact .head hparent (ih hparent.1 hx)

/-- What is walked over before the last item is above it. -/
theorem Walk.above (h : Walk f a w z) (ha : a ∈ made) (hx : x ∈ w) :
    Ancestor made a x ∧ z.num + 1 ≤ x.num := by
  refine ⟨h.mem_ancestor hs ha (List.mem_append_left _ hx), ?_⟩
  induction h with
  | here => cases hx
  | up hlock hrest ih =>
    obtain ⟨hparent, _, hnum, _⟩ := lock_parent hs ha hlock
    obtain _ | ⟨_, hx⟩ := hx
    · have hle := hrest.num hs hparent.1
      omega
    · exact ih hparent.1 hx

theorem Walk.chain (h : Walk f a w z) (ha : a ∈ made) : (w ++ [z]).IsChain Follows := by
  induction h with
  | here => exact .singleton _
  | @up a p z w hlock hrest ih =>
    obtain ⟨hparent, hfollows, _, _⟩ := lock_parent hs ha hlock
    have hchain := ih hparent.1
    cases hrest with
    | here => exact .cons_cons hfollows hchain
    | up => exact .cons_cons hfollows hchain

end

theorem Walk.append {w v : List ForkItem} (h : Walk f a w y) (h' : Walk f y v z) :
    Walk f a (w ++ v) z := by
  induction h with
  | here => exact h'
  | up hlock _ ih => exact .up hlock (ih h')

theorem Walk.head? {w : List ForkItem} (h : Walk f a w z) : (w ++ [z]).head? = some a := by
  cases h with
  | here => rfl
  | up => rfl

/-! ## 3. The two branches -/

/-- From number `n` on no ancestors of the two items at one height have the same previous block. -/
def Apart (made : List ForkItem) (a b : ForkItem) (n : Nat) : Prop :=
  ∀ p q, Ancestor made a p → Ancestor made b q → p.num = q.num → n ≤ p.num →
    p.data.previous ≠ q.data.previous

/-- The way from `a` to where its branch meets that of `b` goes through the parent of `x`. -/
def Needs (made : List ForkItem) (a b x : ForkItem) : Prop :=
  Ancestor made a x ∧ Apart made a b x.num

/-- A walk that is needed cannot go on. -/
def Stuck (f : ForkDb) (made : List ForkItem) (a b : ForkItem) : Prop :=
  ∃ x, (Needs made a b x ∨ Needs made b a x) ∧ f.lock [] x.prev = none

/-- Some ancestors of the two items, or these themselves, have the same previous block. -/
def Meet (made : List ForkItem) (a b : ForkItem) : Prop :=
  ∃ p q, Ancestor made a p ∧ Ancestor made b q ∧ p.data.previous = q.data.previous

/-- What the two branches of two blocks are, the newest block first. -/
structure Branches (a b : ForkItem) (l r : List ForkItem) : Prop where
  first : l.head? = some a
  second : r.head? = some b
  firstChain : l.IsChain Follows
  secondChain : r.IsChain Follows
  last : ∃ x y, l.getLast? = some x ∧ r.getLast? = some y ∧ x.num = y.num ∧
    x.data.previous = y.data.previous
  apart : ∀ x ∈ l.dropLast, ∀ y ∈ r, x.num = y.num → x.data.previous ≠ y.data.previous

theorem Apart.symm {n : Nat} (h : Apart made a b n) : Apart made b a n :=
  fun p q hp hq hnum hn => (h q p hq hp hnum.symm (hnum ▸ hn)).symm

/-- A chain with the second branch at its end is one with the first branch there instead. -/
theorem Branches.switch {l r base : List ForkItem} (h : Branches a b l r)
    (hchain : (base ++ r.reverse).IsChain fun x y => Follows y x) :
    (base ++ l.reverse).IsChain (fun x y => Follows y x) ∧
      (base ++ l.reverse).getLast? = some a := by
  obtain ⟨x, y, hx, hy, -, hsame⟩ := h.last
  obtain ⟨hbase, -, hjoin⟩ := List.isChain_append.mp hchain
  refine ⟨List.isChain_append.mpr ⟨hbase, List.isChain_reverse.mpr h.firstChain, ?_⟩, ?_⟩
  · intro z hz x' hx'
    rw [List.head?_reverse, hx] at hx'
    obtain rfl := Option.some.inj hx'
    have hfollows : Follows y z := hjoin z hz y (by rw [List.head?_reverse, hy]; rfl)
    exact hsame.trans hfollows
  · rw [List.getLast?_append, List.getLast?_reverse, h.first]
    rfl

section

variable (hs : Sound f made) {n fuel : Nat} {l r acc : List ForkItem} {e : Exn}

include hs

/-- What is apart from two items at one height on is apart from their parents on. -/
theorem Apart.up (ha : a ∈ made) (hb : b ∈ made) (hnum : a.num = b.num)
    (hdiff : a.data.previous ≠ b.data.previous) (hx : IsParent made a x) (hy : IsParent made b y)
    (h : Apart made x y n) : Apart made a b n := by
  intro p q hp hq hpq hn
  have hxnum := hx.num hs ha
  have hynum := hy.num hs hb
  rcases eq_or_lt_of_le (Ancestor.mem hs hp ha).2 with htop | hlt
  · obtain rfl := Ancestor.eq hs .refl hp ha htop
    obtain rfl := Ancestor.eq hs .refl hq hb (by omega)
    exact hdiff
  · exact h p q (Ancestor.between hs (.single hx) hp ha (by omega))
      (Ancestor.between hs (.single hy) hq hb (by omega)) hpq hn

/-- Two items are apart as the ancestors of them are that are at the height of the lower one. -/
theorem Apart.of_ancestors (ha : a ∈ made) (hb : b ∈ made) (hx : Ancestor made a x)
    (hy : Ancestor made b y) (hxnum : x.num = min a.num b.num) (hynum : y.num = min a.num b.num)
    (h : Apart made x y n) : Apart made a b n := by
  intro p q hp hq hpq hn
  have hpa := (Ancestor.mem hs hp ha).2
  have hqb := (Ancestor.mem hs hq hb).2
  exact h p q (Ancestor.between hs hx hp ha (by omega)) (Ancestor.between hs hy hq hb (by omega))
    hpq hn

/-- An item without a parent is the lowest of all ancestors. -/
theorem Ancestor.le_of_root (ha : a ∈ made) (hx : Ancestor made a x) (hroot : x.prev = none)
    (hy : Ancestor made a y) : x.num ≤ y.num := by
  by_contra hlt
  rcases Relation.ReflTransGen.cases_head (Ancestor.between hs hx hy ha (by omega))
    with rfl | ⟨p, hp, -⟩
  · exact hlt le_rfl
  · rw [hp.2] at hroot
    cases hroot

/-- Where a walk has to go on and cannot, a parent was dropped or the branches do not meet. -/
theorem Needs.stuck (h : Needs made a b x) (ha : a ∈ made) (hb : b ∈ made)
    (hlock : f.lock [] x.prev = none) : Dropped f made x ∨ ¬ Meet made a b := by
  obtain ⟨hx, hapart⟩ := h
  obtain hroot | hdropped := lock_none hs (Ancestor.mem hs hx ha).1 hlock
  · refine .inr fun ⟨p, q, hp, hq, hsame⟩ => ?_
    have hnum : p.num = q.num := by
      rw [hs.above p (Ancestor.mem hs hp ha).1, hs.above q (Ancestor.mem hs hq hb).1, hsame]
    exact hapart p q hp hq hnum (Ancestor.le_of_root hs ha hx hroot hp) hsame
  · exact .inl hdropped

theorem Stuck.cases (h : Stuck f made a b) (ha : a ∈ made) (hb : b ∈ made) :
    (∃ x, (Needs made a b x ∨ Needs made b a x) ∧ Dropped f made x) ∨ ¬ Meet made a b := by
  obtain ⟨x, hneeds | hneeds, hlock⟩ := h
  · exact (hneeds.stuck hs ha hb hlock).imp_left fun hdropped => ⟨x, .inl hneeds, hdropped⟩
  · obtain hdropped | hmeet := hneeds.stuck hs hb ha hlock
    · exact .inl ⟨x, .inr hneeds, hdropped⟩
    · exact .inr fun ⟨p, q, hp, hq, hsame⟩ => hmeet ⟨q, p, hq, hp, hsame.symm⟩

theorem climb_ok (ha : a ∈ made) (h : f.climb n fuel a acc = .ok (z, l)) :
    ∃ w, l = acc ++ w ∧ Walk f a w z ∧ z.num = min a.num n := by
  induction fuel generalizing a acc with
  | zero => cases h
  | succ fuel ih =>
    unfold climb at h
    split at h
    · rename_i hlt
      split at h
      · cases h
      · rename_i p hlock
        obtain ⟨hparent, _, hnum, _⟩ := lock_parent hs ha hlock
        obtain ⟨w, rfl, hwalk, hz⟩ := ih hparent.1 h
        exact ⟨a :: w, by rw [List.append_assoc]; rfl, .up hlock hwalk, by omega⟩
    · cases h
      exact ⟨[], (List.append_nil _).symm, .here _, by omega⟩

theorem climb_error (ha : a ∈ made) (h : f.climb n fuel a acc = .error e) :
    (∃ w z, Walk f a w z ∧ n < z.num ∧ f.lock [] z.prev = none) ∨
      ∃ w z, Walk f a w z ∧ w.length = fuel := by
  induction fuel generalizing a acc with
  | zero => exact .inr ⟨[], a, .here a, rfl⟩
  | succ fuel ih =>
    unfold climb at h
    split at h
    · rename_i hlt
      split at h
      · rename_i hlock
        exact .inl ⟨[], a, .here a, hlt, hlock⟩
      · rename_i p hlock
        obtain ⟨w, z, hwalk, hz⟩ | ⟨w, z, hwalk, hlen⟩ := ih (lock_parent hs ha hlock).1.1 h
        · exact .inl ⟨a :: w, z, .up hlock hwalk, hz⟩
        · exact .inr ⟨a :: w, z, .up hlock hwalk, congrArg Nat.succ hlen⟩
    · cases h

theorem climbBoth_ok (ha : a ∈ made) (hb : b ∈ made) (hnum : a.num = b.num)
    {first second : List ForkItem} (h : f.climbBoth fuel a b first second = .ok (l, r)) :
    ∃ u v x y, l = first ++ (u ++ [x]) ∧ r = second ++ (v ++ [y]) ∧ Walk f a u x ∧ Walk f b v y ∧
      x.num = y.num ∧ x.data.previous = y.data.previous ∧ Apart made a b (x.num + 1) := by
  induction fuel generalizing a b first second with
  | zero => cases h
  | succ fuel ih =>
    unfold climbBoth at h
    split at h
    · rename_i hsame
      cases h
      refine ⟨[], [], a, b, rfl, rfl, .here a, .here b, hnum, hsame, fun p _ hp _ _ hlt => ?_⟩
      exact absurd (Ancestor.mem hs hp ha).2 (Nat.not_le_of_lt hlt)
    · rename_i hdiff
      split at h
      · rename_i p q hp hq
        obtain ⟨hpparent, _, hpnum, _⟩ := lock_parent hs ha hp
        obtain ⟨hqparent, _, hqnum, _⟩ := lock_parent hs hb hq
        obtain ⟨u, v, x, y, rfl, rfl, hu, hv, hxy, hsame, hapart⟩ :=
          ih hpparent.1 hqparent.1 (by omega) h
        exact ⟨a :: u, b :: v, x, y, by simp, by simp, .up hp hu, .up hq hv, hxy, hsame,
          hapart.up hs ha hb hnum hdiff hpparent hqparent⟩
      · cases h

theorem climbBoth_error (ha : a ∈ made) (hb : b ∈ made) (hnum : a.num = b.num)
    {first second : List ForkItem} (h : f.climbBoth fuel a b first second = .error e) :
    (∃ u v x y, Walk f a u x ∧ Walk f b v y ∧ x.num = y.num ∧ Apart made a b x.num ∧
      (f.lock [] x.prev = none ∨ f.lock [] y.prev = none)) ∨
      ∃ u x, Walk f a u x ∧ u.length = fuel := by
  induction fuel generalizing a b first second with
  | zero => exact .inr ⟨[], a, .here a, rfl⟩
  | succ fuel ih =>
    unfold climbBoth at h
    split at h
    · cases h
    · rename_i hdiff
      split at h
      · rename_i p q hp hq
        obtain ⟨hpparent, _, hpnum, _⟩ := lock_parent hs ha hp
        obtain ⟨hqparent, _, hqnum, _⟩ := lock_parent hs hb hq
        obtain ⟨u, v, x, y, hu, hv, hxy, hapart, hlock⟩ | ⟨u, x, hu, hlen⟩ :=
          ih hpparent.1 hqparent.1 (by omega) h
        · exact .inl ⟨a :: u, b :: v, x, y, .up hp hu, .up hq hv, hxy,
            hapart.up hs ha hb hnum hdiff hpparent hqparent, hlock⟩
        · exact .inr ⟨a :: u, x, .up hp hu, congrArg Nat.succ hlen⟩
      · rename_i hlock
        refine .inl ⟨[], [], a, b, .here a, .here b, hnum, fun p q hp hq hpq hn => ?_, ?_⟩
        · have hpa := (Ancestor.mem hs hp ha).2
          obtain rfl := Ancestor.eq hs .refl hp ha (by omega)
          obtain rfl := Ancestor.eq hs .refl hq hb (by omega)
          exact hdiff
        · cases hp : f.lock [] a.prev with
          | none => exact .inl rfl
          | some p =>
            cases hq : f.lock [] b.prev with
            | none => exact .inr rfl
            | some q => exact absurd hq (hlock p q hp)

end

/-- The first two loops: down to the height of the lower block. -/
theorem fetch_climbs (hs : Sound f made) {first second : BlockId} (ha : f.find first = some a)
    (hb : f.find second = some b) :
    (∃ e, f.fetchBranchFrom first second = .error e ∧ Stuck f made a b) ∨
    ∃ x y v w, Walk f a v x ∧ Walk f b w y ∧ x.num = min a.num b.num ∧ y.num = min a.num b.num ∧
      f.fetchBranchFrom first second = f.climbBoth (f.index.length + 2) x y v w := by
  have haf : a ∈ f.alive := mem_alive.mpr (.inl (List.mem_of_find?_eq_some ha))
  have hbf : b ∈ f.alive := mem_alive.mpr (.inl (List.mem_of_find?_eq_some hb))
  unfold fetchBranchFrom
  rw [ha, hb]
  dsimp only
  cases hclimb : f.climb b.num (f.index.length + 2) a [] with
  | error e =>
    refine .inl ⟨e, rfl, ?_⟩
    obtain ⟨v, z, hwalk, hlt, hlock⟩ | ⟨v, z, hwalk, hlen⟩ := climb_error hs (hs.alive haf) hclimb
    · refine ⟨z, .inl ⟨hwalk.ancestor hs (hs.alive haf), fun p q _ hq hnum hn => ?_⟩, hlock⟩
      have hle := (Ancestor.mem hs hq (hs.alive hbf)).2
      omega
    · exact absurd hlen (hwalk.length_lt hs haf).ne
  | ok res =>
    obtain ⟨x, v⟩ := res
    obtain ⟨_, rfl, hv, hx⟩ := climb_ok hs (hs.alive haf) hclimb
    change (∃ e, (f.climb x.num (f.index.length + 2) b [] >>= fun res =>
        f.climbBoth (f.index.length + 2) x res.1 v res.2) = .error e ∧ _) ∨
      ∃ x' y v' w, _ ∧ _ ∧ _ ∧ _ ∧ (f.climb x.num (f.index.length + 2) b [] >>= fun res =>
        f.climbBoth (f.index.length + 2) x res.1 v res.2) = _
    cases hclimb' : f.climb x.num (f.index.length + 2) b [] with
    | error e =>
      refine .inl ⟨e, rfl, ?_⟩
      obtain ⟨w, z, hwalk, hlt, hlock⟩ | ⟨w, z, hwalk, hlen⟩ :=
        climb_error hs (hs.alive hbf) hclimb'
      · have hz := hwalk.ancestor hs (hs.alive hbf)
        have hzb := (Ancestor.mem hs hz (hs.alive hbf)).2
        refine ⟨z, .inr ⟨hz, fun p q _ hq hnum hn => ?_⟩, hlock⟩
        have hle := (Ancestor.mem hs hq (hs.alive haf)).2
        omega
      · exact absurd hlen (hwalk.length_lt hs hbf).ne
    | ok res =>
      obtain ⟨y, w⟩ := res
      obtain ⟨_, rfl, hw, hy⟩ := climb_ok hs (hs.alive hbf) hclimb'
      exact .inr ⟨x, y, v, w, hv, hw, hx, by omega, rfl⟩

section

variable [Fc]

/-- **The branches of two blocks.** fetch_branch_from ends for two blocks in the index. If it
returns, then the two chains are not empty, begin with the blocks, and end at the first blocks that
have the same previous block; in a chain that ends in the second block, the first chain can take the
place of the second one. If it throws, then a parent on its way was dropped, or the links do not
lead the two blocks to the same previous block. -/
theorem fetch_branch_spec (h : Grown f made) {first second : BlockId}
    (ha : f.find first = some a) (hb : f.find second = some b) :
    (∃ l r, f.fetchBranchFrom first second = .ok (l, r) ∧ Branches a b l r ∧
      ∀ base : List ForkItem, (base ++ r.reverse).IsChain (fun x y => Follows y x) →
        (base ++ l.reverse).IsChain (fun x y => Follows y x) ∧
          (base ++ l.reverse).getLast? = some a) ∨
    ∃ e, f.fetchBranchFrom first second = .error e ∧
      ((∃ x, (Needs made a b x ∨ Needs made b a x) ∧ Dropped f made x) ∨ ¬ Meet made a b) := by
  have hs := h.sound
  have haf : a ∈ f.alive := mem_alive.mpr (.inl (List.mem_of_find?_eq_some ha))
  have ham := hs.alive haf
  have hbm := hs.index (List.mem_of_find?_eq_some hb)
  obtain ⟨e, he, hstuck⟩ | ⟨x, y, v, w, hv, hw, hx, hy, heq⟩ := fetch_climbs hs ha hb
  · exact .inr ⟨e, he, hstuck.cases hs ham hbm⟩
  · rw [heq]
    have hax := hv.ancestor hs ham
    have hby := hw.ancestor hs hbm
    have hxm := (Ancestor.mem hs hax ham).1
    have hym := (Ancestor.mem hs hby hbm).1
    cases hboth : f.climbBoth (f.index.length + 2) x y v w with
    | error e =>
      refine .inr ⟨e, rfl, ?_⟩
      obtain ⟨v', w', x', y', hv', hw', hnum, hapart, hlock⟩ | ⟨v', x', hv', hlen⟩ :=
        climbBoth_error hs hxm hym (hx.trans hy.symm) hboth
      · have hapart := hapart.of_ancestors hs ham hbm hax hby hx hy
        refine Stuck.cases hs ?_ ham hbm
        obtain hlock | hlock := hlock
        · exact ⟨x', .inl ⟨(hv.append hv').ancestor hs ham, hapart⟩, hlock⟩
        · exact ⟨y', .inr ⟨(hw.append hw').ancestor hs hbm, (hnum ▸ hapart).symm⟩, hlock⟩
      · have hxf : x ∈ f.alive := (hv.alive hs haf).1 x (by simp)
        exact absurd hlen (hv'.length_lt hs hxf).ne
    | ok res =>
      obtain ⟨l, r⟩ := res
      obtain ⟨v', w', x', y', rfl, rfl, hv', hw', hnum, hsame, hapart⟩ :=
        climbBoth_ok hs hxm hym (hx.trans hy.symm) hboth
      have hapart := hapart.of_ancestors hs ham hbm hax hby hx hy
      rw [← List.append_assoc, ← List.append_assoc]
      have hleft := hv.append hv'
      have hright := hw.append hw'
      have hbranches : Branches a b (v ++ v' ++ [x']) (w ++ w' ++ [y']) := by
        refine ⟨hleft.head?, hright.head?, hleft.chain hs ham, hright.chain hs hbm,
          ⟨x', y', by simp, by simp, hnum, hsame⟩, fun p hp q hq hpq => ?_⟩
        rw [List.dropLast_concat] at hp
        obtain ⟨hpa, hpx⟩ := hleft.above hs ham hp
        exact hapart p q hpa (hright.mem_ancestor hs hbm hq) hpq hpx
      exact .inl ⟨_, _, rfl, hbranches, fun base => hbranches.switch⟩

end

section

attribute [local instance] sampleFc

def emptyBlock (previous : BlockId) (slot : Nat) : SignedBlock := ⟨sampleHeader previous slot, []⟩

def firstBlock : SignedBlock := emptyBlock ⟨0, 0⟩ 1

/-- The block of the init miner in a slot, after another block. -/
def blockAfter (b : SignedBlock) (slot : Nat) : SignedBlock :=
  emptyBlock b.toSignedBlockHeader.id slot

def firstItem : ForkItem := itemOf 0 firstBlock none

def leftItem : ForkItem := itemOf 1 (blockAfter firstBlock 2) (some 0)

def rightItem : ForkItem := itemOf 2 (blockAfter firstBlock 3) (some 0)

def topItem : ForkItem := itemOf 3 (blockAfter (blockAfter firstBlock 3) 4) (some 2)

/-- Two blocks after the first one, and a block after the second of them. -/
def forked : ForkDb := ⟨[firstItem, leftItem, rightItem, topItem], some topItem, 1024, 4⟩

theorem grown_forked : Grown forked [topItem, rightItem, leftItem, firstItem] := by
  have hfirst : Grown ⟨[firstItem], some firstItem, 1024, 1⟩ [firstItem] :=
    .pushBlock (.empty 1024) rfl rfl
  have hleft : Grown ⟨[firstItem, leftItem], some leftItem, 1024, 2⟩ [leftItem, firstItem] :=
    .pushBlock hfirst rfl rfl
  have hright : Grown ⟨[firstItem, leftItem, rightItem], some leftItem, 1024, 3⟩
      [rightItem, leftItem, firstItem] := .pushBlock hleft rfl rfl
  exact .pushBlock hright rfl rfl

/-- The branch of the newest block of the fork, and that of the block on the other side. -/
theorem fetch_branch_forked :
    (∃ l r, forked.fetchBranchFrom topItem.id leftItem.id = .ok (l, r) ∧
      Branches topItem leftItem l r ∧
      ∀ base : List ForkItem, (base ++ r.reverse).IsChain (fun x y => Follows y x) →
        (base ++ l.reverse).IsChain (fun x y => Follows y x) ∧
          (base ++ l.reverse).getLast? = some topItem) ∨
    ∃ e, forked.fetchBranchFrom topItem.id leftItem.id = .error e ∧
      ((∃ x, (Needs [topItem, rightItem, leftItem, firstItem] topItem leftItem x ∨
          Needs [topItem, rightItem, leftItem, firstItem] leftItem topItem x) ∧
        Dropped forked [topItem, rightItem, leftItem, firstItem] x) ∨
        ¬ Meet [topItem, rightItem, leftItem, firstItem] topItem leftItem) :=
  fetch_branch_spec grown_forked rfl rfl

def unlinkedItem : ForkItem := itemOf 0 (blockAfter firstBlock 2) none

def earlierItem : ForkItem := itemOf 1 firstBlock none

/-- The first block that is pushed has no link to the block before it, which can be pushed after
it: nothing was dropped, and the branches of the two are not found. -/
theorem unlinked_branch_throws :
    ∃ (f : ForkDb) (made : List ForkItem) (a b : ForkItem), Grown f made ∧ made ⊆ f.index ∧
      f.find a.id = some a ∧ f.find b.id = some b ∧ Follows a b ∧
      (∃ e, f.fetchBranchFrom a.id b.id = .error e) ∧ ∀ x, ¬ Dropped f made x := by
  have hfirst : Grown ⟨[unlinkedItem], some unlinkedItem, 1024, 1⟩ [unlinkedItem] :=
    .pushBlock (.empty 1024) rfl rfl
  have hlink : ForkDb.linkOf ⟨[unlinkedItem], some unlinkedItem, 1024, 1⟩ firstBlock = .ok none :=
    rfl
  have hgrown : Grown ⟨[unlinkedItem, earlierItem], some unlinkedItem, 1024, 2⟩
      [earlierItem, unlinkedItem] := .pushBlock hfirst hlink rfl
  have hmade : [earlierItem, unlinkedItem] ⊆ [unlinkedItem, earlierItem] := by simp
  refine ⟨_, _, unlinkedItem, earlierItem, hgrown, hmade, rfl, rfl, rfl, ⟨_, rfl⟩, ?_⟩
  rintro x ⟨p, hp, -, hdropped⟩
  exact hdropped (List.mem_append_left _ (hmade hp.1))

end

end ForkDb

end MuseChain
