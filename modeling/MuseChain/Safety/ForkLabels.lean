/-
  File:      MuseChain/Safety/ForkLabels.lean
  Subject:   Fork databases that are the same but for the tags of their items.

  A block that was taken and removed again has used up a tag, and may have become the head.
  * `ForkDb.Renamed ρ f f'`: the items of `f` are those of `f'`, with the tags renamed by `ρ`.
  * `ForkDb.Twin`: so are the heads. Then pushing, popping and fetching a branch do the same.
  * `ForkDb.Haunted g f f'`: the head of `f` is the block `g`, which was removed again and is one
    higher than anything in `f'`. A block that is pushed at its height makes the two alike again
    (`Haunted.pushBlock`).
-/
import MuseChain.Safety.Branches
import Mathlib.Data.List.Find

namespace MuseChain

/-! ## 1. Renamed items -/

def ForkItem.relabel (ρ : Nat → Nat) (i : ForkItem) : ForkItem :=
  { i with tag := ρ i.tag, prev := i.prev.map ρ }

section

variable (ρ : Nat → Nat) (i : ForkItem)

@[simp] theorem relabel_tag : (i.relabel ρ).tag = ρ i.tag := rfl

@[simp] theorem relabel_id : (i.relabel ρ).id = i.id := rfl

@[simp] theorem relabel_num : (i.relabel ρ).num = i.num := rfl

@[simp] theorem relabel_prev : (i.relabel ρ).prev = i.prev.map ρ := rfl

@[simp] theorem relabel_data : (i.relabel ρ).data = i.data := rfl

end

/-- The tags of an item are below `k`, and its number is the one of its id. -/
structure ForkItem.Fits (k : Nat) (i : ForkItem) : Prop where
  tag : i.tag < k
  prev : ∀ t, i.prev = some t → t < k
  num : i.num = i.id.num

theorem ForkItem.Fits.mono {k n : Nat} {i : ForkItem} (h : i.Fits k) (hk : k ≤ n) : i.Fits n :=
  ⟨h.tag.trans_le hk, fun t ht => (h.prev t ht).trans_le hk, h.num⟩

/-- Two renamings that agree below `k` rename an item the same. -/
theorem relabel_congr {ρ ρ' : Nat → Nat} {k : Nat} {i : ForkItem} (h : i.Fits k)
    (hρ : ∀ t < k, ρ' t = ρ t) : i.relabel ρ' = i.relabel ρ := by
  obtain ⟨tag, id, num, prev, data⟩ := i
  have htag : ρ' tag = ρ tag := hρ _ h.tag
  have hprev : prev.map ρ' = prev.map ρ := by
    cases prev with
    | none => rfl
    | some t => exact congrArg some (hρ t (h.prev t rfl))
  simp only [ForkItem.relabel, htag, hprev]

namespace ForkDb

variable {f f' : ForkDb} {ρ : Nat → Nat}

/-- What its operations keep of a fork database. -/
structure Fit (f : ForkDb) : Prop where
  items : ∀ x ∈ f.alive, x.Fits f.nextTag
  empty : f.head = none → f.index = []

theorem Fit.index (h : f.Fit) {x : ForkItem} (hx : x ∈ f.index) : x.Fits f.nextTag :=
  h.items x (mem_alive.mpr (.inl hx))

theorem Fit.head (h : f.Fit) {x : ForkItem} (hx : f.head = some x) : x.Fits f.nextTag :=
  h.items x (mem_alive.mpr (.inr hx))

/-- A fork database that grew from an empty one. -/
theorem Grown.fit [Fc] {made : List ForkItem} (h : Grown f made) : f.Fit := by
  have hs := h.sound
  refine ⟨fun x hx => ⟨hs.fresh x (hs.alive hx), fun t ht => ?_, hs.num x (hs.alive hx)⟩, ?_⟩
  · obtain ⟨p, ⟨hp, htp⟩, _, _⟩ := hs.parent x (hs.alive hx) t ht
    obtain rfl : t = p.tag := Option.some.inj (ht.symm.trans htp)
    exact hs.fresh p hp
  · clear hs
    induction h with
    | empty size => exact fun _ => rfl
    | startBlock b _ ih => exact fun e => by cases e
    | @pushBlock f f' made b prev _ hlink hpush ih =>
      intro e
      unfold ForkDb.pushBlock at hpush
      rw [hlink] at hpush
      obtain rfl := Except.ok.inj hpush
      unfold advance at e
      split at e
      · cases e
      · rename_i top htop
        split at e
        · cases e
        · rw [htop] at e
          cases e
    | popBlock _ _ hpop ih =>
      intro e
      unfold ForkDb.popBlock at hpop
      split at hpop
      · cases hpop
      · split at hpop
        · cases hpop
        · cases hpop
          cases e
    | setHead _ _ ih => exact fun e => by cases e
    | remove id _ ih =>
      intro e
      unfold ForkDb.remove
      rw [ih e, List.filter_nil]
    | setMaxSize size _ ih =>
      intro e
      unfold ForkDb.setMaxSize at e ⊢
      split at e
      · rename_i hnone
        exact ih hnone
      · rename_i top htop
        rw [htop] at e
        cases e

/-- The tags from `k'` on are renamed to those from `k` on. -/
structure Labels (ρ : Nat → Nat) (k k' : Nat) : Prop where
  inj : Function.Injective ρ
  next : ∀ j, ρ (k' + j) = k + j

/-- The renaming when a tag is used up on one side only. -/
def skipTag (ρ : Nat → Nat) (k' : Nat) (t : Nat) : Nat := if t < k' then ρ t else ρ t + 1

section

variable {k k' : Nat}

theorem Labels.succ (h : Labels ρ k k') : Labels ρ (k + 1) (k' + 1) := by
  refine ⟨h.inj, fun j => ?_⟩
  rw [show k' + 1 + j = k' + (j + 1) by omega, h.next]
  omega

/-- Tags that were given out before are renamed to such. -/
theorem Labels.lt_iff (h : Labels ρ k k') {t : Nat} : ρ t < k ↔ t < k' := by
  constructor
  · intro hlt
    by_contra hle
    have hj := h.next (t - k')
    rw [show k' + (t - k') = t by omega] at hj
    omega
  · intro ht
    by_contra hle
    have hj := h.next (ρ t - k)
    rw [show k + (ρ t - k) = ρ t by omega] at hj
    have := h.inj hj
    omega

theorem skipTag_of_lt {t : Nat} (ht : t < k') : skipTag ρ k' t = ρ t := if_pos ht

theorem Labels.skipTag (h : Labels ρ k k') : Labels (skipTag ρ k') (k + 1) k' := by
  refine ⟨fun s t hst => ?_, fun j => ?_⟩
  · have hs := h.lt_iff (t := s)
    have ht := h.lt_iff (t := t)
    unfold ForkDb.skipTag at hst
    split at hst
    · split at hst
      · exact h.inj hst
      · omega
    · split at hst
      · omega
      · exact h.inj (by omega)
  · have hj := h.next j
    unfold ForkDb.skipTag
    rw [if_neg (by omega), hj]
    omega

/-- Items of before keep their new names. -/
theorem Fit.relabel_skipTag {l : List ForkItem} (hl : ∀ x ∈ l, x.Fits k') :
    l.map (ForkItem.relabel (ForkDb.skipTag ρ k')) = l.map (ForkItem.relabel ρ) :=
  List.map_congr_left fun x hx => relabel_congr (hl x hx) fun _ => skipTag_of_lt

/-- A new item gets the new tag, and the link of its renamed. -/
theorem Labels.item [Fc] (h : Labels ρ k k') (b : SignedBlock) (prev : Option Nat) :
    itemOf k b (prev.map ρ) = (itemOf k' b prev).relabel ρ := by
  have h0 := h.next 0
  rw [Nat.add_zero, Nat.add_zero] at h0
  unfold itemOf ForkItem.relabel
  rw [h0]

end

/-- The items of `f` are those of `f'` with other tags. -/
structure Renamed (ρ : Nat → Nat) (f f' : ForkDb) : Prop where
  labels : Labels ρ f.nextTag f'.nextTag
  index : f.index = f'.index.map (ForkItem.relabel ρ)
  maxSize : f'.maxSize = f.maxSize

theorem Renamed.skipTag (h : Renamed ρ f f') (hfit : f'.Fit) :
    Renamed (ForkDb.skipTag ρ f'.nextTag) { f with nextTag := f.nextTag + 1 } f' := by
  refine ⟨h.labels.skipTag, ?_, h.maxSize⟩
  rw [Fit.relabel_skipTag fun x hx => hfit.index hx]
  exact h.index

theorem Renamed.find (h : Renamed ρ f f') (id : BlockId) :
    f.find id = (f'.find id).map (ForkItem.relabel ρ) := by
  unfold ForkDb.find
  rw [h.index, List.find?_map]
  rfl

theorem keepFrom_map (num : Nat) (l : List ForkItem) :
    keepFrom num (l.map (ForkItem.relabel ρ)) = (keepFrom num l).map (ForkItem.relabel ρ) := by
  unfold keepFrom
  rw [List.filter_map]
  rfl

/-! ## 2. Pushing -/

/-- The index with an item, unless its id is there. -/
def inserted (f : ForkDb) (item : ForkItem) : List ForkItem :=
  if (f.find item.id).isSome then f.index else f.index ++ [item]

/-- The two heads are at one height. -/
def Level (f f' : ForkDb) : Prop := f.head.map ForkItem.num = f'.head.map ForkItem.num

theorem Level.some {top : ForkItem} (h : Level f f') (hf' : f'.head = some top) :
    ∃ x, f.head = some x ∧ x.num = top.num := by
  unfold Level at h
  rw [hf'] at h
  exact Option.map_eq_some_iff.mp h

theorem Level.none (h : Level f f') (hf' : f'.head = none) : f.head = none := by
  unfold Level at h
  rw [hf'] at h
  exact Option.map_eq_none_iff.mp h

theorem Renamed.linkOf (h : Renamed ρ f f') (hlevel : Level f f') (b : SignedBlock) :
    f.linkOf b = (f'.linkOf b).map (Option.map ρ) := by
  unfold ForkDb.linkOf
  cases hf' : f'.head with
  | none =>
    rw [hlevel.none hf']
    rfl
  | some top =>
    obtain ⟨x, hf, hnum⟩ := hlevel.some hf'
    simp only [hf, hnum, h.maxSize, h.find]
    split
    · rfl
    · split
      · rfl
      · cases f'.find b.previous with
        | none => rfl
        | some p => rfl

theorem Renamed.link (h : Renamed ρ f f') (hlevel : Level f f') {b : SignedBlock}
    {prev : Option Nat} (hlink : f.linkOf b = .ok prev) :
    ∃ prev', f'.linkOf b = .ok prev' ∧ prev'.map ρ = prev := by
  rw [h.linkOf hlevel b] at hlink
  cases hl : f'.linkOf b with
  | error e =>
    rw [hl] at hlink
    cases hlink
  | ok prev' =>
    rw [hl] at hlink
    exact ⟨prev', rfl, Except.ok.inj hlink⟩

theorem Renamed.inserted (h : Renamed ρ f f') {item item' : ForkItem}
    (hitem : item = item'.relabel ρ) :
    f.inserted item = (f'.inserted item').map (ForkItem.relabel ρ) := by
  unfold ForkDb.inserted
  rw [hitem, relabel_id, h.find, Option.isSome_map]
  split
  · exact h.index
  · rw [h.index, List.map_append]
    rfl

section

variable {b : SignedBlock} {g : ForkDb}

/-- What `push_block` makes of the head and of the index. -/
inductive Pushed (f : ForkDb) (b : SignedBlock) (item : ForkItem) (g : ForkDb) : Prop
  | first : f.head = none → g.head = some item → g.index = f.inserted item → Pushed f b item g
  | higher (top : ForkItem) : f.head = some top → top.num < b.blockNum → g.head = some item →
      g.index = keepFrom (b.blockNum - f.maxSize) (f.inserted item) → Pushed f b item g
  | beside (top : ForkItem) : f.head = some top → b.blockNum ≤ top.num → g.head = some top →
      g.index = f.inserted item → Pushed f b item g

section

variable {item top : ForkItem}

theorem mem_inserted {x : ForkItem} (hx : x ∈ f.inserted item) : x ∈ f.index ∨ x = item := by
  unfold ForkDb.inserted at hx
  split at hx
  · exact .inl hx
  · exact (List.mem_append.mp hx).imp_right List.mem_singleton.mp

/-- Nothing else comes in. -/
theorem Pushed.alive (h : Pushed f b item g) {x : ForkItem} (hx : x ∈ g.alive) :
    x = item ∨ x ∈ f.alive := by
  have hold : ∀ {y : ForkItem}, y ∈ f.inserted item → y = item ∨ y ∈ f.alive := fun hy =>
    (mem_inserted hy).symm.imp_right fun hy => mem_alive.mpr (.inl hy)
  rcases mem_alive.mp hx with hx | hx
  · cases h with
    | first _ _ hindex => exact hold (hindex ▸ hx)
    | higher top _ _ _ hindex =>
      rw [hindex] at hx
      exact hold (List.mem_of_mem_filter hx)
    | beside top _ _ _ hindex => exact hold (hindex ▸ hx)
  · cases h with
    | first _ hhead _ => exact .inl (Option.some.inj (hx.symm.trans hhead))
    | higher top _ _ hhead _ => exact .inl (Option.some.inj (hx.symm.trans hhead))
    | beside top htop _ hhead _ =>
      rw [hhead, ← htop] at hx
      exact .inr (mem_alive.mpr (.inr hx))

theorem Pushed.head (h : Pushed f b item g) : g.head ≠ none := by
  intro hnone
  cases h with
  | first _ hhead _ => cases hnone.symm.trans hhead
  | higher top _ _ hhead _ => cases hnone.symm.trans hhead
  | beside top _ _ hhead _ => cases hnone.symm.trans hhead

/-- The head is the block that was pushed, or the one from before. -/
theorem Pushed.newHead (h : Pushed f b item g) (hg : g.head = some top) :
    top = item ∨ f.head = some top := by
  cases h with
  | first _ hhead _ => exact .inl (Option.some.inj (hg.symm.trans hhead))
  | higher old _ _ hhead _ => exact .inl (Option.some.inj (hg.symm.trans hhead))
  | beside old hold _ hhead _ => exact .inr (hold.trans (hhead.symm.trans hg))

theorem Pushed.empty (h : Pushed f b item g) (hf : f.head = none) :
    g.head = some item ∧ g.index = f.inserted item := by
  cases h with
  | first _ hhead hindex => exact ⟨hhead, hindex⟩
  | higher top htop _ _ _ =>
    rw [hf] at htop
    cases htop
  | beside top htop _ _ _ =>
    rw [hf] at htop
    cases htop

theorem Pushed.above (h : Pushed f b item g) (hf : f.head = some top) (hlt : top.num < b.blockNum) :
    g.head = some item ∧ g.index = keepFrom (b.blockNum - f.maxSize) (f.inserted item) := by
  cases h with
  | first hnone _ _ =>
    rw [hf] at hnone
    cases hnone
  | higher _ _ _ hhead hindex => exact ⟨hhead, hindex⟩
  | beside top' htop hle _ _ =>
    rw [hf] at htop
    cases htop
    omega

theorem Pushed.stays (h : Pushed f b item g) (hf : f.head = some top) (hle : b.blockNum ≤ top.num) :
    g.head = some top ∧ g.index = f.inserted item := by
  cases h with
  | first hnone _ _ =>
    rw [hf] at hnone
    cases hnone
  | higher top' htop hlt _ _ =>
    rw [hf] at htop
    cases htop
    omega
  | beside top' htop _ hhead hindex =>
    rw [hf] at htop
    cases htop
    exact ⟨hhead, hindex⟩

end

/-- An item that a block links to has been given its tag. -/
theorem linkOf_lt (h : f.Fit) {t : Nat} (hlink : f.linkOf b = .ok (some t)) : t < f.nextTag := by
  unfold ForkDb.linkOf at hlink
  split at hlink
  · cases hlink
  · split at hlink
    · cases hlink
    · split at hlink
      · cases hlink
      · split at hlink
        · rename_i p hp
          cases hlink
          exact (h.index (List.mem_of_find?_eq_some hp)).tag
        · cases hlink

variable [Fc]

theorem pushBlock_ok {prev : Option Nat} (h : f.linkOf b = .ok prev) :
    ∃ g, f.pushBlock b = .ok g ∧ g.nextTag = f.nextTag + 1 ∧ g.maxSize = f.maxSize ∧
      Pushed f b (itemOf f.nextTag b prev) g := by
  have hpush : f.pushBlock b = .ok (({ f with nextTag := f.nextTag + 1 }.insert
      (itemOf f.nextTag b prev)).advance (itemOf f.nextTag b prev)) := by
    unfold ForkDb.pushBlock
    rw [h]
    rfl
  have hhead : ({ f with nextTag := f.nextTag + 1 }.insert (itemOf f.nextTag b prev)).head =
    f.head := rfl
  refine ⟨_, hpush, ?_⟩
  unfold ForkDb.advance
  rw [hhead]
  cases hf : f.head with
  | none => exact ⟨rfl, rfl, .first hf rfl rfl⟩
  | some top =>
    by_cases hlt : top.num < b.blockNum
    · have hmin : b.blockNum - min f.maxSize b.blockNum = b.blockNum - f.maxSize := by omega
      simp only [show (itemOf f.nextTag b prev).num = b.blockNum from rfl, hlt, if_true]
      refine ⟨rfl, rfl, .higher top hf hlt rfl ?_⟩
      show keepFrom (b.blockNum - min f.maxSize b.blockNum) _ = _
      rw [hmin]
      rfl
    · simp only [show (itemOf f.nextTag b prev).num = b.blockNum from rfl, hlt, if_false]
      exact ⟨rfl, rfl, .beside top hf (Nat.not_lt.mp hlt) rfl rfl⟩

theorem pushBlock_link (h : f.pushBlock b = .ok g) : ∃ prev, f.linkOf b = .ok prev := by
  unfold ForkDb.pushBlock at h
  cases hl : f.linkOf b with
  | ok prev => exact ⟨prev, rfl⟩
  | error e =>
    rw [hl] at h
    cases h

/-- What is pushed fits, and everything else still does. -/
theorem Fit.pushBlock (h : f.Fit) (hpush : f.pushBlock b = .ok g) : g.Fit := by
  obtain ⟨prev, hlink⟩ := pushBlock_link hpush
  obtain ⟨g', hpush', htag, _, hpushed⟩ := pushBlock_ok hlink
  obtain rfl : g' = g := Except.ok.inj (hpush'.symm.trans hpush)
  refine ⟨fun x hx => ?_, fun e => absurd e hpushed.head⟩
  rcases hpushed.alive hx with rfl | hx
  · refine ⟨htag ▸ Nat.lt_succ_self _, fun t ht => ?_, rfl⟩
    obtain rfl : prev = some t := ht
    exact htag ▸ (linkOf_lt h hlink).trans (Nat.lt_succ_self _)
  · exact (h.items x hx).mono (by omega)

/-- **A block is pushed on both sides**: as the new head of both, or beside heads that stay. -/
theorem Renamed.pushBlock (h : Renamed ρ f f') (hlevel : Level f f')
    (hpush : f.pushBlock b = .ok g) :
    ∃ g', f'.pushBlock b = .ok g' ∧ Renamed ρ g g' ∧
      ((∃ item', g'.head = some item' ∧ g.head = some (item'.relabel ρ) ∧ item'.data = b ∧
          ∀ top, f.head = some top → top.num < b.blockNum) ∨
        ∃ top, f.head = some top ∧ g.head = f.head ∧ g'.head = f'.head ∧ b.blockNum ≤ top.num) := by
  obtain ⟨prev, hlink⟩ := pushBlock_link hpush
  obtain ⟨g₁, hpush₁, htag, hsize, hpushed⟩ := pushBlock_ok hlink
  obtain rfl : g₁ = g := Except.ok.inj (hpush₁.symm.trans hpush)
  obtain ⟨prev', hlink', rfl⟩ := h.link hlevel hlink
  obtain ⟨g', hpush', htag', hsize', hpushed'⟩ := pushBlock_ok hlink'
  have hitem := h.labels.item b prev'
  have hins := h.inserted hitem
  have hindex : g₁.index = g'.index.map (ForkItem.relabel ρ) → Renamed ρ g₁ g' := by
    intro heq
    refine ⟨?_, heq, by rw [hsize, hsize', h.maxSize]⟩
    rw [htag, htag']
    exact h.labels.succ
  refine ⟨g', hpush', ?_⟩
  cases hf' : f'.head with
  | none =>
    have hf := hlevel.none hf'
    obtain ⟨hhead, hi⟩ := hpushed.empty hf
    obtain ⟨hhead', hi'⟩ := hpushed'.empty hf'
    refine ⟨hindex (by rw [hi, hi', hins]), .inl ⟨_, hhead', by rw [hhead, hitem], rfl, ?_⟩⟩
    intro top htop
    rw [hf] at htop
    cases htop
  | some top' =>
    obtain ⟨top, hf, hnum⟩ := hlevel.some hf'
    by_cases hlt : top.num < b.blockNum
    · obtain ⟨hhead, hi⟩ := hpushed.above hf hlt
      obtain ⟨hhead', hi'⟩ := hpushed'.above hf' (hnum ▸ hlt)
      refine ⟨hindex ?_, .inl ⟨_, hhead', by rw [hhead, hitem], rfl, fun y hy => ?_⟩⟩
      · rw [hi, hi', hins, keepFrom_map, h.maxSize]
      · rw [hf] at hy
        cases hy
        exact hlt
    · have hle := Nat.not_lt.mp hlt
      obtain ⟨hhead, hi⟩ := hpushed.stays hf hle
      obtain ⟨hhead', hi'⟩ := hpushed'.stays hf' (hnum ▸ hle)
      exact ⟨hindex (by rw [hi, hi', hins]), .inr ⟨top, hf, hhead.trans hf.symm, hhead', hle⟩⟩

end

/-! ## 3. Popping, resizing and fetching a branch -/

theorem Renamed.setMaxSize (h : Renamed ρ f f') (hlevel : Level f f') (size : Nat) :
    Renamed ρ (f.setMaxSize size) (f'.setMaxSize size) := by
  unfold ForkDb.setMaxSize
  cases hf' : f'.head with
  | none =>
    rw [hlevel.none hf']
    exact ⟨h.labels, h.index, rfl⟩
  | some top =>
    obtain ⟨x, hf, hnum⟩ := hlevel.some hf'
    simp only [hf, hnum]
    exact ⟨h.labels, by simp only [h.index, keepFrom_map], rfl⟩

theorem setMaxSize_head (f : ForkDb) (size : Nat) : (f.setMaxSize size).head = f.head := by
  unfold ForkDb.setMaxSize
  split
  · rfl
  · rfl

theorem Fit.setMaxSize (h : f.Fit) (size : Nat) : (f.setMaxSize size).Fit := by
  obtain ⟨index, head, maxSize, nextTag⟩ := f
  cases head with
  | none => exact ⟨h.items, h.empty⟩
  | some top =>
    refine ⟨fun x hx => ?_, fun e => by cases e⟩
    rcases mem_alive.mp hx with hx | hx
    · exact h.index (List.mem_of_mem_filter hx)
    · exact h.head hx

/-- Fork databases that differ in nothing but tags. -/
structure Twin (ρ : Nat → Nat) (f f' : ForkDb) : Prop where
  renamed : Renamed ρ f f'
  head : f.head = f'.head.map (ForkItem.relabel ρ)
  fit : f'.Fit

theorem Twin.level (h : Twin ρ f f') : Level f f' := by
  unfold Level
  rw [h.head, Option.map_map]
  rfl

theorem Twin.setMaxSize (h : Twin ρ f f') (size : Nat) :
    Twin ρ (f.setMaxSize size) (f'.setMaxSize size) :=
  ⟨h.renamed.setMaxSize h.level size, by rw [setMaxSize_head, setMaxSize_head, h.head],
    h.fit.setMaxSize size⟩

/-- The tag that was used up on one side leaves them twins. -/
theorem Twin.skipTag (h : Twin ρ f f') :
    Twin (ForkDb.skipTag ρ f'.nextTag) { f with nextTag := f.nextTag + 1 } f' := by
  refine ⟨h.renamed.skipTag h.fit, ?_, h.fit⟩
  simp only [h.head]
  cases hf' : f'.head with
  | none => rfl
  | some top =>
    exact congrArg some (relabel_congr (h.fit.head hf') fun _ => skipTag_of_lt).symm

theorem Twin.lock (h : Twin ρ f f') (held : List ForkItem) (prev : Option Nat) :
    f.lock (held.map (ForkItem.relabel ρ)) (prev.map ρ) =
      (f'.lock held prev).map (ForkItem.relabel ρ) := by
  cases prev with
  | none => rfl
  | some t =>
    have hlist : f.index ++ f.head.toList ++ held.map (ForkItem.relabel ρ) =
        (f'.index ++ f'.head.toList ++ held).map (ForkItem.relabel ρ) := by
      rw [h.renamed.index, h.head, List.map_append, List.map_append]
      cases f'.head with
      | none => rfl
      | some top => rfl
    simp only [ForkDb.lock, Option.map_some, hlist, List.find?_map]
    congr 2
    funext x
    simp only [Function.comp, relabel_tag, h.renamed.labels.inj.eq_iff]

/-- The items that the caller holds fit as well. -/
def Held (f : ForkDb) (held : List ForkItem) : Prop := ∀ x ∈ held, x.Fits f.nextTag

theorem lock_fits {held : List ForkItem} {prev : Option Nat} {p : ForkItem} (h : f.Fit)
    (hheld : f.Held held) (hp : f.lock held prev = some p) : p.Fits f.nextTag := by
  rcases List.mem_append.mp (lock_some hp).2 with hp | hp
  · exact h.items p hp
  · exact hheld p hp

/-- **A block is popped on both sides.** -/
theorem Twin.popBlock {held : List ForkItem} {g : ForkDb} (h : Twin ρ f f') (hheld : f'.Held held)
    (hpop : f.popBlock (held.map (ForkItem.relabel ρ)) = .ok g) :
    ∃ g', f'.popBlock held = .ok g' ∧ Twin ρ g g' ∧ g'.nextTag = f'.nextTag := by
  unfold ForkDb.popBlock at hpop ⊢
  rw [h.head] at hpop
  cases hf' : f'.head with
  | none =>
    rw [hf'] at hpop
    cases hpop
  | some top =>
    simp only [hf', Option.map_some, relabel_prev, h.lock] at hpop
    cases hl : f'.lock held top.prev with
    | none =>
      simp only [hl, Option.map_none] at hpop
      cases hpop
    | some p =>
      simp only [hl, Option.map_some] at hpop
      cases hpop
      have hp := lock_fits h.fit hheld hl
      refine ⟨{ f' with head := some p }, by simp only [hl],
        ⟨⟨h.renamed.labels, h.renamed.index, h.renamed.maxSize⟩, rfl, fun x hx => ?_,
          fun e => ?_⟩, rfl⟩
      · rcases mem_alive.mp hx with hx | hx
        · exact h.fit.index hx
        · cases hx
          exact hp
      · cases e

theorem Twin.climb (h : Twin ρ f f') (num fuel : Nat) (item : ForkItem) (l : List ForkItem) :
    f.climb num fuel (item.relabel ρ) (l.map (ForkItem.relabel ρ)) =
      (f'.climb num fuel item l).map fun r =>
        (r.1.relabel ρ, r.2.map (ForkItem.relabel ρ)) := by
  induction fuel generalizing item l with
  | zero => rfl
  | succ fuel ih =>
    have hlock := h.lock [] item.prev
    rw [List.map_nil] at hlock
    simp only [ForkDb.climb, relabel_num, relabel_prev, hlock]
    split
    · cases f'.lock [] item.prev with
      | none => rfl
      | some p =>
        have hmap : l.map (ForkItem.relabel ρ) ++ [item.relabel ρ] =
            (l ++ [item]).map (ForkItem.relabel ρ) := by
          rw [List.map_append]
          rfl
        simp only [Option.map_some, hmap]
        exact ih p (l ++ [item])
    · rfl

theorem Twin.climbBoth (h : Twin ρ f f') (fuel : Nat) (a b : ForkItem) (l r : List ForkItem) :
    f.climbBoth fuel (a.relabel ρ) (b.relabel ρ) (l.map (ForkItem.relabel ρ))
        (r.map (ForkItem.relabel ρ)) =
      (f'.climbBoth fuel a b l r).map fun p =>
        (p.1.map (ForkItem.relabel ρ), p.2.map (ForkItem.relabel ρ)) := by
  induction fuel generalizing a b l r with
  | zero => rfl
  | succ fuel ih =>
    have hmap : ∀ (l : List ForkItem) x, l.map (ForkItem.relabel ρ) ++ [x.relabel ρ] =
        (l ++ [x]).map (ForkItem.relabel ρ) := by
      intro l x
      rw [List.map_append]
      rfl
    have hlock := fun prev => h.lock [] prev
    simp only [List.map_nil] at hlock
    simp only [ForkDb.climbBoth, relabel_data, relabel_prev, hlock, hmap]
    split
    · rfl
    · cases f'.lock [] a.prev with
      | none => rfl
      | some p =>
        cases f'.lock [] b.prev with
        | none => rfl
        | some q => exact ih p q (l ++ [a]) (r ++ [b])

/-- **The branches are the same on both sides.** -/
theorem Twin.fetchBranchFrom (h : Twin ρ f f') (first second : BlockId) :
    f.fetchBranchFrom first second = (f'.fetchBranchFrom first second).map fun p =>
      (p.1.map (ForkItem.relabel ρ), p.2.map (ForkItem.relabel ρ)) := by
  have hlen : f.index.length = f'.index.length := by
    rw [h.renamed.index, List.length_map]
  have hclimb := fun num item => h.climb num (f'.index.length + 2) item []
  have hboth := h.climbBoth (f'.index.length + 2)
  simp only [List.map_nil] at hclimb
  unfold ForkDb.fetchBranchFrom
  rw [h.renamed.find, h.renamed.find, hlen]
  cases f'.find first with
  | none => rfl
  | some a =>
    cases f'.find second with
    | none => rfl
    | some b =>
      simp only [Option.map_some, relabel_num, hclimb, bind, Except.bind]
      cases f'.climb b.num (f'.index.length + 2) a [] with
      | error e => rfl
      | ok x =>
        simp only [Except.map, relabel_num]
        cases f'.climb x.1.num (f'.index.length + 2) b [] with
        | error e => rfl
        | ok y => exact hboth x.1 y.1 x.2 y.2

/-- The items of the branches fit. -/
theorem climb_fits (h : f.Fit) {num fuel : Nat} {item z : ForkItem} {l r : List ForkItem}
    (hitem : item.Fits f.nextTag) (hl : f.Held l) (hr : f.climb num fuel item l = .ok (z, r)) :
    z.Fits f.nextTag ∧ f.Held r := by
  induction fuel generalizing item l with
  | zero => cases hr
  | succ fuel ih =>
    simp only [ForkDb.climb] at hr
    split at hr
    · split at hr
      · cases hr
      · rename_i p hp
        refine ih (lock_fits h (List.forall_mem_nil _) hp) (fun x hx => ?_) hr
        rcases List.mem_append.mp hx with hx | hx
        · exact hl x hx
        · rw [List.mem_singleton.mp hx]
          exact hitem
    · cases hr
      exact ⟨hitem, hl⟩

theorem climbBoth_fits (h : f.Fit) {fuel : Nat} {a b : ForkItem} {l r l' r' : List ForkItem}
    (ha : a.Fits f.nextTag) (hb : b.Fits f.nextTag) (hl : f.Held l) (hr : f.Held r)
    (he : f.climbBoth fuel a b l r = .ok (l', r')) : f.Held (l' ++ r') := by
  have hsnoc : ∀ {l : List ForkItem} {x : ForkItem}, f.Held l → x.Fits f.nextTag →
      f.Held (l ++ [x]) := by
    intro l x hl hx y hy
    rcases List.mem_append.mp hy with hy | hy
    · exact hl y hy
    · rw [List.mem_singleton.mp hy]
      exact hx
  induction fuel generalizing a b l r with
  | zero => cases he
  | succ fuel ih =>
    simp only [ForkDb.climbBoth] at he
    split at he
    · cases he
      intro x hx
      rcases List.mem_append.mp hx with hx | hx
      · exact hsnoc hl ha x hx
      · exact hsnoc hr hb x hx
    · split at he
      · rename_i p q hp hq
        exact ih (lock_fits h (List.forall_mem_nil _) hp) (lock_fits h (List.forall_mem_nil _) hq)
          (hsnoc hl ha) (hsnoc hr hb) he
      · cases he

theorem fetchBranchFrom_fits (h : f.Fit) {first second : BlockId} {l r : List ForkItem}
    (he : f.fetchBranchFrom first second = .ok (l, r)) : f.Held (l ++ r) := by
  unfold ForkDb.fetchBranchFrom at he
  split at he
  · rename_i a b ha hb
    simp only [bind, Except.bind] at he
    split at he
    · cases he
    · rename_i x hx
      obtain ⟨z, v⟩ := x
      simp only at he
      split at he
      · cases he
      · rename_i y hy
        obtain ⟨w, u⟩ := y
        obtain ⟨hz, hv⟩ := climb_fits h (h.index (List.mem_of_find?_eq_some ha))
          (List.forall_mem_nil _) hx
        obtain ⟨hw, hu⟩ := climb_fits h (h.index (List.mem_of_find?_eq_some hb))
          (List.forall_mem_nil _) hy
        exact climbBoth_fits h hz hw hv hu he
  · cases he

/-! ## 4. A block that was taken and removed again -/

/-- An index without the item that was put there. -/
theorem filter_inserted {item : ForkItem} (hnew : f.find item.id = none) :
    (f.inserted item).filter (fun i => decide (i.id ≠ item.id)) = f.index := by
  have hne : ∀ x ∈ f.index, decide (x.id ≠ item.id) = true := by
    intro x hx
    have hx := List.find?_eq_none.mp hnew x hx
    exact decide_eq_true fun e => hx (decide_eq_true e)
  unfold inserted
  rw [hnew, Option.isSome_none, if_neg Bool.false_ne_true, List.filter_append,
    List.filter_eq_self.mpr hne]
  simp

section

variable [Fc] {b : SignedBlock} {g : ForkDb}

/-- **What is left of a block that was pushed and removed**: a used tag, and perhaps the head. -/
theorem remove_pushed (hnew : f.find b.toSignedBlockHeader.id = none)
    (hpush : f.pushBlock b = .ok g) :
    (∃ top, f.head = some top ∧ b.blockNum ≤ top.num ∧ g.head = some top ∧
        g.remove b.toSignedBlockHeader.id = { f with nextTag := f.nextTag + 1 }) ∨
      ∃ item, item.data = b ∧ item.id = b.toSignedBlockHeader.id ∧ item.num = b.blockNum ∧
        g.head = some item ∧ (∀ top, f.head = some top → top.num < b.blockNum) ∧
        g.remove b.toSignedBlockHeader.id =
          { index := if f.head.isSome then keepFrom (b.blockNum - f.maxSize) f.index else f.index,
            head := some item, maxSize := f.maxSize, nextTag := f.nextTag + 1 } := by
  obtain ⟨prev, hlink⟩ := pushBlock_link hpush
  obtain ⟨g', hpush', htag, hsize, hcases⟩ := pushBlock_ok hlink
  obtain rfl : g' = g := Except.ok.inj (hpush'.symm.trans hpush)
  have hnew' : f.find (itemOf f.nextTag b prev).id = none := hnew
  have hfilter := filter_inserted hnew'
  obtain ⟨index, head, maxSize, nextTag⟩ := g'
  simp only at htag hsize
  subst htag hsize
  cases hcases with
  | first hf hhead hindex =>
    simp only at hhead hindex
    subst hhead hindex
    refine .inr ⟨itemOf f.nextTag b prev, rfl, rfl, rfl, rfl, fun top htop => ?_, ?_⟩
    · rw [hf] at htop
      cases htop
    · rw [hf]
      unfold ForkDb.remove
      exact congrArg (fun i => (⟨i, _, _, _⟩ : ForkDb)) hfilter
  | higher top hf hlt hhead hindex =>
    simp only at hhead hindex
    subst hhead hindex
    refine .inr ⟨itemOf f.nextTag b prev, rfl, rfl, rfl, rfl, fun top' htop => ?_, ?_⟩
    · rw [hf] at htop
      cases htop
      exact hlt
    · rw [hf]
      unfold ForkDb.remove
      refine congrArg (fun i => (⟨i, _, _, _⟩ : ForkDb)) ?_
      unfold keepFrom
      rw [List.filter_comm]
      exact congrArg _ hfilter
  | beside top hf hle hhead hindex =>
    simp only at hhead hindex
    subst hhead hindex
    refine .inl ⟨top, hf, hle, rfl, ?_⟩
    rw [← hf]
    unfold ForkDb.remove
    exact congrArg (fun i => (⟨i, _, _, _⟩ : ForkDb)) hfilter

end

/-- The head of `f` is a block that was removed again; `f'` has never seen it. -/
structure Haunted (ρ : Nat → Nat) (ghost : ForkItem) (f f' : ForkDb) : Prop where
  labels : Labels ρ f.nextTag f'.nextTag
  maxSize : f'.maxSize = f.maxSize
  room : 0 < f.maxSize
  head : f.head = some ghost
  gone : f.find ghost.id = none
  fit : f'.Fit
  below : (f'.head = none ∧ f.index = []) ∨ ∃ top, f'.head = some top ∧ top.num < ghost.num ∧
    f.index = (keepFrom (ghost.num - f.maxSize) f'.index).map (ForkItem.relabel ρ)

/-- **A block that becomes the head and is removed again haunts the fork database.** -/
theorem Renamed.haunted {g : ForkDb} {item : ForkItem} (h : Renamed ρ f f') (hfit : f'.Fit)
    (hlevel : Level f f') (hroom : 0 < f.maxSize) (hnew : f.find item.id = none)
    (hhigh : ∀ top, f.head = some top → top.num < item.num)
    (hg : g = { index := if f.head.isSome then keepFrom (item.num - f.maxSize) f.index else f.index,
                head := some item, maxSize := f.maxSize, nextTag := f.nextTag + 1 }) :
    Haunted (ForkDb.skipTag ρ f'.nextTag) item g f' := by
  have hskip := h.skipTag hfit
  subst hg
  refine ⟨hskip.labels, h.maxSize, hroom, rfl, ?_, hfit, ?_⟩
  · unfold ForkDb.find at hnew ⊢
    refine List.find?_eq_none.mpr fun x hx => List.find?_eq_none.mp hnew x ?_
    simp only at hx
    split at hx
    · exact List.mem_of_mem_filter hx
    · exact hx
  · cases hf' : f'.head with
    | none =>
      refine .inl ⟨rfl, ?_⟩
      simp only [hlevel.none hf', Option.isSome_none, if_neg Bool.false_ne_true]
      rw [h.index, hfit.empty hf', List.map_nil]
    | some top =>
      obtain ⟨x, hf, hnum⟩ := hlevel.some hf'
      refine .inr ⟨top, rfl, hnum ▸ hhigh x hf, ?_⟩
      simp only [hf, Option.isSome_some, if_true]
      rw [hskip.index, keepFrom_map]

/-- Another block that is removed again only uses up a tag. -/
theorem Haunted.skipTag {ghost : ForkItem} (h : Haunted ρ ghost f f') :
    Haunted (ForkDb.skipTag ρ f'.nextTag) ghost { f with nextTag := f.nextTag + 1 } f' := by
  refine ⟨h.labels.skipTag, h.maxSize, h.room, h.head, h.gone, h.fit, ?_⟩
  rcases h.below with hnone | ⟨top, htop, hlt, hindex⟩
  · exact .inl hnone
  · refine .inr ⟨top, htop, hlt, ?_⟩
    have hkept : (keepFrom (ghost.num - f.maxSize) f'.index).map
        (ForkItem.relabel (ForkDb.skipTag ρ f'.nextTag)) =
        (keepFrom (ghost.num - f.maxSize) f'.index).map (ForkItem.relabel ρ) :=
      Fit.relabel_skipTag fun x hx => h.fit.index (List.mem_of_mem_filter hx)
    exact hindex.trans hkept.symm

/-- An item at the height of the ghost, or one below, is found on both sides or on none. -/
theorem Haunted.find {ghost : ForkItem} (h : Haunted ρ ghost f f') {id : BlockId}
    (hid : ghost.num ≤ id.num + 1) :
    f.find id = (f'.find id).map (ForkItem.relabel ρ) := by
  rcases h.below with ⟨hnone, hempty⟩ | ⟨top, htop, hlt, hindex⟩
  · unfold ForkDb.find
    rw [hempty, h.fit.empty hnone]
    rfl
  · unfold ForkDb.find
    rw [hindex, List.find?_map, keepFrom, List.find?_filter]
    refine congrArg _ (List.find?_congr fun x hx => ?_)
    have hnum := (h.fit.index hx).num
    have hroom := h.room
    simp only [Function.comp, relabel_id]
    by_cases hx' : x.id = id
    · rw [hx'] at hnum
      have hkeep : ghost.num - f.maxSize ≤ x.num := by omega
      simp [hx', hkeep]
    · simp [hx']

section

variable {b : SignedBlock} {g : ForkDb} {ghost : ForkItem}

/-- The block at the height of the ghost links to the same item. -/
theorem Haunted.link (h : Haunted ρ ghost f f') (hnum : b.blockNum = ghost.num)
    (hprev : b.previous.num + 1 = b.blockNum) {prev : Option Nat} (hlink : f.linkOf b = .ok prev) :
    ∃ prev', f'.linkOf b = .ok prev' ∧ prev'.map ρ = prev := by
  have hfind : f.find b.previous = (f'.find b.previous).map (ForkItem.relabel ρ) :=
    h.find (by omega)
  have hroom := h.room
  unfold ForkDb.linkOf at hlink ⊢
  simp only [h.head, hfind] at hlink
  rw [if_neg (by omega)] at hlink
  rcases h.below with ⟨hnone, hempty⟩ | ⟨top, htop, hlt, hindex⟩
  · rw [hnone]
    refine ⟨none, rfl, ?_⟩
    split at hlink
    · exact Except.ok.inj hlink
    · have hf' : f'.find b.previous = none := by
        unfold ForkDb.find
        rw [h.fit.empty hnone]
        rfl
      rw [hf'] at hlink
      cases hlink
  · simp only [htop]
    rw [if_neg (by omega)]
    split at hlink
    · rename_i hzero
      rw [if_pos hzero]
      exact ⟨none, rfl, Except.ok.inj hlink⟩
    · rename_i hzero
      rw [if_neg hzero]
      cases hp : f'.find b.previous with
      | none =>
        rw [hp] at hlink
        cases hlink
      | some p =>
        rw [hp] at hlink
        exact ⟨some p.tag, rfl, Except.ok.inj hlink⟩

/-- Nothing but the head is different when an item at the height of the ghost goes in. -/
theorem Haunted.inserted (h : Haunted ρ ghost f f') {item : ForkItem} (hid : item.id.num = item.num)
    (hnum : item.num = ghost.num) :
    (f'.head = none ∧ f.inserted (item.relabel ρ) =
        (f'.inserted item).map (ForkItem.relabel ρ)) ∨
      ∃ top, f'.head = some top ∧ top.num < ghost.num ∧ f.inserted (item.relabel ρ) =
        (keepFrom (ghost.num - f.maxSize) (f'.inserted item)).map (ForkItem.relabel ρ) := by
  have hfound : f.find item.id = (f'.find item.id).map (ForkItem.relabel ρ) := h.find (by omega)
  unfold ForkDb.inserted
  rw [relabel_id, hfound, Option.isSome_map]
  rcases h.below with ⟨hnone, hempty⟩ | ⟨top, htop, hlt, hkept⟩
  · refine .inl ⟨hnone, ?_⟩
    rw [hempty, h.fit.empty hnone]
    split
    · rfl
    · rfl
  · refine .inr ⟨top, htop, hlt, ?_⟩
    split
    · exact hkept
    · have hkeep : keepFrom (ghost.num - f.maxSize) [item] = [item] := by
        unfold keepFrom
        refine List.filter_eq_self.mpr fun x hx => decide_eq_true ?_
        rw [List.mem_singleton.mp hx]
        omega
      have happend : keepFrom (ghost.num - f.maxSize) (f'.index ++ [item]) =
          keepFrom (ghost.num - f.maxSize) f'.index ++ [item] := by
        unfold keepFrom at hkeep ⊢
        rw [List.filter_append, hkeep]
      rw [happend, hkept, List.map_append]
      rfl

/-- **A block at the height of the ghost makes the two sides alike**, the head apart. -/
theorem Haunted.pushBlock [Fc] (h : Haunted ρ ghost f f') (hnum : b.blockNum = ghost.num)
    (hprev : b.previous.num + 1 = b.blockNum) (hpush : f.pushBlock b = .ok g) :
    ∃ g' item, f'.pushBlock b = .ok g' ∧ Renamed ρ g g' ∧ g.head = some ghost ∧
      g'.head = some item ∧ item.data = b ∧ item.num = b.blockNum := by
  obtain ⟨prev, hlink⟩ := pushBlock_link hpush
  obtain ⟨g₁, hpush₁, htag, hsize, hpushed⟩ := pushBlock_ok hlink
  obtain rfl : g₁ = g := Except.ok.inj (hpush₁.symm.trans hpush)
  obtain ⟨prev', hlink', rfl⟩ := h.link hnum hprev hlink
  obtain ⟨g', hpush', htag', hsize', hpushed'⟩ := pushBlock_ok hlink'
  have hlabels : Labels ρ g₁.nextTag g'.nextTag := by
    rw [htag, htag']
    exact h.labels.succ
  have hmax : g'.maxSize = g₁.maxSize := by
    rw [hsize, hsize', h.maxSize]
  -- the ghost stays the head on the one side, on the other the block becomes it
  obtain ⟨hhead, hindex⟩ := hpushed.stays h.head hnum.le
  rw [h.labels.item b prev'] at hindex
  refine ⟨g', itemOf f'.nextTag b prev', hpush', ?_⟩
  have hid : (itemOf f'.nextTag b prev').id.num = (itemOf f'.nextTag b prev').num := rfl
  rcases h.inserted hid hnum with ⟨hnone, hins⟩ | ⟨top, htop, hlt, hins⟩
  · obtain ⟨hhead', hindex'⟩ := hpushed'.empty hnone
    exact ⟨⟨hlabels, by rw [hindex, hindex', hins], hmax⟩, hhead, hhead', rfl, rfl⟩
  · obtain ⟨hhead', hindex'⟩ := hpushed'.above htop (hnum ▸ hlt)
    refine ⟨⟨hlabels, ?_, hmax⟩, hhead, hhead', rfl, rfl⟩
    rw [hindex, hindex', hins, h.maxSize, hnum]

end

end ForkDb

end MuseChain
