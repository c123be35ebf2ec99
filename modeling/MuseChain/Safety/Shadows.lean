/-
  File:      MuseChain/Safety/Shadows.lean
  Subject:   A node that has seen blocks refused, beside one that has not.

  * `ForkDb.Trails`: what the two fork databases have in common. They are twins; or a refused block
    is the head of the first one, one above the chain (`haunted`); or it is the head beside the
    block that was applied in its place (`stale`).
  * `Node.Shadows m m'`: the first node has fewer old undo states, and its fork database trails the
    other one.
  * `Harmless.step`: a harmless call returns the same in both, or throws in both and leaves the
    first node beside the second one as that was before the call.
-/
import MuseChain.Safety.ForkLabels
import MuseChain.Safety.Pushes

namespace MuseChain

/-! ## 1. Fork databases -/

namespace ForkDb

/-- The heads may be other blocks, at one height. -/
structure Abreast (ρ : Nat → Nat) (x x' : ForkItem) (f f' : ForkDb) : Prop where
  renamed : Renamed ρ f f'
  fit : f'.Fit
  head : f.head = some x
  head' : f'.head = some x'
  num : x.num = x'.num

/-- The fork databases are in step: they are twins, or their heads are not above the head of the
chain and do not build on it. -/
inductive InStep (head : BlockId) (num : Nat) (f f' : ForkDb) : Prop
  | twin (ρ : Nat → Nat) : Twin ρ f f' → InStep head num f f'
  | stale (ρ : Nat → Nat) (x x' : ForkItem) : Abreast ρ x x' f f' → x.num ≤ num → num = head.num →
      x.data.previous.num < head.num → x'.data.previous.num < head.num → InStep head num f f'

inductive Trails (head : BlockId) (num : Nat) (f f' : ForkDb) : Prop
  | inStep : InStep head num f f' → Trails head num f f'
  | haunted (ρ : Nat → Nat) (ghost : ForkItem) : Haunted ρ ghost f f' →
      ghost.data.previous = head → ghost.num = head.num + 1 → Trails head num f f'

variable {head : BlockId} {num : Nat} {f f' g : ForkDb}

theorem remove_absent {id : BlockId} (h : f.find id = none) : f.remove id = f := by
  have hkeep : f.index.filter (fun i => decide (i.id ≠ id)) = f.index := by
    refine List.filter_eq_self.mpr fun x hx => decide_eq_true fun e => ?_
    exact List.find?_eq_none.mp h x hx (decide_eq_true e)
  unfold ForkDb.remove
  rw [hkeep]

section

variable {ρ : Nat → Nat} {x x' : ForkItem}

theorem Abreast.level (h : Abreast ρ x x' f f') : Level f f' := by
  unfold Level
  rw [h.head, h.head']
  exact congrArg some h.num

theorem abreast_resized : Resized (Abreast ρ x x') := fun size _ _ h =>
  ⟨h.renamed.setMaxSize h.level size, h.fit.setMaxSize size, by rw [setMaxSize_head, h.head],
    by rw [setMaxSize_head, h.head'], h.num⟩

theorem twin_resized : Resized (Twin ρ) := fun size _ _ h => h.setMaxSize size

theorem InStep.fit (h : InStep head num f f') : f'.Fit := by
  cases h with
  | twin ρ h => exact h.fit
  | stale ρ x x' h => exact h.fit

theorem InStep.level (h : InStep head num f f') : Level f f' := by
  cases h with
  | twin ρ h => exact h.level
  | stale ρ x x' h => exact h.level

theorem InStep.renamed (h : InStep head num f f') : ∃ ρ, Renamed ρ f f' := by
  cases h with
  | twin ρ h => exact ⟨ρ, h.renamed⟩
  | stale ρ x x' h => exact ⟨ρ, h.renamed⟩

variable [Fc] {b : SignedBlock}

omit [Fc] in
theorem InStep.linkOf {e : Exn} (h : InStep head num f f') (hlink : f.linkOf b = .error e) :
    f'.linkOf b = .error e := by
  obtain ⟨ρ, hr⟩ := h.renamed
  rw [hr.linkOf h.level] at hlink
  cases hl : f'.linkOf b with
  | ok prev =>
    rw [hl] at hlink
    cases hlink
  | error e' =>
    rw [hl] at hlink
    exact hlink

/-- **What is pushed on both sides leaves them in step.** -/
theorem InStep.pushBlock (h : InStep head num f f') (hpush : f.pushBlock b = .ok g) :
    ∃ g', f'.pushBlock b = .ok g' ∧ InStep head num g g' := by
  cases h with
  | twin ρ h =>
    obtain ⟨g', hpush', hr, hheads⟩ := h.renamed.pushBlock h.level hpush
    refine ⟨g', hpush', .twin ρ ⟨hr, ?_, h.fit.pushBlock hpush'⟩⟩
    rcases hheads with ⟨item', hg', hg, _⟩ | ⟨top, _, hg, hg', _⟩
    · rw [hg, hg']
      rfl
    · rw [hg, hg', h.head]
  | stale ρ x x' h hnum hhead hx hx' =>
    obtain ⟨g', hpush', hr, hheads⟩ := h.renamed.pushBlock h.level hpush
    have hfit := h.fit.pushBlock hpush'
    refine ⟨g', hpush', ?_⟩
    rcases hheads with ⟨item', hg', hg, _⟩ | ⟨top, _, hg, hg', _⟩
    · refine .twin ρ ⟨hr, ?_, hfit⟩
      rw [hg, hg']
      rfl
    · exact .stale ρ x x' ⟨hr, hfit, hg.trans h.head, hg'.trans h.head', h.num⟩ hnum hhead hx hx'

omit [Fc] in
/-- The heads are at one height, and both build on the head of the chain or neither does. -/
theorem InStep.top {top : ForkItem} (h : InStep head num f f') (hf : f.head = some top) :
    ∃ top', f'.head = some top' ∧ top'.num = top.num ∧
      (top'.data.previous = head ↔ top.data.previous = head) := by
  cases h with
  | twin ρ h =>
    rw [h.head] at hf
    obtain ⟨top', hf', rfl⟩ := Option.map_eq_some_iff.mp hf
    exact ⟨top', hf', rfl, Iff.rfl⟩
  | stale ρ x x' h _ _ hx hx' =>
    obtain rfl : x = top := Option.some.inj (h.head.symm.trans hf)
    refine ⟨x', h.head', h.num.symm, ?_, ?_⟩
    · rintro rfl
      exact absurd hx' (Nat.lt_irrefl _)
    · rintro rfl
      exact absurd hx (Nat.lt_irrefl _)

omit [Fc] in
/-- Where the head builds on the head of the chain or is above it, the two are twins. -/
theorem InStep.twin_of_top {top : ForkItem} (h : InStep head num f f') (hf : f.head = some top)
    (htop : top.data.previous = head ∨ num < top.num) : ∃ ρ, Twin ρ f f' := by
  cases h with
  | twin ρ h => exact ⟨ρ, h⟩
  | stale ρ x x' h hnum hhead hx hx' =>
    obtain rfl : x = top := Option.some.inj (h.head.symm.trans hf)
    rcases htop with rfl | hlt
    · exact absurd hx (Nat.lt_irrefl _)
    · omega

/-- **A block that was pushed on the head of the chain and removed again.** -/
theorem Trails.removed (h : Trails head num f f') (hpush : f.pushBlock b = .ok g)
    (hnew : f.find b.toSignedBlockHeader.id = none) (hroom : 0 < f.maxSize)
    (hprev : b.previous = head) (hnum : b.blockNum = b.previous.num + 1) :
    Trails head num (g.remove b.toSignedBlockHeader.id) f' := by
  subst hprev
  cases h with
  | inStep h =>
    obtain ⟨ρ, hr⟩ := h.renamed
    rcases remove_pushed hnew hpush with ⟨top, htop, hle, _, hrest⟩ |
      ⟨item, hdata, hid, hitem, _, hhigh, hrest⟩
    · rw [hrest]
      cases h with
      | twin ρ h => exact .inStep (.twin _ h.skipTag)
      | stale ρ x x' h hx hhead _ _ =>
        obtain rfl : x = top := Option.some.inj (h.head.symm.trans htop)
        omega
    · have hnew' : f.find item.id = none := hid ▸ hnew
      have hhigh' : ∀ top, f.head = some top → top.num < item.num := fun top htop =>
        hitem ▸ hhigh top htop
      rw [hrest]
      refine .haunted _ item (hr.haunted h.fit h.level hroom hnew' hhigh' ?_) ?_ ?_
      · rw [hitem]
      · rw [hdata]
      · rw [hitem, hnum]
  | haunted ρ ghost h hghost hheight =>
    rcases remove_pushed hnew hpush with ⟨top, _, _, _, hrest⟩ | ⟨item, _, _, _, _, hhigh, _⟩
    · rw [hrest]
      exact .haunted _ ghost h.skipTag hghost hheight
    · have := hhigh ghost h.head
      omega

end

end ForkDb

/-! ## 2. Nodes -/

open ForkDb (InStep Trails Twin)

/-- The first node has fewer old undo states, and its fork database trails the other one. While it
is not the twin of the other one, the head is safe from the pending transactions. -/
structure Node.Shadows (m m' : Node) : Prop where
  below : m.Below (Trails m.headBlockId m.headBlockNum) m'
  rooted : m.Rooted ∨ ∃ ρ, Twin ρ m.forkDb m'.forkDb

section

variable {m m' n n' : Node}

theorem Node.Shadows.of_twin {ρ : Nat → Nat} (h : m.Below (Twin ρ) m') : m.Shadows m' :=
  ⟨h.mono (.inStep (.twin ρ h.forkDb)), .inr ⟨ρ, h.forkDb⟩⟩

theorem Anchored.head {s t : Store chainSchema} (h : Anchored s t) :
    s.props.headBlockId = t.props.headBlockId ∧
      s.props.headBlockNumber = t.props.headBlockNumber :=
  ⟨congrArg (fun a : Anchor => a.head.id) h.props,
    congrArg (fun a : Anchor => a.head.number) h.props⟩

theorem Node.Below.of_anchored {F : BlockId → Nat → ForkDb → ForkDb → Prop}
    (h : n.Below (F m.headBlockId m.headBlockNum) n')
    (ha : Anchored m.db.store n.db.store) : n.Below (F n.headBlockId n.headBlockNum) n' := by
  have hid : m.headBlockId = n.headBlockId := ha.head.1
  have hnum : m.headBlockNum = n.headBlockNum := ha.head.2
  rw [hid, hnum] at h
  exact h

/-- Two steps of one kind after each other. -/
theorem Node.Below.trans {F G H : ForkDb → ForkDb → Prop} {l : Node} (h : l.Below F m)
    (h' : m.Below G m') (hH : H l.forkDb m'.forkDb) : l.Below H m' := by
  obtain ⟨t, ht, habove⟩ := h.db
  obtain ⟨t', ht', habove'⟩ := h'.db
  refine ⟨⟨t ++ t', by rw [ht', ht, under_under], ?_⟩, hH, h'.log.trans h.log,
    h'.pendingTx.trans h.pendingTx, h'.poppedTx.trans h.poppedTx,
    h'.pendingSession.trans h.pendingSession, h'.checkpoints.trans h.checkpoints⟩
  rcases habove with rfl | hle
  · rw [ht, under_nil] at habove'
    exact habove'
  · exact .inr hle

theorem Node.emptied_forkDb (m : Node) : m.emptied.forkDb = m.forkDb := by
  unfold Node.emptied Node.resetPending
  split
  · rfl
  · rfl

theorem Node.emptied_pendingSession (m : Node) : m.emptied.pendingSession = none := by
  unfold Node.emptied Node.resetPending
  split
  · rename_i h
    exact h
  · rfl

theorem Node.Below.emptied {F : ForkDb → ForkDb → Prop} (h : m.Below F m') :
    m.emptied.Below F m'.emptied := by
  have hout : Node.Below F { m with pendingTx := [] } { m' with pendingTx := [] } :=
    ⟨h.db, h.forkDb, h.log, rfl, h.poppedTx, h.pendingSession, h.checkpoints⟩
  exact hout.resetPending

theorem Node.Shadows.emptied (h : m.Shadows m') : m.emptied.Shadows m'.emptied := by
  rcases h.rooted with hroot | ⟨ρ, htwin⟩
  · have hroot' : Node.Rooted { m with pendingTx := [] } := hroot
    refine ⟨h.below.emptied.of_anchored (m := m) hroot'.resetPending, .inl ?_⟩
    exact Node.Rooted.of_none m.emptied_pendingSession
  · exact .of_twin (h.below.mono htwin).emptied

end

section

variable [Fc] {m m' n n' : Node} {c : Push}

theorem Node.Below.putBack {F : ForkDb → ForkDb → Prop} (h : n.Below F n') (c : Push)
    (l : List Transaction) : (n.putBack c l).Below F (n'.putBack c l) := by
  have hpopped := h.restorePending c.clock c.depth c.skip n.poppedTx
  unfold Node.putBack
  rw [h.poppedTx]
  generalize Node.restorePending c.clock c.depth c.skip n.poppedTx n = k at hpopped ⊢
  generalize Node.restorePending c.clock c.depth c.skip n.poppedTx n' = k' at hpopped ⊢
  have hclear : Node.Below F { k with poppedTx := [] } { k' with poppedTx := [] } :=
    ⟨hpopped.db, hpopped.forkDb, hpopped.log, hpopped.pendingTx, rfl, hpopped.pendingSession,
      hpopped.checkpoints⟩
  exact hclear.restorePending c.clock c.depth c.skip l

/-- What is put back does not move the head. -/
theorem Node.Rooted.putBack (h : n.Rooted) (c : Push) (l : List Transaction) :
    (n.putBack c l).Rooted ∧ Anchored n.db.store (n.putBack c l).db.store := by
  obtain ⟨hroot, hkept⟩ := h.restorePending c.clock c.depth c.skip n.poppedTx
  unfold Node.putBack
  generalize Node.restorePending c.clock c.depth c.skip n.poppedTx n = k at hroot hkept ⊢
  have hclear : Node.Rooted { k with poppedTx := [] } := hroot
  obtain ⟨hroot₂, hkept₂⟩ := hclear.restorePending c.clock c.depth c.skip l
  exact ⟨hroot₂, hkept.trans hkept₂⟩

theorem Node.Shadows.putBack (h : n.Shadows n') (c : Push) (l : List Transaction) :
    (n.putBack c l).Shadows (n'.putBack c l) := by
  rcases h.rooted with hroot | ⟨ρ, htwin⟩
  · obtain ⟨hroot', hkept⟩ := hroot.putBack c l
    exact ⟨(h.below.putBack c l).of_anchored hkept, .inl hroot'⟩
  · exact .of_twin ((h.below.mono htwin).putBack c l)

/-- **A block that was refused leaves the node beside the other one**, as that was before. -/
theorem Node.Shadows.refused (h : m.Shadows m') (hback : PutsBack m c) {f : ForkDb} {j : Nat}
    (hsessions : m.emptied.db.activeSessions = 0)
    (hf : Trails m.emptied.headBlockId m.emptied.headBlockNum f m'.forkDb)
    (hn : n = { m.emptied with
      db := { m.emptied.db with stack := m.emptied.db.stack.take j }, forkDb := f }) :
    (n.putBack c m.pendingTx).Shadows m' := by
  have hbelow : n.Below (fun f₁ f₂ => f₁ = f ∧ f₂ = m.forkDb) m.emptied := by
    subst hn
    refine ⟨⟨m.emptied.db.stack.drop j, ?_, .inr ?_⟩, ⟨rfl, m.emptied_forkDb⟩, rfl, rfl, rfl, rfl,
      rfl⟩
    · unfold Database.under
      simp only [List.take_append_drop]
    · simp only [hsessions]
      exact Nat.zero_le _
  have hrooted' : n.Rooted := by
    subst hn
    exact .of_none m.emptied_pendingSession
  have hput := hbelow.putBack c m.pendingTx
  have hstore := hbelow.store
  unfold PutsBack at hback
  rw [hback] at hput
  have hanchor' := (hrooted'.putBack c m.pendingTx).2
  rw [← hstore] at hanchor'
  refine ⟨?_, .inl (hrooted'.putBack c m.pendingTx).1⟩
  refine Node.Below.of_anchored (m := m.emptied) ?_ hanchor'
  refine hput.trans h.below ?_
  rw [hput.forkDb.1]
  exact hf

end

/-! ## 3. Calls -/

section

variable [Fc] {k k' : Node}

/-- Where the block is refused in one node, it is in the other. -/
theorem Node.Below.extendChain_isOk {F : ForkDb → ForkDb → Prop} (h : k.Below F k')
    {clock depth : Nat} {skip : Skip} {b : SignedBlock} :
    (Node.extendChain clock depth skip k' b).isOk =
      (Node.extendChain clock depth skip k b).isOk := by
  have hany : k.Below (fun _ _ => True) k' := h.mono trivial
  rw [MuseChain.extendChain_isOk, MuseChain.extendChain_isOk]
  exact (hany.applyInSession clock depth skip (fun _ _ _ _ => trivial) b
    b.toSignedBlockHeader.id).isOk

end

/-- What a call does in a node that shadows another one: it returns the same in both, or throws in
both and leaves the first one beside the second, as that was before. -/
inductive StepsWith [Fc] (m m' : Node) (c : Push) : Prop
  | returned (r : Bool) (n n' : Node) : m.push c = .ok r n → m'.push c = .ok r n' → n.Shadows n' →
      StepsWith m m' c
  | threw (e : Exn) (n : Node) : m.push c = .thrown e n → (m'.push c).isOk = false →
      n.Shadows m' → StepsWith m m' c

section

variable [Fc] {m m' n n' : Node} {c : Push}

theorem Node.Shadows.returned (h : m.Shadows m') {r : Bool}
    (hn : Node.pushBlockOnly c.clock c.depth c.skip m.emptied c.block = .ok r n)
    (hn' : Node.pushBlockOnly c.clock c.depth c.skip m'.emptied c.block = .ok r n')
    (hend : n.Shadows n') : StepsWith m m' c := by
  refine .returned r _ _ (push_of_ok hn) (push_of_ok hn') ?_
  rw [h.below.pendingTx]
  exact hend.putBack c m.pendingTx

/-! ### Blocks that are turned away -/

/-- A fork database without a head takes the block, but finds no way to it. -/
theorem pushBlockOnly_unknown {k : Node} (hskip : c.skip.forkDb = false)
    (hhead : k.forkDb.head = none) (hindex : k.forkDb.index = [])
    (hprev : k.headBlockId.num < c.block.previous.num)
    (hnum : c.block.blockNum = c.block.previous.num + 1)
    (hhigh : k.headBlockNum < c.block.blockNum) :
    (Node.pushBlockOnly c.clock c.depth c.skip k c.block).isOk = false := by
  have hlink : k.forkDb.linkOf c.block = .ok none := by
    unfold ForkDb.linkOf
    rw [hhead]
  obtain ⟨g, hpush, _, _, hpushed⟩ := ForkDb.pushBlock_ok hlink
  obtain ⟨hg, hgindex⟩ := hpushed.empty hhead
  have hne : (ForkDb.itemOf k.forkDb.nextTag c.block none).data.previous ≠ k.headBlockId := by
    intro e
    have he : c.block.previous = k.headBlockId := e
    rw [he] at hprev
    exact Nat.lt_irrefl _ hprev
  have hhigher : k.headBlockNum < (ForkDb.itemOf k.forkDb.nextTag c.block none).num := hhigh
  have hid : (ForkDb.itemOf k.forkDb.nextTag c.block none).id ≠ k.headBlockId := fun e => by
    have hidnum : c.block.blockNum = k.headBlockId.num := congrArg BlockId.num e
    omega
  have hfind : g.find k.headBlockId = none := by
    unfold ForkDb.find
    rw [hgindex]
    unfold ForkDb.inserted ForkDb.find
    rw [hindex]
    simp [hid]
  have hbranch : ∀ id, g.fetchBranchFrom id k.headBlockId =
      .error (.assert "first_branch_itr != _index.get<block_id>().end()") := by
    intro id
    unfold ForkDb.fetchBranchFrom
    rw [hfind]
    split
    · rename_i ha hb
      cases hb
    · rfl
  rw [pushBlockOnly_taken hskip hpush hg, if_neg hne, if_pos hhigher]
  unfold Node.switchForks
  simp only [show Node.headBlockId { k with forkDb := g } = k.headBlockId from rfl, hbranch]
  rfl

theorem Node.Shadows.turnedAway {e : Exn} (h : m.Shadows m') (hskip : c.skip.forkDb = false)
    (hlink : m.emptied.forkDb.linkOf c.block = .error e)
    (hghost : m.emptied.Ghostly → m.emptied.headBlockId.num < c.block.previous.num ∧
      m.emptied.headBlockNum < c.block.blockNum)
    (hback : PutsBack m c) (hnum : c.block.blockNum = c.block.previous.num + 1) :
    StepsWith m m' c := by
  have hcrash : ∀ why, e ≠ .crash why := by
    rintro why rfl
    exact ForkDb.linkOf_no_crash hlink
  have hpush := push_of_thrown (pushBlockOnly_away hskip hlink) hcrash
  unfold PutsBack at hback
  rw [hback] at hpush
  refine .threw e m hpush (push_isOk ?_) h
  have hk := h.emptied
  generalize m.emptied = k at hlink hghost hk
  generalize m'.emptied = k' at hk ⊢
  cases hk.below.forkDb with
  | inStep hstep =>
    rw [pushBlockOnly_away hskip (hstep.linkOf hlink)]
    rfl
  | haunted ρ ghost hh hprev hheight =>
    obtain ⟨hlow, hhigh⟩ := hghost ⟨ghost, hh.head, hh.gone, hprev⟩
    rcases hh.below with ⟨hnone, hempty⟩ | ⟨top, htop, hlt, hindex⟩
    · refine pushBlockOnly_unknown hskip hnone (hh.fit.empty hnone) ?_ hnum ?_
      · rw [hk.below.headBlockId]
        exact hlow
      · rw [hk.below.headBlockNum]
        exact hhigh
    -- the block before it is known on neither side
    · have hfind : k.forkDb.find c.block.previous =
          (k'.forkDb.find c.block.previous).map (ForkItem.relabel ρ) := hh.find (by omega)
      have hlink' : ∃ e', k'.forkDb.linkOf c.block = .error e' := by
        unfold ForkDb.linkOf at hlink ⊢
        rw [hh.head] at hlink
        simp only [htop] at hlink ⊢
        have hroom := hh.room
        rw [if_neg (by omega)] at hlink
        split
        · exact ⟨_, rfl⟩
        split at hlink
        · cases hlink
        · rename_i hzero
          rw [if_neg hzero]
          cases hf : k'.forkDb.find c.block.previous with
          | none => exact ⟨_, rfl⟩
          | some p =>
            rw [hf] at hfind
            rw [hfind] at hlink
            cases hlink
      obtain ⟨e', he'⟩ := hlink'
      rw [pushBlockOnly_away hskip he']
      rfl

/-! ### Blocks on the head -/

/-- Where the first node gives the block to `apply_block`, the other one does so too. -/
theorem Node.Shadows.offers {k k' : Node} (h : k.Shadows k') {g : ForkDb} {top : ForkItem}
    (hskip : c.skip.forkDb = false)
    (hprev : c.block.previous = k.headBlockId) (hpush : k.forkDb.pushBlock c.block = .ok g)
    (hg : g.head = some top) (htop : top.data.previous = k.headBlockId)
    (hnum : c.block.blockNum = c.block.previous.num + 1) :
    ∃ g', Node.pushBlockOnly c.clock c.depth c.skip k' c.block =
        Node.extendChain c.clock c.depth c.skip { k' with forkDb := g' } c.block ∧
      ((∃ ρ, Twin ρ g g') ∨ ∃ ρ ghost item, ForkDb.Abreast ρ ghost item g g' ∧
        ghost.num = c.block.blockNum ∧ ghost.data.previous = k.headBlockId ∧
        item.data = c.block) := by
  have hid := h.below.headBlockId
  cases h.below.forkDb with
  | inStep hstep =>
    obtain ⟨g', hpush', hstep'⟩ := hstep.pushBlock hpush
    obtain ⟨top', hg', _, hiff⟩ := hstep'.top hg
    refine ⟨g', ?_, .inl (hstep'.twin_of_top hg (.inl htop))⟩
    rw [pushBlockOnly_taken hskip hpush' hg', if_pos (by rw [hid]; exact hiff.mpr htop)]
  | haunted ρ ghost hh hghost hheight =>
    have hgnum : c.block.blockNum = ghost.num := by
      rw [hnum, hprev, hheight]
    obtain ⟨g', item, hpush', hr, hhead, hhead', hdata, hitem⟩ :=
      hh.pushBlock hgnum hnum.symm hpush
    refine ⟨g', ?_, .inr ⟨ρ, ghost, item, ⟨hr, hh.fit.pushBlock hpush', hhead, hhead', ?_⟩,
      hgnum.symm, hghost, hdata⟩⟩
    · rw [pushBlockOnly_taken hskip hpush' hhead', if_pos (by rw [hid, hdata, hprev])]
    · rw [hitem, hgnum]

theorem Node.Shadows.refuses {e : Exn} {d : Database chainSchema} (h : m.Shadows m')
    (hoffers : m.emptied.Offers c) (htest : m.emptied.tested c = .thrown e d)
    (hcrash : ∀ why, e ≠ .crash why) (hbroken : d.broken = false) (hroom : m.emptied.Roomy c)
    (hback : PutsBack m c) (hnum : c.block.blockNum = c.block.previous.num + 1) :
    StepsWith m m' c := by
  have hk := h.emptied
  have hfork := hk.below.forkDb
  rw [m'.emptied_forkDb] at hfork
  cases hoffers with
  | skipping hskip =>
    obtain ⟨j, happly⟩ := applyInSession_refused c.id rfl rfl htest hbroken hroom
    have hthrown := extendChain_thrown happly hcrash
    have hpush := push_of_thrown ((pushBlockOnly_skipping hskip).trans hthrown) hcrash
    refine .threw e _ hpush (push_isOk ?_) ?_
    · rw [pushBlockOnly_skipping hskip, hk.below.extendChain_isOk, hthrown]
      rfl
    · refine h.refused hback hroom.sessions ?_ rfl
      have hsame := ForkDb.remove_absent hroom.unknown
      simp only [Push.id] at hsame
      simp only [hsame]
      exact hfork
  | onHead g top hskip hprev hpushed hg htop =>
    obtain ⟨j, happly⟩ := applyInSession_refused (k := m.emptied)
      (n := { m.emptied with forkDb := g }) c.id rfl rfl htest hbroken hroom
    have hthrown := extendChain_thrown happly hcrash
    have hpush := push_of_thrown
      ((pushBlockOnly_taken hskip hpushed hg).trans ((if_pos htop).trans hthrown)) hcrash
    obtain ⟨g', hpush', _⟩ := hk.offers hskip hprev hpushed hg htop hnum
    refine .threw e _ hpush (push_isOk ?_) ?_
    · have hpair : Node.Below (fun _ _ => True) { m.emptied with forkDb := g }
          { m'.emptied with forkDb := g' } := hk.below.withForkDb trivial
      rw [hpush', hpair.extendChain_isOk, hthrown]
      rfl
    · refine h.refused hback hroom.sessions ?_ rfl
      exact hfork.removed hpushed hroom.unknown hroom.room hprev hnum

section

variable {clock depth : Nat} {skip : Skip} {b : SignedBlock} {id : BlockId} {k k' : Node}
  {ρ : Nat → Nat}

theorem Node.Below.applied_twin (h : k.Below (Twin ρ) k')
    (happly : Node.applyInSession clock depth skip k b id = .ok () n) :
    ∃ n', Node.applyInSession clock depth skip k' b id = .ok () n' ∧ n.Shadows n' := by
  have hpair := h.applyInSession clock depth skip ForkDb.twin_resized b id
  rw [happly] at hpair
  obtain ⟨n', hn', hend⟩ := hpair.of_ok
  exact ⟨n', hn', .of_twin hend⟩

/-- The chain has caught up with the head of the fork database. -/
theorem Node.Below.applied_abreast {x x' : ForkItem} (h : k.Below (ForkDb.Abreast ρ x x') k')
    (happly : Node.applyInSession clock depth skip k b id = .ok () n)
    (hsession : k.pendingSession = none) (hnum : b.blockNum = b.previous.num + 1)
    (hx : x.num ≤ b.blockNum) (hprev : x.data.previous.num ≤ k.headBlockId.num)
    (hprev' : x'.data.previous.num ≤ k.headBlockId.num) :
    ∃ n', Node.applyInSession clock depth skip k' b id = .ok () n' ∧ n.Shadows n' := by
  have hpair := h.applyInSession clock depth skip ForkDb.abreast_resized b id
  rw [happly] at hpair
  obtain ⟨n', hn', hend⟩ := hpair.of_ok
  have hmoved := applyInSession_moved happly
  have hlast : n.headBlockId.num = b.blockNum := congrArg BlockId.num hmoved.headId
  have hbefore : k.headBlockId.num = b.previous.num := congrArg BlockId.num hmoved.previous
  have hnumber := hmoved.headNum
  refine ⟨n', hn', hend.mono (.inStep (.stale ρ x x' hend.forkDb ?_ ?_ ?_ ?_)),
    .inl (.of_none (hmoved.session.trans hsession))⟩
  all_goals omega

end

theorem Node.Shadows.applies {wit : Nat} {d d' : Database chainSchema} (h : m.Shadows m')
    (hoffers : m.emptied.Offers c) (hghost : m.emptied.Ghostly → c.skip.forkDb = false)
    (henabled : m.emptied.db.disabled = false) (htest : m.emptied.tested c = .ok wit d)
    (hfinish : m.emptied.finished c wit d = .ok () d')
    (hnum : c.block.blockNum = c.block.previous.num + 1) : StepsWith m m' c := by
  have hk := h.emptied
  have hsession := m.emptied_pendingSession
  cases hoffers with
  | skipping hskip =>
    obtain ⟨n, happly⟩ := applyInSession_applied c.id rfl rfl henabled htest hfinish
    have hbefore : m.emptied.headBlockId.num = c.block.previous.num :=
      congrArg BlockId.num (applyInSession_moved happly).previous
    have hend : ∃ n', Node.applyInSession c.clock c.depth c.skip m'.emptied c.block c.id =
        .ok () n' ∧ n.Shadows n' := by
      cases hk.below.forkDb with
      | inStep hstep =>
        cases hstep with
        | twin ρ ht => exact (hk.below.mono ht).applied_twin happly
        | stale ρ x x' ha hx hhead hprev hprev' =>
          exact (hk.below.mono ha).applied_abreast happly hsession hnum (by omega) hprev.le
            hprev'.le
      | haunted ρ ghost hh hprev _ =>
        rw [hghost ⟨ghost, hh.head, hh.gone, hprev⟩] at hskip
        cases hskip
    obtain ⟨n', happly', hshadows⟩ := hend
    exact h.returned ((pushBlockOnly_skipping hskip).trans (extendChain_ok happly))
      ((pushBlockOnly_skipping hskip).trans (extendChain_ok happly')) hshadows
  | onHead g top hskip hprev hpushed hg htop =>
    obtain ⟨n, happly⟩ := applyInSession_applied (k := m.emptied)
      (n := { m.emptied with forkDb := g }) c.id rfl rfl henabled htest hfinish
    obtain ⟨g', hpush', hforks⟩ := hk.offers hskip hprev hpushed hg htop hnum
    have hend : ∃ n', Node.applyInSession c.clock c.depth c.skip { m'.emptied with forkDb := g' }
        c.block c.id = .ok () n' ∧ n.Shadows n' := by
      rcases hforks with ⟨ρ, ht⟩ | ⟨ρ, ghost, item, ha, hgnum, hgprev, hdata⟩
      · exact (hk.below.withForkDb ht).applied_twin happly
      · refine (hk.below.withForkDb ha).applied_abreast happly hsession hnum hgnum.le ?_ ?_
        · exact (congrArg BlockId.num hgprev).le
        · rw [hdata]
          exact (congrArg BlockId.num hprev).le
    obtain ⟨n', happly', hshadows⟩ := hend
    exact h.returned
      ((pushBlockOnly_taken hskip hpushed hg).trans ((if_pos htop).trans (extendChain_ok happly)))
      (hpush'.trans (extendChain_ok happly')) hshadows

/-! ### Blocks on other branches -/

omit [Fc] in
/-- Where no refused block is the head, the fork databases are in step. -/
theorem Node.Shadows.inStep {k k' : Node} (h : k.Shadows k') (hghost : ¬k.Ghostly) :
    InStep k.headBlockId k.headBlockNum k.forkDb k'.forkDb := by
  cases h.below.forkDb with
  | inStep h => exact h
  | haunted ρ ghost hh hprev _ => exact absurd ⟨ghost, hh.head, hh.gone, hprev⟩ hghost

theorem Node.Shadows.beside {g : ForkDb} {top : ForkItem} (h : m.Shadows m')
    (hskip : c.skip.forkDb = false) (hghost : ¬m.emptied.Ghostly)
    (hpushed : m.emptied.forkDb.pushBlock c.block = .ok g) (hg : g.head = some top)
    (htop : top.data.previous ≠ m.emptied.headBlockId) (hlow : top.num ≤ m.emptied.headBlockNum) :
    StepsWith m m' c := by
  have hk := h.emptied
  obtain ⟨g', hpushed', hstep⟩ := (hk.inStep hghost).pushBlock hpushed
  obtain ⟨top', hg', hnum', hiff⟩ := hstep.top hg
  have htop' : top'.data.previous ≠ m'.emptied.headBlockId := by
    rw [hk.below.headBlockId]
    exact fun e => htop (hiff.mp e)
  have hlow' : ¬m'.emptied.headBlockNum < top'.num := by
    rw [hk.below.headBlockNum, hnum']
    exact Nat.not_lt.mpr hlow
  have hend : Node.Shadows { m.emptied with forkDb := g } { m'.emptied with forkDb := g' } :=
    ⟨hk.below.withForkDb (.inStep hstep), .inl (.of_none m.emptied_pendingSession)⟩
  refine h.returned (r := false) ?_ ?_ hend
  · rw [pushBlockOnly_taken hskip hpushed hg, if_neg htop, if_neg (Nat.not_lt.mpr hlow)]
  · rw [pushBlockOnly_taken hskip hpushed' hg', if_neg htop', if_neg hlow']

omit [Fc] in
theorem Branches.base_relabel {ρ : Nat → Nat} {br br' : Node.Branches}
    (h : br.second = br'.second.map (ForkItem.relabel ρ)) : br.base = br'.base := by
  unfold Node.Branches.base
  rw [h, List.getLast?_map]
  cases br'.second.getLast? with
  | none => rfl
  | some item => rfl

/-- **A switch of forks goes through in the other node too.** -/
theorem Node.Below.switchForks {clock depth : Nat} {skip : Skip} {ρ : Nat → Nat} {k k' : Node}
    {br : Node.Branches} {top top' : ForkItem} (h : k.Below (Twin ρ) k') (newId : BlockId)
    (hid : top'.id = top.id)
    (hbranch : k.forkDb.fetchBranchFrom top.id k.headBlockId = .ok (br.first, br.second))
    (hpop : k.popTo br.held br.base = .ok () n)
    (happlies : n.AppliesAll clock depth skip br.first.reverse) :
    ∃ l l', Node.switchForks clock depth skip k newId top = .ok true l ∧
      Node.switchForks clock depth skip k' newId top' = .ok true l' ∧ l.Shadows l' := by
  obtain ⟨first, second, hfirst, hsecond, hbranch'⟩ :
      ∃ first second, br.first = first.map (ForkItem.relabel ρ) ∧
        br.second = second.map (ForkItem.relabel ρ) ∧
        k'.forkDb.fetchBranchFrom top'.id k'.headBlockId = .ok (first, second) := by
    have hfetch := h.forkDb.fetchBranchFrom top.id k.headBlockId
    rw [hid, h.headBlockId]
    cases hf : k'.forkDb.fetchBranchFrom top.id k.headBlockId with
    | error e =>
      rw [hbranch, hf] at hfetch
      cases hfetch
    | ok p =>
      rw [hbranch, hf] at hfetch
      obtain ⟨h1, h2⟩ := Prod.mk.inj (Except.ok.inj hfetch)
      exact ⟨p.1, p.2, h1, h2, rfl⟩
  have hheld : k'.forkDb.Held (first ++ second) :=
    ForkDb.fetchBranchFrom_fits h.forkDb.fit hbranch'
  -- twins, one of which may lock the branch that its caller holds
  have hpops : Pops (fun f f' => Twin ρ f f' ∧ f'.Held (first ++ second)) br.held
      (first ++ second) := by
    refine ⟨fun f f' id hF => ?_, fun f f' g hF hpop => ?_⟩
    · rw [hF.1.renamed.find, Option.map_map]
      rfl
    · have hmap : br.held = (first ++ second).map (ForkItem.relabel ρ) := by
        unfold Node.Branches.held
        rw [hfirst, hsecond, List.map_append]
      rw [hmap] at hpop
      obtain ⟨g', hpop', ht, htag⟩ := hF.1.popBlock hF.2 hpop
      refine ⟨g', hpop', ht, ?_⟩
      unfold ForkDb.Held
      rw [htag]
      exact hF.2
  obtain ⟨n', hpop', hn⟩ := (h.mono ⟨h.forkDb, hheld⟩).popTo hpops hpop
  have htwin : n.Below (Twin ρ) n' := hn.mono hn.forkDb.1
  have hitems : first.reverse.map (fun i => (i.id, i.data)) =
      br.first.reverse.map fun i => (i.id, i.data) := by
    rw [hfirst, List.map_reverse, List.map_reverse, List.map_map]
    rfl
  have hbase : br.base = Node.Branches.base ⟨first, second⟩ := Branches.base_relabel hsecond
  obtain ⟨l, l', hl, hl', hend⟩ := htwin.pushEach ForkDb.twin_resized newId newId br
    ⟨first, second⟩ hitems happlies
  refine ⟨l, l', ?_, ?_, .of_twin hend⟩
  · unfold Node.switchForks
    simp only [hbranch, hpop]
    exact hl
  · rw [hbase] at hpop'
    unfold Node.switchForks
    simp only [hbranch']
    simp only [Node.Branches.held, hpop']
    exact hl'

theorem Node.Shadows.switches {g : ForkDb} {top : ForkItem} {br : Node.Branches} (h : m.Shadows m')
    (hskip : c.skip.forkDb = false) (hghost : ¬m.emptied.Ghostly)
    (hpushed : m.emptied.forkDb.pushBlock c.block = .ok g) (hg : g.head = some top)
    (htop : top.data.previous ≠ m.emptied.headBlockId) (hhigh : m.emptied.headBlockNum < top.num)
    (hbranch : g.fetchBranchFrom top.id m.emptied.headBlockId = .ok (br.first, br.second))
    (hpop : Node.popTo { m.emptied with forkDb := g } br.held br.base = .ok () n)
    (happlies : n.AppliesAll c.clock c.depth c.skip br.first.reverse) : StepsWith m m' c := by
  have hk := h.emptied
  obtain ⟨g', hpushed', hstep⟩ := (hk.inStep hghost).pushBlock hpushed
  obtain ⟨ρ, htwin⟩ := hstep.twin_of_top hg (.inr hhigh)
  obtain ⟨top', hg', rfl⟩ := Option.map_eq_some_iff.mp (htwin.head.symm.trans hg)
  have hid : top'.id = (top'.relabel ρ).id := rfl
  have htop' : top'.data.previous ≠ m'.emptied.headBlockId := by
    rw [hk.below.headBlockId]
    exact htop
  have hhigh' : m'.emptied.headBlockNum < top'.num := by
    rw [hk.below.headBlockNum]
    exact hhigh
  obtain ⟨l, l', hl, hl', hend⟩ := (hk.below.withForkDb htwin).switchForks c.id hid hbranch hpop
    happlies
  refine h.returned (r := true) ?_ ?_ hend
  · rw [pushBlockOnly_taken hskip hpushed hg, if_neg htop, if_pos hhigh, hl]
  · rw [pushBlockOnly_taken hskip hpushed' hg', if_neg htop', if_pos hhigh', hl']

/-! ## 4. One call, and a run -/

/-- **A harmless call returns the same in both nodes, or throws in both and leaves no trace.** -/
theorem Harmless.step (hc : Harmless m c) (h : m.Shadows m') : StepsWith m m' c := by
  obtain ⟨hnum, hkind⟩ := hc
  cases hkind with
  | turnedAway e hskip hlink hghost hback => exact h.turnedAway hskip hlink hghost hback hnum
  | refused e d hoffers htest hcrash hbroken hroom hback =>
    exact h.refuses hoffers htest hcrash hbroken hroom hback hnum
  | applied wit d d' hoffers hghost henabled htest hfinish =>
    exact h.applies hoffers hghost henabled htest hfinish hnum
  | beside g top hskip hghost hpushed hg htop hlow =>
    exact h.beside hskip hghost hpushed hg htop hlow
  | switches g top br n hskip hghost hpushed hg htop hhigh hbranch hpop happlies =>
    exact h.switches hskip hghost hpushed hg htop hhigh hbranch hpop happlies

/-- A run beside the calls of it that returned. -/
theorem AllHarmless.run {cs : List Push} (hcs : AllHarmless cs m) (h : m.Shadows m') :
    (Node.pushRun (Node.returning cs m) m').1 = (Node.pushRun cs m).1.filter Option.isSome ∧
      (Node.pushRun cs m).2.Shadows (Node.pushRun (Node.returning cs m) m').2 := by
  induction cs generalizing m m' with
  | nil => exact ⟨rfl, h⟩
  | cons c cs ih =>
    obtain ⟨hc, hrest⟩ := hcs
    cases hc.step h with
    | returned r n n' hn hn' hend =>
      rw [hn, Reply.node_ok] at hrest
      obtain ⟨h1, h2⟩ := ih hrest hend
      obtain ⟨e1, e2⟩ := pushRun_ok cs hn
      obtain ⟨e3, _⟩ := pushRun_ok (Node.returning cs n) hn'
      rw [e2, e1, e3]
      exact ⟨by rw [List.filter_cons_of_pos rfl, h1], h2⟩
    | threw e n hn _ hend =>
      rw [hn, Reply.node_thrown] at hrest
      obtain ⟨h1, h2⟩ := ih hrest hend
      obtain ⟨e1, e2⟩ := pushRun_thrown cs hn
      rw [e2, e1]
      exact ⟨by rw [List.filter_cons_of_neg (by simp), h1], h2⟩

theorem AllHarmless.split {pre post : List Push} (h : AllHarmless (pre ++ c :: post) m) :
    AllHarmless pre m ∧ Harmless (Node.pushRun pre m).2 c := by
  induction pre generalizing m with
  | nil => exact ⟨trivial, h.1⟩
  | cons c' pre ih =>
    obtain ⟨hc', hrest⟩ := h
    obtain ⟨h1, h2⟩ := ih hrest
    refine ⟨⟨hc', h1⟩, ?_⟩
    have hlast : (Node.pushRun (c' :: pre) m).2 = (Node.pushRun pre (m.push c').node).2 := by
      simp only [Node.pushRun]
      cases m.push c' with
      | ok r n => rfl
      | thrown e n => rfl
    rw [hlast]
    exact h2

omit [Fc] in
theorem Node.Shadows.refl (h : m.forkDb.Fit) : m.Shadows m := by
  have hid : ∀ x : ForkItem, x.relabel id = x := fun x => by
    unfold ForkItem.relabel
    rw [Option.map_id]
    rfl
  have htwin : Twin id m.forkDb m.forkDb := by
    refine ⟨⟨⟨Function.injective_id, fun _ => rfl⟩, ?_, rfl⟩, ?_, h⟩
    · rw [funext hid]
      exact (List.map_id _).symm
    · rw [funext hid]
      exact Option.map_id'.symm
  exact .of_twin ⟨⟨[], under_nil.symm, .inl rfl⟩, htwin, rfl, rfl, rfl, rfl, rfl⟩

end

end MuseChain
