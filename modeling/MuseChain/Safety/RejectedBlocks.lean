/-
  File:      MuseChain/Safety/RejectedBlocks.lean
  Subject:   Calls of push_block that throw, and what later calls see of them.

  * `rejected_traceless`: where every call of a run is harmless, the calls that threw leave no
    trace: without them the others return the same and the run ends in the same state, and a call
    that then returns does so after all of them too.
  * `failed_push_leaves_trace`: a switch that fails leaves the node on the other branch, because
    fork_db has no head to pop to; and a block that fails to extend the chain stays the head of
    fork_db, so that a longer valid branch is not adopted after it.
-/
import MuseChain.Safety.Shadows

namespace MuseChain

/-! ## 1. Runs -/

section

variable [Fc]

/-- A call that returns when the calls that threw are left out returns the same after all of
them. -/
def Unhindered (cs : List Push) (m : Node) : Prop :=
  ∀ pre c post, cs = pre ++ c :: post → ∀ r n',
    (Node.pushRun (Node.returning pre m) m).2.push c = .ok r n' →
      ∃ n, (Node.pushRun pre m).2.push c = .ok r n

/-- **Calls that throw leave no trace**, in a run of harmless calls. -/
theorem rejected_traceless {made : List ForkItem} (cs : List Push) (m : Node)
    (hgrown : ForkDb.Grown m.forkDb made) (h : AllHarmless cs m) :
    Traceless cs m ∧ Unhindered cs m := by
  have hm : m.Shadows m := .refl hgrown.fit
  obtain ⟨hreturned, hend⟩ := h.run hm
  refine ⟨⟨hreturned, hend.below.headBlockId, hend.below.store⟩, ?_⟩
  rintro pre c post rfl r n' hclean
  obtain ⟨hpre, hc⟩ := h.split
  obtain ⟨_, hshadows⟩ := hpre.run hm
  cases hc.step hshadows with
  | returned r₁ n₁ n₁' hn₁ hn₁' _ =>
    obtain ⟨rfl, _⟩ := Reply.ok.inj (hn₁'.symm.trans hclean)
    exact ⟨n₁, hn₁⟩
  | threw e n₁ _ hthrown _ =>
    rw [hclean] at hthrown
    cases hthrown

end

/-! ## 2. Blocks that fail with a trace -/

section

attribute [local instance] sampleFc

/-- A push of the block with this header, without transactions. -/
def samplePush (b : SignedBlockHeader) : Push := { block := ⟨b, []⟩ }

/-- Two branches from the genesis; the second block of the other one has a wrong merkle root. -/
def failedSwitch : List Push :=
  let a := sampleHeader ⟨0, 0⟩ 1
  let b := sampleHeader ⟨0, 0⟩ 2
  [samplePush a, samplePush b, samplePush { sampleHeader b.id 3 with transactionMerkleRoot := 1 }]

/-- The block of the current branch that fails is the one in the middle. -/
def failedExtension : List Push × Push × Push :=
  let a := sampleHeader ⟨0, 0⟩ 1
  let h := sampleHeader a.id 2
  let w := sampleHeader a.id 3
  ([samplePush a, samplePush h, samplePush w],
    samplePush { sampleHeader h.id 3 with transactionMerkleRoot := 1 },
    samplePush (sampleHeader w.id 4))

/-- **A block that fails after the fork database took it leaves a trace.** The switch that fails
ends on another head than without it; and the longer branch, which is adopted without the failed
block, is not adopted after it. -/
theorem failed_push_leaves_trace :
    ¬Traceless failedSwitch (Node.genesis sampleGenesis) ∧
      (Node.pushRun (failedExtension.1 ++ [failedExtension.2.2]) (Node.genesis sampleGenesis)).1 =
        [some false, some false, some false, some true] ∧
      (Node.pushRun (failedExtension.1 ++ [failedExtension.2.1, failedExtension.2.2])
        (Node.genesis sampleGenesis)).1 = [some false, some false, some false, none, none] := by
  refine ⟨fun h => ?_, by decide +kernel, by decide +kernel⟩
  exact absurd h.2.1 (by decide +kernel)

/-! ## 3. Blocks that fail without one -/

/-- A block, then one that is refused, a child of that one, another block in its place, and a longer
branch. -/
def refusedRun : List Push :=
  let a := sampleHeader ⟨0, 0⟩ 1
  let x := { sampleHeader a.id 2 with transactionMerkleRoot := 1 }
  let d := sampleHeader a.id 4
  [samplePush a, samplePush x, samplePush (sampleHeader x.id 3), samplePush (sampleHeader a.id 3),
    samplePush d, samplePush (sampleHeader d.id 5)]

/-- The node before the block `i` of the run. -/
def refusedNode (i : Nat) : Node :=
  (Node.pushRun (refusedRun.take i) (Node.genesis sampleGenesis)).2

theorem AllHarmless.of_each [Fc] {cs : List Push} {m : Node}
    (h : ∀ i : Fin cs.length, Harmless (Node.pushRun (cs.take i) m).2 (cs.get i)) :
    AllHarmless cs m := by
  induction cs generalizing m with
  | nil => trivial
  | cons c cs ih =>
    refine ⟨h 0, ih fun i => ?_⟩
    have hrun : (Node.pushRun (c :: cs.take i) m).2 =
        (Node.pushRun (cs.take i) (m.push c).node).2 := by
      simp only [Node.pushRun]
      cases m.push c with
      | ok r n => rfl
      | thrown e n => rfl
    rw [← hrun]
    exact h i.succ

/-- A block that is applied, without nested sessions, hands out ids in order. -/
theorem applyInSession_fresh [Fc] {clock depth : Nat} {skip : Skip} {m n : Node} {b : SignedBlock}
    {id : BlockId} (h : Node.applyInSession clock depth skip m b id = .ok () n) (hdepth : depth = 0)
    (hbroken : n.db.broken = false) (hf : m.db.store.Fresh) : n.db.store.Fresh := by
  subst hdepth
  obtain ⟨skip', wit, d, d', _, hfirst, hrest, rfl⟩ := Node.applyInSession_ok h
  have hkept := (applyBlockFirst clock skip' 0 b).holds (m.db.startUndoSession false).2
  have hkept' := (applyBlockRest clock 0 wit b).holds (Node.setMaxSizes { m with db := d }).db
  rw [hfirst, Outcome.db_ok] at hkept
  rw [hrest, Outcome.db_ok] at hkept'
  rw [← startUndoSession_store m.db false] at hf
  obtain ⟨hwhole, _, hsecond⟩ := hkept' hbroken
  obtain ⟨_, _, hfirst⟩ := hkept hwhole
  exact (hsecond (Nat.zero_le _) (hfirst (Nat.zero_le _) hf).fresh).fresh

/-- So does a call that returns without a switch, when nothing is pending. -/
theorem push_fresh [Fc] {m n : Node} {c : Push} (h : m.push c = .ok false n)
    (hpending : m.pendingTx = []) (hpopped : m.poppedTx = []) (hsession : m.pendingSession = none)
    (hdepth : c.depth = 0) (hbroken : n.db.broken = false) (hf : m.db.store.Fresh) :
    n.db.store.Fresh := by
  obtain ⟨r, k, hk⟩ := returns_of_isOk (c := c) (m := m) (by rw [h]; rfl)
  obtain ⟨rfl, hn⟩ := Reply.ok.inj ((push_of_ok hk).symm.trans h)
  have hm := Node.emptied_of_nil hpending hsession
  have hput : k.poppedTx = [] → k.db = n.db := by
    intro hpop
    rw [← hn, hpending]
    unfold Node.putBack
    rw [hpop]
    rfl
  have hextend : ∀ l : Node, l.db = m.db → l.poppedTx = m.poppedTx →
      Node.applyInSession c.clock c.depth c.skip l c.block c.id = .ok () k →
        n.db.store.Fresh := by
    intro l hl hlpop happly
    have hend := hput ((applyInSession_moved happly).popped.trans (hlpop.trans hpopped))
    rw [← hend] at hbroken ⊢
    exact applyInSession_fresh happly hdepth hbroken (hl ▸ hf)
  rw [hm] at hk
  cases pushBlockOnly_returned hk with
  | skipping _ happly => exact hextend m rfl rfl happly
  | onHead g top _ _ _ _ happly => exact hextend { m with forkDb := g } rfl rfl happly
  | beside g top _ _ _ _ _ _ =>
    rw [← hput hpopped]
    exact hf

/-- A test fails, and no container dropped an object. -/
def Outcome.fails {S : Schema} {α : Type} : Outcome S α → Bool
  | .thrown (.assert _) d => !d.broken
  | _ => false

theorem Outcome.of_fails {S : Schema} {α : Type} {o : Outcome S α} (h : o.fails = true) :
    ∃ e d, o = .thrown e d ∧ (∀ why, e ≠ .crash why) ∧ d.broken = false := by
  cases o with
  | ok a d => cases h
  | thrown e d =>
    cases e with
    | crash why => cases h
    | overflow msg => cases h
    | assert msg =>
      refine ⟨_, d, rfl, ?_, ?_⟩
      · intro why e
        cases e
      · unfold Outcome.fails at h
        simpa using h

section

variable [Fc] {m : Node} {c : Push}

theorem Harmless.of_isOk (hnum : c.block.blockNum = c.block.previous.num + 1)
    (henabled : m.emptied.db.disabled = false)
    (hghost : m.emptied.Ghostly → c.skip.forkDb = false ∧ c.block.previous = m.emptied.headBlockId)
    (h : (m.push c).isOk = true) : Harmless m c := by
  obtain ⟨r, n, hr⟩ := returns_of_isOk h
  exact ⟨hnum, .of_returns henabled hghost hr⟩

theorem Harmless.of_fails (hnum : c.block.blockNum = c.block.previous.num + 1)
    (hoffers : m.emptied.Offers c) (h : (m.emptied.tested c).fails = true)
    (hroom : m.emptied.Roomy c) (hback : PutsBack m c) : Harmless m c := by
  obtain ⟨e, d, htest, hcrash, hbroken⟩ := Outcome.of_fails h
  exact ⟨hnum, .refused e d hoffers htest hcrash hbroken hroom hback⟩

end

theorem Node.Offers.of_head {k : Node} {c : Push} (hskip : c.skip.forkDb = false)
    (hprev : c.block.previous = k.headBlockId)
    (h : (match k.forkDb.pushBlock c.block with
      | .ok g => g.head.any fun top => decide (top.data.previous = k.headBlockId)
      | .error _ => false) = true) : k.Offers c := by
  cases hpush : k.forkDb.pushBlock c.block with
  | error e =>
    rw [hpush] at h
    cases h
  | ok g =>
    rw [hpush] at h
    obtain ⟨top, hg, htop⟩ := (Option.any_eq_true _ _).mp h
    exact .onHead g top hskip hprev hpush hg (of_decide_eq_true htop)

/-- Nothing is pending before the first three blocks of the run. -/
theorem refusedNode_quiet (i : Nat) (hi : i ∈ [0, 1, 2]) :
    (refusedNode i).pendingTx = [] ∧ (refusedNode i).poppedTx = [] ∧
      (refusedNode i).pendingSession = none := by
  have htest : ∀ i ∈ [0, 1, 2], (refusedNode i).pendingTx.length = 0 ∧
      (refusedNode i).poppedTx.length = 0 ∧ (refusedNode i).pendingSession = none := by
    decide +kernel
  obtain ⟨h1, h2, h3⟩ := htest i hi
  exact ⟨List.eq_nil_of_length_eq_zero h1, List.eq_nil_of_length_eq_zero h2, h3⟩

theorem refusedNode_fresh : (refusedNode 1).emptied.db.store.Fresh := by
  obtain ⟨hpending, hpopped, hsession⟩ := refusedNode_quiet 0 (by decide)
  obtain ⟨hpending₁, _, hsession₁⟩ := refusedNode_quiet 1 (by decide)
  rw [Node.emptied_of_nil hpending₁ hsession₁]
  have hgenesis : (refusedNode 0).db.store.Fresh := Node.genesis_fresh (by decide +kernel)
  have hbroken : (refusedNode 1).db.broken = false := by decide +kernel
  have hdepth : (refusedRun.get ⟨0, by decide⟩).depth = 0 := rfl
  have hreply : (Node.pushRun [refusedRun.get ⟨0, by decide⟩] (refusedNode 0)).1 =
      [some false] := by decide +kernel
  have hrun : refusedNode 1 =
      (Node.pushRun [refusedRun.get ⟨0, by decide⟩] (refusedNode 0)).2 := rfl
  generalize refusedNode 1 = n at hbroken hrun ⊢
  generalize refusedRun.get ⟨0, by decide⟩ = c at hdepth hreply hrun
  cases hpush : (refusedNode 0).push c with
  | ok r n' =>
    rw [(pushRun_ok [] hpush).1] at hreply hrun
    obtain rfl : r = false := by
      unfold Node.pushRun at hreply
      simpa using hreply
    obtain rfl : n = n' := hrun
    exact push_fresh hpush hpending hpopped hsession hdepth hbroken hgenesis
  | thrown e n' =>
    rw [(pushRun_thrown [] hpush).1] at hreply
    cases hreply

theorem refusedRun_harmless : AllHarmless refusedRun (Node.genesis sampleGenesis) := by
  have hreturns : ∀ i : Fin refusedRun.length, i.val ∉ [1, 2] →
      Harmless (refusedNode i) (refusedRun.get i) := by
    intro i hi
    refine .of_isOk ?_ ?_ ?_ ?_
    all_goals revert i; decide +kernel
  have hx : Harmless (refusedNode 1) (refusedRun.get ⟨1, by decide⟩) := by
    obtain ⟨hpending, hpopped, hsession⟩ := refusedNode_quiet 1 (by decide)
    refine .of_fails (by decide +kernel) (.of_head rfl (by decide +kernel) (by decide +kernel))
      (by decide +kernel) ⟨by decide +kernel, by decide +kernel, refusedNode_fresh,
        by decide +kernel, ?_, by decide +kernel⟩ (.of_nil _ hpending hpopped hsession)
    exact Option.isNone_iff_eq_none.mp (by decide +kernel)
  have hy : Harmless (refusedNode 2) (refusedRun.get ⟨2, by decide⟩) := by
    obtain ⟨hpending, hpopped, hsession⟩ := refusedNode_quiet 2 (by decide)
    refine ⟨by decide +kernel, .turnedAway (.assert "block does not link to known chain") rfl ?_
      (by decide +kernel) (.of_nil _ hpending hpopped hsession)⟩
    decide +kernel
  refine .of_each fun i => ?_
  by_cases h1 : i.val = 1
  · obtain rfl : i = ⟨1, by decide⟩ := Fin.ext h1
    exact hx
  · by_cases h2 : i.val = 2
    · obtain rfl : i = ⟨2, by decide⟩ := Fin.ext h2
      exact hy
    · exact hreturns i (by simp [h1, h2])

theorem rejected_traceless_refused :
    (Node.pushRun refusedRun (Node.genesis sampleGenesis)).1 =
        [some false, none, none, some false, some false, some true] ∧
      Traceless refusedRun (Node.genesis sampleGenesis) ∧
      Unhindered refusedRun (Node.genesis sampleGenesis) := by
  refine ⟨by decide +kernel, rejected_traceless _ _ (.empty 1024) refusedRun_harmless⟩

end

end MuseChain
