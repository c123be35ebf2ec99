/-
  File:      MuseChain/Safety/Royalties.lean
  Subject:   What the payees of a content get: pay_to_content_master and pay_to_content_comp.

  * `Apportioned`: the payees got between nothing and the amount to pay, and the rest is kept.
  * `payToContentSide_ok`: the run of a payout, with the total of its loop.
  * **`royalties_apportioned_iff`**: a payout is apportioned when the parts of the payees make no
    more than 10000, and of the multiples of 10000 none is otherwise.
  * `Reached.shared`: they make no more in every state that is reached by operations which declare
    no more, in the numbers that they write and not in 32 bits of the sum.
-/
import MuseChain.Lib.Portions
import MuseChain.Safety.ChainRuns
import MuseChain.Safety.ContentEdits
import MuseChain.Safety.Tallies

namespace MuseChain

variable {n : Nat} {d d' : Database chainSchema}

/-! ## 1. The statement -/

/-- The parts of the payees, together. -/
def bpSum (l : List Distribution) : Nat := (l.map (·.bp)).sum

/-- What there is to pay. -/
def ContentSide.toPay (side : ContentSide) (hf2 : Bool) (c : Content) (payout : Asset) : Asset :=
  if hf2 then ⟨payout.amount + (side.accumulated c).amount, payout.assetId⟩ else payout

/-- The payees got `total`: what the loop over the distributions returns. -/
def ContentSide.Paid (side : ContentSide) (c : Content) (payout : Asset) (n : Nat)
    (d : Database chainSchema) (total : Asset) : Prop :=
  if side.distributions c = [] then total.amount = 0
  else
    let toPay := side.toPay (d.store.passed hardfork02) c payout
    ∃ d₁, (payDistributions toPay (side.distributions c) ⟨0, toPay.assetId⟩ : Act n Asset).run d =
      .ok total d₁

/-- Of `toPay` the payees get `total`, and what was accumulated and comes in is theirs or kept. -/
structure Apportioned (toPay payout total before after : Int) : Prop where
  nonneg : 0 ≤ total
  bounded : total ≤ toPay
  kept : 0 ≤ after
  whole : total + after = payout + before

/-! ## 2. The loop -/

theorem safeDiv_ok {a b x : Int} (h : safeDiv a b = .ok x) : b ≠ 0 ∧ x = a.tdiv b := by
  unfold safeDiv at h
  split at h
  · cases h
  · rename_i hb
    exact ⟨hb, (safe_ok.mp h).1⟩

theorem payDistributions_ok {toPay paid total : Asset} {l : List Distribution}
    (hpay : 0 ≤ toPay.amount)
    (h : (payDistributions toPay l paid : Act n Asset).run d = .ok total d') :
    total.amount = paid.amount + (portions 10000 toPay.amount (l.map (·.bp))).sum := by
  induction l generalizing paid d with
  | nil =>
    cases h
    exact (add_zero _).symm
  | cons di l ih =>
    obtain ⟨x, hx, h⟩ := Action.bind_lift_ok.mp h
    obtain ⟨y, hy, h⟩ := Action.bind_lift_ok.mp h
    obtain ⟨sum, hsum, h⟩ := Action.bind_lift_ok.mp h
    obtain ⟨_, _, h⟩ := Action.bind_lift_ok.mp h
    obtain ⟨_, _, _, h⟩ := Action.bind_ok.mp h
    obtain ⟨_, _, _, h⟩ := Action.bind_ok.mp h
    obtain ⟨_, _, _, hrest⟩ := Action.bind_ok.mp h
    obtain ⟨rfl, -⟩ := safe_ok.mp hx
    obtain ⟨-, rfl⟩ := safeDiv_ok hy
    obtain ⟨-, rfl⟩ := Asset.add_ok hsum
    have hreward : (toPay.amount * di.bp).tdiv 10000 = toPay.amount * di.bp / 10000 :=
      Int.tdiv_eq_ediv_of_nonneg (mul_nonneg hpay (Int.natCast_nonneg _))
    rw [ih hrest, List.map_cons, portions_cons, List.sum_cons, hreward, add_assoc]

/-! ## 3. The payout -/

theorem ContentSide.accumulated_setAccumulated (side : ContentSide) (c : Content) (x : Asset) :
    side.accumulated (side.setAccumulated c x) = x := by
  cases side with
  | master => rfl
  | comp => rfl

theorem content_of_payDistributions {toPay paid total : Asset} {l : List Distribution}
    (h : (payDistributions toPay l paid : Act n Asset).run d = .ok total d') (i : Nat) :
    d'.store.get Kind.content i = d.store.get Kind.content i := by
  have hpay := (composed_payDistributions toPay l paid (List.Subset.refl _)).steps.step h
  refine get_of_unchanged hpay (by decide) (by decide) fun a b hab => ?_
  have hview : ∀ f, Content.view f a = Content.view f b := fun f =>
    Or.resolve_left (hab f) (by cases f <;> decide)
  have h1 := hview .identity
  have h2 := hview .accumulated
  have h3 := hview .plays
  have h4 := hview .disabled
  have h5 := hview .terms
  cases a
  cases b
  simp only [Content.view, Prod.mk.injEq, ContentTerms.mk.injEq] at h1 h2 h3 h4 h5
  simp only [Content.mk.injEq]
  tauto

/-- **What a payout leaves**, with the total of its loop. -/
theorem payToContentSide_ok {side : ContentSide} {i : Nat} {c : Content} {payout : Asset}
    {u : Unit} (hc : d.store.get Kind.content i = some c)
    (h : (payToContentSide side i payout : Act n Unit).run d = .ok u d') :
    ∃ c' : Content, d'.store.get Kind.content i = some c' ∧ ∃ total, side.Paid c payout n d total ∧
      (side.accumulated c').amount = payout.amount + (side.accumulated c).amount - total.amount := by
  obtain ⟨co, hco, h⟩ := bind_getObject_ok.mp h
  obtain rfl := Option.some.inj (hc.symm.trans hco)
  split at h
  · rename_i hnone
    obtain ⟨a, x, ha, hx, hf, e⟩ := modifyWith_store h
    obtain rfl := Option.some.inj (hc.symm.trans ha)
    obtain ⟨-, rfl⟩ := Asset.add_ok hx
    refine ⟨_, by rw [e, Store.get_write_self, if_pos rfl], Asset.muse 0, ?_, ?_⟩
    · unfold ContentSide.Paid
      rw [if_pos hnone]
      rfl
    · rw [ContentSide.accumulated_setAccumulated, add_comm]
      exact (sub_zero _).symm
  · rename_i hsome
    have h := bind_hasHardfork_ok h
    obtain ⟨toPay, htoPay, h⟩ : ∃ toPay, toPay = side.toPay (d.store.passed hardfork02) c payout ∧
        ((do
          let totalPaid ← payDistributions toPay (side.distributions c) ⟨0, toPay.assetId⟩
          let _ ← Action.lift (totalPaid.gt toPay)
          let rest ← Action.lift (toPay.sub totalPaid)
          if d.store.passed hardfork02 then do
            let co ← getObject .content i
            if side.accumulated co ≠ rest then
              Action.modify (S := chainSchema) Kind.content i
                (fun c : Content => side.setAccumulated c rest)
                fun c => side.setAccumulated_sameKey c rest
          else if rest.amount ≠ 0 then
            Action.modifyWith (S := chainSchema) Kind.content i
              (fun c : Content => (side.accumulated c).add rest)
              (fun (c : Content) x => side.setAccumulated c x)
              fun c x => side.setAccumulated_sameKey c x) : Act n Unit).run d = .ok u d' := by
      unfold ContentSide.toPay
      by_cases hf2 : d.store.passed hardfork02 = true
      · rw [if_pos hf2] at h
        obtain ⟨toPay, hadd, h⟩ := Action.bind_lift_ok.mp h
        exact ⟨toPay, by rw [if_pos hf2, (Asset.add_ok hadd).2], h⟩
      · rw [if_neg hf2] at h
        exact ⟨payout, by rw [if_neg hf2], h⟩
    obtain ⟨total, d₁, hloop, h⟩ := Action.bind_ok.mp h
    obtain ⟨_, -, h⟩ := Action.bind_lift_ok.mp h
    obtain ⟨rest, hrest, h⟩ := Action.bind_lift_ok.mp h
    obtain ⟨-, rfl⟩ := Asset.sub_ok hrest
    have hc₁ := (content_of_payDistributions hloop i).trans hc
    have hpaid : side.Paid c payout n d total := by
      unfold ContentSide.Paid
      rw [if_neg hsome, ← htoPay]
      exact ⟨d₁, hloop⟩
    dsimp only at h
    split at h
    · -- what is left takes the place of the balance
      rename_i hf2
      have hrest : toPay.amount - total.amount =
          payout.amount + (side.accumulated c).amount - total.amount := by
        rw [htoPay, ContentSide.toPay, if_pos hf2]
      obtain ⟨co, hco, h⟩ := bind_getObject_ok.mp h
      obtain rfl := Option.some.inj (hc₁.symm.trans hco)
      split at h
      · obtain ⟨a, ha, hf, e⟩ := modify_store h
        refine ⟨_, by rw [e, Store.get_write_self, if_pos rfl], total, hpaid, ?_⟩
        rw [ContentSide.accumulated_setAccumulated]
        exact hrest
      · rename_i hsame
        cases h
        refine ⟨c, hc₁, total, hpaid, ?_⟩
        exact (congrArg Asset.amount (not_not.mp hsame)).trans hrest
    · -- what is left is added to the balance
      rename_i hf2
      have hrest : toPay.amount = payout.amount := by
        rw [htoPay, ContentSide.toPay, if_neg hf2]
      split at h
      · obtain ⟨a, x, ha, hx, hf, e⟩ := modifyWith_store h
        obtain rfl := Option.some.inj (hc₁.symm.trans ha)
        obtain ⟨-, rfl⟩ := Asset.add_ok hx
        refine ⟨_, by rw [e, Store.get_write_self, if_pos rfl], total, hpaid, ?_⟩
        rw [ContentSide.accumulated_setAccumulated]
        show (side.accumulated c).amount + (toPay.amount - total.amount) = _
        omega
      · rename_i hzero
        cases h
        refine ⟨c, hc₁, total, hpaid, ?_⟩
        have hzero : toPay.amount - total.amount = 0 := not_not.mp hzero
        omega

section

variable {side : ContentSide} {hf2 : Bool} {c : Content} {payout total : Asset}

theorem ContentSide.toPay_le (hacc : 0 ≤ (side.accumulated c).amount) :
    (side.toPay hf2 c payout).amount ≤ payout.amount + (side.accumulated c).amount := by
  unfold ContentSide.toPay
  split
  · exact le_refl _
  · exact le_add_of_nonneg_right hacc

theorem ContentSide.toPay_nonneg (hpay : 0 ≤ payout.amount)
    (hacc : 0 ≤ (side.accumulated c).amount) : 0 ≤ (side.toPay hf2 c payout).amount := by
  unfold ContentSide.toPay
  split
  · exact add_nonneg hpay hacc
  · exact hpay

theorem ContentSide.Paid.eq_portions (h : side.Paid c payout n d total)
    (hto : 0 ≤ (side.toPay (d.store.passed hardfork02) c payout).amount) :
    total.amount = (portions 10000 (side.toPay (d.store.passed hardfork02) c payout).amount
      ((side.distributions c).map (·.bp))).sum := by
  unfold ContentSide.Paid at h
  split at h
  · rename_i hnone
    rw [h, hnone]
    rfl
  · obtain ⟨d₁, hrun⟩ := h
    exact (payDistributions_ok hto hrun).trans (zero_add _)

end

/-- **A payout is apportioned when the parts of the payees make no more than a whole**, and where
    the amount is a multiple of the whole, only then. -/
theorem royalties_apportioned_iff (side : ContentSide) (n : Nat) (d d' : Database chainSchema)
    (i : Nat) (c : Content) (payout : Asset) (u : Unit)
    (hc : d.store.get Kind.content i = some c) (hpay : 0 ≤ payout.amount)
    (hacc : 0 ≤ (side.accumulated c).amount)
    (h : (payToContentSide side i payout : Act n Unit).run d = .ok u d') :
    let toPay := (side.toPay (d.store.passed hardfork02) c payout).amount
    ∃ c' : Content, d'.store.get Kind.content i = some c' ∧ ∃ total, side.Paid c payout n d total ∧
      (bpSum (side.distributions c) ≤ 10000 → Apportioned toPay payout.amount total.amount
        (side.accumulated c).amount (side.accumulated c').amount) ∧
      (0 < toPay → 10000 ∣ toPay → (Apportioned toPay payout.amount total.amount
        (side.accumulated c).amount (side.accumulated c').amount ↔
          bpSum (side.distributions c) ≤ 10000)) := by
  intro toPay
  obtain ⟨c', hc', total, hpaid, hafter⟩ := payToContentSide_ok hc h
  have hle : (side.toPay (d.store.passed hardfork02) c payout).amount ≤
      payout.amount + (side.accumulated c).amount := side.toPay_le hacc
  have hto : 0 ≤ toPay := side.toPay_nonneg hpay hacc
  have hsum := hpaid.eq_portions hto
  have htotal : 0 ≤ total.amount := by
    rw [hsum]
    exact portions_sum_nonneg (by decide) hto
  have hiff : Apportioned toPay payout.amount total.amount (side.accumulated c).amount
      (side.accumulated c').amount ↔ total.amount ≤ toPay := by
    refine ⟨Apportioned.bounded, fun hbound => ⟨htotal, hbound, ?_, ?_⟩⟩
    · rw [hafter]
      exact sub_nonneg.mpr (hbound.trans hle)
    · rw [hafter]
      exact add_sub_cancel ..
  refine ⟨c', hc', total, hpaid, fun hparts => ?_, fun hpos hdvd => ?_⟩
  · rw [hiff, hsum]
    exact portions_sum_le (by decide) hto (Int.ofNat_le.mpr hparts)
  · rw [hiff, hsum, portions_le_iff (by decide) hpos hdvd]
    exact Int.ofNat_le

/-! ## 4. The contents of a run -/

/-- The lists of parts that an operation declares. -/
def Operation.shares : Operation → List (List Distribution)
  | .content o =>
      [o.distributions, if o.compMeta.thirdPartyPublishers then o.distributionsComp.getD [] else []]
  | .contentUpdate o => [o.newDistributions]
  | _ => []

/-- Each of them makes no more than a whole, in the numbers as they are. -/
def Operation.Shares (op : Operation) : Prop := ∀ l ∈ op.shares, bpSum l ≤ 10000

/-- The payees of both sides have no more than a whole. -/
def Content.Shared (c : Content) : Prop := ∀ side : ContentSide, bpSum (side.distributions c) ≤ 10000

def Store.Shared (s : Store chainSchema) : Prop :=
  ∀ i, ∀ c : Content, s.get Kind.content i = some c → c.Shared

section

variable {s t : Store chainSchema}

theorem Content.Shared.of_terms {c c' : Content} (h : c'.terms = c.terms) (hc : c.Shared) :
    c'.Shared := by
  intro side
  have hsame : side.distributions c' = side.distributions c := by
    cases side with
    | master => exact congrArg (·.distributionsMaster) h
    | comp => exact congrArg (·.distributionsComp) h
  rw [hsame]
  exact hc side

theorem shared_newContent {o : ContentOp} {hf2 : Bool} {now : Nat}
    (h : (Operation.content o).Shares) : (newContent o hf2 now).Shared := by
  intro side
  cases side with
  | master => exact h _ List.mem_cons_self
  | comp => exact h _ (List.mem_cons_of_mem _ List.mem_cons_self)

theorem shared_updateContent {o : ContentUpdateOp} {hf2 : Bool} {now : Nat} {c : Content}
    (h : (Operation.contentUpdate o).Shares) (hc : c.Shared) :
    (updateContent o hf2 now c).Shared := by
  have hnew : bpSum o.newDistributions ≤ 10000 := h _ List.mem_cons_self
  have hlist : ∀ l : List Distribution, bpSum l ≤ 10000 →
      bpSum (if o.newDistributions ≠ [] then o.newDistributions else l) ≤ 10000 := by
    intro l hl
    split
    · exact hnew
    · exact hl
  intro side
  by_cases hmaster : o.side = sideMaster
  · simp only [updateContent, if_pos hmaster, updateMaster]
    cases side with
    | master => exact hlist _ (hc .master)
    | comp => exact hc .comp
  · simp only [updateContent, if_neg hmaster, updateComp]
    cases side with
    | master => exact hc .master
    | comp => exact hlist _ (hc .comp)

/-- The payees stay where nothing but these parts is written to. -/
theorem Store.Shared.of_changes {l : List Part} (h : Obeys (changes l) s t)
    (hm : Part.made .content ∉ l) (hg : Part.gone .content ∉ l) (ht : Part.content .terms ∉ l)
    (hs : s.Shared) : t.Shared := by
  intro i c hc
  obtain ⟨a, b, ha, hb, hab⟩ | ⟨_, hb⟩ | ⟨_, _, _, _, hmade, _⟩ :=
    changes_cases (h Kind.content i) hg
  · obtain rfl := Option.some.inj (hc.symm.trans hb)
    have hview : Content.view .terms a = Content.view .terms c :=
      Or.resolve_left (hab ContentField.terms) ht
    have hpayees := hs i a ha
    intro side
    have hsame : side.distributions c = side.distributions a := by
      cases side with
      | master => exact (congrArg ContentTerms.distributionsMaster hview).symm
      | comp => exact (congrArg ContentTerms.distributionsComp hview).symm
    rw [hsame]
    exact hpayees side
  · cases hc.symm.trans hb
  · exact absurd hmade hm

/-- **The payees of every content have no more than a whole**, when no operation declares more. -/
theorem Reached.shared [Fc] {g : GenesisState}
    (h : Reached (fun _ op => op.Shares) g s) : s.Shared := by
  refine h.invariant (fun hg => ?_) fun hstep hs => ?_
  · refine Store.Shared.of_changes ((made_initGenesis g).step hg) (by decide) (by decide)
      (by decide) fun i c hc => ?_
    exact nomatch hc
  · cases hstep with
    | @operation d d' u clock n push op hv ha hop hr =>
      cases op with
      | content o =>
        obtain ⟨-, i, now, hget⟩ :=
          content_ok (show (content o : Act n Unit).run d = .ok u d' from hr)
        intro j c hc
        rw [hget] at hc
        split at hc
        · obtain rfl := Option.some.inj hc
          exact shared_newContent hop
        · exact hs j c hc
      | contentUpdate o =>
        obtain ⟨i, a, ha, -, -, ⟨now, c', hc', hterms⟩, hother⟩ :=
          contentUpdate_ok (show (contentUpdate o : Act n Unit).run d = .ok u d' from hr)
        intro j c hc
        by_cases hj : j = i
        · subst hj
          obtain rfl := Option.some.inj (hc'.symm.trans hc)
          exact (shared_updateContent hop (hs j a ha)).of_terms hterms
        · have hsame := hother j hj
          rw [hc, Option.map_some] at hsame
          obtain ⟨b, hb, e⟩ := Option.map_eq_some_iff.mp hsame.symm
          exact (hs j b hb).of_terms e.symm
      | _ =>
        exact hs.of_changes ((composed_evaluate clock push ha).steps.step hr)
          (by simp +decide [Operation.parts]) (by simp +decide [Operation.parts])
          (by simp +decide [Operation.parts])
    | @routine d d' u n r hr =>
      refine hs.of_changes ((Routine.composed_act r).steps.step hr) ?_ ?_ ?_
      · cases r <;> simp +decide [Routine.parts]
      · cases r <;> simp +decide [Routine.parts]
      · cases r <;> simp +decide [Routine.parts]

end

/-! ## 5. One whole, and a sum that wraps -/

section

attribute [local instance] sampleFc

/-- A content whose payees have these parts. -/
def payingTo (l : List Distribution) : ContentOp := sampleContentOp l [⟨initMinerName, 100⟩]

/-- Two parts of 2^31 more than make a whole. -/
def paidTwice : ContentOp :=
  payingTo [⟨initMinerName, 2147483648⟩, ⟨initMinerName, 2147483648⟩, ⟨initMinerName, 10000⟩]

/-- The genesis with the content that `o` makes. -/
def paidStart (o : ContentOp) : Database chainSchema :=
  ((applyOperation 0 0 (.content o)).run (Node.genesis sampleGenesis).db).db

/-- Three payees who have a third each, in whole basis points. -/
def thirds : List Distribution :=
  [⟨initMinerName, 3333⟩, ⟨tempAccount, 3333⟩, ⟨minerAccount, 3333⟩]

/-- Of 20000 three payees get 6666 each, and 2 are left. -/
theorem royalties_apportioned_iff_thirds : ∃ c c' : Content, ∃ total : Asset,
    (paidStart (payingTo thirds)).store.get Kind.content 0 = some c ∧
      ((payToContentSide .master 0 (Asset.muse 20000) : Act 0 Unit).run
        (paidStart (payingTo thirds))).db.store.get Kind.content 0 = some c' ∧
      Apportioned 20000 20000 total.amount 0 c'.accumulatedBalanceMaster.amount ∧
      c'.accumulatedBalanceMaster.amount = 2 := by
  obtain ⟨_, hpaid⟩ := Outcome.exists_of_isOk (show
    ((payToContentSide .master 0 (Asset.muse 20000) : Act 0 Unit).run
      (paidStart (payingTo thirds))).isOk = true by decide +kernel)
  have hc : ((paidStart (payingTo thirds)).store.get Kind.content 0).map
      (fun c : Content => (c.accumulatedBalanceMaster.amount, c.distributionsMaster)) =
        some (0, thirds) := by
    decide +kernel
  have hleft : (((payToContentSide .master 0 (Asset.muse 20000) : Act 0 Unit).run
      (paidStart (payingTo thirds))).db.store.get Kind.content 0).map
        (fun c : Content => c.accumulatedBalanceMaster.amount) = some 2 := by
    decide +kernel
  have hearly : (paidStart (payingTo thirds)).store.passed hardfork02 = false := by
    decide +kernel
  obtain ⟨c, hc, e⟩ := Option.map_eq_some_iff.mp hc
  obtain ⟨hacc, hparts⟩ := Prod.mk.inj e
  obtain ⟨c', hc', total, -, -, hiff⟩ := royalties_apportioned_iff .master 0 _ _ 0 c
    (Asset.muse 20000) _ hc (by decide) (le_of_eq hacc.symm) hpaid
  rw [hearly] at hiff
  have hshare := (hiff (show (0 : Int) < 20000 by decide) (show (10000 : Int) ∣ 20000 by decide)).mpr
    (by rw [ContentSide.distributions, hparts]; decide)
  rw [hc', Option.map_some, Option.some.injEq] at hleft
  exact ⟨c, c', total, hc, hc', hacc ▸ hshare, hleft⟩

/-- The wrapped sum is 10000, and a payout of 10000 turns the balance negative. -/
theorem royalties_overpaid :
    ∃ (o : ContentOp) (d d' : Database chainSchema) (c c' : Content),
      (∀ di ∈ o.distributions, di.bp < 2 ^ 32) ∧ (Operation.content o).validate = .ok () ∧
      (applyOperation 0 0 (.content o)).run (Node.genesis sampleGenesis).db = .ok () d ∧
      d.store.get Kind.content 0 = some c ∧ c.accumulatedBalanceMaster.amount = 0 ∧
      (payToContentMaster 0 (Asset.muse 10000) : Act 0 Unit).run d = .ok () d' ∧
      d'.store.get Kind.content 0 = some c' ∧ c'.accumulatedBalanceMaster.amount < 0 := by
  obtain ⟨_, hmade⟩ := Outcome.exists_of_isOk (show
    ((applyOperation 0 0 (.content paidTwice)).run (Node.genesis sampleGenesis).db).isOk = true by
      decide +kernel)
  obtain ⟨_, hpaid⟩ := Outcome.exists_of_isOk (show
    ((payToContentMaster 0 (Asset.muse 10000) : Act 0 Unit).run (paidStart paidTwice)).isOk = true by
      decide +kernel)
  have hc : ((paidStart paidTwice).store.get Kind.content 0).map (fun c : Content =>
      c.accumulatedBalanceMaster.amount) = some 0 := by
    decide +kernel
  have hc' : (((payToContentMaster 0 (Asset.muse 10000) : Act 0 Unit).run
      (paidStart paidTwice)).db.store.get Kind.content 0).map (fun c : Content =>
        c.accumulatedBalanceMaster.amount) = some (-4294967296) := by
    decide +kernel
  obtain ⟨c, hc, e⟩ := Option.map_eq_some_iff.mp hc
  obtain ⟨c', hc', e'⟩ := Option.map_eq_some_iff.mp hc'
  exact ⟨paidTwice, _, _, c, c', by decide, by decide +kernel, hmade, hc, e, hpaid, hc', by omega⟩

end

end MuseChain
