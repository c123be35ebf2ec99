/-
  File:      MuseChain/Safety/Deposits.lean
  Subject:   Relations that everything which pays in vesting shares is in.

  * `Deposits R`: `create_vesting`, the withdrawals that are due and what is done besides are in `R`.
  * The payouts of content and of blocks, and the four operations that create vesting shares, are
    then in `R` as well.
-/
import MuseChain.Safety.ChainRuns

namespace MuseChain

/-- What the callers of `create_vesting` write to besides. -/
abbrev besideParts : List Part :=
  [.account .challenges, .account .listening, .made .account, .gone .report, .gone .convertRequest,
    .content .accumulated, .content .plays, .content .terms] ++ supplyParts

/-- A relation for all that pays in vesting shares. -/
structure Deposits (R : Store chainSchema → Store chainSchema → Prop) : Prop where
  create : ∀ {n : Nat} (toAccount : Nat) (muse : Asset),
    Steps R (createVesting toAccount muse : Act n Asset)
  /-- The account is due. -/
  withdraw : ∀ {n acc : Nat} {a : Account} {p : DynamicGlobalProperty} {u : Unit}
    {d d' : Database chainSchema}, d.store.get Kind.account acc = some a →
    d.store.get Kind.dynamicGlobalProperty 0 = some p → a.nextVestingWithdrawal ≤ p.time →
    (processVestingWithdrawal acc : Act n Unit).run d = .ok u d' → R d.store d'.store
  beside : ∀ {n : Nat} {α : Type} {x : Act n α}, Composed besideParts x → Steps R x

namespace Deposits

variable {n : Nat} {R : Store chainSchema → Store chainSchema → Prop}
  [IsPreorder (Store chainSchema) R]

theorem withdrawEach (h : Deposits R) (fuel : Nat) (next : Option Nat) :
    Steps R (MuseChain.withdrawEach fuel next : Act n Unit) := by
  induction fuel generalizing next with
  | zero =>
    cases next with
    | none => exact (looks_pure ()).steps
    | some acc => exact steps_throw _
  | succ fuel ih =>
    cases next with
    | none => exact (looks_pure ()).steps
    | some acc =>
      refine ⟨fun {d u d'} hr => ?_⟩
      obtain ⟨p, hp, hr⟩ := bind_headBlockTime_ok hr
      obtain ⟨a, ha, hr⟩ := bind_getAccount_ok.mp hr
      split at hr
      · rename_i hdue
        have hr := Action.bind_read_ok.mp hr
        obtain ⟨_, d₁, h1, hr⟩ := Action.bind_ok.mp hr
        exact trans_of R (h.withdraw ha hp hdue h1) ((ih _).step hr)
      · cases hr
        exact refl_of R _

theorem processVestingWithdrawals (h : Deposits R) :
    Steps R (MuseChain.processVestingWithdrawals : Act n Unit) := by
  unfold MuseChain.processVestingWithdrawals
  refine looks_headBlockTime.steps_bind fun now => ?_
  refine (looks_withdrawalAfter _).steps_bind fun first => ?_
  exact (looks_read _).steps_bind fun accounts => h.withdrawEach _ _

theorem payDistributions (h : Deposits R) (toPay : Asset) (ds : List Distribution) (paid : Asset) :
    Steps R (payDistributions toPay ds paid : Act n Asset) := by
  induction ds generalizing paid with
  | nil =>
    unfold MuseChain.payDistributions
    exact (looks_pure _).steps
  | cons di rest ih =>
    unfold MuseChain.payDistributions
    repeat' first
      | exact h.create _ _ | exact ih _ | with_reducible apply steps_bind | intro _
      | (solve | refine h.beside ?_; simp +decide)

theorem payToContentSide (h : Deposits R) (side : ContentSide) (content : Nat) (payout : Asset) :
    Steps R (payToContentSide side content payout : Act n Unit) := by
  unfold MuseChain.payToContentSide
  repeat' first
    | exact h.payDistributions _ _ _ | with_reducible apply steps_bind
    | with_reducible apply steps_ite | intro _
    | exact (looks_get _ _).steps
    | (solve | refine h.beside ?_; simp +decide)
    | exact h.beside (composed_modifyWith fun _ _ f => by
        cases f <;> cases side <;> simp +decide [ContentSide.setAccumulated])

theorem payToPlatform (h : Deposits R) (platform : Nat) (payout : Asset) :
    Steps R (payToPlatform platform payout : Act n Unit) := by
  unfold MuseChain.payToPlatform
  repeat' first
    | exact h.create _ _ | with_reducible apply steps_bind | intro _
    | exact (looks_get _ _).steps
    | (solve | refine h.beside ?_; simp +decide)

theorem payToContent (h : Deposits R) (content : Nat) (payout : Asset) (platform : Nat) :
    Steps R (payToContent content payout platform : Act n Asset) := by
  unfold MuseChain.payToContent MuseChain.payToContentMaster MuseChain.payToContentComp
  repeat' first
    | exact h.payToContentSide _ _ _ | exact h.payToPlatform _ _
    | with_reducible apply steps_bind | with_reducible apply steps_ite | intro _
    | exact (looks_get _ _).steps
    | (solve | refine h.beside ?_; simp +decide)
    | exact h.beside (composed_modifyWith fun _ _ f => by cases f <;> simp +decide)

theorem cashoutEach (h : Deposits R) (hf2 : Bool) (totalPayout : Asset) (customers fullTime : Nat)
    (reports : List (Nat × Report)) (paid : Asset × List (Nat × Nat)) :
    Steps R (cashoutEach hf2 totalPayout customers fullTime reports paid :
      Act n (Asset × List (Nat × Nat))) := by
  induction reports generalizing paid with
  | nil =>
    unfold MuseChain.cashoutEach
    exact (looks_pure _).steps
  | cons r rest ih =>
    unfold MuseChain.cashoutEach
    repeat' first
      | exact h.payToContent _ _ _ | exact ih _ | with_reducible apply steps_bind
      | with_reducible apply steps_ite | intro _
      | exact h.beside (.remove (by decide))
      | (solve | refine h.beside ?_; simp +decide)

theorem processContentCashout (h : Deposits R) (contentReward : Asset) :
    Steps R (processContentCashout contentReward : Act n Asset) := by
  unfold MuseChain.processContentCashout
  repeat' first
    | exact h.cashoutEach _ _ _ _ _ _ | with_reducible apply steps_bind
    | with_reducible apply steps_ite | intro _
    | exact (looks_read _).steps
    | (solve | refine h.beside ?_; simp +decide)

theorem getProducerReward (h : Deposits R) : Steps R (getProducerReward : Act n Asset) := by
  unfold MuseChain.getProducerReward
  repeat' first
    | exact h.create _ _ | with_reducible apply steps_bind
    | with_reducible apply steps_ite | intro _
    | (solve | refine h.beside ?_; simp +decide)
    | exact h.beside (composed_modifyWith fun _ _ f => by cases f <;> simp +decide)

theorem payBlock (h : Deposits R) : Steps R (payBlock : Act n Unit) := by
  unfold MuseChain.payBlock
  refine looks_getContentReward.steps_bind fun contentReward => ?_
  refine steps_bind h.getProducerReward fun witnessPay => ?_
  refine looks_headBlockNum.steps_bind fun num => ?_
  dsimp only
  refine steps_ite (fun _ => (looks_pure _).steps_bind fun _ => ?_) fun _ =>
    looks_getVestingReward.steps_bind fun _ => ?_
  all_goals
    refine steps_bind (h.beside (by simp +decide)) fun _ => ?_
    refine steps_bind (h.beside (by simp +decide)) fun _ => ?_
    refine steps_bind (h.processContentCashout _) fun _ => ?_
    exact steps_bind (h.beside (by simp +decide)) fun _ => h.processVestingWithdrawals

theorem transferToVesting (h : Deposits R) (sender receiver : String) (amount : Asset) :
    Steps R (transferToVesting sender receiver amount : Act n Unit) := by
  unfold MuseChain.transferToVesting
  repeat' first
    | exact h.create _ _ | with_reducible apply steps_bind
    | with_reducible apply steps_ite | intro _
    | (solve | refine h.beside ?_; simp +decide)

theorem accountCreate (h : Deposits R) [Fc] (o : AccountCreateOp) :
    Steps R (accountCreate o : Act n Unit) := by
  unfold MuseChain.accountCreate
  repeat' first
    | exact h.create _ _ | with_reducible apply steps_bind
    | with_reducible apply steps_ite | intro _
    | (solve | refine h.beside ?_; simp +decide)
    | exact h.beside (composed_modifyWith fun _ _ f => by cases f <;> simp +decide)
    | exact h.beside (.create (by decide) (by simp [Blank]))

theorem challengeAuthority (h : Deposits R) (challenger challenged : String) (requireOwner : Bool) :
    Steps R (challengeAuthority challenger challenged requireOwner : Act n Unit) := by
  unfold MuseChain.challengeAuthority
  repeat' first
    | exact h.create _ _ | with_reducible apply steps_bind
    | with_reducible apply steps_ite | intro _
    | (solve | refine h.beside ?_; simp +decide)
    | exact h.beside (composed_modifyWith fun _ _ f => by cases f <;> simp +decide)

theorem contentUpdate (h : Deposits R) [Fc] (o : ContentUpdateOp) :
    Steps R (contentUpdate o : Act n Unit) := by
  unfold MuseChain.contentUpdate MuseChain.payToContentMaster MuseChain.payToContentComp
  repeat' first
    | exact h.payToContentSide _ _ _ | with_reducible apply steps_bind | intro _
    | exact (looks_get _ _).steps
    | (solve | refine h.beside ?_; simp +decide)
    | exact h.beside (composed_modify fun c => (updateContent_same (l := []) o _ _ c).mono (by decide))
    | split

end Deposits

end MuseChain
