/-
  File:      MuseChain/Safety/Frames.lean
  Subject:   Laws for what a part of the program leaves as it is.

  * `aside`: no value moves, no content is edited, no number of the chain changes. Votes, scores
    and bandwidth are of this kind.
  * `inert`: the same, but contents may be edited and new objects without value may come.
  * `moves`: value moves between accounts; contents keep their terms, the chain its numbers.
  * `headed`: the head block, the last irreversible block and the blocks that the witnesses
    confirmed stay. Both laws above are stricter.
  * `Calm`, `Inert`, `Mute`: relations that one of the first three laws implies.
-/
import MuseChain.Safety.Lookups

namespace MuseChain

variable {n : Nat}

/-! ## 1. Laws -/

/-- An object keeps what `f` reads of it and stays; of a new one `new` holds. -/
def Keep {α β : Type} (f : α → β) (new : β → Prop) : Option α → Option α → Prop
  | some a, some b => f a = f b
  | none, some b => new (f b)
  | some _, none => False
  | none, none => True

section

variable {α β γ : Type} {f : α → β} {new : β → Prop}

theorem Keep.refl (o : Option α) : Keep f new o o := by
  cases o with
  | none => trivial
  | some a => rfl

theorem Keep.trans {o p q : Option α} (h : Keep f new o p) (h' : Keep f new p q) :
    Keep f new o q := by
  cases o with
  | none =>
    cases p with
    | none => exact h'
    | some b =>
      cases q with
      | none => trivial
      | some c =>
        show new (f c)
        rw [← show f b = f c from h']
        exact h
  | some a =>
    cases p with
    | none => exact h.elim
    | some b =>
      cases q with
      | none => exact h'.elim
      | some c => exact Eq.trans h h'

/-- Less is read, and more may be new. -/
theorem Keep.weaken (g : α → γ) (new' : γ → Prop) (hg : ∀ a b, f a = f b → g a = g b)
    (hnew : ∀ a, new (f a) → new' (g a)) {o p : Option α} (h : Keep f new o p) :
    Keep g new' o p := by
  cases o with
  | none =>
    cases p with
    | none => trivial
    | some b => exact hnew b h
  | some a =>
    cases p with
    | none => exact h.elim
    | some b => exact hg a b h

theorem Keep.of_some {a : α} {p : Option α} (h : Keep f new (some a) p) :
    ∃ b, p = some b ∧ f a = f b := by
  cases p with
  | none => exact h.elim
  | some b => exact ⟨b, rfl, h⟩

/-- Nothing is new, and so the two have the same to read. -/
theorem Keep.map_eq {o p : Option α} (h : Keep f (fun _ => False) o p) : o.map f = p.map f := by
  cases o with
  | none =>
    cases p with
    | none => rfl
    | some b => exact h.elim
  | some a =>
    cases p with
    | none => exact h.elim
    | some b => exact congrArg some h

theorem Keep.of_eq (f : α → β) (new : β → Prop) {o p : Option α} (h : o = p) : Keep f new o p :=
  h ▸ Keep.refl o

end

/-- What an account owns. -/
structure Holdings where
  name : String
  balance : Asset
  mbdBalance : Asset
  vestingShares : Asset

def Account.holdings (a : Account) : Holdings := ⟨a.name, a.balance, a.mbdBalance, a.vestingShares⟩

def Holdings.Empty (h : Holdings) : Prop :=
  h.balance = Asset.muse 0 ∧ h.mbdBalance = Asset.mbd 0 ∧ h.vestingShares = Asset.vests 0

/-- Where the chain is. -/
structure Head where
  number : Nat
  id : BlockId
  lastIrreversible : Nat

def DynamicGlobalProperty.head (p : DynamicGlobalProperty) : Head :=
  ⟨p.headBlockNumber, p.headBlockId, p.lastIrreversibleBlockNum⟩

/-- The global properties, if there are any. -/
def Store.props (s : Store chainSchema) : DynamicGlobalProperty :=
  (s.get Kind.dynamicGlobalProperty 0).getD {}

theorem Store.props_of_get {s : Store chainSchema} {p : DynamicGlobalProperty}
    (hg : s.get Kind.dynamicGlobalProperty 0 = some p) : s.props = p := by
  unfold Store.props
  rw [hg]
  rfl

/-- The counters of the global properties that value is counted in. -/
structure Ledger where
  head : Head
  currentSupply : Asset
  currentMbdSupply : Asset
  totalVestingFundMuse : Asset
  totalVestingShares : Asset
  supplyDelta : Asset

def DynamicGlobalProperty.ledger (p : DynamicGlobalProperty) : Ledger :=
  ⟨p.head, p.currentSupply, p.currentMbdSupply, p.totalVestingFundMuse, p.totalVestingShares,
    p.supplyDelta⟩

/-- The balances of the two sides of a content. -/
def Content.accumulated (c : Content) : Asset × Asset :=
  (c.accumulatedBalanceMaster, c.accumulatedBalanceComp)

/-- A content without its balances. -/
def Content.terms (c : Content) : Content :=
  { c with accumulatedBalanceMaster := Asset.muse 0, accumulatedBalanceComp := Asset.muse 0 }

/-- What votes, scores and bandwidth change. -/
def aside : Law chainSchema where
  rel
    | .account => Keep Account.holdings Holdings.Empty
    | .witness => Keep Witness.lastConfirmedBlockNum (· = 0)
    | .dynamicGlobalProperty => Keep DynamicGlobalProperty.ledger fun _ => False
    | .content | .accountBalance | .limitOrder | .convertRequest | .balance
    | .withdrawVestingRoute | .proposal => (· = ·)
    | _ => fun _ _ => True
  refl k o := by
    cases k with
    | account | witness | dynamicGlobalProperty => exact Keep.refl o
    | content | accountBalance | limitOrder | convertRequest | balance | withdrawVestingRoute
    | proposal => rfl
    | _ => trivial
  trans k o p q h h' := by
    cases k with
    | account | witness | dynamicGlobalProperty => exact Keep.trans h h'
    | content | accountBalance | limitOrder | convertRequest | balance | withdrawVestingRoute
    | proposal => exact Eq.trans h h'
    | _ => trivial

/-- What an operation changes that moves no value. -/
def inert : Law chainSchema where
  rel
    | .content => Keep Content.accumulated (· = (Asset.muse 0, Asset.muse 0))
    | k => aside.rel k
  refl k o := by
    cases k with
    | content => exact Keep.refl o
    | _ => exact aside.refl _ o
  trans k o p q h h' := by
    cases k with
    | content => exact Keep.trans h h'
    | _ => exact aside.trans _ o p q h h'

/-- What changes when value moves. -/
def moves : Law chainSchema where
  rel
    | .account => Keep Account.name fun _ => True
    | .witness => Keep Witness.lastConfirmedBlockNum (· = 0)
    | .dynamicGlobalProperty => Keep DynamicGlobalProperty.head fun _ => False
    | .content => Keep Content.terms fun _ => False
    | .withdrawVestingRoute | .proposal => (· = ·)
    | _ => fun _ _ => True
  refl k o := by
    cases k with
    | account | witness | dynamicGlobalProperty | content => exact Keep.refl o
    | withdrawVestingRoute | proposal => rfl
    | _ => trivial
  trans k o p q h h' := by
    cases k with
    | account | witness | dynamicGlobalProperty | content => exact Keep.trans h h'
    | withdrawVestingRoute | proposal => exact Eq.trans h h'
    | _ => trivial

/-- What changes while the chain keeps its numbers. -/
def headed : Law chainSchema where
  rel
    | .witness => Keep Witness.lastConfirmedBlockNum (· = 0)
    | .dynamicGlobalProperty => Keep DynamicGlobalProperty.head fun _ => False
    | _ => fun _ _ => True
  refl k o := by
    cases k with
    | witness | dynamicGlobalProperty => exact Keep.refl o
    | _ => trivial
  trans k o p q h h' := by
    cases k with
    | witness | dynamicGlobalProperty => exact Keep.trans h h'
    | _ => trivial

/-! ## 2. The order of the laws -/

theorem Obeys.mono {L L' : Law chainSchema} (h : ∀ k o p, L.rel k o p → L'.rel k o p)
    {s t : Store chainSchema} (hs : Obeys L s t) : Obeys L' s t := fun k i => h k _ _ (hs k i)

theorem inert_of_aside {k : Kind} {o p : Option k.Object} (h : aside.rel k o p) :
    inert.rel k o p := by
  cases k with
  | content =>
    exact Keep.of_eq Content.accumulated (· = (Asset.muse 0, Asset.muse 0)) h
  | _ => exact h

theorem head_of_ledger {o p : Option DynamicGlobalProperty}
    (h : Keep DynamicGlobalProperty.ledger (fun _ => False) o p) :
    Keep DynamicGlobalProperty.head (fun _ => False) o p :=
  h.weaken _ _ (fun _ _ e => congrArg Ledger.head e) fun _ => id

theorem moves_of_aside {k : Kind} {o p : Option k.Object} (h : aside.rel k o p) :
    moves.rel k o p := by
  cases k with
  | account =>
    have h : Keep Account.holdings Holdings.Empty o p := h
    exact h.weaken Account.name (fun _ => True) (fun _ _ e => congrArg Holdings.name e)
      fun _ _ => trivial
  | dynamicGlobalProperty => exact head_of_ledger h
  | content =>
    exact Keep.of_eq Content.terms (fun _ => False) h
  | witness | withdrawVestingRoute | proposal => exact h
  | _ => trivial

theorem headed_of_moves {k : Kind} {o p : Option k.Object} (h : moves.rel k o p) :
    headed.rel k o p := by
  cases k with
  | witness | dynamicGlobalProperty => exact h
  | _ => trivial

theorem headed_of_inert {k : Kind} {o p : Option k.Object} (h : inert.rel k o p) :
    headed.rel k o p := by
  cases k with
  | witness => exact h
  | dynamicGlobalProperty => exact head_of_ledger h
  | _ => trivial

/-- A relation that does not see votes, scores and bandwidth. -/
class Calm (R : Store chainSchema → Store chainSchema → Prop) : Prop
    extends IsPreorder (Store chainSchema) R where
  of_aside : ∀ {s t}, Obeys aside s t → R s t

/-- A relation that does not see what moves no value. -/
class Inert (R : Store chainSchema → Store chainSchema → Prop) : Prop extends Calm R where
  of_inert : ∀ {s t}, Obeys inert s t → R s t

/-- A relation that does not see value move. -/
class Mute (R : Store chainSchema → Store chainSchema → Prop) : Prop extends Calm R where
  of_moves : ∀ {s t}, Obeys moves s t → R s t

instance : Inert (Obeys inert) where
  of_aside h := h.mono fun _ _ _ => inert_of_aside
  of_inert h := h

instance : Mute (Obeys moves) where
  of_aside h := h.mono fun _ _ _ => moves_of_aside
  of_moves h := h

instance : Mute (Obeys headed) where
  of_aside h := h.mono fun _ _ _ h => headed_of_moves (moves_of_aside h)
  of_moves h := h.mono fun _ _ _ => headed_of_moves

instance : Inert (Obeys headed) where
  of_inert h := h.mono fun _ _ _ => headed_of_inert

section

variable {α : Type} {R : Store chainSchema → Store chainSchema → Prop} {x : Act n α}

theorem Steps.calm [Calm R] (h : Steps (Obeys aside) x) : Steps R x :=
  h.mono fun _ _ => Calm.of_aside

theorem Steps.inert [Inert R] (h : Steps (Obeys MuseChain.inert) x) : Steps R x :=
  h.mono fun _ _ => Inert.of_inert

theorem Steps.mute [Mute R] (h : Steps (Obeys moves) x) : Steps R x :=
  h.mono fun _ _ => Mute.of_moves

end

/-! ## 3. Votes and scores -/

section

variable {R : Store chainSchema → Store chainSchema → Prop} [Calm R]

@[simp] theorem steps_adjustWitnessVote (witness : Nat) (delta : Int) :
    Steps R (adjustWitnessVote witness delta : Act n Unit) := by
  unfold adjustWitnessVote
  exact steps_bind (by simp) fun _ => steps_bind (by simp) fun _ =>
    (steps_modifyWith fun _ _ => rfl).calm

@[simp] theorem steps_adjustWitnessVotes (acc : Nat) (delta : Int) :
    Steps R (adjustWitnessVotes acc delta : Act n Unit) := by
  simp [adjustWitnessVotes]

@[simp] theorem steps_adjustStreamingPlatformVote (sp : Nat) (delta : Int) :
    Steps R (adjustStreamingPlatformVote sp delta : Act n Unit) := by
  unfold adjustStreamingPlatformVote
  exact steps_bind (by simp) fun _ => (steps_modifyWith fun _ _ => trivial).calm

@[simp] theorem steps_adjustStreamingPlatformVotes (acc : Nat) (delta : Int) :
    Steps R (adjustStreamingPlatformVotes acc delta : Act n Unit) := by
  simp [adjustStreamingPlatformVotes]

theorem steps_adjustProxiedFrom (left acc : Nat) (delta : Int) :
    Steps R (adjustProxiedFrom left acc delta : Act n Unit) := by
  induction left generalizing acc with
  | zero =>
    unfold adjustProxiedFrom
    refine steps_bind (by simp) fun a => steps_ite (fun _ => (looks_pure _).steps) fun _ => by simp
  | succ left ih =>
    unfold adjustProxiedFrom
    refine steps_bind (by simp) fun a => steps_ite (fun _ => ?_) fun _ => by simp
    exact steps_bind (by simp) fun proxy =>
      steps_bind (steps_modifyWith fun _ _ => rfl).calm fun _ => ih proxy

@[simp] theorem steps_adjustProxiedWitnessVotes (acc : Nat) (delta : Int) :
    Steps R (adjustProxiedWitnessVotes acc delta : Act n Unit) :=
  steps_adjustProxiedFrom _ acc delta

theorem steps_adjustProxiedDeltasFrom (left acc : Nat) (deltas : List Int) :
    Steps R (adjustProxiedDeltasFrom left acc deltas : Act n Unit) := by
  induction left generalizing acc with
  | zero =>
    unfold adjustProxiedDeltasFrom
    refine steps_bind (by simp) fun a => steps_ite (fun _ => (looks_pure _).steps) fun _ => by simp
  | succ left ih =>
    unfold adjustProxiedDeltasFrom
    refine steps_bind (by simp) fun a => steps_ite (fun _ => ?_) fun _ => by simp
    exact steps_bind (by simp) fun proxy =>
      steps_bind (steps_modifyWith fun _ _ => rfl).calm fun _ => ih proxy

@[simp] theorem steps_adjustProxiedWitnessDeltas (acc : Nat) (deltas : List Int) :
    Steps R (adjustProxiedWitnessDeltas acc deltas : Act n Unit) :=
  steps_adjustProxiedDeltasFrom _ acc deltas

@[simp] theorem steps_clearWitnessVotes (acc : Nat) :
    Steps R (clearWitnessVotes acc : Act n Unit) := by
  unfold clearWitnessVotes
  exact steps_bind (by simp) fun _ =>
    steps_bind (steps_forEach fun _ => (steps_remove fun _ => trivial).calm) fun _ =>
    (steps_modify fun _ => rfl).calm

@[simp] theorem steps_clearStreamingPlatformVotes (acc : Nat) :
    Steps R (clearStreamingPlatformVotes acc : Act n Unit) := by
  unfold clearStreamingPlatformVotes
  exact steps_bind (by simp) fun _ =>
    steps_bind (steps_forEach fun _ => (steps_remove fun _ => trivial).calm) fun _ =>
    (steps_modify fun _ => rfl).calm

@[simp] theorem steps_bumpScore (acc : Nat) (delta : Int) :
    Steps R (bumpScore acc delta : Act n Unit) := by
  unfold bumpScore
  exact (steps_modify fun _ => rfl).calm

@[simp] theorem steps_recursiveRecalculateScore (acc : Nat) (delta : Int) :
    Steps R (recursiveRecalculateScore acc delta : Act n Unit) := by
  unfold recursiveRecalculateScore
  repeat' first | (simp; done) | apply steps_bind | apply steps_forEach | intro _

@[simp] theorem steps_recalculateScore (acc : Nat) :
    Steps R (recalculateScore acc : Act n Unit) := by
  unfold recalculateScore
  exact steps_bind (by simp) fun _ => steps_bind (by simp) fun _ =>
    (steps_modify fun _ => rfl).calm

end

/-! ## 4. Value -/

section

variable {R : Store chainSchema → Store chainSchema → Prop} [Mute R]

theorem steps_modifyDgp {α : Type} {f : DynamicGlobalProperty → Except Exn α}
    {upd : DynamicGlobalProperty → α → DynamicGlobalProperty}
    (h : ∀ p x, p.head = (upd p x).head) : Steps R (modifyDgp f upd : Act n Unit) :=
  (steps_modifyWith h).mute

@[simp] theorem steps_mintInterest (interest : Asset) :
    Steps R (mintInterest interest : Act n Unit) := by
  unfold mintInterest
  exact steps_bind (by simp) fun _ => steps_modifyDgp fun _ _ => rfl

@[simp] theorem steps_adjustMbdBalance (acc : Nat) (delta : Asset) :
    Steps R (adjustMbdBalance acc delta : Act n Unit) := by
  refine Steps.mute (steps_modifyNested (fun a => ?_) fun _ _ => rfl)
  refine steps_bind (by simp) fun now => steps_ite (fun _ => ?_) fun _ => ?_
  · exact steps_bind (by simp) fun _ => steps_bind (by simp) fun _ => steps_bind (by simp) fun _ =>
      steps_bind (by simp) fun _ => steps_bind (by simp) fun _ => by simp
  · exact steps_bind (by simp) fun _ => by simp

@[simp] theorem steps_adjustBalance (acc : Nat) (delta : Asset) :
    Steps R (adjustBalance acc delta : Act n Unit) := by
  unfold adjustBalance
  refine steps_ite (fun _ => (steps_modifyWith fun _ _ => rfl).mute) fun _ =>
    steps_ite (fun _ => by simp) fun _ => ?_
  refine steps_ite (by simp) fun _ => steps_bind (by simp) fun r => ?_
  rcases r with _ | ⟨i, b⟩
  · exact steps_bind (by simp) fun _ => steps_bind (steps_create trivial).mute fun _ => by simp
  · refine steps_ite (fun _ => ?_) fun _ => (steps_modifyWith fun _ _ => trivial).mute
    exact steps_bind (by simp) fun _ => steps_bind (by simp) fun _ =>
      (steps_modifyWith fun _ _ => trivial).mute

@[simp] theorem steps_adjustSupply (delta : Asset) (b : Bool) :
    Steps R (adjustSupply delta b : Act n Unit) :=
  steps_bind (by simp) fun _ => steps_bind (by simp) fun _ => steps_modifyDgp fun _ _ => rfl

@[simp] theorem steps_createMbd (toAccount : Nat) (muse : Asset) :
    Steps R (createMbd toAccount muse : Act n Asset) := by
  unfold createMbd
  refine steps_ite (by simp) fun _ => steps_bind (by simp) fun _ =>
    steps_ite (by simp) fun _ => ?_
  exact steps_bind (by simp) fun _ => steps_bind (by simp) fun _ => steps_bind (by simp) fun _ =>
    steps_bind (by simp) fun _ => by simp

@[simp] theorem steps_createVesting (toAccount : Nat) (muse : Asset) :
    Steps R (createVesting toAccount muse : Act n Asset) :=
  steps_bind (by simp) fun _ => steps_bind (by simp) fun _ =>
    steps_bind (steps_modifyWith fun _ _ => rfl).mute fun _ =>
    steps_bind (steps_modifyDgp fun _ _ => rfl) fun _ =>
    steps_bind (by simp) fun _ => by simp

@[simp] theorem steps_payDistributions (toPay : Asset) (l : List Distribution) (paid : Asset) :
    Steps R (payDistributions toPay l paid : Act n Asset) := by
  induction l generalizing paid with
  | nil => exact (looks_pure paid).steps
  | cons di rest ih =>
    exact steps_bind (by simp) fun _ => steps_bind (by simp) fun _ =>
      steps_bind (by simp) fun _ => steps_bind (by simp) fun _ => steps_bind (by simp) fun _ =>
      steps_bind (by simp) fun _ => steps_bind (by simp) fun _ => ih _

theorem ContentSide.terms_setAccumulated (side : ContentSide) (c : Content) (x : Asset) :
    c.terms = (side.setAccumulated c x).terms := by
  cases side with
  | master => rfl
  | comp => rfl

/-- A payout to one side of a content changes nothing of it but the balances. -/
@[simp] theorem steps_payToContentSide (side : ContentSide) (content : Nat) (payout : Asset) :
    Steps R (payToContentSide side content payout : Act n Unit) := by
  unfold payToContentSide
  refine steps_bind (looks_getObject _ _).steps fun co => steps_ite (fun _ => ?_) fun _ => ?_
  · exact (steps_modifyWith fun c x => side.terms_setAccumulated c x).mute
  · refine steps_bind (by simp) fun hf2 => steps_join (fun toPay => ?_) fun _ hj =>
      steps_ite (fun _ => steps_bind (by simp) hj) fun _ => steps_bind (by simp) hj
    refine steps_bind (by simp) fun _ => steps_bind (by simp) fun _ => steps_bind (by simp)
      fun rest => steps_ite (fun _ => ?_) fun _ => steps_ite (fun _ => ?_) (by simp)
    · exact steps_bind (looks_getObject _ _).steps fun _ =>
        steps_ite (fun _ => (steps_modify fun c => side.terms_setAccumulated c rest).mute) (by simp)
    · exact (steps_modifyWith fun c x => side.terms_setAccumulated c x).mute

end

end MuseChain
