/-
  File:      MuseChain/Safety/Deeds.lean
  Subject:   The runs of the chain, deed by deed.

  `ChainStep` takes all payments of a block in one step. Here what pays in vesting shares is taken
  apart, so that a theorem can speak of the state in which one account is paid.

  * `Deed`: an operation, a routine, one deposit of vesting shares, one withdrawal, and what is done
    besides. `Deed.Does`: what the deed turns the objects into.
  * `Works ok`: any number of deeds that `ok` allows. `ChainStep.works`: every step of the chain is
    such a run.
  * `Worked ok g s`: the objects that deeds lead to from a genesis, those inside of a block too.
-/
import MuseChain.Safety.Votes

namespace MuseChain

variable {n : Nat}

theorem except_of_toOption {α β : Type} {x : Except α β} {b : β} (h : x.toOption = some b) :
    x = .ok b := by
  cases x with
  | error e => cases h
  | ok c => exact congrArg Except.ok (Option.some.inj h)

/-! ## 1. Deeds -/

inductive Deed where
  | operation (op : Operation)
  | routine (r : Routine)
  | deposit (acc : Nat) (muse : Asset)
  | withdrawal (acc : Nat)
  | beside

/-- The operations that pay in vesting shares. -/
def Operation.deposits : Operation → Bool
  | .transferToVesting _ _ _ => true
  | .accountCreate _ => true
  | .challengeAuthority _ _ _ => true
  | .contentUpdate _ => true
  | _ => false

namespace Deed

/-- The deed turns the objects `s` into `t`. -/
inductive Does [Fc] : Deed → Store chainSchema → Store chainSchema → Prop
  | operation {d d' : Database chainSchema} {u : Unit} {op : Operation} (clock n : Nat)
      (push : Nat → Act n Unit) : op.validate = .ok () → op.approves = false →
      op.deposits = false → (evaluate clock push op).run d = .ok u d' →
      Does (operation op) d.store d'.store
  | routine {d d' : Database chainSchema} {u : Unit} {r : Routine} (n : Nat) : r ≠ .pay →
      (r.act : Act n Unit).run d = .ok u d' → Does (routine r) d.store d'.store
  | deposit {d d' : Database chainSchema} {shares : Asset} {acc : Nat} {muse : Asset} (n : Nat) :
      (createVesting acc muse : Act n Asset).run d = .ok shares d' →
      Does (deposit acc muse) d.store d'.store
  | withdrawal {d d' : Database chainSchema} {u : Unit} {acc : Nat} {a : Account}
      {p : DynamicGlobalProperty} (n : Nat) : d.store.get Kind.account acc = some a →
      d.store.get Kind.dynamicGlobalProperty 0 = some p → a.nextVestingWithdrawal ≤ p.time →
      (processVestingWithdrawal acc : Act n Unit).run d = .ok u d' →
      Does (withdrawal acc) d.store d'.store
  | beside {α : Type} {d d' : Database chainSchema} {a : α} {n : Nat} {x : Act n α} :
      Composed besideParts x → x.run d = .ok a d' → Does beside d.store d'.store

/-- What a deed writes to. -/
def parts : Deed → List Part
  | operation op => op.parts
  | routine r => r.parts
  | deposit _ _ => vestingParts
  | withdrawal _ => withdrawalParts
  | beside => besideParts

theorem Does.changes [Fc] {e : Deed} {s t : Store chainSchema} (h : e.Does s t) :
    Obeys (changes e.parts) s t := by
  cases h with
  | operation clock n push _ ha _ hr => exact (composed_evaluate clock push ha).steps.step hr
  | routine n _ hr => exact (Routine.composed_act _).steps.step hr
  | deposit n hr => exact (composed_createVesting _ _ (List.Subset.refl _)).steps.step hr
  | withdrawal n _ _ _ hr =>
    exact (composed_processVestingWithdrawal _ (List.Subset.refl _)).steps.step hr
  | beside hx hr => exact hx.steps.step hr

/-- An operation is one that is spoken of. -/
def Fine (ok : Store chainSchema → Operation → Prop) (s : Store chainSchema) : Deed → Prop
  | operation op => ok s op
  | _ => True

end Deed

/-! ## 2. Runs -/

section

variable [Fc] {okOp : Store chainSchema → Operation → Prop} {ok : Store chainSchema → Deed → Prop}
  {g : GenesisState} {s t : Store chainSchema}

/-- Any number of deeds. -/
def Works (ok : Store chainSchema → Deed → Prop) : Store chainSchema → Store chainSchema → Prop :=
  Relation.ReflTransGen fun s t => ∃ e : Deed, ok s e ∧ e.Does s t

instance : IsPreorder (Store chainSchema) (Works ok) where
  refl _ := .refl
  trans _ _ _ := Relation.ReflTransGen.trans

theorem deposits_works : Deposits (Works (Deed.Fine okOp)) where
  create acc muse := ⟨fun hr => .single ⟨.deposit acc muse, trivial, .deposit _ hr⟩⟩
  withdraw ha hp hdue hr := .single ⟨.withdrawal _, trivial, .withdrawal _ ha hp hdue hr⟩
  beside hx := ⟨fun hr => .single ⟨.beside, trivial, .beside hx hr⟩⟩

/-- **Every step of the chain is a run of deeds.** -/
theorem ChainStep.works (h : ChainStep okOp s t) : Works (Deed.Fine okOp) s t := by
  cases h with
  | @operation d d' u clock n push op hv ha hop hr =>
    cases op with
    | contentUpdate o => exact (deposits_works.contentUpdate o).step hr
    | transferToVesting sender receiver amount =>
      exact (deposits_works.transferToVesting _ _ _).step hr
    | accountCreate o => exact (deposits_works.accountCreate o).step hr
    | challengeAuthority challenger challenged requireOwner =>
      exact (deposits_works.challengeAuthority _ _ _).step hr
    | _ => exact .single ⟨.operation _, hop, .operation clock n push hv ha rfl hr⟩
  | @routine d d' u n r hr =>
    cases r with
    | pay => exact deposits_works.payBlock.step hr
    | _ => exact .single ⟨.routine _, trivial, .routine n (by simp) hr⟩

/-- The objects that deeds lead to from a genesis. -/
def Worked (ok : Store chainSchema → Deed → Prop) (g : GenesisState) (s : Store chainSchema) : Prop :=
  ∃ u d, (initGenesis g).run emptyDatabase = .ok u d ∧ Works ok d.store s

theorem Reached.worked (h : Reached okOp g s) : Worked (Deed.Fine okOp) g s := by
  obtain ⟨u, d, hg, hrun⟩ := h
  refine ⟨u, d, hg, ?_⟩
  induction hrun with
  | refl => exact .refl
  | tail _ hs ih => exact ih.trans hs.works

theorem Worked.works (h : Worked ok g s) (ht : Works ok s t) : Worked ok g t := by
  obtain ⟨u, d, hg, hrun⟩ := h
  exact ⟨u, d, hg, hrun.trans ht⟩

/-- **What the genesis has and every deed preserves is true whatever the deeds.** -/
theorem Worked.invariant {I : Store chainSchema → Prop}
    (h0 : ∀ {u d}, (initGenesis g).run emptyDatabase = .ok u d →
      I d.store)
    (hdeed : ∀ {e : Deed} {s t}, ok s e → e.Does s t → I s → I t)
    (h : Worked ok g s) : I s := by
  obtain ⟨u, d, hg, hrun⟩ := h
  induction hrun with
  | refl => exact h0 hg
  | tail _ he ih =>
    obtain ⟨e, hfine, hdoes⟩ := he
    exact hdeed hfine hdoes ih

/-- The proxies stay sound over a deed. -/
theorem Deed.Does.kept {e : Deed} (h : e.Does s t) (hs : Kept (fun _ => False) s) :
    Kept (fun _ => False) t := by
  cases h with
  | operation clock n push hv ha _ hr =>
    have hstep : ChainStep (fun _ _ => True) _ _ := .operation clock n push _ hv ha trivial hr
    exact hstep.kept False.elim hs
  | routine n _ hr =>
    have hstep : ChainStep (fun _ _ => True) _ _ := .routine n _ hr
    exact hstep.kept False.elim hs
  | deposit n hr => exact (deposits_kept.create _ _).step hr hs
  | withdrawal n ha hp hdue hr => exact deposits_kept.withdraw ha hp hdue hr hs
  | beside hx hr => exact (deposits_kept.beside hx).step hr hs

theorem Worked.kept (h : Worked ok g s) : Kept (fun _ => False) s :=
  h.invariant kept_genesis fun _ => Deed.Does.kept

end

end MuseChain
