/-
  File:      MuseChain/Safety/Mirrors.lean
  Subject:   What the secondary indexes hold after any run of calls.

  * **`accountMemberIndex_exact`**: the reverse maps of the account authorities are exact after
    every run that removes no account, whatever is undone.
  * **`requiredApprovalIndex_exact`**: the proposals by account are exact after every run in which
    no rollback puts a removed proposal back. One that does leaves the proposal out of the index
    (`undone_removal_is_not_indexed`).
-/
import MuseChain.Chain.SecondaryIndexes
import MuseChain.Chain.Genesis

namespace MuseChain

/-- A database whose undo stack is empty, as after `open` or before anything has been done. -/
structure Unstacked (w : Observed chainSchema SecondaryIndexes) : Prop where
  stack : w.db.stack = []
  enabled : w.db.disabled = false
  fresh : w.db.store.Fresh

theorem Unstacked.mirrored {w : Observed chainSchema SecondaryIndexes} (h : Unstacked w)
    {E : Store chainSchema → SecondaryIndexes → Prop}
    {K : (k : Kind) → Kind.Object k → Kind.Object k → Prop} (hE : E w.db.store w.sindex) :
    Mirrored E K w :=
  ⟨hE, h.enabled, h.fresh, [], .nil _ _, by rw [h.stack]; rfl⟩

/-- Nothing created yet. -/
def blankDatabase : Observed chainSchema SecondaryIndexes :=
  ⟨⟨emptyStore, [], 0, false, 256, false, ⟨fun l => l, List.Perm.refl⟩⟩, {}⟩

theorem blankDatabase_unstacked : Unstacked blankDatabase := ⟨rfl, rfl, emptyStore_fresh⟩

/-! ## 1. Accounts in authorities -/

section

variable {κ : Type} [DecidableEq κ]

/-- `memberships` is the reverse of `members`. -/
def Reverses (members : Account → Finset κ) (s : Store chainSchema)
    (memberships : κ → Finset String) : Prop :=
  ∀ x n, n ∈ memberships x ↔ ∃ i, ∃ a : Account, s.get Kind.account i = some a ∧ a.name = n ∧
    x ∈ members a

variable {members : Account → Finset κ} {s : Store chainSchema} {m : κ → Finset String}

theorem mem_insertEach {items : Finset κ} {name : String} {x : κ} {n : String} :
    n ∈ insertEach items name m x ↔ (n = name ∧ x ∈ items) ∨ n ∈ m x := by
  unfold insertEach
  split
  · rename_i hx
    rw [Finset.mem_insert]
    exact or_congr_left ⟨fun h => ⟨h, hx⟩, And.left⟩
  · rename_i hx
    exact ⟨.inr, fun h => h.resolve_left fun h' => hx h'.2⟩

theorem mem_eraseEach {items : Finset κ} {name : String} {x : κ} {n : String} :
    n ∈ eraseEach items name m x ↔ n ∈ m x ∧ ¬(n = name ∧ x ∈ items) := by
  unfold eraseEach
  split
  · rename_i hx
    rw [Finset.mem_erase]
    exact ⟨fun h => ⟨h.2, fun h' => h.1 h'.1⟩, fun h => ⟨fun e => h.2 ⟨e, hx⟩, h.1⟩⟩
  · rename_i hx
    exact ⟨fun h => ⟨h, fun h' => hx h'.2⟩, And.left⟩

/-- Two accounts do not have one name. -/
theorem account_eq_of_name {i j : Nat} {a b : Account} (ha : s.get Kind.account i = some a)
    (hb : s.get Kind.account j = some b) (hn : a.name = b.name) : i = j := by
  refine Classical.byContradiction fun hij => ?_
  have h := s.unique Kind.account i j a b hij ha hb
  simp only [Schema.clashes, Kind.unique, decide_eq_false_iff_not] at h
  exact h hn

omit [DecidableEq κ] in
/-- What the accounts say of `x` besides the one at `i`. -/
theorem Reverses.others (h : Reverses members s m) {i : Nat} {o : Option Account}
    (hf : ∀ a, o = some a → s.free Kind.account i a = true) (x : κ) (n : String) :
    (∃ j, ∃ b : Account, (s.put Kind.account i o hf).get Kind.account j = some b ∧ b.name = n ∧
        x ∈ members b) ↔
      (∃ a : Account, o = some a ∧ a.name = n ∧ x ∈ members a) ∨
        n ∈ m x ∧ ∀ a : Account, s.get Kind.account i = some a → a.name ≠ n := by
  constructor
  · rintro ⟨j, b, hb, hn, hx⟩
    rw [Store.get_put_self] at hb
    split at hb
    · exact .inl ⟨b, hb, hn, hx⟩
    · rename_i hj
      exact .inr ⟨(h x n).mpr ⟨j, b, hb, hn, hx⟩,
        fun a ha e => hj (account_eq_of_name hb ha (hn.trans e.symm))⟩
  · rintro (⟨a, rfl, hn, hx⟩ | ⟨hm, hne⟩)
    · exact ⟨i, a, by rw [Store.get_put_self, if_pos rfl], hn, hx⟩
    · obtain ⟨j, b, hb, hn, hx⟩ := (h x n).mp hm
      have hj : j ≠ i := by
        rintro rfl
        exact hne b hb hn
      exact ⟨j, b, by rw [Store.get_put_self, if_neg hj, hb], hn, hx⟩

theorem Reverses.inserted (h : Reverses members s m) {i : Nat} {a : Account}
    (hf : s.free Kind.account i a = true) (hg : s.get Kind.account i = none) :
    Reverses members (s.write Kind.account i a hf) (insertEach (members a) a.name m) := by
  intro x n
  rw [mem_insertEach]
  refine Iff.trans ?_ (h.others _ x n).symm
  constructor
  · rintro (⟨rfl, hx⟩ | hm)
    · exact .inl ⟨a, rfl, rfl, hx⟩
    · refine .inr ⟨hm, fun b hb => ?_⟩
      rw [hg] at hb
      cases hb
  · rintro (⟨b, hb, rfl, hx⟩ | ⟨hm, _⟩)
    · cases hb
      exact .inl ⟨rfl, hx⟩
    · exact .inr hm

theorem Reverses.removed (h : Reverses members s m) {i : Nat} {a : Account}
    (hg : s.get Kind.account i = some a) :
    Reverses members (s.erase Kind.account i) (eraseEach (members a) a.name m) := by
  intro x n
  rw [mem_eraseEach]
  refine Iff.trans ?_ (h.others _ x n).symm
  constructor
  · rintro ⟨hm, hne⟩
    refine .inr ⟨hm, fun b hb e => ?_⟩
    rw [hg] at hb
    cases hb
    -- the account itself has `x`, or else another of its name would
    obtain ⟨j, c, hc, hn, hx⟩ := (h x n).mp hm
    obtain rfl := account_eq_of_name hc hg (hn.trans e.symm)
    rw [hg] at hc
    cases hc
    exact hne ⟨e.symm, hx⟩
  · rintro (⟨b, hb, _⟩ | ⟨hm, hne⟩)
    · cases hb
    · exact ⟨hm, fun e => hne a hg e.1.symm⟩

/-- The differences between before and after are all that changes. -/
theorem Reverses.modified (h : Reverses members s m) {i : Nat} {a b : Account}
    (hf : s.free Kind.account i b = true) (hg : s.get Kind.account i = some a)
    (hname : a.name = b.name) :
    Reverses members (s.write Kind.account i b hf)
      (insertEach (members b \ members a) b.name
        (eraseEach (members a \ members b) b.name m)) := by
  intro x n
  rw [mem_insertEach, mem_eraseEach, Finset.mem_sdiff, Finset.mem_sdiff]
  refine Iff.trans ?_ (h.others _ x n).symm
  have hself : a.name = n → (n ∈ m x ↔ x ∈ members a) := by
    rintro rfl
    rw [h x]
    constructor
    · rintro ⟨j, c, hc, hn, hx⟩
      obtain rfl := account_eq_of_name hc hg hn
      rw [hg] at hc
      cases hc
      exact hx
    · exact fun hx => ⟨i, a, hg, rfl, hx⟩
  by_cases e : a.name = n
  · have e' : n = b.name := e.symm.trans hname
    rw [hself e]
    constructor
    · intro hl
      refine .inl ⟨b, rfl, e'.symm, ?_⟩
      rcases hl with ⟨_, hx, _⟩ | ⟨hx, hn⟩
      · exact hx
      · exact Classical.byContradiction fun hb => hn ⟨e', hx, hb⟩
    · rintro (⟨c, hc, _, hx⟩ | ⟨_, hne⟩)
      · cases hc
        by_cases ha : x ∈ members a
        · exact .inr ⟨ha, fun h' => h'.2.2 hx⟩
        · exact .inl ⟨e', hx, ha⟩
      · exact absurd e (hne a hg)
  · have e' : n ≠ b.name := fun hn => e (hname.trans hn.symm)
    constructor
    · rintro (⟨hn, _⟩ | ⟨hm, _⟩)
      · exact absurd hn e'
      · refine .inr ⟨hm, fun c hc => ?_⟩
        rw [hg] at hc
        cases hc
        exact e
    · rintro (⟨c, hc, hn, _⟩ | ⟨hm, _⟩)
      · cases hc
        exact absurd hn.symm e'
      · exact .inr ⟨hm, fun h' => e' h'.1⟩

omit [DecidableEq κ] in
theorem Reverses.congr {t : Store chainSchema} (h : Reverses members s m)
    (hst : ∀ i, s.get Kind.account i = t.get Kind.account i) : Reverses members t m := by
  intro x n
  simp only [← hst]
  exact h x n

end

/-- Both reverse maps are exact. -/
def MembersExact (s : Store chainSchema) (w : SecondaryIndexes) : Prop :=
  Reverses AccountMemberIndex.getAccountMembers s w.accountMembers.accountToAccountMemberships ∧
    Reverses AccountMemberIndex.getKeyMembers s w.accountMembers.accountToKeyMemberships

theorem account_name_of_sameKey {a b : Account} (h : chainSchema.SameKey Kind.account a b) :
    a.name = b.name := by
  have hb := h b
  simp only [Schema.clashes, Kind.unique, decide_true, decide_eq_true_eq] at hb
  exact hb

theorem members_mirror :
    Mirror chainObserver MembersExact (fun k => k = Kind.account) (fun _ _ _ => True) where
  congr hst h := ⟨h.1.congr fun i => hst _ i rfl, h.2.congr fun i => hst _ i rfl⟩
  inserted := by
    intro s w k i a hf hg h
    cases k with
    | account => exact ⟨h.1.inserted hf hg, h.2.inserted hf hg⟩
    | _ =>
      exact ⟨h.1.congr fun j => (Store.get_write_ne s (by decide) i j a hf).symm,
        h.2.congr fun j => (Store.get_write_ne s (by decide) i j a hf).symm⟩
  removed := by
    intro s w k i a hg h
    cases k with
    | account => exact ⟨h.1.removed hg, h.2.removed hg⟩
    | _ =>
      exact ⟨h.1.congr fun j => (Store.get_erase_ne s (by decide) i j).symm,
        h.2.congr fun j => (Store.get_erase_ne s (by decide) i j).symm⟩
  modified := by
    intro s w k i a b hf hg hkey _ h
    cases k with
    | account =>
      have hname := account_name_of_sameKey hkey
      exact ⟨h.1.modified hf hg hname, h.2.modified hf hg hname⟩
    | _ =>
      exact ⟨h.1.congr fun j => (Store.get_write_ne s (by decide) i j b hf).symm,
        h.2.congr fun j => (Store.get_write_ne s (by decide) i j b hf).symm⟩
  refl _ _ := trivial
  symm _ _ _ _ := trivial
  trans _ _ _ _ _ _ := trivial

/-- `n` is in one of the account's authorities. -/
def Account.Trusts (a : Account) (n : String) : Prop :=
  n ∈ a.owner.accountAuths.map Prod.fst ∨ n ∈ a.active.accountAuths.map Prod.fst ∨
    n ∈ a.basic.accountAuths.map Prod.fst

/-- The key is in one of the account's authorities, or its memo key. -/
def Account.Holds (a : Account) (key : PublicKey) : Prop :=
  key ∈ a.owner.keyAuths.map Prod.fst ∨ key ∈ a.active.keyAuths.map Prod.fst ∨
    key ∈ a.basic.keyAuths.map Prod.fst ∨ key = a.memoKey

theorem mem_getAccountMembers {a : Account} {n : String} :
    n ∈ AccountMemberIndex.getAccountMembers a ↔ a.Trusts n := by
  simp only [AccountMemberIndex.getAccountMembers, Account.Trusts, List.mem_toFinset,
    List.map_append, List.mem_append, or_assoc]

theorem mem_getKeyMembers {a : Account} {key : PublicKey} :
    key ∈ AccountMemberIndex.getKeyMembers a ↔ a.Holds key := by
  simp only [AccountMemberIndex.getKeyMembers, Account.Holds, Finset.mem_insert, List.mem_toFinset,
    List.map_append, List.mem_append]
  tauto

/-- **The reverse maps of the authorities are exact after every run that removes no account**: of
creations, modifications, sessions started, merged, committed and undone, and pops. -/
theorem accountMemberIndex_exact {w w' : Observed chainSchema SecondaryIndexes}
    (hstart : Unstacked w) (hexact : MembersExact w.db.store w.sindex)
    (hrun : Observed.Run chainObserver (fun _ c => c.Spares Kind.account) w w') :
    (∀ n x, x ∈ w'.sindex.accountMembers.accountToAccountMemberships n ↔
      ∃ i, ∃ a : Account, w'.db.store.get Kind.account i = some a ∧ a.name = x ∧ a.Trusts n) ∧
    ∀ key x, x ∈ w'.sindex.accountMembers.accountToKeyMemberships key ↔
      ∃ i, ∃ a : Account, w'.db.store.get Kind.account i = some a ∧ a.name = x ∧ a.Holds key := by
  have halike : ∀ c : ObjectCall chainSchema, c.Alike fun _ _ _ => True := by
    intro c
    cases c with
    | modify => exact fun _ _ _ => trivial
    | _ => exact trivial
  have hnone : NoneRemoved Kind.account w.db := by
    intro u hu
    rw [hstart.stack] at hu
    cases hu
  obtain ⟨h, _⟩ := members_mirror.run_sparing (hstart.mirrored hexact) hnone
    (hrun.mono fun _ c hc => ⟨halike c, hc⟩)
  refine ⟨fun n x => ?_, fun key x => ?_⟩
  · rw [h.exact.1 n x]
    simp only [mem_getAccountMembers]
  · rw [h.exact.2 key x]
    simp only [mem_getKeyMembers]

def sampleMember : Account :=
  { name := "bob", active := ⟨1, [("alice", 1)], [(5, 1)]⟩, memoKey := 9 }

/-- The account gets another active authority. -/
def rekeyed (key : PublicKey) : ObjectCall chainSchema :=
  .modify Kind.account 0 (fun a : Account => .ok { a with active := ⟨1, [("carol", 1)], [(key, 1)]⟩ })
    fun _ _ h => by cases h; exact fun _ => rfl

/-- An account is made and rekeyed, in sessions that are undone, merged, committed and popped. -/
theorem accountMemberIndex_exact_create :
    ∃ w', Observed.Run chainObserver (fun _ c => c.Spares Kind.account) blankDatabase w' ∧
      (∀ n x, x ∈ w'.sindex.accountMembers.accountToAccountMemberships n ↔
        ∃ i, ∃ a : Account, w'.db.store.get Kind.account i = some a ∧ a.name = x ∧ a.Trusts n) ∧
      (∀ key x, x ∈ w'.sindex.accountMembers.accountToKeyMemberships key ↔
        ∃ i, ∃ a : Account, w'.db.store.get Kind.account i = some a ∧ a.name = x ∧ a.Holds key) ∧
      "bob" ∈ w'.sindex.accountMembers.accountToAccountMemberships "carol" ∧
      "bob" ∈ w'.sindex.accountMembers.accountToKeyMemberships 7 ∧
      "bob" ∉ w'.sindex.accountMembers.accountToKeyMemberships 6 := by
  have hmade : Observed.Run chainObserver (fun _ c => c.Spares Kind.account) blankDatabase _ :=
    .call (c := .commit) (.call (c := .undo) (.call (c := rekeyed 6)
      (.call (c := .startUndoSession false) (.call (c := .create Kind.account sampleMember)
        (.call (c := .startUndoSession false) (.refl _) trivial rfl) trivial rfl) trivial rfl)
      trivial rfl) trivial rfl) trivial rfl
  have hpopped : Observed.Run chainObserver (fun _ c => c.Spares Kind.account) blankDatabase _ :=
    .call (c := .popCommit) (.call (c := .commit) (.call (c := rekeyed 6)
      (.call (c := .startUndoSession false) hmade trivial rfl) trivial rfl) trivial rfl) trivial rfl
  have hmerged : Observed.Run chainObserver (fun _ c => c.Spares Kind.account) blankDatabase _ :=
    .call (c := .commit) (.call (c := .merge) (.call (c := rekeyed 7)
      (.call (c := .startUndoSession false) (.call (c := .startUndoSession false) hpopped trivial rfl)
        trivial rfl) trivial rfl) trivial rfl) trivial rfl
  have hexact : MembersExact blankDatabase.db.store blankDatabase.sindex := by
    refine ⟨fun x n => ⟨fun h => ?_, ?_⟩, fun x n => ⟨fun h => ?_, ?_⟩⟩
    · exact absurd h (Finset.notMem_empty n)
    · rintro ⟨i, a, ha, _⟩
      cases ha
    · exact absurd h (Finset.notMem_empty n)
    · rintro ⟨i, a, ha, _⟩
      cases ha
  obtain ⟨hmembers, hkeys⟩ := accountMemberIndex_exact blankDatabase_unstacked hexact hmerged
  exact ⟨_, hmerged, hmembers, hkeys, by decide +kernel, by decide +kernel, by decide +kernel⟩

/-! ## 2. Proposals by account -/

/-- The proposal waits for the approval of `a`. -/
def Proposal.Lists (p : Proposal) (a : String) : Prop :=
  a ∈ p.requiredActiveApprovals ∨ a ∈ p.requiredOwnerApprovals ∨ a ∈ p.requiredBasicApprovals

/-- `lookup` gives the proposals that list the account. -/
def ApprovalsExact (s : Store chainSchema) (w : SecondaryIndexes) : Prop :=
  ∀ a i, i ∈ w.requiredApprovals.lookup a ↔
    ∃ p : Proposal, s.get Kind.proposal i = some p ∧ p.Lists a

/-- A proposal lists the same accounts as before. -/
def SameLists : (k : Kind) → Kind.Object k → Kind.Object k → Prop
  | .proposal, p, q => ∀ a, Proposal.Lists p a ↔ Proposal.Lists q a
  | _, _, _ => True

namespace RequiredApprovalIndex

variable {ix : RequiredApprovalIndex} {p i : Nat} {a : String}

theorem mem_lookup_insert {b : String} :
    i ∈ (ix.insert p b).lookup a ↔ (a = b ∧ i = p) ∨ i ∈ ix.lookup a := by
  unfold lookup RequiredApprovalIndex.insert
  by_cases e : a = b
  · subst e
    simp
  · simp [e]

theorem mem_lookup_remove {b : String} :
    i ∈ (ix.remove p b).lookup a ↔ i ∈ ix.lookup a ∧ ¬(a = b ∧ i = p) := by
  unfold lookup RequiredApprovalIndex.remove
  cases hb : ix.accountToProposals b with
  | none =>
    refine ⟨fun h => ⟨h, ?_⟩, And.left⟩
    rintro ⟨rfl, _⟩
    rw [hb] at h
    exact absurd h (Finset.notMem_empty i)
  | some ps =>
    by_cases e : a = b
    · subst e
      simp only [Function.update_self, hb, Option.getD_some, true_and]
      rw [← Finset.mem_erase.trans and_comm]
      split
      · rename_i he
        rw [he]
        rfl
      · rfl
    · simp [e]

theorem mem_lookup_inserts {l : List String} :
    i ∈ (l.foldl (insert p) ix).lookup a ↔ (a ∈ l ∧ i = p) ∨ i ∈ ix.lookup a := by
  induction l generalizing ix with
  | nil => simp
  | cons b l ih =>
    rw [List.foldl_cons, ih, mem_lookup_insert, List.mem_cons]
    tauto

theorem mem_lookup_removes {l : List String} :
    i ∈ (l.foldl (remove p) ix).lookup a ↔ i ∈ ix.lookup a ∧ ¬(a ∈ l ∧ i = p) := by
  induction l generalizing ix with
  | nil => simp
  | cons b l ih =>
    rw [List.foldl_cons, ih, mem_lookup_remove, List.mem_cons]
    tauto

theorem mem_lookup_objectInserted {o : Proposal} :
    i ∈ (ix.objectInserted p o).lookup a ↔ (o.Lists a ∧ i = p) ∨ i ∈ ix.lookup a := by
  simp only [objectInserted, mem_lookup_inserts, Proposal.Lists]
  tauto

theorem mem_lookup_objectRemoved {o : Proposal} :
    i ∈ (ix.objectRemoved p o).lookup a ↔ i ∈ ix.lookup a ∧ ¬(o.Lists a ∧ i = p) := by
  simp only [objectRemoved, mem_lookup_removes, Proposal.Lists]
  tauto

end RequiredApprovalIndex

theorem ApprovalsExact.congr {s t : Store chainSchema} {w v : SecondaryIndexes}
    (h : ApprovalsExact s w) (hst : ∀ i, s.get Kind.proposal i = t.get Kind.proposal i)
    (hw : w.requiredApprovals = v.requiredApprovals) : ApprovalsExact t v := by
  intro a i
  rw [← hst, ← hw]
  exact h a i

theorem approvals_mirror :
    Mirror chainObserver ApprovalsExact (fun k => k = Kind.proposal) SameLists where
  congr hst h := h.congr (fun i => hst _ i rfl) rfl
  inserted := by
    intro s w k i o hf hg h
    cases k with
    | proposal =>
      intro a j
      refine RequiredApprovalIndex.mem_lookup_objectInserted.trans ?_
      rw [h a j, Store.get_write_self]
      by_cases e : j = i
      · subst e
        simp [hg]
      · simp [e]
    | _ => exact h.congr (fun j => (Store.get_write_ne s (by decide) i j o hf).symm) rfl
  removed := by
    intro s w k i o hg h
    cases k with
    | proposal =>
      intro a j
      refine RequiredApprovalIndex.mem_lookup_objectRemoved.trans ?_
      rw [h a j, Store.get_erase_self]
      by_cases e : j = i
      · subst e
        simp [hg]
      · simp [e]
    | _ => exact h.congr (fun j => (Store.get_erase_ne s (by decide) i j).symm) rfl
  modified := by
    intro s w k i o o' hf hg _ hK h
    cases k with
    | proposal =>
      intro a j
      refine (h a j).trans ?_
      rw [Store.get_write_self]
      by_cases e : j = i
      · subst e
        simp only [hg, if_true, Option.some.injEq, exists_eq_left']
        exact hK a
      · rw [if_neg e]
    | _ => exact h.congr (fun j => (Store.get_write_ne s (by decide) i j o' hf).symm) rfl
  refl k o := by
    cases k with
    | proposal => exact fun _ => Iff.rfl
    | _ => exact trivial
  symm k o o' h := by
    cases k with
    | proposal => exact fun a => (h a).symm
    | _ => exact trivial
  trans k o o' o'' h h' := by
    cases k with
    | proposal => exact fun a => (h a).trans (h' a)
    | _ => exact trivial

/-- The call rolls a session back in which a proposal was removed that had been there before. -/
def PutsProposalBack (w : Observed chainSchema SecondaryIndexes) (c : ObjectCall chainSchema) : Prop :=
  ∃ u i p, w.RollsBack c u ∧ (u Kind.proposal).removed.get i = some p

/-- **The proposals by account are exact after every run in which no rollback puts a removed
proposal back.** The accounts that a proposal lists do not change, as the index relies on. -/
theorem requiredApprovalIndex_exact {w w' : Observed chainSchema SecondaryIndexes}
    (hstart : Unstacked w) (hexact : ApprovalsExact w.db.store w.sindex)
    (hrun : Observed.Run chainObserver
      (fun v c => c.Alike SameLists ∧ ¬PutsProposalBack v c) w w') :
    ∀ a i, i ∈ w'.sindex.requiredApprovals.lookup a ↔
      ∃ p : Proposal, w'.db.store.get Kind.proposal i = some p ∧ p.Lists a := by
  refine (approvals_mirror.run (hstart.mirrored hexact) (hrun.mono fun v c hc => ?_)).exact
  refine ⟨hc.1, ?_⟩
  rintro u hu k i rfl
  cases hr : (u Kind.proposal).removed.get i with
  | none => rfl
  | some p => exact absurd ⟨u, i, p, hu, hr⟩ hc.2

/-- A proposal that waits for alice. -/
def sampleWaiting : Proposal where
  expirationTime := genesisTime + 60
  reviewPeriodTime := none
  proposedTransaction := ⟨0, 0, genesisTime + 60, [], []⟩
  requiredActiveApprovals := ["alice"]
  availableActiveApprovals := []
  requiredOwnerApprovals := []
  availableOwnerApprovals := []
  requiredBasicApprovals := []
  requiredMasterContentApprovals := []
  requiredCompContentApprovals := []
  availableKeyApprovals := []
  canVeto := []

theorem approvalsExact_blank : ApprovalsExact blankDatabase.db.store blankDatabase.sindex := by
  refine fun a i => ⟨fun h => absurd h (Finset.notMem_empty i), ?_⟩
  rintro ⟨p, hp, _⟩
  cases hp

/-- Alice's approval is moved. -/
def aliceApproves : ObjectCall chainSchema :=
  .modify Kind.proposal 0 (fun p : Proposal => .ok { p with availableActiveApprovals := ["alice"] })
    fun _ _ h => by cases h; exact fun _ => rfl

theorem not_putsProposalBack {w : Observed chainSchema SecondaryIndexes} {c : ObjectCall chainSchema}
    (halike : c.Alike SameLists) (hundo : c ≠ .undo) (hpop : c ≠ .popCommit) :
    c.Alike SameLists ∧ ¬PutsProposalBack w c := by
  refine ⟨halike, ?_⟩
  rintro ⟨u, i, p, ⟨hc | hc, _⟩, _⟩
  · exact hundo hc
  · exact hpop hc

/-- Alice's approval is added in sessions that are merged and popped; another proposal is made and
undone, and made again and removed. -/
theorem requiredApprovalIndex_exact_create :
    ∃ w', Observed.Run chainObserver
        (fun v c => c.Alike SameLists ∧ ¬PutsProposalBack v c) blankDatabase w' ∧
      (∀ a i, i ∈ w'.sindex.requiredApprovals.lookup a ↔
        ∃ p : Proposal, w'.db.store.get Kind.proposal i = some p ∧ p.Lists a) ∧
      0 ∈ w'.sindex.requiredApprovals.lookup "alice" ∧
      1 ∉ w'.sindex.requiredApprovals.lookup "alice" := by
  have happroves : ∀ p q : Proposal, (Except.ok { p with availableActiveApprovals := ["alice"] } :
      Except Exn Proposal) = .ok q → SameLists Kind.proposal p q := by
    intro p q h
    cases h
    exact fun _ => Iff.rfl
  have hmade : Observed.Run chainObserver
      (fun v c => c.Alike SameLists ∧ ¬PutsProposalBack v c) blankDatabase _ :=
    .call (c := .commit) (.call (c := .merge) (.call (c := aliceApproves)
      (.call (c := .startUndoSession false) (.call (c := .create Kind.proposal sampleWaiting)
        (.call (c := .startUndoSession false) (.refl _)
          (not_putsProposalBack trivial nofun nofun) rfl)
        (not_putsProposalBack trivial nofun nofun) rfl)
        (not_putsProposalBack trivial nofun nofun) rfl)
      (not_putsProposalBack happroves nofun nofun) rfl)
      (not_putsProposalBack trivial nofun nofun) rfl)
      (not_putsProposalBack trivial nofun nofun) rfl
  have hundone : Observed.Run chainObserver
      (fun v c => c.Alike SameLists ∧ ¬PutsProposalBack v c) blankDatabase _ :=
    .call (c := .undo) (.call (c := .create Kind.proposal sampleWaiting)
      (.call (c := .startUndoSession false) hmade
        (not_putsProposalBack trivial nofun nofun) rfl)
      (not_putsProposalBack trivial nofun nofun) rfl) ⟨trivial, by
        rintro ⟨u, i, p, ⟨_, us, hst⟩, hp⟩
        cases hst
        cases hp⟩ rfl
  have hpopped : Observed.Run chainObserver
      (fun v c => c.Alike SameLists ∧ ¬PutsProposalBack v c) blankDatabase _ :=
    .call (c := .popCommit) (.call (c := .commit) (.call (c := aliceApproves)
      (.call (c := .startUndoSession false) hundone
        (not_putsProposalBack trivial nofun nofun) rfl)
      (not_putsProposalBack happroves nofun nofun) rfl)
      (not_putsProposalBack trivial nofun nofun) rfl) ⟨trivial, by
        rintro ⟨u, i, p, ⟨_, us, hst⟩, hp⟩
        cases hst
        cases hp⟩ rfl
  have hremoved : Observed.Run chainObserver
      (fun v c => c.Alike SameLists ∧ ¬PutsProposalBack v c) blankDatabase _ :=
    .call (c := .commit) (.call (c := .remove Kind.proposal 1)
      (.call (c := .create Kind.proposal sampleWaiting)
        (.call (c := .startUndoSession false) hpopped
          (not_putsProposalBack trivial nofun nofun) rfl)
        (not_putsProposalBack trivial nofun nofun) rfl)
      (not_putsProposalBack trivial nofun nofun) rfl)
      (not_putsProposalBack trivial nofun nofun) rfl
  exact ⟨_, hremoved, requiredApprovalIndex_exact blankDatabase_unstacked approvalsExact_blank
    hremoved, by decide +kernel, by decide +kernel⟩

/-- **A proposal whose removal was undone is there, and not in the index**: it is made in a session
that is committed, and removed in one that is undone. -/
theorem undone_removal_is_not_indexed :
    ∃ w', Observed.Run chainObserver (fun _ c => c.Alike SameLists) blankDatabase w' ∧
      (∃ p : Proposal, w'.db.store.get Kind.proposal 0 = some p ∧ p.Lists "alice") ∧
      0 ∉ w'.sindex.requiredApprovals.lookup "alice" := by
  have hmade : Observed.Run chainObserver (fun _ c => c.Alike SameLists) blankDatabase _ :=
    .call (c := .commit) (.call (c := .create Kind.proposal sampleWaiting)
      (.call (c := .startUndoSession false) (.refl _) trivial rfl) trivial rfl) trivial rfl
  have hundone : Observed.Run chainObserver (fun _ c => c.Alike SameLists) blankDatabase _ :=
    .call (c := .undo) (.call (c := .remove Kind.proposal 0)
      (.call (c := .startUndoSession false) hmade trivial rfl) trivial rfl) trivial rfl
  exact ⟨_, hundone, ⟨sampleWaiting, rfl, .inl (by decide)⟩, by decide +kernel⟩

end MuseChain
