/-
  File:      MuseChain/Safety/Approvals.lean
  Subject:   Which approvals of contents are accepted.

  `contentApprove_ok_iff`: an approval is stored when no stored one has the same content or the same
  approver, since the index keeps each of the two unique by itself and not only the pair.
  `ApprovalRun g L s`: a run of the chain from a genesis, with the pairs `L` it accepted; what is
  stored are these pairs (`ApprovalRun.logged`). `approvals_independent_iff`: the next approval is
  accepted just when its pair is new, if and only if no accepted pair has one half in common with it
  and not the other.
-/
import MuseChain.Safety.ContentEdits
import MuseChain.Safety.Crowds
import MuseChain.Safety.Votes

namespace MuseChain

variable {n : Nat} {d d' : Database chainSchema} {s t : Store chainSchema}

/-! ## 1. One approval -/

/-- A stored approval has the content or the approver. -/
def Taken (s : Store chainSchema) (approver : Nat) (url : String) : Prop :=
  ∃ k, ∃ b : ContentApprove, s.get Kind.contentApprove k = some b ∧
    (b.approver = approver ∨ b.content = url)

theorem free_contentApprove_iff {k i : Nat} {url : String}
    (hk : s.get Kind.contentApprove k = none) :
    s.free Kind.contentApprove k { approver := i, content := url : ContentApprove } = true ↔
      ¬Taken s i url := by
  rw [Store.free_iff]
  constructor
  · rintro hfree ⟨j, b, hb, hshare⟩
    have hj : j ≠ k := by
      rintro rfl
      cases hk.symm.trans hb
    have hclash := hfree j b hj hb
    rcases hshare with rfl | rfl <;> simp [Schema.clashes, Kind.unique] at hclash
  · intro hno j b _ hb
    have hcontent : url ≠ b.content := fun e => hno ⟨j, b, hb, .inr e.symm⟩
    have happrover : i ≠ b.approver := fun e => hno ⟨j, b, hb, .inl e.symm⟩
    simp [Schema.clashes, Kind.unique, hcontent, happrover]

/-- What an approval that is accepted has met and written. -/
theorem contentApprove_store {approver url : String} {u : Unit}
    (h : (contentApprove approver url : Act n Unit).run d = .ok u d') :
    ∃ i, ∃ a : Account, d.store.get Kind.account i = some a ∧ a.name = approver ∧
      d.store.get Kind.contentApprove (d.store.nextId Kind.contentApprove) = none ∧
      ∃ hf : d.store.free Kind.contentApprove (d.store.nextId Kind.contentApprove)
          { approver := i, content := url : ContentApprove } = true,
        d'.store = (d.store.write Kind.contentApprove (d.store.nextId Kind.contentApprove)
          { approver := i, content := url : ContentApprove } hf).setNextId Kind.contentApprove
            (d.store.nextId Kind.contentApprove + 1) := by
  obtain ⟨j, c, _, _, h⟩ := bind_getContentId_ok h
  obtain ⟨co, _, h⟩ := bind_getObject_ok.mp h
  obtain ⟨_, h⟩ := Action.bind_require_ok.mp h
  obtain ⟨i, a, ha, hname, h⟩ := bind_getAccountId_ok h
  obtain ⟨k, d₁, hcreate, h⟩ := Action.bind_ok.mp h
  cases h
  obtain ⟨rfl, hnone, hf, hstore⟩ := create_store hcreate
  exact ⟨i, a, ha, hname, hnone, hf, hstore⟩

/-- **The rule of acceptance** for an approver and a content that are there. -/
theorem contentApprove_ok_iff {approver url : String} {i j : Nat} {a : Account} {c : Content}
    (hfresh : d.store.Fresh) (ha : d.store.get Kind.account i = some a) (hname : a.name = approver)
    (hc : d.store.get Kind.content j = some c) (hurl : c.url = url) (hopen : c.disabled = false) :
    (∃ u d', (contentApprove approver url : Act n Unit).run d = .ok u d') ↔
      ¬Taken d.store i url := by
  constructor
  · rintro ⟨u, d', h⟩
    obtain ⟨i', a', ha', hname', hnone, hf, _⟩ := contentApprove_store h
    obtain rfl : i' = i := account_unique ha' ha (hname'.trans hname.symm)
    exact (free_contentApprove_iff hnone).mp hf
  · intro hno
    have hfin : Finishes (contentApprove approver url : Act n Unit) d fun _ => True := by
      unfold contentApprove
      refine finishes_getRow ⟨j, c, hc, decide_eq_true hurl⟩ fun j' c' hc' hurl' => ?_
      obtain rfl : j' = j := content_unique hc' hc ((of_decide_eq_true hurl').trans hurl.symm)
      refine finishes_getObject hc (finishes_require hopen ?_)
      refine finishes_getRow ⟨i, a, ha, decide_eq_true hname⟩ fun i' a' ha' hname' => ?_
      obtain rfl : i' = i := account_unique ha' ha ((of_decide_eq_true hname').trans hname.symm)
      have hnone := hfresh.get_none (k := Kind.contentApprove) le_rfl
      exact finishes_create hfresh ((free_contentApprove_iff hnone).mpr hno) fun _ _ =>
        finishes_pure trivial
    obtain ⟨u, d', h, _⟩ := hfin
    exact ⟨u, d', h⟩

/-! ## 2. Runs -/

/-- What is stored are the pairs of `L`, each once. -/
structure Logged (L : List (Nat × String)) (s : Store chainSchema) : Prop where
  fresh : s.Fresh
  stored : ∀ p : Nat × String, p ∈ L ↔ ∃ k, ∃ b : ContentApprove,
    s.get Kind.contentApprove k = some b ∧ (b.approver, b.content) = p
  once : L.Nodup

theorem Logged.approve {L : List (Nat × String)} (h : Logged L s) {i : Nat} {url : String}
    (hf : s.free Kind.contentApprove (s.nextId Kind.contentApprove)
      { approver := i, content := url : ContentApprove } = true) :
    Logged (L ++ [(i, url)]) ((s.write Kind.contentApprove (s.nextId Kind.contentApprove)
      { approver := i, content := url : ContentApprove } hf).setNextId Kind.contentApprove
        (s.nextId Kind.contentApprove + 1)) := by
  have hnone := h.fresh.get_none (k := Kind.contentApprove) le_rfl
  have hno := (free_contentApprove_iff hnone).mp hf
  refine ⟨h.fresh.create hf, fun p => ?_, ?_⟩
  · rw [List.mem_append, List.mem_singleton, h.stored]
    constructor
    · rintro (⟨k, b, hb, hp⟩ | rfl)
      · refine ⟨k, b, ?_, hp⟩
        have hk : k ≠ s.nextId Kind.contentApprove := by
          rintro rfl
          cases hnone.symm.trans hb
        rw [Store.get_setNextId, Store.get_write_self, if_neg hk]
        exact hb
      · refine ⟨s.nextId Kind.contentApprove, { approver := i, content := url }, ?_, rfl⟩
        rw [Store.get_setNextId, Store.get_write_self, if_pos rfl]
    · rintro ⟨k, b, hb, hp⟩
      rw [Store.get_setNextId, Store.get_write_self] at hb
      split at hb
      · obtain rfl := Option.some.inj hb
        exact .inr hp.symm
      · exact .inl ⟨k, b, hb, hp⟩
  · refine List.nodup_append.mpr ⟨h.once, List.nodup_singleton _, fun p hp q hq => ?_⟩
    obtain rfl := List.mem_singleton.mp hq
    rintro rfl
    obtain ⟨k, b, hb, hpair⟩ := (h.stored _).mp hp
    exact hno ⟨k, b, hb, .inl (Prod.mk.inj hpair).1⟩

/-- Nothing else writes an approval. -/
theorem Logged.of_changes {L : List (Nat × String)} {l : List Part} (h : Logged L s)
    (hfresh : t.Fresh) (hst : Obeys (changes l) s t) (hm : Part.made .contentApprove ∉ l)
    (hg : Part.gone .contentApprove ∉ l) (hw : Part.whole .contentApprove ∉ l) : Logged L t := by
  refine ⟨hfresh, fun p => ?_, h.once⟩
  have hget : ∀ k, t.get Kind.contentApprove k = s.get Kind.contentApprove k := fun k =>
    get_of_unchanged hst hm hg fun a b hab => Or.resolve_left hab hw
  simp only [hget]
  exact h.stored p

theorem Logged.taken_iff {L : List (Nat × String)} (h : Logged L s) {i : Nat} {url : String} :
    Taken s i url ↔ ∃ p ∈ L, p.1 = i ∨ p.2 = url := by
  constructor
  · rintro ⟨k, b, hb, hshare⟩
    exact ⟨(b.approver, b.content), (h.stored _).mpr ⟨k, b, hb, rfl⟩, hshare⟩
  · rintro ⟨p, hp, hshare⟩
    obtain ⟨k, b, hb, rfl⟩ := (h.stored p).mp hp
    exact ⟨k, b, hb, hshare⟩

/-- Two accepted pairs have both halves in common or none. -/
theorem Logged.apart {L : List (Nat × String)} (h : Logged L s) {p q : Nat × String} (hp : p ∈ L)
    (hq : q ∈ L) (hshare : p.1 = q.1 ∨ p.2 = q.2) : p = q := by
  obtain ⟨k, b, hb, rfl⟩ := (h.stored p).mp hp
  obtain ⟨m, c, hc, rfl⟩ := (h.stored q).mp hq
  by_cases hkm : k = m
  · subst hkm
    obtain rfl : b = c := Option.some.inj (hb.symm.trans hc)
    rfl
  · have hclash := s.unique Kind.contentApprove k m b c hkm hb hc
    simp only [Schema.clashes, Kind.unique, Bool.or_eq_false_iff, decide_eq_false_iff_not] at hclash
    rcases hshare with e | e
    · exact absurd e hclash.2
    · exact absurd e hclash.1

instance : IsPreorder (Store chainSchema) (fun s t => s.Fresh → t.Fresh) where
  refl _ h := h
  trans _ _ _ h h' hs := h' (h hs)

theorem fresh_initGenesis [Fc] (g : GenesisState) :
    Steps (fun s t : Store chainSchema => s.Fresh → t.Fresh) (initGenesis g) := by
  have hcreate : ∀ (k : Kind) (a : k.Object), Steps (fun s t : Store chainSchema => s.Fresh → t.Fresh)
      (Action.create (S := chainSchema) k a : Act 0 Nat) := by
    refine fun k a => ⟨fun {d _ d'} hr hs => ?_⟩
    obtain ⟨rfl, _, hf, e⟩ := create_store hr
    rw [e]
    exact hs.create hf
  rw [initGenesis_eq]
  refine steps_bind ?_ fun _ => steps_bind (composed_initGlobals g).fresh fun _ =>
    (composed_importGenesis g).fresh
  unfold initAccounts
  refine steps_bind (hcreate .account _) fun _ => steps_bind (hcreate .account _) fun _ => ?_
  refine steps_bind (hcreate .account _) fun _ => steps_bind (hcreate .account _) fun _ => ?_
  exact steps_bind (hcreate .witness _) fun _ => (looks_pure ()).steps

section

variable [Fc] {g : GenesisState}

/-- Any other operation. -/
def besideApproval (_ : Store chainSchema) (op : Operation) : Prop :=
  ∀ approver url, op ≠ .contentApprove approver url

/-- A run of the chain from a genesis, and the pairs of approver and content it accepted. An
    approval that throws is no step. -/
inductive ApprovalRun [Fc] (g : GenesisState) : List (Nat × String) → Store chainSchema → Prop
  | genesis {d : Database chainSchema} {u : Unit} :
      (initGenesis g).run emptyDatabase = .ok u d →
      ApprovalRun g [] d.store
  | approve {L : List (Nat × String)} {d d' : Database chainSchema} {u : Unit} {i : Nat}
      {a : Account} {approver url : String} (clock n : Nat) (push : Nat → Act n Unit) :
      ApprovalRun g L d.store → d.store.get Kind.account i = some a → a.name = approver →
      (evaluate clock push (.contentApprove approver url)).run d = .ok u d' →
      ApprovalRun g (L ++ [(i, url)]) d'.store
  | other {L : List (Nat × String)} {s t : Store chainSchema} :
      ApprovalRun g L s → ChainStep besideApproval s t → ApprovalRun g L t

theorem Logged.other {L : List (Nat × String)} (h : Logged L s)
    (hst : ChainStep besideApproval s t) : Logged L t := by
  have hfresh := hst.fresh h.fresh
  cases hst with
  | operation clock n push op _ ha hop hr =>
    have hchanges := (composed_evaluate clock push ha).steps.step hr
    cases op with
    | contentApprove approver url => exact absurd rfl (hop approver url)
    | _ => refine h.of_changes hfresh hchanges ?_ ?_ ?_ <;> simp +decide [Operation.parts]
  | routine n r hr =>
    have hchanges := r.composed_act.steps.step hr
    cases r <;> refine h.of_changes hfresh hchanges ?_ ?_ ?_ <;> simp +decide [Routine.parts]

theorem logged_genesis {u : Unit}
    (h : (initGenesis g).run emptyDatabase = .ok u d) :
    Logged [] d.store := by
  have hempty : Logged [] (emptyStore : Store chainSchema) := by
    refine ⟨emptyStore_fresh, fun p => ⟨fun hp => (nomatch hp), ?_⟩, List.nodup_nil⟩
    rintro ⟨k, b, hb, _⟩
    cases hb
  exact hempty.of_changes ((fresh_initGenesis g).step h emptyStore_fresh)
    ((made_initGenesis g).step h) (by decide) (by decide) (by decide)

theorem ApprovalRun.logged {L : List (Nat × String)} (h : ApprovalRun g L s) : Logged L s := by
  induction h with
  | genesis hg => exact logged_genesis hg
  | approve clock n push _ ha hname hr ih =>
    obtain ⟨i', a', ha', hname', _, hf, hstore⟩ := contentApprove_store hr
    obtain rfl := account_unique ha ha' (hname.trans hname'.symm)
    rw [hstore]
    exact ih.approve hf
  | other _ hst ih => exact ih.other hst

/-- **Content approvals.** Whatever the run, the stored approvals are the accepted pairs. The next
    one, by an account that is there and of a content that is there and open, is accepted just when
    its pair is new, if and only if every accepted pair with the same approver or the same content
    has both. -/
theorem approvals_independent_iff {L : List (Nat × String)} (h : ApprovalRun g L d.store) :
    ((∀ p : Nat × String, p ∈ L ↔ ∃ k, ∃ b : ContentApprove,
        d.store.get Kind.contentApprove k = some b ∧ (b.approver, b.content) = p) ∧ L.Nodup) ∧
    ∀ (clock n : Nat) (push : Nat → Act n Unit) (approver url : String) (i j : Nat) (a : Account)
      (c : Content), d.store.get Kind.account i = some a → a.name = approver →
      d.store.get Kind.content j = some c → c.url = url → c.disabled = false →
      (((∃ u d', (evaluate clock push (.contentApprove approver url)).run d = .ok u d') ↔
          (i, url) ∉ L) ↔
        ∀ p ∈ L, p.1 = i ∨ p.2 = url → p = (i, url)) := by
  have hlog := h.logged
  refine ⟨⟨hlog.stored, hlog.once⟩, fun clock n push approver url i j a c ha hname hc hurl hopen => ?_⟩
  have hrule : (∃ u d', (evaluate clock push (.contentApprove approver url)).run d = .ok u d') ↔
      ¬∃ p ∈ L, p.1 = i ∨ p.2 = url := by
    rw [← hlog.taken_iff]
    exact contentApprove_ok_iff hlog.fresh ha hname hc hurl hopen
  rw [hrule]
  constructor
  · intro hnew p hp hshare
    have hold : (i, url) ∈ L := by
      by_contra hno
      exact hnew.mpr hno ⟨p, hp, hshare⟩
    exact hlog.apart hp hold hshare
  · intro hboth
    constructor
    · exact fun hno hold => hno ⟨(i, url), hold, .inl rfl⟩
    · rintro hno ⟨p, hp, hshare⟩
      exact hno (hboth p hp hshare ▸ hp)

end

/-! ## 3. Two contents and one approver -/

section

attribute [local instance] sampleFc

def approvableContent (url : String) : Operation :=
  .content { sampleContentOp [⟨initMinerName, 10000⟩] [⟨initMinerName, 100⟩] with url := url }

def approvalsFirst : Database chainSchema :=
  ((initGenesis sampleGenesis).run emptyDatabase).db

/-- Two contents of the init miner. -/
def approvalsStart : Database chainSchema :=
  evaluated (approvableContent "ipfs://b") (evaluated (approvableContent "ipfs://a") approvalsFirst)

/-- The init miner approved the first of them. -/
def approvedOnce : Database chainSchema :=
  evaluated (.contentApprove initMinerName "ipfs://a") approvalsStart

/-- What the runs come to. -/
theorem approval_runs :
    ((initGenesis sampleGenesis).run emptyDatabase).isOk = true ∧
    ((approvableContent "ipfs://a").validate = .ok () ∧
      ((evaluate 0 (fun _ => pure ()) (approvableContent "ipfs://a") : Act 0 Unit).run
        approvalsFirst).isOk = true) ∧
    ((approvableContent "ipfs://b").validate = .ok () ∧
      ((evaluate 0 (fun _ => pure ()) (approvableContent "ipfs://b") : Act 0 Unit).run
        (evaluated (approvableContent "ipfs://a") approvalsFirst)).isOk = true) ∧
    ((evaluate 0 (fun _ => pure ()) (.contentApprove initMinerName "ipfs://a") : Act 0 Unit).run
      approvalsStart).isOk = true ∧
    (approvalsStart.store.get Kind.account 3).map (fun a : Account => a.name) =
      some initMinerName ∧
    (approvedOnce.store.get Kind.account 3).map (fun a : Account => a.name) =
      some initMinerName ∧
    (approvedOnce.store.get Kind.content 1).map (fun c : Content => (c.url, c.disabled)) =
      some ("ipfs://b", false) ∧
    (approvedOnce.store.get Kind.account 2).map (fun a : Account => a.name) =
      some tempAccount := by
  decide +kernel

theorem approvalRun_start : ApprovalRun sampleGenesis [] approvalsStart.store := by
  obtain ⟨hgenesis, ⟨hvalid, hrun⟩, ⟨hvalid', hrun'⟩, _⟩ := approval_runs
  obtain ⟨u, hu⟩ := Outcome.exists_of_isOk hgenesis
  obtain ⟨v, hv⟩ := Outcome.exists_of_isOk hrun
  obtain ⟨w, hw⟩ := Outcome.exists_of_isOk hrun'
  have hother : ∀ url s, besideApproval s (approvableContent url) := fun _ _ _ _ h => nomatch h
  have hfirst : ApprovalRun sampleGenesis [] approvalsFirst.store := .genesis hu
  have hcontent := hfirst.other (.operation 0 0 _ _ hvalid rfl (hother _ _) hv)
  exact hcontent.other (.operation 0 0 _ _ hvalid' rfl (hother _ _) hw)

theorem approvalRun_once :
    ApprovalRun sampleGenesis ([] ++ [(3, "ipfs://a")]) approvedOnce.store := by
  obtain ⟨_, _, _, hrun, haccount, _⟩ := approval_runs
  obtain ⟨u, hu⟩ := Outcome.exists_of_isOk hrun
  obtain ⟨a, ha, hname⟩ := Option.map_eq_some_iff.mp haccount
  exact approvalRun_start.approve 0 0 _ ha hname hu

/-- The account temp can approve the second content, and then there are two approvals. -/
theorem approvals_independent_iff_twice : ∃ (u : Unit) (d' : Database chainSchema),
    (evaluate 0 (fun _ => pure ()) (.contentApprove tempAccount "ipfs://b") : Act 0 Unit).run
      approvedOnce = .ok u d' ∧
    (∀ p : Nat × String, p ∈ [(3, "ipfs://a"), (2, "ipfs://b")] ↔ ∃ k, ∃ b : ContentApprove,
      d'.store.get Kind.contentApprove k = some b ∧ (b.approver, b.content) = p) ∧
    [(3, "ipfs://a"), (2, "ipfs://b")].Nodup := by
  obtain ⟨_, _, _, _, _, _, hcontent, htemp⟩ := approval_runs
  obtain ⟨a, ha, hname⟩ := Option.map_eq_some_iff.mp htemp
  obtain ⟨c, hc, hpair⟩ := Option.map_eq_some_iff.mp hcontent
  obtain ⟨hurl, hopen⟩ := Prod.mk.inj hpair
  have hboth : ∀ p ∈ ([] ++ [(3, "ipfs://a")] : List (Nat × String)),
      p.1 = 2 ∨ p.2 = "ipfs://b" → p = (2, "ipfs://b") := by decide
  obtain ⟨u, d', hr⟩ := (((approvals_independent_iff approvalRun_once).2 0 0 (fun _ => pure ())
    tempAccount "ipfs://b" 2 1 a c ha hname hc hurl hopen).mpr hboth).mpr (by decide)
  obtain ⟨hstored, hnodup⟩ := (approvals_independent_iff (approvalRun_once.approve 0 0 _ ha hname
    hr)).1
  exact ⟨u, d', hr, hstored, hnodup⟩

/-- The init miner cannot approve the second content: the one approval takes up its account. -/
theorem second_approval_refused :
    ApprovalRun sampleGenesis ([] ++ [(3, "ipfs://a")]) approvedOnce.store ∧
      (3, "ipfs://b") ∉ ([] ++ [(3, "ipfs://a")] : List (Nat × String)) ∧
      (∃ a : Account, approvedOnce.store.get Kind.account 3 = some a ∧ a.name = initMinerName) ∧
      (∃ c : Content, approvedOnce.store.get Kind.content 1 = some c ∧ c.url = "ipfs://b" ∧
        c.disabled = false) ∧
      ¬∃ u d', (evaluate 0 (fun _ => pure ()) (.contentApprove initMinerName "ipfs://b") :
        Act 0 Unit).run approvedOnce = .ok u d' := by
  obtain ⟨_, _, _, _, _, haccount, hcontent, _⟩ := approval_runs
  obtain ⟨a, ha, hname⟩ := Option.map_eq_some_iff.mp haccount
  obtain ⟨c, hc, hpair⟩ := Option.map_eq_some_iff.mp hcontent
  obtain ⟨hurl, hopen⟩ := Prod.mk.inj hpair
  have hlog := approvalRun_once.logged
  refine ⟨approvalRun_once, by decide, ⟨a, ha, hname⟩, ⟨c, hc, hurl, hopen⟩, fun hok => ?_⟩
  refine (contentApprove_ok_iff hlog.fresh ha hname hc hurl hopen).mp hok ?_
  exact hlog.taken_iff.mpr ⟨(3, "ipfs://a"), by decide, .inl rfl⟩

end

end MuseChain
