/-
  File:      MuseChain/Safety/Replays.lean
  Subject:   No transaction is applied twice on a chain that starts from the genesis.

  * `Remembers done s`: of the transactions that were applied, each is still in the index of
    transactions or has expired before the time of the head block; and the index holds no others.
    In block 1, where the expiration is not checked, nothing has been forgotten yet.
  * `Node.Chain`: blocks that are applied one after the other with no skip flags.
  * `chain_no_replay`: the ids of all their transactions differ.

  The number of a block could only come back to 0, and with it the exemption of block 1, after
  2^32 blocks; there are fewer, because each has a later time than the one before.
-/
import MuseChain.Safety.Heads

namespace MuseChain

variable {n : Nat}

/-! ## 1. What keeps the place and the index -/

/-- Where the chain is: number, id and time of the head block. -/
structure Place where
  number : Nat
  id : BlockId
  time : Nat

def DynamicGlobalProperty.place (p : DynamicGlobalProperty) : Place :=
  ⟨p.headBlockNumber, p.headBlockId, p.time⟩

/-- Everything but the transactions and the place may change. -/
def placeLicence : Licence chainSchema where
  create
    | .transaction | .dynamicGlobalProperty => fun _ => False
    | _ => fun _ => True
  modify
    | .transaction => fun _ _ _ => False
    | .dynamicGlobalProperty => fun _ p q => p.place = q.place
    | _ => fun _ _ _ => True
  remove
    | .transaction | .dynamicGlobalProperty => fun _ _ => False
    | _ => fun _ _ => True
  spoil
    | .transaction | .dynamicGlobalProperty => False
    | _ => True

def placeLaw : Law chainSchema where
  rel
    | .transaction => fun o q => o = q
    | .dynamicGlobalProperty => fun o q : Option DynamicGlobalProperty =>
        o.map (·.place) = q.map (·.place)
    | _ => fun _ _ => True
  refl := by
    intro k o
    cases k with
    | transaction => rfl
    | dynamicGlobalProperty => rfl
    | _ => trivial
  trans := by
    intro k o p q h h'
    cases k with
    | transaction => exact h.trans h'
    | dynamicGlobalProperty => exact h.trans h'
    | _ => trivial

theorem placeLicence_respects : placeLicence.Respects placeLaw.idLaw where
  create {k i a} h := by
    cases k with
    | transaction => exact h.elim
    | dynamicGlobalProperty => exact h.elim
    | _ => trivial
  modify {k i a b} h := by
    cases k with
    | transaction => exact h.elim
    | dynamicGlobalProperty => exact congrArg some h
    | _ => trivial
  remove {k i a} h := by
    cases k with
    | transaction => exact h.elim
    | dynamicGlobalProperty => exact h.elim
    | _ => trivial
  spoil {k i} h a := by
    cases k with
    | transaction => exact h.elim
    | dynamicGlobalProperty => exact h.elim
    | _ => trivial

theorem placeLaw_reversible (s : Store chainSchema) : Reversible placeLaw.idLaw s := by
  intro k i o h
  cases k with
  | transaction => exact h.symm
  | dynamicGlobalProperty => exact h.symm
  | _ => trivial

theorem opLicence_le_place {ok : Operation → Prop} : (opLicence ok).Le placeLicence where
  create {k a} h := by
    cases k with
    | transaction => cases h
    | dynamicGlobalProperty => cases h
    | _ => trivial
  modify {k i a b} h := by
    cases k with
    | transaction => cases h
    | dynamicGlobalProperty =>
      exact congrArg (fun x : Anchor => (⟨x.head.number, x.head.id, x.time⟩ : Place)) h
    | _ => trivial
  remove {k i a} h := by
    cases k with
    | transaction => cases h
    | dynamicGlobalProperty => cases h
    | _ => trivial
  spoil {k} h := by
    cases k with
    | transaction => cases h
    | dynamicGlobalProperty => cases h
    | _ => trivial

/-- The same transactions and the same place. -/
abbrev SamePlace : Store chainSchema → Store chainSchema → Prop := Obeys placeLaw

theorem Within.samePlace {α : Type} {x : Act n α} (h : Within placeLicence x) :
    Steps SamePlace x := by
  refine ⟨fun {d a d'} hr => ?_⟩
  have ho := h.obeys placeLicence_respects (placeLaw_reversible d.store)
  rw [hr] at ho
  exact ho

theorem within_place_dgp {β : Type} {f : DynamicGlobalProperty → Except Exn β}
    {upd : DynamicGlobalProperty → β → DynamicGlobalProperty}
    (h : ∀ p x, p.place = (upd p x).place) : Within placeLicence (modifyDgp f upd : Act n Unit) :=
  within_modifyWith (.inr rfl) (.inl (.inr rfl)) fun p x _ => h p x

/-- Whatever evaluators do keeps the place. -/
theorem samePlace_of_op {α : Type} {x : Act n α} (h : Within (opLicence fun _ => True) x) :
    Steps SamePlace x := (h.mono opLicence_le_place).samePlace

theorem samePlace_applyOperation [Fc] (clock : Nat) (op : Operation) :
    Steps SamePlace (applyOperation clock n op) := by
  have hc := clockFree_same clock
  exact samePlace_of_op ⟨fun d => (agree_applyOperation hc trivial).acts d fun _ _ _ _ _ => trivial⟩

/-! ## 2. The transactions that were applied -/

section

variable [Fc]

/-- The index holds a transaction with this id. -/
def Seen (s : Store chainSchema) (trx : Transaction) : Prop :=
  ∃ i, ∃ o : TransactionObject, s.get Kind.transaction i = some o ∧ o.trxId = Fc.trxId trx

/-- Of the transactions that were applied, each is in the index or has expired at the place. -/
structure Remembers (done : List Transaction) (pl : Place) (s : Store chainSchema) : Prop where
  head : ∀ p : DynamicGlobalProperty, s.get Kind.dynamicGlobalProperty 0 = some p → p.place = pl
  index : ∀ i (o : TransactionObject), s.get Kind.transaction i = some o →
    o.trx ∈ done ∧ o.trxId = Fc.trxId o.trx
  kept : ∀ trx ∈ done, Seen s trx ∨ (0 < pl.number ∧ trx.expiration < pl.time)
  number : pl.id.num = pl.number ∧ pl.number ≤ pl.time
  nodup : (done.map Fc.trxId).Nodup

/-- The id of a transaction is a hash over its expiration, too. -/
def FixExpiration (l : List Transaction) : Prop :=
  ∀ trx ∈ l, ∀ trx' ∈ l, Fc.trxId trx = Fc.trxId trx' → trx.expiration = trx'.expiration

theorem isKnownTransaction_iff {s : Store chainSchema} {trx : Transaction} :
    isKnownTransaction s (Fc.trxId trx) = true ↔ Seen s trx := by
  unfold isKnownTransaction
  rw [List.any_eq_true]
  constructor
  · rintro ⟨⟨i, o⟩, hmem, ho⟩
    exact ⟨i, o, FMap.mem_rows.mp hmem, of_decide_eq_true ho⟩
  · rintro ⟨i, o, hg, ho⟩
    exact ⟨(i, o), FMap.mem_rows.mpr hg, decide_eq_true ho⟩

omit [Fc] in
/-- The global properties before, at the same place. -/
theorem SamePlace.before {s t : Store chainSchema} (h : SamePlace s t) {q : DynamicGlobalProperty}
    (hq : t.get Kind.dynamicGlobalProperty 0 = some q) :
    ∃ p : DynamicGlobalProperty, s.get Kind.dynamicGlobalProperty 0 = some p ∧
      p.place = q.place := by
  have ho : (s.get Kind.dynamicGlobalProperty 0).map DynamicGlobalProperty.place =
      (t.get Kind.dynamicGlobalProperty 0).map DynamicGlobalProperty.place :=
    h Kind.dynamicGlobalProperty 0
  rw [hq] at ho
  exact Option.map_eq_some_iff.mp ho

theorem Remembers.of_samePlace {done : List Transaction} {pl : Place} {s t : Store chainSchema}
    (h : Remembers done pl s) (hst : SamePlace s t) : Remembers done pl t := by
  have htrx : ∀ i, t.get Kind.transaction i = s.get Kind.transaction i :=
    fun i => (hst Kind.transaction i).symm
  refine ⟨fun q hq => ?_, fun i o hi => h.index i o (htrx i ▸ hi), fun trx hmem => ?_, h.number,
    h.nodup⟩
  · obtain ⟨p, hp, he⟩ := hst.before hq
    rw [← he]
    exact h.head p hp
  · rcases h.kept trx hmem with ⟨i, o, hi, ho⟩ | hold
    · exact .inl ⟨i, o, (htrx i).trans hi, ho⟩
    · exact .inr hold

/-- From block 2 on, a transaction that expired is not applied. -/
theorem checkReference_ok {trx : Transaction} {d d' : Database chainSchema} {u : Unit}
    (h : (checkReference {} trx : Act n Unit).run d = .ok u d') :
    ∃ p : DynamicGlobalProperty, d.store.get Kind.dynamicGlobalProperty 0 = some p ∧
      (0 < p.place.number → p.place.time < trx.expiration) := by
  unfold checkReference at h
  obtain ⟨p, d₁, hp, h1⟩ := Action.bind_ok.mp h
  refine ⟨p, (Action.get_ok.mp hp).1, fun hpos => ?_⟩
  simp only [show 0 < p.headBlockNumber from hpos, if_true, Bool.false_eq_true, if_false] at h1
  obtain ⟨_, d₂, _, h2⟩ := Action.bind_ok.mp h1
  obtain ⟨_, d₃, _, h3⟩ := Action.bind_ok.mp h2
  obtain ⟨_, d₄, _, h4⟩ := Action.bind_ok.mp h3
  exact (Action.require_ok.mp h4).1

/-- What a transaction has passed when it was applied, and what it adds to the index. -/
theorem applyTransaction_ok {clock : Nat} {trx : Transaction} {d d' : Database chainSchema}
    {u : Unit} (h : (applyTransaction clock {} n trx).run d = .ok u d') :
    ¬Seen d.store trx ∧
      (∃ p : DynamicGlobalProperty, d.store.get Kind.dynamicGlobalProperty 0 = some p ∧
        (0 < p.place.number → p.place.time < trx.expiration)) ∧
      ∃ d₁ d₂ i, SamePlace d.store d₁.store ∧
        (Action.create (S := chainSchema) Kind.transaction
          { trxId := Fc.trxId trx, trx := trx : TransactionObject } : Act n Nat).run d₁ = .ok i d₂ ∧
        SamePlace d₂.store d'.store := by
  unfold applyTransaction at h
  simp only [Bool.or_self, Bool.false_eq_true, if_false, false_or] at h
  obtain ⟨_, e1, hvalid, h1⟩ := Action.bind_ok.mp h
  obtain ⟨known, e2, hread, h2⟩ := Action.bind_ok.mp h1
  obtain ⟨_, e3, hnew, h3⟩ := Action.bind_ok.mp h2
  obtain ⟨_, e4, hauth, h4⟩ := Action.bind_ok.mp h3
  obtain ⟨_, d₁, hcharge, h5⟩ := Action.bind_ok.mp h4
  obtain ⟨_, e5, href, h6⟩ := Action.bind_ok.mp h5
  obtain ⟨i, d₂, hcreate, h7⟩ := Action.bind_ok.mp h6
  -- the checks only look
  have hd1 : e1 = d := Looks.of_ok (by simp) hvalid
  have hd2 : e2 = e1 := Looks.of_ok (looks_read _) hread
  have hd3 : e3 = e2 := Looks.of_ok (by simp) hnew
  have hd4 : e4 = e3 := Looks.of_ok (by simp) hauth
  have hd5 : e5 = d₁ := Looks.of_ok (by simp) href
  subst hd5 hd4 hd3 hd2 hd1
  have hplace := (samePlace_of_op (within_chargeBandwidth trx)).step hcharge
  have hops := (steps_forEach fun op => samePlace_applyOperation clock op).step h7
  refine ⟨fun hs => ?_, ?_, _, d₂, i, hplace, hcreate, hops⟩
  · rw [Action.read_ok, isKnownTransaction_iff.mpr hs] at hread
    cases hread
    cases (Action.require_ok.mp hnew).1
  · obtain ⟨q, hq, hexp⟩ := checkReference_ok href
    obtain ⟨p, hp, he⟩ := hplace.before hq
    exact ⟨p, hp, by rw [he]; exact hexp⟩

/-- **A transaction that is applied is none of those before.** -/
theorem Remembers.fresh {done : List Transaction} {pl : Place} {s : Store chainSchema}
    {trx : Transaction} (h : Remembers done pl s) (hid : FixExpiration (done ++ [trx]))
    (hs : ¬Seen s trx) (hexp : 0 < pl.number → pl.time < trx.expiration) :
    Fc.trxId trx ∉ done.map Fc.trxId := by
  intro hmem
  obtain ⟨t, ht, he⟩ := List.mem_map.mp hmem
  rcases h.kept t ht with ⟨i, o, hi, ho⟩ | ⟨hpos, hold⟩
  · exact hs ⟨i, o, hi, ho.trans he⟩
  · have e := hid t (by simp [ht]) trx (by simp) he
    have hlt := hexp hpos
    omega

theorem applyTransaction_remembers {clock : Nat} {trx : Transaction} {done : List Transaction}
    {pl : Place} {d d' : Database chainSchema} {u : Unit}
    (h : (applyTransaction clock {} n trx).run d = .ok u d') (hr : Remembers done pl d.store)
    (hid : FixExpiration (done ++ [trx])) : Remembers (done ++ [trx]) pl d'.store := by
  obtain ⟨hs, ⟨p, hp, hexp⟩, d₁, d₂, i, h1, hcreate, h2⟩ := applyTransaction_ok h
  rw [hr.head p hp] at hexp
  have hfresh := hr.fresh hid hs hexp
  have hr1 := hr.of_samePlace h1
  obtain ⟨hi, hn, hfree, hstore⟩ := create_store hcreate
  have hget : ∀ j, d₂.store.get Kind.transaction j = if j = i then
      some { trxId := Fc.trxId trx, trx := trx : TransactionObject }
      else d₁.store.get Kind.transaction j := by
    intro j
    rw [hstore, Store.get_setNextId, hi]
    exact Store.get_put_self ..
  have hdgp : d₂.store.get Kind.dynamicGlobalProperty 0 =
      d₁.store.get Kind.dynamicGlobalProperty 0 := by
    rw [hstore, Store.get_setNextId]
    exact Store.get_write_ne _ (show Kind.dynamicGlobalProperty ≠ Kind.transaction by decide) ..
  refine Remembers.of_samePlace
    ⟨fun q hq => hr1.head q (hdgp ▸ hq), fun j o hj => ?_, fun t ht => ?_, hr.number, ?_⟩ h2
  · rw [hget] at hj
    split at hj
    · cases hj
      exact ⟨by simp, rfl⟩
    · obtain ⟨hmem, he⟩ := hr1.index j o hj
      exact ⟨by simp [hmem], he⟩
  · rcases List.mem_append.mp ht with ht | ht
    · rcases hr1.kept t ht with ⟨j, o, hj, ho⟩ | hold
      · refine .inl ⟨j, o, ?_, ho⟩
        rw [hget, if_neg, hj]
        rintro rfl
        rw [hn] at hj
        cases hj
      · exact .inr hold
    · rw [List.mem_singleton.mp ht]
      exact .inl ⟨i, _, by rw [hget, if_pos rfl], rfl⟩
  · rw [List.map_append, List.nodup_append]
    refine ⟨hr.nodup, by simp, fun a ha b hb => ?_⟩
    rintro rfl
    rw [List.map_singleton, List.mem_singleton] at hb
    exact hfresh (hb ▸ ha)

/-- The loop over the transactions of a block. -/
theorem applyEach_remembers {clock : Nat} {l done : List Transaction} {pl : Place}
    {d d' : Database chainSchema} {u : Unit}
    (h : (Action.forEach l fun trx => applyTransaction clock {} n trx).run d = .ok u d')
    (hr : Remembers done pl d.store) (hid : FixExpiration (done ++ l)) :
    Remembers (done ++ l) pl d'.store := by
  induction l generalizing d done with
  | nil =>
    cases h
    rw [List.append_nil]
    exact hr
  | cons trx l ih =>
    obtain ⟨_, d₁, h1, h2⟩ := Action.bind_ok.mp h
    have happ : done ++ trx :: l = (done ++ [trx]) ++ l := by simp
    rw [happ] at hid ⊢
    refine ih h2 (applyTransaction_remembers h1 hr fun t ht t' ht' => ?_) hid
    exact hid t (List.mem_append_left _ ht) t' (List.mem_append_left _ ht')

/-! ## 3. Blocks -/

/-- The place of a block. -/
def SignedBlock.place (b : SignedBlock) : Place :=
  ⟨b.blockNum, b.toSignedBlockHeader.id, b.timestamp⟩

/-- The head has moved on to block `b`. -/
structure Moved (b : SignedBlock) (s t : Store chainSchema) : Prop where
  transactions : ∀ i, t.get Kind.transaction i = s.get Kind.transaction i
  head : ∀ q : DynamicGlobalProperty, t.get Kind.dynamicGlobalProperty 0 = some q →
    q.place = b.place

omit [Fc] in
theorem Moved.after [Fc] {b : SignedBlock} {s t u : Store chainSchema} (h : SamePlace s t)
    (h' : Moved b t u) : Moved b s u :=
  ⟨fun i => (h'.transactions i).trans (h Kind.transaction i).symm, h'.head⟩

theorem moved_nextProperties (b : SignedBlock) (missed : Nat) :
    Steps (Moved b)
      (modifyDgp (fun p => .ok (nextProperties b missed p)) fun _ p => p : Act n Unit) := by
  refine ⟨fun {d _ d'} h => ?_⟩
  obtain ⟨p, q, hp, hq, hfree, hstore⟩ := modifyWith_store h
  cases hq
  refine ⟨fun i => ?_, fun q hq => ?_⟩
  · rw [hstore, Store.get_write_ne _ (show Kind.transaction ≠ Kind.dynamicGlobalProperty by decide)]
  · rw [hstore, Store.get_write_self, if_pos rfl] at hq
    cases hq
    rfl

theorem moved_updateGlobalDynamicData (b : SignedBlock) :
    Steps (Moved b) (updateGlobalDynamicData {} b : Act n Unit) := by
  have htail : ∀ missed, Steps (Moved b) (do
      Action.forEach (List.range missed) fun i => countMissed b i
      modifyDgp (fun p => .ok (nextProperties b missed p)) fun _ p => p
      let p ← getDynamicGlobalProperties
      Action.require (sub32 p.headBlockNumber p.lastIrreversibleBlockNum < maxUndoHistory)
        "Please add a checkpoint if you would like to continue applying blocks beyond this point."
      : Act n Unit) := by
    intro missed
    have hcount : Steps SamePlace
        (Action.forEach (List.range missed) fun i => countMissed b i : Act n Unit) :=
      steps_forEach fun i => samePlace_of_op (within_countMissed b i)
    refine hcount.comp (fun _ => ?_) fun _ _ _ => Moved.after
    refine ⟨fun {d _ d'} h => ?_⟩
    obtain ⟨_, d₁, h1, h2⟩ := Action.bind_ok.mp h
    rw [Looks.of_ok (by simp) h2]
    exact (moved_nextProperties b missed).step h1
  unfold updateGlobalDynamicData
  refine Looks.steps_bind (by simp) fun now => steps_ite (fun _ => ?_) fun _ => ?_
  · exact Looks.steps_bind (by simp) fun slot => Looks.steps_bind (looks_pure _) htail
  · exact Looks.steps_bind (looks_pure _) htail

/-- Nothing is forgotten when the head moves on. -/
theorem Remembers.moved {done : List Transaction} {pl : Place} {s t : Store chainSchema}
    {b : SignedBlock} (h : Remembers done pl s) (hm : Moved b s t) (hprev : pl.id = b.previous)
    (htime : pl.time < b.timestamp) (hb : b.timestamp < 2 ^ 32) :
    0 < b.place.number ∧ Remembers done b.place t := by
  obtain ⟨hnum, hle⟩ := h.number
  have hlt : b.previous.num + 1 < 2 ^ 32 := by
    rw [← hprev, hnum]
    omega
  have hblock : b.place.number = pl.number + 1 := by
    show u32 (b.previous.num + 1) = _
    rw [← hnum, hprev]
    exact Nat.mod_eq_of_lt hlt
  have hlater : pl.time < b.place.time := htime
  refine ⟨by omega, hm.head, fun i o hi => h.index i o (hm.transactions i ▸ hi), fun trx ht => ?_,
    ⟨rfl, by omega⟩, h.nodup⟩
  rcases h.kept trx ht with ⟨i, o, hi, ho⟩ | ⟨_, hold⟩
  · exact .inl ⟨i, o, (hm.transactions i).trans hi, ho⟩
  · exact .inr ⟨by omega, by omega⟩

/-- Only transactions that expired before `now` leave the index. -/
structure Cleared (now : Nat) (s t : Store chainSchema) : Prop where
  left : ∀ i (o : TransactionObject), t.get Kind.transaction i = some o →
    s.get Kind.transaction i = some o
  gone : ∀ i (o : TransactionObject), s.get Kind.transaction i = some o →
    t.get Kind.transaction i = some o ∨ o.trx.expiration < now
  props : t.get Kind.dynamicGlobalProperty 0 = s.get Kind.dynamicGlobalProperty 0

omit [Fc] in
theorem cleared_removeEach {now : Nat} {l : List (Nat × TransactionObject)}
    {d d' : Database chainSchema} {u : Unit}
    (h : (Action.forEach l fun t => Action.remove (S := chainSchema) Kind.transaction t.1 :
      Act n Unit).run d = .ok u d')
    (hl : ∀ t ∈ l, ∀ o : TransactionObject, d.store.get Kind.transaction t.1 = some o →
      o.trx.expiration < now) : Cleared now d.store d'.store := by
  induction l generalizing d with
  | nil =>
    cases h
    exact ⟨fun _ _ h => h, fun _ _ h => .inl h, rfl⟩
  | cons t l ih =>
    obtain ⟨_, d₁, h1, h2⟩ := Action.bind_ok.mp h
    obtain ⟨o, ho, hstore⟩ := remove_store h1
    have hget : ∀ j, d₁.store.get Kind.transaction j =
        if j = t.1 then none else d.store.get Kind.transaction j := fun j => by
      rw [hstore, Store.get_erase_self]
    have hold : ∀ j (q : TransactionObject), d₁.store.get Kind.transaction j = some q →
        d.store.get Kind.transaction j = some q := by
      intro j q hq
      rw [hget] at hq
      split at hq
      · cases hq
      · exact hq
    have hrest := ih h2 fun t' ht' q hq => hl t' (List.mem_cons_of_mem _ ht') q (hold _ q hq)
    refine ⟨fun j q hq => hold j q (hrest.left j q hq), fun j q hq => ?_, ?_⟩
    · by_cases hj : j = t.1
      · subst hj
        exact .inr (hl t List.mem_cons_self q hq)
      · refine hrest.gone j q ?_
        rw [hget, if_neg hj]
        exact hq
    · rw [hrest.props, hstore]
      exact Store.get_erase_ne _ (show Kind.dynamicGlobalProperty ≠ Kind.transaction by decide) ..

omit [Fc] in
theorem clearExpiredTransactions_ok {d d' : Database chainSchema} {u : Unit}
    (h : (clearExpiredTransactions : Act n Unit).run d = .ok u d') :
    ∃ p : DynamicGlobalProperty, d.store.get Kind.dynamicGlobalProperty 0 = some p ∧
      Cleared p.time d.store d'.store := by
  unfold clearExpiredTransactions headBlockTime at h
  obtain ⟨now, e1, hnow, h1⟩ := Action.bind_ok.mp h
  obtain ⟨p, e2, hp, hpure⟩ := Action.bind_ok.mp hnow
  obtain ⟨hp, rfl⟩ := Action.get_ok.mp hp
  cases hpure
  obtain ⟨due, e3, hdue, h2⟩ := Action.bind_ok.mp h1
  cases hdue
  refine ⟨p, hp, cleared_removeEach h2 fun t ht o ho => ?_⟩
  have hrow := (List.mem_filter.mp ((List.perm_insertionSort _ _).mem_iff.mp ht))
  have hsame : t.2 = o := Option.some.inj ((FMap.mem_rows.mp hrow.1).symm.trans ho)
  rw [← hsame]
  exact of_decide_eq_true hrow.2

theorem Remembers.cleared {done : List Transaction} {pl : Place} {s t : Store chainSchema}
    (h : Remembers done pl s) (hid : FixExpiration done) (hpos : 0 < pl.number)
    (hc : Cleared pl.time s t) : Remembers done pl t := by
  refine ⟨fun q hq => h.head q (hc.props ▸ hq), fun i o hi => h.index i o (hc.left i o hi),
    fun trx ht => ?_, h.number, h.nodup⟩
  rcases h.kept trx ht with ⟨i, o, hi, ho⟩ | hold
  · rcases hc.gone i o hi with hkeep | hexp
    · exact .inl ⟨i, o, hkeep, ho⟩
    · obtain ⟨hmem, he⟩ := h.index i o hi
      have e := hid o.trx hmem trx ht (he.symm.trans ho)
      exact .inr ⟨hpos, e ▸ hexp⟩
  · exact .inr hold

theorem applyBlockFirst_remembers {clock : Nat} {b : SignedBlock} {done : List Transaction}
    {pl : Place} {d d' : Database chainSchema} {wit : Nat}
    (h : (applyBlockFirst clock {} n b).run d = .ok wit d') (hr : Remembers done pl d.store)
    (hid : FixExpiration (done ++ b.transactions)) (hb : b.timestamp < 2 ^ 32) :
    0 < b.place.number ∧ Remembers (done ++ b.transactions) b.place d'.store := by
  unfold applyBlockFirst at h
  obtain ⟨_, e1, hmerkle, h1⟩ := Action.bind_ok.mp h
  obtain ⟨_, e2, hheader, h2⟩ := Action.bind_ok.mp h1
  obtain ⟨_, e3, hprops, h3⟩ := Action.bind_ok.mp h2
  obtain ⟨_, e4, hsize, h4⟩ := Action.bind_ok.mp h3
  obtain ⟨_, d₁, hwitness, h5⟩ := Action.bind_ok.mp h4
  obtain ⟨_, d₂, hext, h6⟩ := Action.bind_ok.mp h5
  obtain ⟨_, e5, hw, h7⟩ := Action.bind_ok.mp h6
  obtain ⟨_, e6, hh, h8⟩ := Action.bind_ok.mp h7
  obtain ⟨_, e7, hversion, h9⟩ := Action.bind_ok.mp h8
  obtain ⟨_, d₃, happly, h10⟩ := Action.bind_ok.mp h9
  obtain ⟨_, d₄, hupdate, hpure⟩ := Action.bind_ok.mp h10
  cases hpure
  have hd1 : e1 = d := Looks.of_ok (by simp) hmerkle
  have hd2 : e2 = e1 := Looks.of_ok (by simp) hheader
  have hd3 : e3 = e2 := Looks.of_ok (by simp) hprops
  have hd4 : e4 = e3 := Looks.of_ok (by simp) hsize
  have hd5 : e5 = d₂ := Looks.of_ok (by simp) hw
  have hd6 : e6 = e5 := Looks.of_ok (by simp) hh
  have hd7 : e7 = e6 := Looks.of_ok (by simp) hversion
  subst hd7 hd6 hd5 hd4 hd3 hd2 hd1
  obtain ⟨p, hp, hprev, htime⟩ := validateBlockHeader_links hheader
  have hplace := hr.head p hp
  have hprev : pl.id = b.previous := (congrArg Place.id hplace).symm.trans hprev
  have htime : pl.time < b.timestamp := (congrArg Place.time hplace) ▸ htime
  have hr1 := hr.of_samePlace
    ((within_place_dgp (by intro p _; rfl)).samePlace.step hwitness)
  have hr2 := hr1.of_samePlace ((samePlace_of_op (within_processHeaderExtensions b)).step hext)
  have hr3 := applyEach_remembers happly hr2 hid
  exact hr3.moved ((moved_updateGlobalDynamicData b).step hupdate) hprev htime hb

/-- The steps after the expired transactions. -/
theorem samePlace_afterClearing (clock : Nat) :
    Steps SamePlace (do
      clearExpiredProposals clock n
      clearExpiredOrders
      updateWitnessSchedule
      updateMedianFeed
      updateVirtualSupply
      payBlock
      updateVirtualSupply
      accountRecoveryProcessing
      processHardforks : Act n Unit) := by
  have hc := clockFree_same clock
  have hproposals : Within (opLicence fun _ => True) (clearExpiredProposals clock n) :=
    ⟨fun d => (agree_clearExpiredProposals (opLicence_keeps _) (agree_pushProposal hc n)).acts d fun _ _ _ _ _ => trivial⟩
  refine samePlace_of_op (within_bind hproposals fun _ => within_bind within_clearExpiredOrders
    fun _ => within_bind within_updateWitnessSchedule fun _ => ?_)
  refine within_bind within_updateMedianFeed fun _ => within_bind within_updateVirtualSupply
    fun _ => within_bind within_payBlock fun _ => ?_
  exact within_bind within_updateVirtualSupply fun _ => within_bind
    within_accountRecoveryProcessing fun _ => within_processHardforks

theorem applyBlockRest_remembers {clock wit : Nat} {b : SignedBlock} {done : List Transaction}
    {pl : Place} {d d' : Database chainSchema} {u : Unit}
    (h : (applyBlockRest clock n wit b).run d = .ok u d') (hr : Remembers done pl d.store)
    (hid : FixExpiration done) (hpos : 0 < pl.number) : Remembers done pl d'.store := by
  unfold applyBlockRest at h
  obtain ⟨_, d₁, h1, hrest⟩ := Action.bind_ok.mp h
  obtain ⟨_, d₂, h2, hrest⟩ := Action.bind_ok.mp hrest
  obtain ⟨_, d₃, h3, hrest⟩ := Action.bind_ok.mp hrest
  obtain ⟨_, d₄, h4, hrest⟩ := Action.bind_ok.mp hrest
  have hsigning : Within placeLicence (updateSigningWitness wit b : Act n Unit) :=
    within_updateSigningWitness trivial (fun _ _ _ => trivial) wit b
  have hr1 := hr.of_samePlace (hsigning.samePlace.step h1)
  have hlib : Within placeLicence (updateLastIrreversibleBlock : Act n Unit) :=
    within_updateLastIrreversibleBlock fun _ => within_place_dgp fun _ _ => rfl
  have hsummary : Within placeLicence (createBlockSummary b : Act n Unit) :=
    within_modify (.inl trivial) fun _ => trivial
  have hr2 := hr1.of_samePlace (hlib.samePlace.step h2)
  have hr3 := hr2.of_samePlace (hsummary.samePlace.step h3)
  obtain ⟨p, hp, hcleared⟩ := clearExpiredTransactions_ok h4
  have htime : p.time = pl.time := congrArg Place.time (hr3.head p hp)
  rw [htime] at hcleared
  exact (hr3.cleared hid hpos hcleared).of_samePlace ((samePlace_afterClearing clock).step hrest)

/-! ## 4. The genesis -/

/-- Nothing was applied at the genesis. -/
theorem genesis_remembers (g : GenesisState) :
    ∃ pl, Remembers [] pl (Node.genesis g).db.store := by
  obtain ⟨hindex, hhead, _, _⟩ := genesis_start g
  generalize (Node.genesis g).db.store = s at hindex hhead ⊢
  have hnumber : s.props.place.number = 0 := congrArg Head.number hhead
  have hid : s.props.place.id.num = 0 := congrArg (fun x : Head => x.id.num) hhead
  refine ⟨s.props.place, fun p hp => by rw [Store.props_of_get hp],
    fun i o hi => ?_, List.forall_mem_nil _, ⟨by omega, by omega⟩, List.nodup_nil⟩
  rw [hindex i] at hi
  cases hi

/-! ## 5. Chains -/

/-- Blocks that are applied one after the other, each in its session, with no skip flags and no
checkpoints. Between two blocks the node may do whatever leaves the objects as they are: it may
have undone pending transactions, or popped the blocks of a fork. -/
inductive Node.Chain (m : Node) : List SignedBlock → Node → Prop
  | nil : Chain m [] m
  | snoc {bs : List SignedBlock} {m₁ m₂ m₃ : Node} {b : SignedBlock} {id : BlockId}
      (clock depth : Nat) : Chain m bs m₁ → m₂.db.store = m₁.db.store → m₂.checkpoints = [] →
      Node.applyInSession clock depth {} m₂ b id = .ok () m₃ → Chain m (bs ++ [b]) m₃

/-- The transactions of a chain. -/
def transactionsOf (bs : List SignedBlock) : List Transaction := bs.flatMap (·.transactions)

theorem applyInSession_remembers {clock depth : Nat} {m m' : Node} {b : SignedBlock} {id : BlockId}
    {done : List Transaction} {pl : Place} {u : Unit}
    (h : Node.applyInSession clock depth {} m b id = .ok u m') (hcp : m.checkpoints = [])
    (hr : Remembers done pl m.db.store) (hid : FixExpiration (done ++ b.transactions))
    (hb : b.timestamp < 2 ^ 32) :
    Remembers (done ++ b.transactions) b.place m'.db.store := by
  obtain ⟨skip, wit, d, d', hskip, hfirst, hrest, rfl⟩ := Node.applyInSession_ok h
  obtain rfl : skip = {} :=
    Except.ok.inj (hskip.symm.trans (Node.checkpointSkip_of_nil {} b hcp))
  rw [← startUndoSession_store m.db false] at hr
  obtain ⟨hpos, hr1⟩ := applyBlockFirst_remembers hfirst hr hid hb
  have hsized : Remembers (done ++ b.transactions) b.place
      (Node.setMaxSizes { m with db := d }).db.store := hr1
  have hend : Remembers (done ++ b.transactions) b.place d'.store :=
    applyBlockRest_remembers hrest hsized hid hpos
  exact hend

/-- **The ids of all transactions of a chain differ, if no two of them have the same id and
different expirations.** -/
theorem chain_no_replay {g : GenesisState} {bs : List SignedBlock} {m : Node}
    (h : Node.Chain (Node.genesis g) bs m) (hid : FixExpiration (transactionsOf bs))
    (hb : ∀ b ∈ bs, b.timestamp < 2 ^ 32) : ((transactionsOf bs).map Fc.trxId).Nodup := by
  suffices hr : ∃ pl, Remembers (transactionsOf bs) pl m.db.store by
    obtain ⟨pl, hr⟩ := hr
    exact hr.nodup
  induction h with
  | nil => exact genesis_remembers g
  | @snoc bs m₁ m₂ m₃ b id clock depth _ hstore hcp happly ih =>
    have hsplit : transactionsOf (bs ++ [b]) = transactionsOf bs ++ b.transactions := by
      simp [transactionsOf]
    rw [hsplit] at hid ⊢
    obtain ⟨pl, hr⟩ := ih (fun t ht t' ht' => hid t (List.mem_append_left _ ht) t'
      (List.mem_append_left _ ht')) fun c hc => hb c (List.mem_append_left _ hc)
    rw [← hstore] at hr
    exact ⟨b.place, applyInSession_remembers happly hcp hr hid (hb b (by simp))⟩

end

section

attribute [local instance] sampleFc

/-- A block with transfers by the init miner; each expires at one of the times. -/
def transferBlock (previous : BlockId) (slot : Nat) (expirations : List Nat) : SignedBlock :=
  let l := expirations.map fun t => ⟨previous.num, previous.hash, t,
    [.transfer initMinerName nullAccount (Asset.muse 1) ""], [7]⟩
  let b : SignedBlock := ⟨sampleHeader previous slot, l⟩
  ⟨{ b.toSignedBlockHeader with transactionMerkleRoot := b.calculateMerkleRoot }, l⟩

/-- Two blocks with transfers. -/
def transferChain : SignedBlock × SignedBlock :=
  let b := transferBlock ⟨0, 0⟩ 1 [genesisTime + 60]
  (b, transferBlock b.toSignedBlockHeader.id 2 [genesisTime + 61, genesisTime + 62])

theorem chain_no_replay_transfers :
    ∃ m, Node.Chain (Node.genesis sampleGenesis) [transferChain.1, transferChain.2] m ∧
      ((transactionsOf [transferChain.1, transferChain.2]).map Fc.trxId).Nodup := by
  obtain ⟨m₁, h1⟩ := Reply.exists_of_isOk (r := Node.applyInSession 0 0 {}
    (Node.genesis sampleGenesis) transferChain.1 ⟨0, 0⟩) (by decide +kernel)
  have hm1 : m₁ = (Node.applyInSession 0 0 {} (Node.genesis sampleGenesis) transferChain.1
    ⟨0, 0⟩).node := by
    rw [h1]
    rfl
  obtain ⟨m₂, h2⟩ := Reply.exists_of_isOk (r := Node.applyInSession 0 0 {} m₁ transferChain.2
    ⟨0, 0⟩) (by rw [hm1]; decide +kernel)
  have hchain : Node.Chain (Node.genesis sampleGenesis) ([] ++ [transferChain.1] ++
      [transferChain.2]) m₂ :=
    .snoc 0 0 (.snoc 0 0 .nil rfl rfl h1) rfl (by rw [hm1]; decide +kernel) h2
  refine ⟨m₂, hchain, chain_no_replay hchain (fun t _ t' _ h => h) (by decide)⟩

end

end MuseChain
