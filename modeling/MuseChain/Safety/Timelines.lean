/-
  File:      MuseChain/Safety/Timelines.lean
  Subject:   The runs of the chain with what happened in them, block by block.

  * `Event`: an operation that is evaluated, or a routine. `Passes m e m'`: the event `e` leads from
    the moment `m` to `m'`. A moment knows what the block that is applied still has to do, so that
    the order inside of a block is that of `_apply_block`.
  * `Timeline g past m`: from the genesis `g` the events `past`, newest first, led to `m`; each
    stands with the objects before it.
  * `Path.applyTransaction`, `Path.applyBlock`: what the code does is such a path.
  * `Timeline.reached`: the order forgotten, it is a run of small steps.

  Attempts that failed are no events: they are taken back, unless a callback of `modify` threw in
  them (Attempts.lean).
-/
import MuseChain.Safety.ChainRuns
import MuseChain.Safety.Heads

namespace MuseChain

variable {n : Nat}

/-! ## 1. Events -/

inductive Event where
  | operation (op : Operation)
  | routine (r : Routine)

namespace Event

/-- What may happen in a transaction or in a proposal, or before a block is the head. -/
def loose : Event → Bool
  | operation _ => true
  | routine r => r.loose

/-- The event turns the objects `s` into `t`. -/
inductive Does [Fc] : Event → Store chainSchema → Store chainSchema → Prop
  | operation {d d' : Database chainSchema} {u : Unit} {op : Operation} (clock n : Nat)
      (push : Nat → Act n Unit) : op.validate = .ok () → op.approves = false →
      (evaluate clock push op).run d = .ok u d' → Does (operation op) d.store d'.store
  | routine {d d' : Database chainSchema} {u : Unit} {r : Routine} (n : Nat) :
      (r.act : Act n Unit).run d = .ok u d' → Does (routine r) d.store d'.store

theorem Does.chainStep [Fc] {e : Event} {s t : Store chainSchema} (h : e.Does s t) :
    ChainStep (fun _ _ => True) s t := by
  cases h with
  | operation clock n push hv ha hr => exact .operation clock n push _ hv ha trivial hr
  | routine n hr => exact .routine n _ hr

end Event

/-- What is done in `_apply_block` after the block became the head, but for the expired proposals,
which have their turn before the expired orders. -/
def Routine.afterHead (wit : Nat) (b : SignedBlock) : List Routine :=
  [.signingWitness wit b, .lastIrreversibleBlock, .blockSummary b, .expiredTransactions,
    .expiredOrders, .witnessSchedule, .medianFeed, .virtualSupply, .pay, .virtualSupply,
    .accountRecovery, .hardforks]

/-- The objects, and what the block that is applied has left to do. -/
structure Moment where
  store : Store chainSchema
  left : List Routine

/-- Transactions have their turn, or the expired proposals of a block. -/
def Moment.Open (m : Moment) : Prop := m.left = [] ∨ m.left.head? = some .expiredOrders

inductive Passes [Fc] : Moment → Event → Moment → Prop
  | loose {m : Moment} {t : Store chainSchema} {e : Event} : m.Open → e.loose = true →
      e.Does m.store t → Passes m e ⟨t, m.left⟩
  | head {s t : Store chainSchema} {p : DynamicGlobalProperty} {skip : Skip} {b : SignedBlock}
      (wit : Nat) : s.get Kind.dynamicGlobalProperty 0 = some p → p.headBlockId = b.previous →
      p.time < b.timestamp → b.timestamp < 2 ^ 32 →
      (Event.routine (.globalDynamicData skip b)).Does s t →
      Passes ⟨s, []⟩ (.routine (.globalDynamicData skip b)) ⟨t, Routine.afterHead wit b⟩
  | duty {s t : Store chainSchema} {r : Routine} {rest : List Routine} :
      (Event.routine r).Does s t → Passes ⟨s, r :: rest⟩ (.routine r) ⟨t, rest⟩

/-- What happened, newest first, each with the objects before it. -/
abbrev Past := List (Store chainSchema × Event)

inductive Path [Fc] (m : Moment) : Past → Moment → Prop
  | nil : Path m [] m
  | snoc {past : Past} {m₁ m₂ : Moment} {e : Event} : Path m past m₁ → Passes m₁ e m₂ →
      Path m ((m₁.store, e) :: past) m₂

/-- From the genesis `g` the past led to `m`. -/
inductive Timeline [Fc] (g : GenesisState) : Past → Moment → Prop
  | start {u : Unit} {d : Database chainSchema} :
      (initGenesis g).run emptyDatabase = .ok u d →
      Timeline g [] ⟨d.store, []⟩
  | step {past : Past} {m m' : Moment} {e : Event} : Timeline g past m → Passes m e m' →
      Timeline g ((m.store, e) :: past) m'

section

variable [Fc] {g : GenesisState} {past l : Past} {m m' m'' : Moment} {e : Event}

theorem Passes.does (h : Passes m e m') : e.Does m.store m'.store := by
  cases h with
  | loose _ _ h => exact h
  | head _ _ _ _ _ h => exact h
  | duty h => exact h

/-! ## 2. Runs without the order -/

theorem Path.chained (h : Path m past m') : Chained (fun _ _ => True) m.store m'.store := by
  induction h with
  | nil => exact .refl
  | snoc _ hp ih => exact ih.tail hp.does.chainStep

/-- **Every moment is reached from the genesis.** -/
theorem Timeline.reached (h : Timeline g past m) : Reached (fun _ _ => True) g m.store := by
  induction h with
  | start hg => exact ⟨_, _, hg, .refl⟩
  | step _ hp ih =>
    obtain ⟨u, d, hg, hrun⟩ := ih
    exact ⟨u, d, hg, hrun.tail hp.does.chainStep⟩

theorem Path.trans (h : Path m past m') (h' : Path m' l m'') : Path m (l ++ past) m'' := by
  induction h' with
  | nil => exact h
  | snoc _ hp ih => exact .snoc ih hp

theorem Timeline.append (h : Timeline g past m) (h' : Path m l m') :
    Timeline g (l ++ past) m' := by
  induction h' with
  | nil => exact h
  | snoc _ hp ih => exact .step ih hp

/-! ## 3. What the code does is a path -/

/-- From stored proposals that are valid, a path leads to the new objects at an open moment. -/
def Idles (left : List Routine) (s t : Store chainSchema) : Prop :=
  Proper s → (Moment.mk s left).Open → ∃ l, Path ⟨s, left⟩ l ⟨t, left⟩

variable {left : List Routine}

instance : IsPreorder (Store chainSchema) (Idles left) where
  refl _ _ _ := ⟨[], .nil⟩
  trans _ _ _ h h' hs ho := by
    obtain ⟨l, hl⟩ := h hs ho
    obtain ⟨l', hl'⟩ := h' (hl.chained.proper hs) ho
    exact ⟨_, hl.trans hl'⟩

theorem carries_idles (left : List Routine) : Carries (Idles left) where
  operation clock push _ hv ha :=
    ⟨fun hr _ ho => ⟨_, .snoc .nil (.loose ho rfl (.operation clock _ push hv ha hr))⟩⟩
  routine {n r} hr :=
    ⟨fun h _ ho => ⟨_, .snoc .nil (.loose (e := .routine r) ho hr (.routine n h))⟩⟩
  proper h hs ho := h hs hs ho

/-- **A transaction is a path.** -/
theorem Path.applyTransaction {clock n : Nat} {skip : Skip} {trx : Transaction}
    {d d' : Database chainSchema} {u : Unit}
    (hr : (applyTransaction clock skip n trx).run d = .ok u d') (hskip : skip.validate = false)
    (hs : Proper d.store) (hf : d.store.Fresh) (hb : d'.broken = false) (hn : n ≤ d.maxSize) :
    ∃ l, Path ⟨d.store, []⟩ l ⟨d'.store, []⟩ :=
  ((carries_idles []).applyTransaction clock n hskip trx).step hr hb hn hf hs (.inl rfl)

/-- The block `b` may come next. -/
def Linked (b : SignedBlock) (s : Store chainSchema) : Prop :=
  ∃ p : DynamicGlobalProperty, s.get Kind.dynamicGlobalProperty 0 = some p ∧
    p.headBlockId = b.previous ∧ p.time < b.timestamp

omit [Fc] in
theorem Linked.of_sameHead {b : SignedBlock} {s t : Store chainSchema} (h : Linked b s)
    (hst : SameHead s t) : Linked b t := by
  obtain ⟨p, hp, hid, htime⟩ := h
  have ha := hst.anchor
  rw [hp] at ha
  obtain ⟨q, hq, hqe⟩ := Option.map_eq_some_iff.mp ha.symm
  have h1 : q.headBlockId = p.headBlockId := congrArg (fun a : Anchor => a.head.id) hqe
  have h2 : q.time = p.time := congrArg (fun a : Anchor => a.time) hqe
  exact ⟨q, hq, h1.trans hid, h2 ▸ htime⟩

/-- A path to the moment when the block `b` has become the head. -/
def Heads (b : SignedBlock) (s t : Store chainSchema) : Prop :=
  Proper s → Linked b s → ∀ wit, ∃ l, Path ⟨s, []⟩ l ⟨t, Routine.afterHead wit b⟩

theorem Heads.after {b : SignedBlock} {s t u : Store chainSchema}
    (h : Idles [] s t ∧ SameHead s t) (h' : Heads b t u) : Heads b s u := by
  intro hs hb wit
  obtain ⟨l, hl⟩ := h.1 hs (.inl rfl)
  obtain ⟨l', hl'⟩ := h' (hl.chained.proper hs) (hb.of_sameHead h.2) wit
  exact ⟨_, hl.trans hl'⟩

theorem heads_applyBlockFirst (clock n : Nat) {skip : Skip} (hskip : skip.validate = false)
    {b : SignedBlock} (ht : b.timestamp < 2 ^ 32) :
    Runs (Heads b) (applyBlockFirst clock skip n b) := by
  have hR := carries_idles []
  have hwitness : Steps (Idles []) (Routine.act (.currentWitness b) : Act n Unit) := hR.routine rfl
  have hext : Steps (Idles []) (Routine.act (.headerExtensions b) : Act n Unit) := hR.routine rfl
  have htrxs : Runs (Idles []) (Action.forEach b.transactions fun trx =>
      MuseChain.applyTransaction clock skip n trx) :=
    .forEach fun trx _ => hR.applyTransaction clock n hskip trx
  have hsame1 : Steps SameHead (Routine.act (.currentWitness b) : Act n Unit) :=
    ⟨(within_head_dgp (by intro p _; rfl)).sameHead_ok⟩
  have hsame2 : Steps SameHead (Routine.act (.headerExtensions b) : Act n Unit) :=
    ⟨(within_head (within_processHeaderExtensions b)).sameHead_ok⟩
  have hsame3 : Steps SameHead (Action.forEach b.transactions fun trx =>
      MuseChain.applyTransaction clock skip n trx) :=
    ⟨(within_forEach fun trx => within_head_applyTransaction clock skip trx).sameHead_ok⟩
  unfold applyBlockFirst
  refine (looks_require _ _).runs_bind fun _ => ?_
  refine Looks.runs_bind (by simp) fun wit => ?_
  refine Looks.runs_bind (by simp) fun p => ?_
  refine (looks_require _ _).runs_bind fun _ => ?_
  refine (hwitness.runs.and hsame1).comp (fun _ => ?_) fun _ _ _ => Heads.after
  refine (hext.runs.and hsame2).comp (fun _ => ?_) fun _ _ _ => Heads.after
  refine Looks.runs_bind (by simp) fun w => ?_
  refine Looks.runs_bind (by simp) fun h => ?_
  refine (looks_require _ _).runs_bind fun _ => ?_
  refine (htrxs.and hsame3).comp (fun _ => ?_) fun _ _ _ => Heads.after
  refine ⟨fun {d _ d'} hr _ _ _ _ hb wit => ?_⟩
  obtain ⟨_, d₁, hr, hpure⟩ := Action.bind_ok.mp hr
  cases hpure
  obtain ⟨p, hp, hid, htime⟩ := hb
  exact ⟨_, .snoc .nil (.head wit hp hid htime ht (.routine n hr))⟩

/-- A path to the end of the block. -/
def Ends (left : List Routine) (s t : Store chainSchema) : Prop :=
  Proper s → ∃ l, Path ⟨s, left⟩ l ⟨t, []⟩

/-- What is next in a block is done. -/
theorem ends_bind {r : Routine} {rest : List Routine} {f : Unit → Act n Unit}
    (h : ∀ u, Runs (Ends rest) (f u)) :
    Runs (Ends (r :: rest)) ((r.act : Act n Unit) >>= f) := by
  have hr : Steps (fun s t => Path ⟨s, r :: rest⟩ [(s, .routine r)] ⟨t, rest⟩)
      (r.act : Act n Unit) := ⟨fun hr => .snoc .nil (.duty (.routine n hr))⟩
  refine hr.runs.comp h fun s t u h1 h2 hs => ?_
  obtain ⟨l, hl⟩ := h2 (h1.chained.proper hs)
  exact ⟨_, h1.trans hl⟩

/-- What happens meanwhile. -/
theorem ends_meanwhile {x : Act n Unit} {f : Unit → Act n Unit} (hx : Runs (Idles left) x)
    (ho : ∀ s, (Moment.mk s left).Open) (hf : ∀ u, Runs (Ends left) (f u)) :
    Runs (Ends left) (x >>= f) := by
  refine hx.comp hf fun s t u h1 h2 hs => ?_
  obtain ⟨l, hl⟩ := h1 hs (ho s)
  obtain ⟨l', hl'⟩ := h2 (hl.chained.proper hs)
  exact ⟨_, hl.trans hl'⟩

theorem ends_applyBlockRest (clock n signingWitness : Nat) (b : SignedBlock) :
    Runs (Ends (Routine.afterHead signingWitness b))
      (applyBlockRest clock n signingWitness b) := by
  unfold applyBlockRest Routine.afterHead
  refine ends_bind (r := .signingWitness signingWitness b) fun _ => ?_
  refine ends_bind (r := .lastIrreversibleBlock) fun _ => ?_
  refine ends_bind (r := .blockSummary b) fun _ => ends_bind (r := .expiredTransactions) fun _ => ?_
  refine ends_meanwhile ((carries_idles _).clearExpiredProposals clock n) (fun _ => .inr rfl)
    fun _ => ?_
  refine ends_bind (r := .expiredOrders) fun _ => ends_bind (r := .witnessSchedule) fun _ => ?_
  refine ends_bind (r := .medianFeed) fun _ => ends_bind (r := .virtualSupply) fun _ => ?_
  refine ends_bind (r := .pay) fun _ => ends_bind (r := .virtualSupply) fun _ => ?_
  refine ends_bind (r := .accountRecovery) fun _ => ?_
  exact ⟨fun hr _ _ _ _ => ⟨_, .snoc .nil (.duty (.routine n hr))⟩⟩

/-- **The two halves of a block are a path**, when no container dropped an object and the undo
stack has room for the proposals that execute in each other. Between the halves only the max size
changes. -/
theorem Path.applyBlock {clock depth signingWitness size : Nat} {skip : Skip} {b : SignedBlock}
    {d d₁ d₂ : Database chainSchema} {u : Unit}
    (hfirst : (applyBlockFirst clock skip depth b).run d = .ok signingWitness d₁)
    (hrest : (applyBlockRest clock depth signingWitness b).run { d₁ with maxSize := size } =
      .ok u d₂)
    (hskip : skip.validate = false) (ht : b.timestamp < 2 ^ 32) (hs : Proper d.store)
    (hf : d.store.Fresh) (hb : d₂.broken = false) (hn : depth ≤ d.maxSize) (hn' : depth ≤ size) :
    ∃ l, Path ⟨d.store, []⟩ l ⟨d₂.store, []⟩ := by
  have hrestHolds := (applyBlockRest clock depth signingWitness b).holds { d₁ with maxSize := size }
  rw [hrest, Outcome.db_ok] at hrestHolds
  have hb1 : d₁.broken = false := (hrestHolds hb).1
  have hfirstHolds := (applyBlockFirst clock skip depth b).holds d
  rw [hfirst, Outcome.db_ok] at hfirstHolds
  have hf1 : d₁.store.Fresh := ((hfirstHolds hb1).2.2 hn hf).fresh
  obtain ⟨_, hlinked⟩ := applyBlockFirst_moved hfirst
  obtain ⟨l, hl⟩ := (heads_applyBlockFirst clock depth hskip ht).step hfirst hb1 hn hf hs hlinked
    signingWitness
  obtain ⟨l', hl'⟩ := (ends_applyBlockRest clock depth signingWitness b).step hrest hb hn' hf1
    (hl.chained.proper hs)
  exact ⟨_, hl.trans hl'⟩

/-- **A block is a sequence of small steps.** -/
theorem applyBlock_chain {clock depth signingWitness size : Nat} {skip : Skip} {b : SignedBlock}
    {d d₁ d₂ : Database chainSchema} {u : Unit}
    (hfirst : (applyBlockFirst clock skip depth b).run d = .ok signingWitness d₁)
    (hrest : (applyBlockRest clock depth signingWitness b).run { d₁ with maxSize := size } =
      .ok u d₂)
    (hskip : skip.validate = false) (ht : b.timestamp < 2 ^ 32) (hs : Proper d.store)
    (hf : d.store.Fresh) (hb : d₂.broken = false) (hn : depth ≤ d.maxSize) (hn' : depth ≤ size) :
    Chained (fun _ _ => True) d.store d₂.store := by
  obtain ⟨_, hl⟩ := Path.applyBlock hfirst hrest hskip ht hs hf hb hn hn'
  exact hl.chained

end

end MuseChain
