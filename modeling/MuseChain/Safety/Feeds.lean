/-
  File:      MuseChain/Safety/Feeds.lean
  Subject:   The price feeds of the witnesses and the median history.

  * `Fed g past s`: a run from the genesis, with the medians that were appended on it.
  * `FeedState past s`: each witness has no feed or one that was published by the head time, and
    the history is the last of what was appended (`Fed.state`).
  * **`median_feed_fresh_iff`**: the test of the age keeps every published feed. The appended
    median is a fresh one just when a fresh feed is in the middle of all that were published.
-/
import MuseChain.Safety.Endings
import MuseChain.Safety.Prices
import MuseChain.Safety.SlotTimes

namespace MuseChain

variable {n : Nat} {d d' : Database chainSchema} {u : Unit}

/-! ## 1. The feeds of the schedule -/

/-- The witness with a name. -/
def witnessNamed (s : Store chainSchema) (name : String) : Option Witness :=
  ((s.rows Kind.witness).find? fun r : Nat × Witness => r.2.owner = name).map (·.2)

def scheduledWitnesses (s : Store chainSchema) : List Witness :=
  match (s.get Kind.witnessSchedule 0 : Option WitnessSchedule) with
  | none => []
  | some o => o.currentShuffledWitnesses.filterMap (witnessNamed s)

/-- The exchange rates that the scheduled witnesses have published. -/
def publishedFeeds (s : Store chainSchema) : List Price :=
  ((scheduledWitnesses s).map fun w => w.mbdExchangeRate).filter fun p => !p.isNull

/-- Those of them that are at most MUSE_MAX_FEED_AGE older than the head. -/
def freshFeeds (s : Store chainSchema) : List Price :=
  (((scheduledWitnesses s).filter fun w =>
    decide (s.props.time ≤ w.lastMbdExchangeUpdate + maxFeedAge)).map
      fun w => w.mbdExchangeRate).filter fun p => !p.isNull

/-- Those of them that pass the test of `update_median_feed`. -/
def countedFeeds (s : Store chainSchema) : List Price :=
  (((scheduledWitnesses s).filter fun w =>
    decide (w.lastMbdExchangeUpdate < s.props.time + maxFeedAge)).map
      fun w => w.mbdExchangeRate).filter fun p => !p.isNull

/-- What `update_median_feed` appends to the history. -/
def appendedFeed (s : Store chainSchema) : List Price :=
  if s.props.headBlockNumber % feedIntervalBlocks = 0 then (medianPrice (countedFeeds s)).toList
  else []

/-- The history with one more median. -/
def FeedHistory.push (h : FeedHistory) (median : Price) : FeedHistory :=
  let history := h.priceHistory ++ [median]
  let history := if feedHistoryWindow < history.length then history.tail else history
  { h with
    priceHistory := history
    currentMedianHistory := (medianPrice history).getD h.currentMedianHistory }

theorem witnessNamed_of_isNamed {s : Store chainSchema} {name : String} {w : Witness}
    (h : IsNamed s name w) : witnessNamed s name = some w := by
  obtain ⟨i, hi, hname⟩ := h
  have hrow : (i, w) ∈ s.rows Kind.witness := FMap.mem_rows.mpr hi
  unfold witnessNamed
  cases hfind : (s.rows Kind.witness).find? fun r : Nat × Witness => r.2.owner = name with
  | none => exact absurd (decide_eq_true hname) (List.find?_eq_none.mp hfind (i, w) hrow)
  | some r =>
    have htest := List.find?_some hfind
    have howner : r.2.owner = name := of_decide_eq_true htest
    have hget : s.get Kind.witness r.1 = some r.2 := FMap.mem_rows.mp (List.mem_of_find?_eq_some hfind)
    exact congrArg some (IsNamed.unique ⟨r.1, hget, howner⟩ ⟨i, hi, hname⟩)

theorem witnessNamed_some {s : Store chainSchema} {name : String} {w : Witness}
    (h : witnessNamed s name = some w) : IsNamed s name w := by
  obtain ⟨r, hfind, rfl⟩ := Option.map_eq_some_iff.mp h
  have htest := List.find?_some hfind
  exact ⟨r.1, FMap.mem_rows.mp (List.mem_of_find?_eq_some hfind), of_decide_eq_true htest⟩

/-- The loop over the schedule collects what passes the test. -/
theorem collectFeeds_ok {now : Nat} {names : List String} {acc out : List Price}
    (h : (Action.foldEach names acc fun feeds name => do
      let w ← getWitness name
      pure (if w.lastMbdExchangeUpdate < now + maxFeedAge && !w.mbdExchangeRate.isNull then
        feeds ++ [w.mbdExchangeRate] else feeds) : Act n (List Price)).run d = .ok out d') :
    d' = d ∧ out = acc ++ (((names.filterMap (witnessNamed d.store)).filter fun w =>
      decide (w.lastMbdExchangeUpdate < now + maxFeedAge)).map
        fun w => w.mbdExchangeRate).filter fun p => !p.isNull := by
  induction names generalizing acc d with
  | nil =>
    cases h
    simp
  | cons name names ih =>
    obtain ⟨next, d₁, h1, h2⟩ := Action.bind_ok.mp h
    obtain ⟨w, d₂, hw, hpure⟩ := Action.bind_ok.mp h1
    cases hpure
    obtain ⟨rfl, hnamed⟩ := getWitness_ok hw
    obtain ⟨rfl, rfl⟩ := ih h2
    refine ⟨rfl, ?_⟩
    rw [List.filterMap_cons, witnessNamed_of_isNamed hnamed]
    by_cases hage : w.lastMbdExchangeUpdate < now + maxFeedAge
    · cases hnull : w.mbdExchangeRate.isNull <;> simp [hage, hnull]
    · simp [hage]

/-- **What `update_median_feed` does.** -/
theorem updateMedianFeed_ok (h : (updateMedianFeed : Act n Unit).run d = .ok u d') :
    (appendedFeed d.store = [] ∧ d' = d) ∨
      ∃ (m : Price) (f : FeedHistory), appendedFeed d.store = [m] ∧
        d.store.get Kind.feedHistory 0 = some f ∧
        ∃ hf, d'.store = d.store.write Kind.feedHistory 0 (f.push m) hf := by
  unfold updateMedianFeed at h
  obtain ⟨num, d₁, hnum, h1⟩ := Action.bind_ok.mp h
  obtain ⟨p, hp, hpure⟩ := bind_getDgp_ok.mp hnum
  cases hpure
  have hprops : d.store.props = p := Store.props_of_get hp
  unfold appendedFeed
  rw [hprops]
  split at h1
  · rename_i hturn
    obtain ⟨p', hp', h2⟩ := bind_headBlockTime_ok h1
    obtain rfl : p' = p := Option.some.inj (hp'.symm.trans hp)
    obtain ⟨o, ho, h3⟩ := Action.bind_get_ok.mp h2
    obtain ⟨feeds, d₁, hfeeds, h4⟩ := Action.bind_ok.mp h3
    obtain ⟨rfl, rfl⟩ := collectFeeds_ok hfeeds
    have hcounted : countedFeeds d₁.store = [] ++ (((o.currentShuffledWitnesses.filterMap
        (witnessNamed d₁.store)).filter fun w =>
          decide (w.lastMbdExchangeUpdate < p'.time + maxFeedAge)).map
            fun w => w.mbdExchangeRate).filter fun p => !p.isNull := by
      unfold countedFeeds scheduledWitnesses
      rw [ho, hprops]
      rfl
    rw [if_pos hturn, hcounted]
    split at h4
    · rename_i hnone
      cases h4
      exact .inl ⟨by rw [hnone]; rfl, rfl⟩
    · rename_i m hm
      obtain ⟨f, hf, hfree, e⟩ := modify_store h4
      exact .inr ⟨m, f, by rw [hm]; rfl, hf, hfree, e⟩
  · rename_i hturn
    cases h1
    exact .inl ⟨if_neg hturn, rfl⟩

/-! ## 2. Runs -/

/-- The amounts of a published rate are 64-bit. -/
def Operation.FitsFeed : Operation → Prop
  | .feedPublish _ p => p.base.Fits ∧ p.quote.Fits
  | _ => True

section

variable [Fc]

/-- A run from the genesis with the medians that were appended on it. The header of a block names
the head as the one before it, and its time is later. -/
inductive Fed (g : GenesisState) : List Price → Store chainSchema → Prop
  | genesis {u : Unit} {d : Database chainSchema} :
      (initGenesis g).run emptyDatabase = .ok u d → Fed g [] d.store
  | operation {past : List Price} {d d' : Database chainSchema} {u : Unit} (clock n : Nat)
      (push : Nat → Act n Unit) (op : Operation) : Fed g past d.store → op.validate = .ok () →
      op.approves = false → op.FitsFeed → (evaluate clock push op).run d = .ok u d' →
      Fed g past d'.store
  | block {past : List Price} {d d' : Database chainSchema} {u : Unit} {skip : Skip}
      {b : SignedBlock} {p : DynamicGlobalProperty} (n : Nat) : Fed g past d.store →
      d.store.get Kind.dynamicGlobalProperty 0 = some p → p.headBlockId = b.previous →
      p.time < b.timestamp → (updateGlobalDynamicData skip b : Act n Unit).run d = .ok u d' →
      Fed g past d'.store
  | median {past : List Price} {d d' : Database chainSchema} {u : Unit} (n : Nat) :
      Fed g past d.store → (updateMedianFeed : Act n Unit).run d = .ok u d' →
      Fed g (past ++ appendedFeed d.store) d'.store
  | routine {past : List Price} {d d' : Database chainSchema} {u : Unit} (n : Nat) (r : Routine) :
      Fed g past d.store → r ≠ .medianFeed → (∀ skip b, r ≠ .globalDynamicData skip b) →
      (r.act : Act n Unit).run d = .ok u d' → Fed g past d'.store

end

/-- The last of the medians, as many as the history holds. -/
def feedWindow (past : List Price) : List Price := past.drop (past.length - feedHistoryWindow)

theorem feedWindow_append (past : List Price) (m : Price) :
    feedWindow (past ++ [m]) =
      if feedHistoryWindow < (feedWindow past ++ [m]).length then (feedWindow past ++ [m]).tail
      else feedWindow past ++ [m] := by
  unfold feedWindow
  rw [List.length_append, List.length_append, List.length_drop, List.length_singleton]
  by_cases hfull : feedHistoryWindow ≤ past.length
  · have hnext : past.length + 1 - feedHistoryWindow = past.length - feedHistoryWindow + 1 := by omega
    rw [if_pos (by omega), hnext, ← List.drop_append_of_le_length (by omega), List.tail_drop]
  · have hnone : past.length - feedHistoryWindow = 0 := by omega
    have hnone' : past.length + 1 - feedHistoryWindow = 0 := by omega
    rw [if_neg (by omega), hnone, hnone']
    rfl

/-- The witness has no feed, or one that it published by the time. -/
def Witness.Quotes (w : Witness) (time : Nat) : Prop :=
  w.mbdExchangeRate.isNull = true ∨ w.mbdExchangeRate.IsFeed ∧ w.lastMbdExchangeUpdate ≤ time

structure FeedState (past : List Price) (s : Store chainSchema) : Prop where
  quotes : ∀ i (w : Witness), s.get Kind.witness i = some w → w.Quotes s.props.time
  history : ∃ h : FeedHistory, s.get Kind.feedHistory 0 = some h ∧
    h.priceHistory = feedWindow past ∧
    h.currentMedianHistory = (medianPrice h.priceHistory).getD Price.null

section

variable {l : List Part} {s t : Store chainSchema} {past : List Price}

/-- A witness has the feed that it had before, or is new and has none. -/
theorem quotes_of_changes (h : Obeys (changes l) s t) (hg : .gone .witness ∉ l)
    (hf : .witness .feed ∉ l) (htime : s.props.time ≤ t.props.time)
    (hs : ∀ i (w : Witness), s.get Kind.witness i = some w → w.Quotes s.props.time) {i : Nat}
    {w : Witness} (hw : t.get Kind.witness i = some w) : w.Quotes t.props.time := by
  rcases changes_cases (h Kind.witness i) hg with
    ⟨a, b, ha, hb, hab⟩ | ⟨_, hn⟩ | ⟨a, b, _, hb, _, hblank, hab⟩
  · obtain rfl : b = w := Option.some.inj (hb.symm.trans hw)
    obtain ⟨hrate, hlast⟩ := Prod.mk.inj (Or.resolve_left (hab .feed) hf)
    rcases hs i a ha with hnull | ⟨hfeed, hbefore⟩
    · exact .inl (hrate ▸ hnull)
    · exact .inr ⟨hrate ▸ hfeed, hlast ▸ hbefore.trans htime⟩
  · exact nomatch hw.symm.trans hn
  · obtain rfl : b = w := Option.some.inj (hb.symm.trans hw)
    obtain ⟨hrate, _⟩ := Prod.mk.inj (Or.resolve_left (hab .feed) hf)
    have hnull : a.mbdExchangeRate = Price.null := hblank.2.2
    exact .inl (by rw [← hrate, hnull]; decide)

/-- The parts that the feeds are taken from. -/
def Part.quoted : Part → Bool
  | .gone .witness | .witness .feed | .made .dynamicGlobalProperty | .gone .dynamicGlobalProperty
  | .props .time | .made .feedHistory | .gone .feedHistory | .whole .feedHistory => true
  | _ => false

theorem FeedState.of_changes (hs : FeedState past s) (h : Obeys (changes l) s t)
    (hl : ∀ p ∈ l, p.quoted = false) : FeedState past t := by
  have hn : ∀ {p : Part}, p.quoted = true → p ∉ l := not_mem_of_false hl
  refine ⟨fun i w hw => ?_, ?_⟩
  · have htime := time_of_changes h (hn rfl) (hn rfl) (hn rfl)
    exact quotes_of_changes h (hn rfl) (hn rfl) htime.ge hs.quotes hw
  · have hhistory : t.get Kind.feedHistory 0 = s.get Kind.feedHistory 0 :=
      get_of_unchanged h (hn rfl) (hn rfl) fun _ _ hab => Or.resolve_left hab (hn rfl)
    rw [hhistory]
    exact hs.history

/-- A witness publishes a feed at the head time. -/
theorem feedPublish_ok {publisher : String} {rate : Price}
    (h : (feedPublish publisher rate : Act n Unit).run d = .ok u d') :
    ∃ (i : Nat) (w : Witness) (p : DynamicGlobalProperty), d.store.get Kind.witness i = some w ∧
      d.store.get Kind.dynamicGlobalProperty 0 = some p ∧ ∃ hf, d'.store =
        d.store.write Kind.witness i
          ({ w with mbdExchangeRate := rate, lastMbdExchangeUpdate := p.time } : Witness) hf := by
  unfold feedPublish at h
  obtain ⟨i, w, hw, _, h1⟩ := bind_getRow_ok h
  obtain ⟨p, hp, h2⟩ := bind_headBlockTime_ok h1
  obtain ⟨w', hw', hf, e⟩ := modify_store h2
  exact ⟨i, w', p, hw', hp, hf, e⟩

theorem FeedState.feedPublish [Fc] {publisher : String} {rate : Price}
    (hs : FeedState past d.store) (hv : (Operation.feedPublish publisher rate).validate = .ok ())
    (hfits : rate.base.Fits ∧ rate.quote.Fits)
    (h : (MuseChain.feedPublish publisher rate : Act n Unit).run d = .ok u d') :
    FeedState past d'.store := by
  obtain ⟨i, w, p, hw, hp, hf, e⟩ := feedPublish_ok h
  have hprops : d'.store.props = d.store.props := by
    unfold Store.props
    rw [e, Store.get_write_ne _ (show Kind.dynamicGlobalProperty ≠ Kind.witness by decide)]
  refine ⟨fun j v hv' => ?_, ?_⟩
  · rw [hprops]
    rw [e, Store.get_write_self] at hv'
    split at hv'
    · obtain rfl := Option.some.inj hv'
      rw [Store.props_of_get hp]
      exact .inr ⟨Price.isFeed_of_validate hv hfits.1 hfits.2, le_rfl⟩
    · exact hs.quotes j v hv'
  · rw [e, Store.get_write_ne _ (show Kind.feedHistory ≠ Kind.witness by decide)]
    exact hs.history

/-- A block moves the time on. -/
theorem FeedState.globalDynamicData [Fc] {skip : Skip} {b : SignedBlock}
    {p : DynamicGlobalProperty} (hs : FeedState past d.store)
    (hp : d.store.get Kind.dynamicGlobalProperty 0 = some p) (htime : p.time < b.timestamp)
    (h : (updateGlobalDynamicData skip b : Act n Unit).run d = .ok u d') :
    FeedState past d'.store := by
  have hchanges : Obeys (changes headParts) d.store d'.store :=
    (composed_updateGlobalDynamicData skip b (List.Subset.refl _)).steps.step h
  obtain ⟨p', _, _, _, _, hf, hstore⟩ := updateGlobalDynamicData_ok h
  have hnext : d'.store.props.time = b.timestamp := by
    unfold Store.props
    rw [hstore, Store.get_write_self, if_pos rfl]
    rfl
  have hmono : d.store.props.time ≤ d'.store.props.time := by
    rw [Store.props_of_get hp, hnext]
    exact htime.le
  refine ⟨fun i w hw => quotes_of_changes hchanges (by decide) (by decide) hmono hs.quotes hw, ?_⟩
  have hhistory : d'.store.get Kind.feedHistory 0 = d.store.get Kind.feedHistory 0 :=
    get_of_unchanged hchanges (by decide) (by decide) fun _ _ hab =>
      Or.resolve_left hab (by decide)
  rw [hhistory]
  exact hs.history

/-- **The history is the window of what was appended.** -/
theorem FeedState.medianFeed (hs : FeedState past d.store)
    (h : (updateMedianFeed : Act n Unit).run d = .ok u d') :
    FeedState (past ++ appendedFeed d.store) d'.store := by
  rcases updateMedianFeed_ok h with ⟨hnone, rfl⟩ | ⟨m, f, hm, hf, hfree, e⟩
  · rw [hnone, List.append_nil]
    exact hs
  · have hprops : d'.store.props = d.store.props := by
      unfold Store.props
      rw [e, Store.get_write_ne _ (show Kind.dynamicGlobalProperty ≠ Kind.feedHistory by decide)]
    obtain ⟨f', hf', hwindow, _⟩ := hs.history
    obtain rfl : f' = f := Option.some.inj (hf'.symm.trans hf)
    have hpush : (f'.push m).priceHistory = feedWindow (past ++ [m]) := by
      rw [feedWindow_append, ← hwindow]
      rfl
    refine ⟨fun i w hw => ?_, f'.push m, by rw [e, Store.get_write_self, if_pos rfl],
      by rw [hm, hpush], ?_⟩
    · rw [hprops]
      rw [e, Store.get_write_ne _ (show Kind.witness ≠ Kind.feedHistory by decide)] at hw
      exact hs.quotes i w hw
    · have hne : (f'.push m).priceHistory ≠ [] := by
        rw [hpush]
        refine List.ne_nil_of_length_pos ?_
        unfold feedWindow feedHistoryWindow
        rw [List.length_drop, List.length_append, List.length_singleton]
        omega
      obtain ⟨median, hmedian⟩ := exists_medianPrice hne
      rw [hmedian]
      show (medianPrice (f'.push m).priceHistory).getD _ = _
      rw [hmedian]
      rfl

theorem FeedState.genesis [Fc] {g : GenesisState}
    (h : (initGenesis g).run emptyDatabase = .ok u d) :
    FeedState [] d.store := by
  refine ⟨fun i w hw => ?_, {}, genesis_feedHistory h, rfl, rfl⟩
  · rcases changes_cases ((made_initGenesis g).step h Kind.witness i) (by decide) with
      ⟨_, _, hn, _⟩ | ⟨_, hn⟩ | ⟨a, b, _, hb, _, hblank, hab⟩
    · cases hn
    · exact nomatch hw.symm.trans hn
    · obtain rfl : b = w := Option.some.inj (hb.symm.trans hw)
      obtain ⟨hrate, _⟩ := Prod.mk.inj (Or.resolve_left (hab .feed) (by decide))
      have hnull : a.mbdExchangeRate = Price.null := hblank.2.2
      exact .inl (by rw [← hrate, hnull]; decide)

/-- **The feeds and the history on a run.** -/
theorem Fed.state [Fc] {g : GenesisState} (h : Fed g past s) : FeedState past s := by
  induction h with
  | genesis hg => exact .genesis hg
  | operation clock n push op _ hv ha hfits hr ih =>
    cases op with
    | proposalUpdate o => cases ha
    | feedPublish publisher rate => exact ih.feedPublish hv hfits hr
    | _ =>
      exact ih.of_changes ((composed_evaluate clock push ha).steps.step hr)
        (by simp +decide [Operation.parts])
  | block n _ hp _ htime hr ih => exact ih.globalDynamicData hp htime hr
  | median n _ hr ih => exact ih.medianFeed hr
  | routine n r _ hmedian hblock hr ih =>
    cases r with
    | medianFeed => exact absurd rfl hmedian
    | globalDynamicData skip b => exact absurd rfl (hblock skip b)
    | _ =>
      exact ih.of_changes ((Routine.composed_act _).steps.step hr)
        (by simp +decide [Routine.parts])

end

/-! ## 3. The age of the feeds -/

section

variable {past : List Price} {s : Store chainSchema}

theorem quotes_scheduled (hs : FeedState past s) {w : Witness} (hw : w ∈ scheduledWitnesses s) :
    w.Quotes s.props.time := by
  unfold scheduledWitnesses at hw
  split at hw
  · exact absurd hw List.not_mem_nil
  · obtain ⟨name, _, hnamed⟩ := List.mem_filterMap.mp hw
    obtain ⟨i, hi, _⟩ := witnessNamed_some hnamed
    exact hs.quotes i w hi

/-- A test that all published feeds pass keeps them all. -/
theorem filter_published {test : Witness → Bool} {l : List Witness}
    (h : ∀ w ∈ l, w.mbdExchangeRate.isNull = false → test w = true) :
    (((l.filter test).map fun w => w.mbdExchangeRate).filter fun p => !p.isNull) =
      (l.map fun w => w.mbdExchangeRate).filter fun p => !p.isNull := by
  rw [List.filter_map, List.filter_map, List.filter_filter]
  refine congrArg _ (List.filter_congr fun w hw => ?_)
  cases hnull : w.mbdExchangeRate.isNull with
  | true => simp [hnull]
  | false => simp [hnull, h w hw hnull]

/-- **The test of the age keeps every published feed.** -/
theorem countedFeeds_eq (hs : FeedState past s) : countedFeeds s = publishedFeeds s := by
  refine filter_published fun w hw hnull => decide_eq_true ?_
  rcases quotes_scheduled hs hw with hn | ⟨_, hlast⟩
  · exact nomatch hnull.symm.trans hn
  · unfold maxFeedAge
    omega

theorem isFeed_published (hs : FeedState past s) : ∀ p ∈ publishedFeeds s, p.IsFeed := by
  intro p hp
  obtain ⟨hmem, hnull⟩ := List.mem_filter.mp hp
  obtain ⟨w, hw, rfl⟩ := List.mem_map.mp hmem
  rcases quotes_scheduled hs hw with hn | ⟨hfeed, _⟩
  · rw [hn] at hnull
    exact nomatch hnull
  · exact hfeed

theorem fresh_subset (s : Store chainSchema) : freshFeeds s ⊆ publishedFeeds s := by
  intro p hp
  obtain ⟨hmem, hnull⟩ := List.mem_filter.mp hp
  obtain ⟨w, hw, rfl⟩ := List.mem_map.mp hmem
  exact List.mem_filter.mpr ⟨List.mem_map_of_mem (List.mem_filter.mp hw).1, hnull⟩

/-- What is appended is equal to a fresh feed, and nothing is where there are too few of them. -/
def IgnoresStale (s t : Store chainSchema) : Prop :=
  (∀ m ∈ appendedFeed s, ∃ p ∈ freshFeeds s, m.beq p = true) ∧
    ((freshFeeds s).length < minFeeds → t.get Kind.feedHistory 0 = s.get Kind.feedHistory 0)

/-- No scheduled witness has published a feed, or a fresh feed is in the middle of all that were
published, however old: at most half of them are less, and more than half are not greater. -/
def FreshMiddle (s : Store chainSchema) : Prop :=
  publishedFeeds s = [] ∨ ∃ p ∈ freshFeeds s,
    ((publishedFeeds s).countP fun q => q.blt p) ≤ (publishedFeeds s).length / 2 ∧
      (publishedFeeds s).length / 2 < (publishedFeeds s).countP fun q => !p.blt q

/-- **Stale feeds are ignored where a fresh one is in the middle**, and the current median is the
one of the last that were appended. -/
theorem median_feed_fresh_iff [Fc] {g : GenesisState} (h : Fed g past d.store)
    (hturn : d.store.props.headBlockNumber % feedIntervalBlocks = 0)
    (hr : (updateMedianFeed : Act n Unit).run d = .ok u d') :
    (IgnoresStale d.store d'.store ↔ FreshMiddle d.store) ∧
      ∃ f : FeedHistory, d'.store.get Kind.feedHistory 0 = some f ∧
        f.priceHistory = feedWindow (past ++ appendedFeed d.store) ∧
        f.currentMedianHistory = (medianPrice f.priceHistory).getD Price.null := by
  have hs := h.state
  refine ⟨?_, (hs.medianFeed hr).history⟩
  have happended : appendedFeed d.store = (medianPrice (publishedFeeds d.store)).toList := by
    unfold appendedFeed
    rw [if_pos hturn, countedFeeds_eq hs]
  have hfeeds := isFeed_published hs
  by_cases hnone : publishedFeeds d.store = []
  · -- nothing is appended
    have hempty : appendedFeed d.store = [] := by
      rw [happended, hnone]
      rfl
    refine ⟨fun _ => .inl hnone, fun _ => ⟨fun m hm => ?_, fun _ => ?_⟩⟩
    · rw [hempty] at hm
      exact absurd hm List.not_mem_nil
    · rcases updateMedianFeed_ok hr with ⟨_, rfl⟩ | ⟨m, _, hm, _⟩
      · rfl
      · exact nomatch hm.symm.trans hempty
  · obtain ⟨m, hm⟩ := exists_medianPrice hnone
    have hone : appendedFeed d.store = [m] := by
      rw [happended, hm]
      rfl
    have hequal : ∀ p ∈ freshFeeds d.store, (m.beq p = true ↔ _) := fun p hp =>
      medianPrice_beq_iff hfeeds hm (hfeeds p (fresh_subset _ hp))
    constructor
    · rintro ⟨hfresh, _⟩
      obtain ⟨p, hp, hmp⟩ := hfresh m (by rw [hone]; exact List.mem_cons_self)
      exact .inr ⟨p, hp, (hequal p hp).mp hmp⟩
    · rintro (hno | ⟨p, hp, hmiddle⟩)
      · exact absurd hno hnone
      · refine ⟨fun m' hm' => ?_, fun hfew => ?_⟩
        · rw [hone] at hm'
          obtain rfl := List.mem_singleton.mp hm'
          exact ⟨p, hp, (hequal p hp).mpr hmiddle⟩
        · have hpos := List.length_pos_of_mem hp
          unfold minFeeds at hfew
          omega

end

/-! ## 4. A stale feed -/

theorem getWitness_run {name : String} {w : Witness} (h : IsNamed d.store name w) :
    (getWitness name : Act n Witness).run d = .ok w d := by
  obtain ⟨i, hi, hname⟩ := h
  obtain ⟨v, e, hr, _⟩ : Finishes (getWitness name : Act n Witness) d fun _ => True := by
    refine finishes_getRow ⟨i, w, hi, decide_eq_true hname⟩ fun wit v hv _ => ?_
    exact ⟨v, d, getObject_ok.mpr ⟨hv, rfl⟩, trivial⟩
  obtain ⟨rfl, hnamed⟩ := getWitness_ok hr
  obtain rfl := hnamed.unique ⟨i, hi, hname⟩
  exact hr

/-- The loop over the schedule returns when there are the witnesses. -/
theorem collectFeeds_runs {now : Nat} {names : List String}
    (h : ∀ name ∈ names, ∃ w, IsNamed d.store name w) (acc : List Price) :
    ∃ out, (Action.foldEach names acc fun feeds name => do
      let w ← getWitness name
      pure (if w.lastMbdExchangeUpdate < now + maxFeedAge && !w.mbdExchangeRate.isNull then
        feeds ++ [w.mbdExchangeRate] else feeds) : Act n (List Price)).run d = .ok out d := by
  induction names generalizing acc with
  | nil => exact ⟨acc, rfl⟩
  | cons name names ih =>
    obtain ⟨w, hw⟩ := h name List.mem_cons_self
    have hfirst := getWitness_run (n := n) hw
    obtain ⟨out, hrest⟩ := ih (fun name hname => h name (List.mem_cons_of_mem _ hname))
      (if w.lastMbdExchangeUpdate < now + maxFeedAge && !w.mbdExchangeRate.isNull then
        acc ++ [w.mbdExchangeRate] else acc)
    exact ⟨out, Action.bind_ok.mpr ⟨_, d, Action.bind_ok.mpr ⟨w, d, hfirst, rfl⟩, hrest⟩⟩

theorem updateMedianFeed_runs {p : DynamicGlobalProperty} {o : WitnessSchedule} {f : FeedHistory}
    (hp : d.store.get Kind.dynamicGlobalProperty 0 = some p)
    (ho : d.store.get Kind.witnessSchedule 0 = some o)
    (hf : d.store.get Kind.feedHistory 0 = some f)
    (h : ∀ name ∈ o.currentShuffledWitnesses, ∃ w, IsNamed d.store name w) :
    ∃ d', (updateMedianFeed : Act n Unit).run d = .ok () d' := by
  obtain ⟨_, d', hr, _⟩ : Finishes (updateMedianFeed : Act n Unit) d fun _ => True := by
    unfold updateMedianFeed
    refine finishes_bind (Action.bind_get_ok.mpr ⟨p, hp, rfl⟩) (finishes_ite (fun _ => ?_) fun _ =>
      finishes_pure trivial)
    refine finishes_bind (Action.bind_get_ok.mpr ⟨p, hp, rfl⟩) (finishes_getObject ho ?_)
    obtain ⟨out, hout⟩ := @collectFeeds_runs _ d p.time _ h []
    refine finishes_bind hout ?_
    split
    · exact finishes_pure trivial
    · exact finishes_modifyWith hf rfl fun _ => trivial
  exact ⟨d', hr⟩

section

attribute [local instance] sampleFc

/-- The init miner publishes a feed at the genesis. -/
def minerFeed : Price := ⟨Asset.muse 2, Asset.mbd 1⟩

def publishedStart : Database chainSchema :=
  evaluated (.feedPublish initMinerName minerFeed) slotStart

theorem publishedStart_runs :
    ((evaluate 0 (fun _ => pure ()) (.feedPublish initMinerName minerFeed) : Act 0 Unit).run
        slotStart).isOk = true ∧
      (publishedStart.store.get Kind.dynamicGlobalProperty 0).map
        (fun p : DynamicGlobalProperty => (p.headBlockNumber, p.headBlockId.num, p.time,
          p.lastIrreversibleBlockNum)) = some (0, 0, genesisTime, 0) ∧
      (publishedStart.store.get Kind.witnessSchedule 0).map
        (fun o : WitnessSchedule => o.currentShuffledWitnesses) = some [initMinerName] ∧
      (publishedStart.store.get Kind.hardforkProperty 0).isSome = true ∧
      (publishedStart.store.get Kind.feedHistory 0).isSome = true ∧
      (publishedStart.store.get Kind.witness 0).map
        (fun w : Witness => (w.owner, w.mbdExchangeRate, w.lastMbdExchangeUpdate)) =
          some (initMinerName, minerFeed, genesisTime) := by
  decide +kernel

theorem fed_publishedStart : Fed sampleGenesis [] publishedStart.store := by
  obtain ⟨_, hr⟩ := Outcome.exists_of_isOk publishedStart_runs.1
  have hfits : minerFeed.base.Fits ∧ minerFeed.quote.Fits := by decide
  exact .operation 0 0 _ (.feedPublish initMinerName minerFeed) (.genesis slotStart_genesis)
    (by decide) rfl hfits hr

/-- The init miner is the only one scheduled, and its feed is as old as the genesis. -/
structure Sole (d : Database chainSchema) (num time : Nat) : Prop where
  props : ∃ p : DynamicGlobalProperty, d.store.get Kind.dynamicGlobalProperty 0 = some p ∧
    p.headBlockNumber = num ∧ p.headBlockId.num = num ∧ p.time = time ∧
    p.lastIrreversibleBlockNum = 0
  schedule : ∃ o : WitnessSchedule, d.store.get Kind.witnessSchedule 0 = some o ∧
    o.currentShuffledWitnesses = [initMinerName]
  hardforks : ∃ h : HardforkProperty, d.store.get Kind.hardforkProperty 0 = some h
  history : ∃ f : FeedHistory, d.store.get Kind.feedHistory 0 = some f
  feed : ∃ w : Witness, IsNamed d.store initMinerName w ∧ w.mbdExchangeRate = minerFeed ∧
    w.lastMbdExchangeUpdate = genesisTime

theorem sole_publishedStart : Sole publishedStart 0 genesisTime := by
  obtain ⟨_, hprops, hschedule, hhardforks, hhistory, hwitness⟩ := publishedStart_runs
  obtain ⟨p, hp, hvalues⟩ := Option.map_eq_some_iff.mp hprops
  obtain ⟨hnum, hrest⟩ := Prod.mk.inj hvalues
  obtain ⟨hid, hrest⟩ := Prod.mk.inj hrest
  obtain ⟨htime, hlast⟩ := Prod.mk.inj hrest
  obtain ⟨w, hw, hvalues⟩ := Option.map_eq_some_iff.mp hwitness
  obtain ⟨howner, hrest⟩ := Prod.mk.inj hvalues
  obtain ⟨hrate, hupdate⟩ := Prod.mk.inj hrest
  exact ⟨⟨p, hp, hnum, hid, htime, hlast⟩, Option.map_eq_some_iff.mp hschedule,
    Option.isSome_iff_exists.mp hhardforks, Option.isSome_iff_exists.mp hhistory,
    w, ⟨0, hw, howner⟩, hrate, hupdate⟩

/-- Another block of the init miner. -/
theorem Sole.next {num time later : Nat} (h : Sole d num time) (hfed : Fed sampleGenesis [] d.store)
    (hnum : num + 1 < maxUndoHistory) (hlater : time < later) :
    ∃ d' : Database chainSchema, Fed sampleGenesis [] d'.store ∧ Sole d' (num + 1) later := by
  obtain ⟨p, hp, hheight, hid, htime, hlast⟩ := h.props
  obtain ⟨o, ho, hnames⟩ := h.schedule
  obtain ⟨hf, hhf⟩ := h.hardforks
  obtain ⟨w, hw, hfeed⟩ := h.feed
  obtain ⟨wit, hwit⟩ := getWitnessId_run (n := 0) hw
  have hblock : (minerBlock p.headBlockId later).blockNum = num + 1 := by
    show u32 (p.headBlockId.num + 1) = num + 1
    rw [hid]
    unfold u32
    unfold maxUndoHistory at hnum
    omega
  have hroom : sub32 (minerBlock p.headBlockId later).blockNum p.lastIrreversibleBlockNum <
      maxUndoHistory := by
    rw [hblock, hlast]
    unfold sub32 u32
    unfold maxUndoHistory at hnum ⊢
    omega
  obtain ⟨_, d', hr, hfree, hstore⟩ := finishes_globalDynamicData (b := minerBlock p.headBlockId later)
    (Q := fun t => ∃ hf, t = d.store.write Kind.dynamicGlobalProperty 0 (nextProperties
      (minerBlock p.headBlockId later) (p.missedBefore (minerBlock p.headBlockId later)) p) hf)
    hp ho hhf hnames hwit hroom fun hf => ⟨hf, rfl⟩
  have hnext : d'.store.get Kind.dynamicGlobalProperty 0 = some (nextProperties
      (minerBlock p.headBlockId later) (p.missedBefore (minerBlock p.headBlockId later)) p) := by
    rw [hstore, Store.get_write_self, if_pos rfl]
  have hkeeps : ∀ {k : Kind} (i : Nat), k ≠ Kind.dynamicGlobalProperty →
      d'.store.get k i = d.store.get k i := fun i hk => by rw [hstore, Store.get_write_ne _ hk]
  refine ⟨d', .block 0 hfed hp rfl (htime.trans_lt hlater) hr,
    ⟨_, hnext, hblock, hblock, rfl, hlast⟩, ?_, ?_, ?_, ?_⟩
  · exact ⟨o, (hkeeps 0 (by decide)).trans ho, hnames⟩
  · exact ⟨hf, (hkeeps 0 (by decide)).trans hhf⟩
  · obtain ⟨f, hf⟩ := h.history
    exact ⟨f, (hkeeps 0 (by decide)).trans hf⟩
  · obtain ⟨i, hi, hname⟩ := hw
    exact ⟨w, ⟨i, (hkeeps i (by decide)).trans hi, hname⟩, hfeed⟩

/-- As many blocks as there are between two updates of the feed, three seconds apart. -/
theorem exists_sole (num : Nat) (hnum : num < maxUndoHistory) :
    ∃ d : Database chainSchema, Fed sampleGenesis [] d.store ∧
      Sole d num (genesisTime + 3 * num) := by
  induction num with
  | zero => exact ⟨publishedStart, fed_publishedStart, sole_publishedStart⟩
  | succ num ih =>
    obtain ⟨d, hfed, hsole⟩ := ih (by omega)
    exact hsole.next hfed hnum (by omega)

theorem Sole.scheduled {num time : Nat} (h : Sole d num time) :
    ∃ w : Witness, scheduledWitnesses d.store = [w] ∧ IsNamed d.store initMinerName w ∧
      w.mbdExchangeRate = minerFeed ∧ w.lastMbdExchangeUpdate = genesisTime := by
  obtain ⟨o, ho, hnames⟩ := h.schedule
  obtain ⟨w, hw, hrate, hupdate⟩ := h.feed
  refine ⟨w, ?_, hw, hrate, hupdate⟩
  unfold scheduledWitnesses
  rw [ho]
  simp [hnames, witnessNamed_of_isNamed hw]

/-- **A stale feed is appended**: the chain stops for eight days before its 1200th block. -/
theorem stale_feed_appended :
    ∃ d d' : Database chainSchema, Fed sampleGenesis [] d.store ∧
      d.store.props.headBlockNumber % feedIntervalBlocks = 0 ∧
      (updateMedianFeed : Act 0 Unit).run d = .ok () d' ∧ ¬IgnoresStale d.store d'.store := by
  obtain ⟨e, hfed, hsole⟩ := exists_sole 1199 (by decide)
  obtain ⟨d, hfed, hsole⟩ := @Sole.next _ _ _ (genesisTime + 3 * 1199 + 8 * 86400) hsole hfed
    (by decide) (by omega)
  obtain ⟨p, hp, hheight, _, htime, _⟩ := hsole.props
  obtain ⟨w, hscheduled, hw, hrate, hupdate⟩ := hsole.scheduled
  obtain ⟨o, ho, hnames⟩ := hsole.schedule
  obtain ⟨f, hf⟩ := hsole.history
  have hprops := Store.props_of_get hp
  have hturn : d.store.props.headBlockNumber % feedIntervalBlocks = 0 := by
    rw [hprops, hheight]
    decide
  have happended : appendedFeed d.store = [minerFeed] := by
    unfold appendedFeed
    rw [if_pos hturn, countedFeeds_eq hfed.state]
    unfold publishedFeeds
    rw [hscheduled, List.map_singleton, hrate]
    decide
  have hstale : freshFeeds d.store = [] := by
    have hage : ¬d.store.props.time ≤ w.lastMbdExchangeUpdate + maxFeedAge := by
      rw [hprops, htime, hupdate]
      decide
    unfold freshFeeds
    rw [hscheduled, List.filter_cons_of_neg (by simp [hage])]
    rfl
  obtain ⟨d', hr⟩ := updateMedianFeed_runs (n := 0) hp ho hf fun name hname => by
    rw [hnames] at hname
    obtain rfl := List.mem_singleton.mp hname
    exact ⟨w, hw⟩
  refine ⟨d, d', hfed, hturn, hr, fun hignores => ?_⟩
  obtain ⟨p, hfresh, _⟩ := hignores.1 minerFeed (by rw [happended]; exact List.mem_cons_self)
  rw [hstale] at hfresh
  exact absurd hfresh List.not_mem_nil

/-- Three witnesses publish a feed each. -/
def feedsPublished : Database chainSchema :=
  evaluated (.feedPublish minerAccount ⟨Asset.muse 5, Asset.mbd 1⟩)
    (evaluated (.witnessUpdate ⟨minerAccount, "miners", 9, {}, Asset.muse 0⟩)
      (evaluated (.feedPublish tempAccount ⟨Asset.muse 3, Asset.mbd 1⟩)
        (evaluated (.witnessUpdate ⟨tempAccount, "temp", 8, {}, Asset.muse 0⟩) publishedStart)))

/-- And they are scheduled. -/
def feedsScheduled : Database chainSchema :=
  ((updateWitnessSchedule : Act 0 Unit).run feedsPublished).db

theorem Fed.evaluated {g : GenesisState} {d : Database chainSchema} (h : Fed g past d.store)
    (op : Operation) (hv : op.validate = .ok ()) (ha : op.approves = false) (hf : op.FitsFeed)
    (hr : ((evaluate 0 (fun _ => pure ()) op : Act 0 Unit).run d).isOk = true) :
    Fed g past (MuseChain.evaluated op d).store := by
  obtain ⟨_, hr⟩ := Outcome.exists_of_isOk hr
  exact .operation 0 0 _ op h hv ha hf hr

theorem fed_feedsScheduled : Fed sampleGenesis [] feedsScheduled.store := by
  have hpublished : Fed sampleGenesis [] feedsPublished.store :=
    (((fed_publishedStart.evaluated (.witnessUpdate _) (by decide) rfl trivial
      (by decide +kernel)).evaluated (.feedPublish _ _) (by decide) rfl
        ⟨by decide, by decide⟩ (by decide +kernel)).evaluated (.witnessUpdate _) (by decide) rfl
          trivial (by decide +kernel)).evaluated (.feedPublish _ _) (by decide) rfl
            ⟨by decide, by decide⟩ (by decide +kernel)
  obtain ⟨_, hr⟩ := Outcome.exists_of_isOk (show ((updateWitnessSchedule : Act 0 Unit).run
    feedsPublished).isOk = true by decide +kernel)
  exact .routine 0 .witnessSchedule hpublished (fun h => nomatch h) (fun _ _ h => nomatch h) hr

/-- Of three feeds that were just published the middle one is appended. -/
theorem median_feed_fresh_iff_three : ∃ d' : Database chainSchema,
    (updateMedianFeed : Act 0 Unit).run feedsScheduled = .ok () d' ∧
      appendedFeed feedsScheduled.store = [⟨Asset.muse 3, Asset.mbd 1⟩] ∧
      IgnoresStale feedsScheduled.store d'.store ∧
      ∃ f : FeedHistory, d'.store.get Kind.feedHistory 0 = some f ∧
        f.priceHistory = [⟨Asset.muse 3, Asset.mbd 1⟩] ∧
        f.currentMedianHistory = ⟨Asset.muse 3, Asset.mbd 1⟩ := by
  have hstate : (feedsScheduled.store.get Kind.dynamicGlobalProperty 0).map
        (fun p : DynamicGlobalProperty => p.headBlockNumber) = some 0 ∧
      appendedFeed feedsScheduled.store = [⟨Asset.muse 3, Asset.mbd 1⟩] ∧
      ⟨Asset.muse 3, Asset.mbd 1⟩ ∈ freshFeeds feedsScheduled.store ∧
      publishedFeeds feedsScheduled.store = [⟨Asset.muse 2, Asset.mbd 1⟩,
        ⟨Asset.muse 5, Asset.mbd 1⟩, ⟨Asset.muse 3, Asset.mbd 1⟩] ∧
      ((updateMedianFeed : Act 0 Unit).run feedsScheduled).isOk = true := by
    decide +kernel
  obtain ⟨hprops, happended, hfresh, hpublished, hok⟩ := hstate
  obtain ⟨p, hp, hheight⟩ := Option.map_eq_some_iff.mp hprops
  have hturn : feedsScheduled.store.props.headBlockNumber % feedIntervalBlocks = 0 := by
    rw [Store.props_of_get hp, hheight]
    decide
  obtain ⟨_, hr⟩ := Outcome.exists_of_isOk hok
  obtain ⟨hiff, f, hf, hwindow, hmedian⟩ := median_feed_fresh_iff fed_feedsScheduled hturn hr
  have hmiddle : FreshMiddle feedsScheduled.store := by
    refine .inr ⟨_, hfresh, ?_⟩
    rw [hpublished]
    decide
  rw [happended] at hwindow
  rw [hwindow] at hmedian
  exact ⟨_, hr, happended, hiff.mpr hmiddle, f, hf, hwindow, hmedian⟩

end

end MuseChain
