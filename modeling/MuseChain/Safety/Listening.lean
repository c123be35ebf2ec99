/-
  File:      MuseChain/Safety/Listening.lean
  Subject:   The books about listening: what accounts have listened to and how often contents were
             played, against the reports that are outstanding.

  * `Books counted owed s`: the time of every account is that of its reports and what is `owed` to
    it, and where they are `counted`, the plays of every content are its reports. Between the steps
    nothing is owed.
  * `streamingPlatformReport_books`, `cashoutEach_books`, `settle_books`: a report and the two loops
    of the cashout keep them.
  * `listening_audited`: in every state attained the books are kept, as long as no content has
    2 ^ 32 reports and no failed attempt was spoilt, and the cashout neither fails on them nor takes
    a number below zero.
-/
import MuseChain.Safety.Votes
import Mathlib.Algebra.Order.BigOperators.Group.Finset

namespace MuseChain

variable {n : Nat} {d d' : Database chainSchema} {u : Unit} {counted : Prop}

/-! ## 1. The books -/

/-- The time that an account has listened. -/
def heard (s : Store chainSchema) (i : Nat) : Nat :=
  ((s.get Kind.account i).map Account.totalListeningTime).getD 0

/-- How often a content was played. -/
def plays (s : Store chainSchema) (i : Nat) : Nat :=
  ((s.get Kind.content i).map Content.timesPlayed24).getD 0

/-- A sum over the outstanding reports. -/
def reported (s : Store chainSchema) (f : Report → Int) : Int := (s.table Kind.report).map.sum f

/-- The time of a report for the account `i`. -/
def timeFor (i : Nat) (r : Report) : Int := if r.consumer = i then r.playTime else 0

/-- A report counts for the content `i`. -/
def playFor (i : Nat) (r : Report) : Int := if r.content = i then 1 else 0

structure Books (counted : Prop) (owed : Nat → Nat) (s : Store chainSchema) : Prop where
  positive : ∀ j (r : Report), s.get Kind.report j = some r → 0 < r.playTime
  listened : ∀ i, (heard s i : Int) = reported s (timeFor i) + owed i
  daily : ∀ i, heard s i ≤ 86400
  played : counted → ∀ i, (plays s i : Int) = reported s (playFor i)
  bounded : counted → ∀ i, plays s i < 2 ^ 32

/-- Nothing is owed. -/
abbrev nothing : Nat → Nat := fun _ => 0

theorem timeFor_nonneg (i : Nat) (r : Report) : 0 ≤ timeFor i r := by
  unfold timeFor
  split <;> omega

theorem playFor_nonneg (i : Nat) (r : Report) : 0 ≤ playFor i r := by
  unfold playFor
  split <;> omega

section

variable {s t : Store chainSchema}

theorem reported_congr (h : ∀ i, t.get Kind.report i = s.get Kind.report i) (f : Report → Int) :
    reported t f = reported s f := FMap.sum_congr fun i => congrArg _ (h i)

theorem reported_put (f : Report → Int) (i : Nat) (o : Option Report)
    (hf : ∀ a, o = some a → s.free Kind.report i a = true) :
    reported (s.put Kind.report i o hf) f =
      reported s f - FMap.part f (s.get Kind.report i) + FMap.part f o := by
  unfold reported Store.put
  simp only [Function.update_self]
  exact FMap.sum_put f _ i o

theorem reported_create (f : Report → Int) {i m : Nat} {r : Report}
    (hn : s.get Kind.report i = none) (hf : s.free Kind.report i r = true) :
    reported ((s.write Kind.report i r hf).setNextId Kind.report m) f = reported s f + f r := by
  rw [reported_congr fun j => Store.get_setNextId _ _ _ _ _]
  unfold Store.write
  rw [reported_put, hn]
  simp

theorem reported_erase (f : Report → Int) {i : Nat} {r : Report}
    (hg : s.get Kind.report i = some r) :
    reported (s.erase Kind.report i) f = reported s f - f r := by
  unfold Store.erase
  rw [reported_put, hg]
  simp

/-- One report is part of a sum over all. -/
theorem le_reported {f : Report → Int} (hf : ∀ r, 0 ≤ f r) {i : Nat} {r : Report}
    (hg : s.get Kind.report i = some r) : f r ≤ reported s f := by
  have hrest : 0 ≤ reported (s.erase Kind.report i) f := FMap.sum_nonneg hf
  rw [reported_erase f hg] at hrest
  omega

variable {owed : Nat → Nat}

theorem heard_some {i : Nat} (h : 0 < heard s i) :
    ∃ a : Account, s.get Kind.account i = some a ∧ a.totalListeningTime = heard s i := by
  unfold heard at *
  cases hg : s.get Kind.account i with
  | none => rw [hg] at h; cases h
  | some a => exact ⟨a, rfl, rfl⟩

theorem plays_some {i : Nat} (h : 0 < plays s i) :
    ∃ c : Content, s.get Kind.content i = some c ∧ c.timesPlayed24 = plays s i := by
  unfold plays at *
  cases hg : s.get Kind.content i with
  | none => rw [hg] at h; cases h
  | some c => exact ⟨c, rfl, rfl⟩

theorem heard_eq {i : Nat} {a : Account} (hg : s.get Kind.account i = some a) :
    heard s i = a.totalListeningTime := by
  unfold heard
  rw [hg]
  rfl

theorem plays_eq {i : Nat} {c : Content} (hg : s.get Kind.content i = some c) :
    plays s i = c.timesPlayed24 := by
  unfold plays
  rw [hg]
  rfl

/-- **The numbers that a report stands for are there.** -/
theorem Books.outstanding (h : Books counted owed s) {j : Nat} {r : Report}
    (hg : s.get Kind.report j = some r) :
    0 < r.playTime ∧ r.playTime + owed r.consumer ≤ heard s r.consumer ∧
      (counted → 0 < plays s r.content) := by
  have htime := le_reported (timeFor_nonneg r.consumer) hg
  have hplay := le_reported (playFor_nonneg r.content) hg
  have hheard := h.listened r.consumer
  unfold timeFor at htime
  unfold playFor at hplay
  rw [if_pos rfl] at htime hplay
  unfold timeFor at hheard
  refine ⟨h.positive j r hg, by omega, fun hc => ?_⟩
  have hplays := h.played hc r.content
  unfold playFor at hplays
  omega

/-! ## 2. Programs that leave the books alone -/

/-- Neither reports nor the numbers about them change. -/
structure Unbooked (s t : Store chainSchema) : Prop where
  report : ∀ i, t.get Kind.report i = s.get Kind.report i
  listened : ∀ i, heard t i = heard s i
  played : ∀ i, plays t i = plays s i

instance : IsPreorder (Store chainSchema) Unbooked where
  refl _ := ⟨fun _ => rfl, fun _ => rfl, fun _ => rfl⟩
  trans _ _ _ h h' := ⟨fun i => (h'.report i).trans (h.report i),
    fun i => (h'.listened i).trans (h.listened i), fun i => (h'.played i).trans (h.played i)⟩

theorem Books.unbooked (h : Books counted owed s) (hq : Unbooked s t) : Books counted owed t where
  positive j r hg := h.positive j r ((hq.report j).symm.trans hg)
  listened i := by rw [hq.listened, h.listened, reported_congr hq.report]
  daily i := by rw [hq.listened]; exact h.daily i
  played hc i := by rw [hq.played, reported_congr hq.report]; exact h.played hc i
  bounded hc i := by rw [hq.played]; exact h.bounded hc i

/-- Parts that the books are about. -/
def Part.booked : Part → Bool
  | .made .report | .gone .report | .whole .report | .account .listening | .content .plays
  | .gone .account | .gone .content => true
  | _ => false

theorem unbooked_of_changes {l : List Part} (h : Obeys (changes l) s t)
    (hl : ∀ p ∈ l, p.booked = false) : Unbooked s t := by
  have hn : ∀ {p : Part}, p.booked = true → p ∉ l := fun hp hm => by
    rw [hl _ hm] at hp
    cases hp
  refine ⟨fun i => ?_, fun i => ?_, fun i => ?_⟩
  · exact get_of_unchanged h (hn rfl) (hn rfl) fun _ _ hab => Or.resolve_left hab (hn rfl)
  · unfold heard
    obtain ⟨a, b, ha, hb, hab⟩ | ⟨ha, hb⟩ | ⟨a, b, ha, hb, -, hblank, hab⟩ :=
      changes_cases (h Kind.account i) (hn rfl)
    · rw [ha, hb]
      exact (Or.resolve_left (hab .listening) (hn rfl)).symm
    · rw [ha, hb]
    · -- a new account has not listened
      have hsame : a.totalListeningTime = b.totalListeningTime :=
        Or.resolve_left (hab .listening) (hn rfl)
      have hzero : a.totalListeningTime = 0 := by
        simp only [Blank] at hblank
        exact hblank.2.2.2.2.2.2.2.2.2.2.2.2.2.2.2.2
      rw [ha, hb]
      exact hsame.symm.trans hzero
  · unfold plays
    obtain ⟨a, b, ha, hb, hab⟩ | ⟨ha, hb⟩ | ⟨a, b, ha, hb, -, hblank, hab⟩ :=
      changes_cases (h Kind.content i) (hn rfl)
    · have hplays : (a.timesPlayed, a.timesPlayed24) = (b.timesPlayed, b.timesPlayed24) :=
        Or.resolve_left (hab .plays) (hn rfl)
      rw [ha, hb]
      exact (congrArg Prod.snd hplays).symm
    · rw [ha, hb]
    · have hplays : (a.timesPlayed, a.timesPlayed24) = (b.timesPlayed, b.timesPlayed24) :=
        Or.resolve_left (hab .plays) (hn rfl)
      simp only [Blank] at hblank
      rw [ha, hb]
      exact (congrArg Prod.snd hplays).symm.trans hblank.2.2

end

section

variable {α β : Type}

theorem unbooked_steps {l : List Part} {x : Act n α} (h : Composed l x)
    (hl : ∀ p ∈ l, p.booked = false) : Steps Unbooked x :=
  h.steps.mono fun _ _ hst => unbooked_of_changes hst hl

theorem unbooked_evaluate [Fc] {clock : Nat} {push : Nat → Act n Unit} {op : Operation}
    (ha : op.approves = false) (hop : ∀ o, op ≠ .streamingPlatformReport o) :
    Steps Unbooked (evaluate clock push op) := by
  cases op with
  | contentUpdate o =>
    exact unbooked_steps (l := .content .terms :: contentSideParts)
      (composed_contentUpdate o (List.Subset.refl _)) (by decide)
  | streamingPlatformReport o => exact absurd rfl (hop o)
  | proposalUpdate o => cases ha
  | _ => exact unbooked_steps (composed_evaluate clock push ha) (by simp +decide [Operation.parts])

theorem unbooked_act [Fc] {r : Routine} (hr : r ≠ .pay) : Steps Unbooked (r.act : Act n Unit) := by
  cases r with
  | pay => exact absurd rfl hr
  | _ => exact unbooked_steps (Routine.composed_act _) (by simp +decide [Routine.parts])

end

/-! ## 3. A report -/

section

variable {s : Store chainSchema}

theorem heard_write {i : Nat} {a : Account} (hf : s.free Kind.account i a = true) (j : Nat) :
    heard (s.write Kind.account i a hf) j = if j = i then a.totalListeningTime else heard s j := by
  unfold heard
  rw [Store.get_write_self]
  split <;> rfl

theorem plays_write {i : Nat} {c : Content} (hf : s.free Kind.content i c = true) (j : Nat) :
    plays (s.write Kind.content i c hf) j = if j = i then c.timesPlayed24 else plays s j := by
  unfold plays
  rw [Store.get_write_self]
  split <;> rfl

theorem heard_write_ne {k : Kind} (hk : Kind.account ≠ k) {i : Nat} {a : k.Object}
    (hf : s.free k i a = true) (j : Nat) : heard (s.write k i a hf) j = heard s j := by
  unfold heard
  rw [Store.get_write_ne _ hk]

theorem plays_write_ne {k : Kind} (hk : Kind.content ≠ k) {i : Nat} {a : k.Object}
    (hf : s.free k i a = true) (j : Nat) : plays (s.write k i a hf) j = plays s j := by
  unfold plays
  rw [Store.get_write_ne _ hk]

theorem reported_write_ne {k : Kind} (hk : Kind.report ≠ k) {i : Nat} {a : k.Object}
    (hf : s.free k i a = true) (f : Report → Int) :
    reported (s.write k i a hf) f = reported s f :=
  reported_congr (fun _ => Store.get_write_ne _ hk _ _ _ _) f

end

/-- What a report does to the numbers. -/
structure Reporting (s t : Store chainSchema) (j : Nat) (r : Report) : Prop where
  fresh : s.get Kind.report j = none
  report : ∀ i, t.get Kind.report i = if i = j then some r else s.get Kind.report i
  reported : ∀ f, reported t f = reported s f + f r
  listened : ∀ i, heard t i = if i = r.consumer then u32 (heard s i + r.playTime) else heard s i
  played : ∀ i, plays t i = if i = r.content then u32 (plays s i + 1) else plays s i

theorem plays_keepKey : ∀ (c : Content) (_ : Nat × Nat), chainSchema.SameKey Kind.content c c :=
  Schema.keepsKeyWith chainSchema Kind.content (Nat × Nat)

/-- The three writes of a report. -/
def enterReport (r : Report) : Act n Unit := do
  let _ ← Action.create (S := chainSchema) Kind.report r
  Action.modifyWith (S := chainSchema) Kind.account r.consumer
    (fun a : Account => .ok (u32 (a.totalListeningTime + r.playTime)))
    fun (a : Account) x => { a with totalListeningTime := x }
  Action.modifyWith (S := chainSchema) Kind.content r.content
    (fun c : Content => .ok (u64 (c.timesPlayed + 1), u32 (c.timesPlayed24 + 1)))
    (fun (c : Content) x => { c with timesPlayed := x.1, timesPlayed24 := x.2 }) plays_keepKey

theorem enterReport_ok {r : Report} (hr : (enterReport r : Act n Unit).run d = .ok u d') :
    ∃ j, Reporting d.store d'.store j r := by
  obtain ⟨j, d₁, hcreate, hr⟩ := Action.bind_ok.mp hr
  obtain ⟨_, d₂, hlisten, hplay⟩ := Action.bind_ok.mp hr
  obtain ⟨rfl, hn, hf, e₁⟩ := create_store hcreate
  obtain ⟨a, x, ha, hx, hfa, e₂⟩ := modifyWith_store hlisten
  obtain ⟨c, y, hc, hy, hfc, e₃⟩ := modifyWith_store hplay
  cases hx
  cases hy
  have hnext : ∀ i, heard d₁.store i = heard d.store i ∧ plays d₁.store i = plays d.store i := by
    intro i
    rw [e₁]
    unfold heard plays
    simp only [Store.get_setNextId]
    rw [Store.get_write_ne _ (by decide), Store.get_write_ne _ (by decide)]
    exact ⟨rfl, rfl⟩
  refine ⟨_, hn, fun i => ?_, fun f => ?_, fun i => ?_, fun i => ?_⟩
  · rw [e₃, Store.get_write_ne _ (by decide), e₂, Store.get_write_ne _ (by decide), e₁,
      Store.get_setNextId, Store.get_write_self]
  · rw [e₃, reported_write_ne (by decide), e₂, reported_write_ne (by decide), e₁]
    exact reported_create f hn hf
  · rw [e₃, heard_write_ne (by decide), e₂, heard_write, ← heard_eq ha, (hnext _).1, (hnext _).1]
    split
    · rename_i h
      rw [h]
    · rfl
  · rw [e₃, plays_write, ← plays_eq hc, e₂, plays_write_ne (by decide), plays_write_ne (by decide),
      (hnext _).2, (hnext _).2]
    split
    · rename_i h
      rw [h]
    · rfl

theorem streamingPlatformReport_ok {o : StreamingPlatformReportOp} (hmax : o.playTime ≤ 86400)
    (hr : (streamingPlatformReport o : Act n Unit).run d = .ok u d') :
    ∃ (j : Nat) (r : Report) (c : Content), Reporting d.store d'.store j r ∧
      r.playTime = o.playTime ∧ u64 (o.playTime + heard d.store r.consumer) ≤ 86400 ∧
      d.store.get Kind.content r.content = some c ∧ c.url = o.content := by
  have hshort : u32 o.playTime = o.playTime := Nat.mod_eq_of_lt (by omega)
  unfold streamingPlatformReport at hr
  rw [hshort] at hr
  obtain ⟨consumer, _, _, _, hr⟩ := bind_getAccountId_ok hr
  obtain ⟨a, ha, hr⟩ := bind_getAccount_ok.mp hr
  obtain ⟨hday, hr⟩ := Action.bind_require_ok.mp hr
  obtain ⟨sp, _, _, _, hr⟩ := bind_getRow_ok hr
  obtain ⟨voted, d₁, hvoted, hr⟩ := Action.bind_ok.mp hr
  obtain rfl := (looks_isVotedStreamingPlatform _).of_ok hvoted
  obtain ⟨-, hr⟩ := Action.bind_require_ok.mp hr
  obtain ⟨content, c, hc, hurl, hr⟩ := bind_getContentId_ok hr
  obtain ⟨_, _, hr⟩ := bind_getObject_ok.mp hr
  obtain ⟨-, hr⟩ := Action.bind_require_ok.mp hr
  obtain ⟨p, _, hr⟩ := bind_headBlockTime_ok hr
  rw [← heard_eq ha] at hday
  -- with a playlist creator or without one
  dsimp only at hr
  split at hr
  · obtain ⟨creator, _, _, _, hr⟩ := bind_getAccountId_ok hr
    obtain ⟨j, hreport⟩ := enterReport_ok (r := ⟨sp, consumer, content, p.time, o.playTime,
      some creator⟩) hr
    exact ⟨j, _, c, hreport, rfl, hday, hc, hurl⟩
  · obtain ⟨j, hreport⟩ := enterReport_ok (r := ⟨sp, consumer, content, p.time, o.playTime,
      none⟩) hr
    exact ⟨j, _, c, hreport, rfl, hday, hc, hurl⟩

/-- No report is for a content with as many plays as 32 bits hold. -/
def Countable (s : Store chainSchema) (op : Operation) : Prop :=
  ∀ o, op = .streamingPlatformReport o → ∀ i (c : Content), s.get Kind.content i = some c →
    c.url = o.content → c.timesPlayed24 + 1 < 2 ^ 32

/-- **A report is entered for its account and its content.** -/
theorem Reporting.books {s t : Store chainSchema} {j : Nat} {r : Report} {owed : Nat → Nat}
    (h : Reporting s t j r) (hb : Books counted owed s) (hpos : 0 < r.playTime)
    (hday : r.playTime + heard s r.consumer ≤ 86400)
    (hplay : counted → plays s r.content + 1 < 2 ^ 32) :
    Books counted owed t where
  positive i q hg := by
    rw [h.report] at hg
    split at hg
    · obtain rfl := Option.some.inj hg
      exact hpos
    · exact hb.positive i q hg
  listened i := by
    have hi := hb.listened i
    rw [h.listened, h.reported]
    unfold timeFor at *
    by_cases he : i = r.consumer
    · subst he
      rw [if_pos rfl, if_pos rfl, u32, Nat.mod_eq_of_lt (by omega)]
      omega
    · rw [if_neg he, if_neg fun he' => he he'.symm]
      omega
  daily i := by
    rw [h.listened]
    split
    · rename_i he
      subst he
      rw [u32, Nat.mod_eq_of_lt (by omega)]
      omega
    · exact hb.daily i
  played hc i := by
    have hi := hb.played hc i
    have hplay := hplay hc
    rw [h.played, h.reported]
    unfold playFor at *
    by_cases he : i = r.content
    · subst he
      rw [if_pos rfl, if_pos rfl, u32, Nat.mod_eq_of_lt hplay]
      omega
    · rw [if_neg he, if_neg fun he' => he he'.symm]
      omega
  bounded hc i := by
    rw [h.played]
    split
    · exact Nat.mod_lt _ (by decide)
    · exact hb.bounded hc i

theorem streamingPlatformReport_books [Fc] {o : StreamingPlatformReportOp}
    (hv : (Operation.streamingPlatformReport o).validate = .ok ())
    (hop : counted → Countable d.store (.streamingPlatformReport o)) (hb : Books counted nothing d.store)
    (hr : (streamingPlatformReport o : Act n Unit).run d = .ok u d') : Books counted nothing d'.store := by
  have hlimits : 0 < o.playTime ∧ o.playTime ≤ 86400 := by
    obtain ⟨-, hv⟩ := check_bind_ok.mp hv
    obtain ⟨-, hv⟩ := check_bind_ok.mp hv
    obtain ⟨hpos, hv⟩ := check_bind_ok.mp hv
    exact ⟨hpos, check_ok.mp hv⟩
  obtain ⟨j, r, c, hreport, htime, hday, hc, hurl⟩ := streamingPlatformReport_ok hlimits.2 hr
  have hheard := hb.daily r.consumer
  rw [u64, Nat.mod_eq_of_lt (by omega)] at hday
  refine hreport.books hb (by omega) (by omega) fun hcounted => ?_
  rw [plays_eq hc]
  exact hop hcounted o rfl _ c hc hurl

/-! ## 4. The cashout -/

theorem sub32_eq {a b : Nat} (h : b ≤ a) (ha : a < 2 ^ 32) : sub32 a b = a - b := by
  unfold sub32 u32
  omega

/-- One play of a content is paid for. -/
structure Played (content : Nat) (s t : Store chainSchema) : Prop where
  report : ∀ i, t.get Kind.report i = s.get Kind.report i
  listened : ∀ i, heard t i = heard s i
  played : ∀ i, plays t i = if i = content then sub32 (plays s i) 1 else plays s i

/-- Time that an account listened to is taken off. -/
structure Dropped (consumer time : Nat) (s t : Store chainSchema) : Prop where
  report : ∀ i, t.get Kind.report i = s.get Kind.report i
  listened : ∀ i, heard t i = if i = consumer then sub32 (heard s i) time else heard s i
  played : ∀ i, plays t i = plays s i

section

variable {α β : Type} {content : Nat}

theorem played_after {x : Act n α} {f : α → Act n β} (hx : Steps Unbooked x)
    (hf : ∀ a, Steps (Played content) (f a)) : Steps (Played content) (x >>= f) :=
  hx.comp hf fun s t v h h' => by
    refine ⟨fun i => (h'.report i).trans (h.report i),
      fun i => (h'.listened i).trans (h.listened i), fun i => ?_⟩
    rw [h'.played, h.played]

theorem played_then {x : Act n α} {f : α → Act n β} (hx : Steps (Played content) x)
    (hf : ∀ a, Steps Unbooked (f a)) : Steps (Played content) (x >>= f) :=
  hx.comp hf fun s t v h h' => by
    refine ⟨fun i => (h'.report i).trans (h.report i),
      fun i => (h'.listened i).trans (h.listened i), fun i => ?_⟩
    rw [h'.played, h.played]

theorem played_payToContent (payout : Asset) (platform : Nat) :
    Steps (Played content) (payToContent content payout platform : Act n Asset) := by
  have hcount : Steps (Played content) (Action.modifyWith (S := chainSchema) Kind.content content
      (fun c : Content => .ok (sub32 c.timesPlayed24 1))
      fun (c : Content) x => { c with timesPlayed24 := x } : Act n Unit) := by
    refine ⟨fun {d _ d'} hr => ?_⟩
    obtain ⟨c, x, hc, hx, hf, e⟩ := modifyWith_store hr
    obtain rfl := Except.ok.inj hx
    rw [e]
    refine ⟨fun i => Store.get_write_ne _ (by decide) _ _ _ _, heard_write_ne (by decide) hf,
      fun i => ?_⟩
    rw [plays_write, ← plays_eq hc]
    split
    · rename_i h
      rw [h]
    · rfl
  unfold payToContent
  repeat' first
    | intro _
    | with_reducible exact played_then hcount fun _ => (looks_pure _).steps
    | with_reducible apply steps_ite
    | with_reducible refine played_after (looks_get _ _).steps ?_
    | with_reducible refine played_after (unbooked_steps (l := contentSideParts) ?_ (by decide)) ?_
    | simp +decide

theorem dropped_dropListening (consumer time : Nat) :
    Steps (Dropped consumer time) (dropListening consumer time : Act n Unit) := by
  unfold dropListening
  refine ⟨fun {d _ d'} hr => ?_⟩
  obtain ⟨a, x, ha, hx, hf, e⟩ := modifyWith_store hr
  obtain rfl := Except.ok.inj hx
  rw [e]
  refine ⟨fun i => Store.get_write_ne _ (by decide) _ _ _ _, fun i => ?_,
    plays_write_ne (by decide) hf⟩
  rw [heard_write, ← heard_eq ha]
  split
  · rename_i h
    rw [h]
  · rfl

end

/-- What a list of times adds up to for an account. -/
def owedBy (times : List (Nat × Nat)) (i : Nat) : Nat :=
  ((times.filter fun x => x.1 = i).map (·.2)).sum

theorem owedBy_cons (c t : Nat) (times : List (Nat × Nat)) (i : Nat) :
    owedBy ((c, t) :: times) i = (if c = i then t else 0) + owedBy times i := by
  unfold owedBy
  by_cases h : c = i <;> simp [h]

theorem owedBy_addListening {consumer time : Nat} {times : List (Nat × Nat)}
    (h : owedBy times consumer + time < 2 ^ 32) (i : Nat) :
    owedBy (addListening consumer time times) i =
      owedBy times i + if consumer = i then time else 0 := by
  induction times with
  | nil =>
    unfold addListening
    rw [owedBy_cons]
    omega
  | cons x rest ih =>
    obtain ⟨c, t⟩ := x
    rw [owedBy_cons] at h
    unfold addListening
    split
    · rename_i hc
      subst hc
      rw [if_pos rfl] at h
      rw [owedBy_cons, owedBy_cons, u32, Nat.mod_eq_of_lt (by omega)]
      split <;> omega
    · split
      · rw [owedBy_cons]
        omega
      · rw [owedBy_cons, owedBy_cons, ih (by omega)]
        omega

theorem addListening_positive {consumer time : Nat} {times : List (Nat × Nat)}
    (htime : 0 < time) (h : owedBy times consumer + time < 2 ^ 32) (hpos : ∀ x ∈ times, 0 < x.2) :
    ∀ x ∈ addListening consumer time times, 0 < x.2 := by
  induction times with
  | nil =>
    intro x hx
    rw [List.mem_singleton.mp hx]
    exact htime
  | cons y rest ih =>
    obtain ⟨c, t⟩ := y
    obtain ⟨hy, hrest⟩ := List.forall_mem_cons.mp hpos
    rw [owedBy_cons] at h
    unfold addListening
    split
    · rename_i hc
      rw [if_pos hc] at h
      refine List.forall_mem_cons.mpr ⟨?_, hrest⟩
      simp only [u32]
      rw [Nat.mod_eq_of_lt (by omega)]
      omega
    · split
      · exact List.forall_mem_cons.mpr ⟨htime, hpos⟩
      · exact List.forall_mem_cons.mpr ⟨hy, ih (by omega) hrest⟩

/-- What the loop of the cashout owes: before hardfork 2 it takes the time off at once. -/
def debt (hf2 : Bool) (times : List (Nat × Nat)) : Nat → Nat :=
  if hf2 then owedBy times else nothing

section

variable {hf2 : Bool} {totalPayout paid : Asset} {customers fullTime : Nat}
  {times : List (Nat × Nat)} {res : Asset × List (Nat × Nat)}

theorem cashoutEach_cons_ok {i : Nat} {r : Report} {rest : List (Nat × Report)}
    (hr : (cashoutEach hf2 totalPayout customers fullTime ((i, r) :: rest) (paid, times) :
      Act n (Asset × List (Nat × Nat))).run d = .ok res d') :
    ∃ (reserve paidNow paid' : Asset) (d₁ d₂ d₃ : Database chainSchema),
      payReserve hf2 totalPayout r.playTime (heard d.store r.consumer) customers fullTime =
        .ok reserve ∧
      (payToContent r.content reserve r.streamingPlatform : Act n Asset).run d = .ok paidNow d₁ ∧
      paid.add paidNow = .ok paid' ∧
      (if hf2 then d₂ = d₁ else Dropped r.consumer r.playTime d₁.store d₂.store) ∧
      d₃.store = d₂.store.erase Kind.report i ∧
      (cashoutEach hf2 totalPayout customers fullTime rest
        (paid', addListening r.consumer r.playTime times) :
          Act n (Asset × List (Nat × Nat))).run d₃ = .ok res d' := by
  unfold cashoutEach at hr
  obtain ⟨a, ha, hr⟩ := bind_getAccount_ok.mp hr
  obtain ⟨-, hr⟩ := Action.bind_require_ok.mp hr
  obtain ⟨reserve, hreserve, hr⟩ := Action.bind_lift_ok.mp hr
  obtain ⟨paidNow, d₁, hpay, hr⟩ := Action.bind_ok.mp hr
  obtain ⟨paid', hadd, hr⟩ := Action.bind_lift_ok.mp hr
  rw [← heard_eq ha] at hreserve
  dsimp only at hr
  cases hf2 with
  | true =>
    rw [if_pos rfl] at hr
    obtain ⟨_, d₃, hremove, hr⟩ := Action.bind_ok.mp hr
    obtain ⟨_, _, e⟩ := remove_store hremove
    exact ⟨reserve, paidNow, paid', d₁, d₁, d₃, hreserve, hpay, hadd, if_pos rfl ▸ rfl, e, hr⟩
  | false =>
    rw [if_neg (by decide)] at hr
    obtain ⟨_, d₂, hdrop, hr⟩ := Action.bind_ok.mp hr
    obtain ⟨_, d₃, hremove, hr⟩ := Action.bind_ok.mp hr
    obtain ⟨_, _, e⟩ := remove_store hremove
    exact ⟨reserve, paidNow, paid', d₁, d₂, d₃, hreserve, hpay, hadd,
      (dropped_dropListening _ _).step hdrop, e, hr⟩

/-- **One report that is cashed out**: its play is taken off, and its time is or is owed. -/
theorem Books.cashed {s t₁ t₂ : Store chainSchema} {i : Nat} {r : Report}
    (hb : Books counted (debt hf2 times) s) (hg : s.get Kind.report i = some r)
    (hplayed : Played r.content s t₁)
    (hdropped : if hf2 then t₂ = t₁ else Dropped r.consumer r.playTime t₁ t₂) :
    Books counted (debt hf2 (addListening r.consumer r.playTime times)) (t₂.erase Kind.report i) := by
  obtain ⟨hpos, htime, hplay⟩ := hb.outstanding hg
  have hday := hb.daily r.consumer
  -- neither payment touches a report, and the second none of the plays
  obtain ⟨hreport, hplays⟩ : (∀ j, t₂.get Kind.report j = s.get Kind.report j) ∧
      ∀ j, plays t₂ j = plays t₁ j := by
    cases hf2 with
    | true =>
      obtain rfl : t₂ = t₁ := by simpa using hdropped
      exact ⟨hplayed.report, fun _ => rfl⟩
    | false =>
      have hdropped : Dropped r.consumer r.playTime t₁ t₂ := by simpa using hdropped
      exact ⟨fun j => (hdropped.report j).trans (hplayed.report j), hdropped.played⟩
  have hsum : ∀ f, reported (t₂.erase Kind.report i) f = reported s f - f r := fun f => by
    rw [reported_erase f ((hreport i).trans hg), reported_congr hreport]
  have hheard : ∀ j, heard (t₂.erase Kind.report i) j = heard t₂ j := fun j => by
    unfold heard
    rw [Store.get_erase_ne _ (by decide)]
  have htimes : ∀ j, (heard t₂ j : Int) + debt hf2 times j + timeFor j r =
      heard s j + debt hf2 (addListening r.consumer r.playTime times) j := fun j => by
    cases hf2 with
    | true =>
      obtain rfl : t₂ = t₁ := by simpa using hdropped
      have howed : owedBy times r.consumer + r.playTime < 2 ^ 32 := by
        simp only [debt, if_true] at htime
        omega
      simp only [debt, if_true, owedBy_addListening howed, hplayed.listened]
      unfold timeFor
      split <;> omega
    | false =>
      have hdropped : Dropped r.consumer r.playTime t₁ t₂ := by simpa using hdropped
      simp only [debt, nothing, Bool.false_eq_true, if_false] at htime ⊢
      rw [hdropped.listened, hplayed.listened]
      unfold timeFor
      by_cases hj : j = r.consumer
      · subst hj
        rw [if_pos rfl, if_pos rfl, sub32_eq (by omega) (by omega)]
        omega
      · rw [if_neg hj, if_neg fun hj' => hj hj'.symm]
        omega
  have hcontents : ∀ j, plays (t₂.erase Kind.report i) j =
      if j = r.content then sub32 (plays s j) 1 else plays s j := fun j => by
    rw [← hplayed.played, ← hplays]
    unfold plays
    rw [Store.get_erase_ne _ (by decide)]
  refine ⟨fun j q hq => ?_, fun j => ?_, fun j => ?_, fun hc j => ?_, fun hc j => ?_⟩
  · rw [Store.get_erase_self] at hq
    split at hq
    · cases hq
    · exact hb.positive j q ((hreport j).symm.trans hq)
  · rw [hheard, hsum]
    have hj := hb.listened j
    have hj' := htimes j
    omega
  · rw [hheard]
    have hj := hb.daily j
    cases hf2 with
    | true =>
      obtain rfl : t₂ = t₁ := by simpa using hdropped
      rw [hplayed.listened]
      exact hj
    | false =>
      have hj' := htimes j
      have hnonneg := timeFor_nonneg j r
      simp only [debt, nothing, Bool.false_eq_true, if_false] at hj'
      omega
  · have hj := hb.played hc j
    have hplay := hplay hc
    rw [hcontents, hsum]
    unfold playFor at *
    by_cases he : j = r.content
    · subst he
      rw [if_pos rfl, if_pos rfl, sub32_eq (by omega) (hb.bounded hc _)]
      omega
    · rw [if_neg he, if_neg fun he' => he he'.symm]
      omega
  · rw [hcontents]
    split
    · exact Nat.mod_lt _ (by decide)
    · exact hb.bounded hc j

/-- **The loop over the reports**: the reports that are left are untouched. -/
theorem cashoutEach_books {l : List (Nat × Report)} (rest : List (Nat × Report))
    (hl : ∀ x ∈ l ++ rest, d.store.get Kind.report x.1 = some x.2)
    (hnodup : ((l ++ rest).map (·.1)).Nodup) (hb : Books counted (debt hf2 times) d.store)
    (hpos : hf2 = true → ∀ x ∈ times, 0 < x.2)
    (hr : (cashoutEach hf2 totalPayout customers fullTime l (paid, times) :
      Act n (Asset × List (Nat × Nat))).run d = .ok res d') :
    Books counted (debt hf2 res.2) d'.store ∧ (∀ x ∈ rest, d'.store.get Kind.report x.1 = some x.2) ∧
      (hf2 = true → ∀ x ∈ res.2, 0 < x.2) := by
  induction l generalizing d paid times with
  | nil =>
    cases hr
    exact ⟨hb, hl, hpos⟩
  | cons y l ih =>
    obtain ⟨i, r⟩ := y
    obtain ⟨_, _, paid', d₁, d₂, d₃, -, hpay, -, hdropped, e, hr⟩ := cashoutEach_cons_ok hr
    have hplayed := (played_payToContent _ _).step hpay
    have hg : d.store.get Kind.report i = some r := hl (i, r) List.mem_cons_self
    obtain ⟨hnotin, hnodup⟩ := List.nodup_cons.mp hnodup
    have hkept : ∀ j, d₂.store.get Kind.report j = d.store.get Kind.report j := fun j => by
      cases hf2 with
      | true =>
        obtain rfl : d₂ = d₁ := by simpa using hdropped
        exact hplayed.report j
      | false =>
        have hdropped : Dropped r.consumer r.playTime d₁.store d₂.store := by simpa using hdropped
        exact (hdropped.report j).trans (hplayed.report j)
    have hl₃ : ∀ x ∈ l ++ rest, d₃.store.get Kind.report x.1 = some x.2 := fun x hx => by
      have hne : x.1 ≠ i := fun he => hnotin (List.mem_map.mpr ⟨x, hx, he⟩)
      rw [e, Store.get_erase_self, if_neg hne, hkept]
      exact hl x (List.mem_cons_of_mem _ hx)
    have hb₃ : Books counted (debt hf2 (addListening r.consumer r.playTime times)) d₃.store := by
      rw [e]
      refine hb.cashed hg hplayed ?_
      cases hf2 with
      | true => simpa using congrArg Database.store (show d₂ = d₁ by simpa using hdropped)
      | false => simpa using hdropped
    have hpos₃ : hf2 = true → ∀ x ∈ addListening r.consumer r.playTime times, 0 < x.2 := by
      rintro rfl
      obtain ⟨htime, hsum, -⟩ := hb.outstanding hg
      have hday := hb.daily r.consumer
      refine addListening_positive htime ?_ (hpos rfl)
      simp only [debt, if_true] at hsum
      omega
    exact ih hl₃ hnodup hb₃ hpos₃ hr

end

/-- **The loop over the times that are owed.** -/
theorem settle_books {l : List (Nat × Nat)} (rest : List (Nat × Nat))
    (hb : Books counted (owedBy (l ++ rest)) d.store)
    (hr : (Action.forEach l fun x => dropListening x.1 x.2 : Act n Unit).run d = .ok u d') :
    Books counted (owedBy rest) d'.store := by
  induction l generalizing d with
  | nil =>
    cases hr
    exact hb
  | cons y l ih =>
    obtain ⟨c, t⟩ := y
    obtain ⟨_, d₁, hdrop, hr⟩ := Action.bind_ok.mp hr
    have h := (dropped_dropListening c t).step hdrop
    have hstep : ∀ j, (heard d₁.store j : Int) + owedBy ((c, t) :: (l ++ rest)) j =
        heard d.store j + owedBy (l ++ rest) j := fun j => by
      have hj := hb.listened j
      have hday := hb.daily j
      have hnonneg : 0 ≤ reported d.store (timeFor j) := FMap.sum_nonneg (timeFor_nonneg j)
      rw [List.cons_append, owedBy_cons] at hj
      rw [h.listened, owedBy_cons]
      by_cases he : j = c
      · subst he
        rw [if_pos rfl] at hj ⊢
        rw [if_pos rfl, sub32_eq (by omega) (by omega)]
        omega
      · rw [if_neg he, if_neg fun he' => he he'.symm]
        omega
    refine ih ⟨fun j q hq => hb.positive j q ((h.report j).symm.trans hq), fun j => ?_,
      fun j => ?_, fun hc j => ?_, fun hc j => ?_⟩ hr
    · have hj := hb.listened j
      have hj' := hstep j
      rw [reported_congr h.report]
      rw [List.cons_append] at hj
      omega
    · have hj := hb.daily j
      have hj' := hstep j
      rw [owedBy_cons] at hj'
      omega
    · rw [h.played, reported_congr h.report]
      exact hb.played hc j
    · rw [h.played]
      exact hb.bounded hc j

/-- The reports that are due, in the order in which they were made. -/
def dueReports (s : Store chainSchema) (due : Nat → Bool) : List (Nat × Report) :=
  ((s.rows Kind.report).filter fun r => due r.2.created).insertionSort
    fun a b => a.2.created ≤ b.2.created

theorem mem_dueReports {s : Store chainSchema} {due : Nat → Bool} {x : Nat × Report} :
    x ∈ dueReports s due ↔ s.get Kind.report x.1 = some x.2 ∧ due x.2.created = true := by
  unfold dueReports
  rw [(List.perm_insertionSort _ _).mem_iff, List.mem_filter]
  exact and_congr_left fun _ => FMap.mem_rows

theorem nodup_dueReports (s : Store chainSchema) (due : Nat → Bool) :
    ((dueReports s due).map (·.1)).Nodup := by
  refine ((List.perm_insertionSort _ _).map _).nodup_iff.mpr ?_
  exact (List.filter_sublist.map _).nodup
    (List.pairwise_map.mpr ((s.table Kind.report).map.sorted.imp Nat.ne_of_lt))

theorem bind_dueReports_ok {β : Type} {b : β} {due : Nat → Bool}
    {f : List (Nat × Report) → Act n β} :
    ((dueRows Kind.report (fun r : Report => r.created) due : Act n (List (Nat × Report))) >>=
        f).run d = .ok b d' ↔ (f (dueReports d.store due)).run d = .ok b d' := Iff.rfl

/-- The cashout once the payout of the day is known. -/
def cashoutOf (hf2 : Bool) (now : Nat) (totalPayout : Asset) : Act n Asset := do
  let reports ← dueRows Kind.report (fun r : Report => r.created) fun t => t ≤ now
  let (customers, fullTime) ← countListeners reports ([], 0)
  let due ← dueRows Kind.report (fun r : Report => r.created) fun t => t + 60 * 24 * 60 ≤ now
  let (paid, listeningTimes) ←
    cashoutEach hf2 totalPayout customers.length fullTime due (Asset.muse 0, [])
  if hf2 then Action.forEach listeningTimes fun l => dropListening l.1 l.2
  pure paid

theorem cashoutOf_books (hf2 : Bool) {now : Nat} {totalPayout paid : Asset}
    (hb : Books counted nothing d.store)
    (hr : (cashoutOf hf2 now totalPayout : Act n Asset).run d = .ok paid d') :
    Books counted nothing d'.store := by
  unfold cashoutOf at hr
  replace hr := bind_dueReports_ok.mp hr
  obtain ⟨⟨customers, fullTime⟩, d₁, hcount, hloop⟩ := Action.bind_ok.mp hr
  obtain rfl := (looks_countListeners _ _).of_ok hcount
  replace hloop := bind_dueReports_ok.mp hloop
  obtain ⟨⟨paid', times⟩, d₂, hcash, hrest⟩ := Action.bind_ok.mp hloop
  have hnil : debt hf2 [] = nothing := by
    cases hf2 <;> rfl
  obtain ⟨hb₂, -, -⟩ := cashoutEach_books []
    (fun x hx => (mem_dueReports.mp (List.append_nil _ ▸ hx)).1)
    (by rw [List.append_nil]; exact nodup_dueReports _ _) (hnil ▸ hb)
    (fun _ x hx => by cases hx) hcash
  dsimp only at hrest hb₂
  cases hf2 with
  | true =>
    rw [if_pos rfl] at hrest
    obtain ⟨_, d₃, hsettle, hrest⟩ := Action.bind_ok.mp hrest
    cases hrest
    exact settle_books [] (by rw [List.append_nil]; exact hb₂) hsettle
  | false =>
    rw [if_neg (by decide)] at hrest
    cases hrest
    exact hb₂

/-- **The cashout leaves no debt.** -/
theorem processContentCashout_books {reward paid : Asset} (hb : Books counted nothing d.store)
    (hr : (processContentCashout reward : Act n Asset).run d = .ok paid d') :
    Books counted nothing d'.store := by
  unfold processContentCashout at hr
  obtain ⟨p, _, hr⟩ := bind_headBlockTime_ok hr
  replace hr := bind_hasHardfork_ok hr
  generalize d.store.passed hardfork02 = hf2 at hr
  dsimp only at hr
  cases hf2 with
  | true => exact cashoutOf_books true hb hr
  | false =>
    obtain ⟨totalPayout, d₁, hpayout, hrest⟩ := Action.bind_ok.mp hr
    obtain rfl := looks_getContentReward.of_ok hpayout
    exact cashoutOf_books false hb hrest

/-! ## 5. Every state -/

/-- The books are kept, when they were. -/
def KeepsBooks (counted : Prop) (s t : Store chainSchema) : Prop :=
  Books counted nothing s → Books counted nothing t

instance : IsPreorder (Store chainSchema) (KeepsBooks counted) where
  refl _ := id
  trans _ _ _ h h' := h' ∘ h

theorem books_payBlock : Steps (KeepsBooks counted) (payBlock : Act n Unit) := by
  have hquiet : ∀ {α : Type} {l : List Part} {x : Act n α}, Composed l x →
      (∀ p ∈ l, p.booked = false) → Steps (KeepsBooks counted) x := fun h hl =>
    (unbooked_steps h hl).mono fun _ _ hst hb => hb.unbooked hst
  have hcash : ∀ reward, Steps (KeepsBooks counted) (processContentCashout reward : Act n Asset) := fun _ =>
    ⟨fun hr hb => processContentCashout_books hb hr⟩
  unfold payBlock
  refine looks_getContentReward.steps_bind fun contentReward => ?_
  refine steps_bind (hquiet (l := producerParts) (by simp +decide) (by decide)) fun witnessPay => ?_
  refine looks_headBlockNum.steps_bind fun num => ?_
  dsimp only
  refine steps_ite (fun _ => (looks_pure _).steps_bind fun _ => ?_) fun _ =>
    looks_getVestingReward.steps_bind fun _ => ?_
  all_goals
    refine steps_bind (hquiet (l := supplyParts) (by simp +decide) (by decide)) fun _ => ?_
    refine steps_bind (hquiet (l := conversionParts) (by simp +decide) (by decide)) fun _ => ?_
    refine steps_bind (hcash _) fun _ => ?_
    refine steps_bind (hquiet (l := supplyParts) (by simp +decide) (by decide)) fun _ => ?_
    exact hquiet (l := withdrawalParts) (by simp +decide) (by decide)

theorem ChainStep.books [Fc] {ok : Store chainSchema → Operation → Prop}
    {s t : Store chainSchema} (hok : ∀ {s op}, ok s op → counted → Countable s op)
    (h : ChainStep ok s t) (hb : Books counted nothing s) : Books counted nothing t := by
  cases h with
  | operation clock n push op hv ha hop hr =>
    by_cases hreport : ∃ o, op = .streamingPlatformReport o
    · obtain ⟨o, rfl⟩ := hreport
      exact streamingPlatformReport_books hv (hok hop) hb hr
    · exact hb.unbooked ((unbooked_evaluate ha fun o e => hreport ⟨o, e⟩).step hr)
  | routine n r hr =>
    by_cases hpay : r = .pay
    · subst hpay
      exact books_payBlock.step hr hb
    · exact hb.unbooked ((unbooked_act hpay).step hr)

theorem books_genesis [Fc] {g : GenesisState}
    (h : (initGenesis g).run emptyDatabase = .ok u d) :
    Books counted nothing d.store := by
  have hempty : Books counted nothing emptyStore :=
    ⟨fun _ _ hr => (nomatch hr), fun _ => rfl, fun _ => Nat.zero_le _, fun _ _ => rfl,
      fun _ _ => show 0 < 2 ^ 32 by decide⟩
  exact hempty.unbooked (unbooked_of_changes ((made_initGenesis g).step h) (by decide))

theorem Reached.books [Fc] {ok : Store chainSchema → Operation → Prop} {g : GenesisState}
    {s : Store chainSchema} (hok : ∀ {s op}, ok s op → counted → Countable s op)
    (h : Reached ok g s) : Books counted nothing s :=
  h.invariant books_genesis (ChainStep.books hok)

/-! ## 6. The cashout of a state -/

/-- The accounts with a report that was made by `now`. -/
def listeners (s : Store chainSchema) (now : Nat) : Finset Nat :=
  ((dueReports s fun t => t ≤ now).map fun x => x.2.consumer).toFinset

/-- What they listened to, at most an hour each. -/
def listenedHours (s : Store chainSchema) (now : Nat) : Nat :=
  ∑ i ∈ listeners s now, min (heard s i) 3600

theorem countListeners_ok {l : List (Nat × Report)} {cs : List Nat} {f : Nat}
    {res : List Nat × Nat} (hcs : cs.Nodup)
    (hf : f = u64 (∑ i ∈ cs.toFinset, min (heard d.store i) 3600))
    (hr : (countListeners l (cs, f) : Act n (List Nat × Nat)).run d = .ok res d') :
    res.1.Nodup ∧ res.1.toFinset = cs.toFinset ∪ (l.map fun x => x.2.consumer).toFinset ∧
      res.2 = u64 (∑ i ∈ res.1.toFinset, min (heard d.store i) 3600) := by
  induction l generalizing cs f with
  | nil =>
    cases hr
    exact ⟨hcs, by simp, hf⟩
  | cons y l ih =>
    obtain ⟨i, r⟩ := y
    unfold countListeners at hr
    split at hr
    · rename_i hmem
      obtain ⟨hnodup, hset, hsum⟩ := ih hcs hf hr
      refine ⟨hnodup, hset.trans ?_, hsum⟩
      rw [List.map_cons, List.toFinset_cons, Finset.union_insert,
        Finset.insert_eq_of_mem (Finset.mem_union_left _ (List.mem_toFinset.mpr hmem))]
    · rename_i hnew
      obtain ⟨a, ha, hr⟩ := bind_getAccount_ok.mp hr
      have hnotin : r.consumer ∉ cs.toFinset := fun h => hnew (List.mem_toFinset.mp h)
      have hnext : u64 (f + min a.totalListeningTime 3600) =
          u64 (∑ i ∈ (r.consumer :: cs).toFinset, min (heard d.store i) 3600) := by
        rw [List.toFinset_cons, Finset.sum_insert hnotin, hf, heard_eq ha]
        unfold u64
        omega
      obtain ⟨hnodup, hset, hsum⟩ := ih (List.nodup_cons.mpr ⟨hnew, hcs⟩) hnext hr
      refine ⟨hnodup, hset.trans ?_, hsum⟩
      rw [List.map_cons, List.toFinset_cons, List.toFinset_cons, Finset.insert_union,
        Finset.union_insert]

/-- **The divisors of the cashout**: the listeners, and their time modulo 2 ^ 64. -/
theorem countListeners_count {now : Nat} {res : List Nat × Nat}
    (hr : (countListeners (dueReports d.store fun t => t ≤ now) ([], 0) :
      Act n (List Nat × Nat)).run d = .ok res d') :
    res.1.length = (listeners d.store now).card ∧ res.2 = u64 (listenedHours d.store now) := by
  obtain ⟨hnodup, hset, hsum⟩ := countListeners_ok List.nodup_nil rfl hr
  have hset' : res.1.toFinset = listeners d.store now := by
    rw [hset]
    simp [listeners]
  rw [hset'] at hsum
  exact ⟨by rw [← hset', List.toFinset_card_of_nodup hnodup], hsum⟩

/-- There are listeners when a report is due. -/
theorem Books.divisors {s : Store chainSchema} (hb : Books counted nothing s) {now : Nat}
    (hdue : (dueReports s fun t => t + 60 * 24 * 60 ≤ now) ≠ []) :
    0 < (listeners s now).card ∧ 0 < listenedHours s now := by
  obtain ⟨x, hx⟩ := List.exists_mem_of_ne_nil _ hdue
  obtain ⟨hg, hmade⟩ := mem_dueReports.mp hx
  have hmade : x.2.created + 60 * 24 * 60 ≤ now := of_decide_eq_true hmade
  have hmem : x.2.consumer ∈ listeners s now := by
    unfold listeners
    rw [List.mem_toFinset]
    exact List.mem_map.mpr ⟨x, mem_dueReports.mpr ⟨hg, decide_eq_true (by omega)⟩, rfl⟩
  obtain ⟨hpos, htime, -⟩ := hb.outstanding hg
  refine ⟨Finset.card_pos.mpr ⟨_, hmem⟩, ?_⟩
  calc 0 < min (heard s x.2.consumer) 3600 := by omega
    _ ≤ listenedHours s now :=
      Finset.single_le_sum (f := fun i => min (heard s i) 3600) (fun _ _ => Nat.zero_le _) hmem

/-- What the cashout finds in a state. -/
structure CashesOut (s : Store chainSchema) : Prop where
  /-- At each report the assertion holds, and neither number that is taken down is too small. -/
  report : ∀ {n : Nat} {d d₁ : Database chainSchema} {hf2 : Bool} {payout : Asset}
    {customers fullTime : Nat} {due : Nat → Bool} {l l' : List (Nat × Report)} {i : Nat}
    {r : Report} {res : Asset × List (Nat × Nat)}, d.store = s →
    dueReports s due = l ++ (i, r) :: l' →
    (cashoutEach hf2 payout customers fullTime l (Asset.muse 0, []) :
      Act n (Asset × List (Nat × Nat))).run d = .ok res d₁ →
    ∃ (a : Account) (c : Content), d₁.store.get Kind.account r.consumer = some a ∧
      0 < a.totalListeningTime ∧ r.playTime ≤ a.totalListeningTime ∧
      d₁.store.get Kind.content r.content = some c ∧ 0 < c.timesPlayed24
  /-- Nor is one of those that are taken down after hardfork 2. -/
  settled : ∀ {n : Nat} {d d₁ d₂ : Database chainSchema} {payout paid : Asset}
    {customers fullTime : Nat} {due : Nat → Bool} {l l' : List (Nat × Nat)} {i time : Nat}
    {u : Unit}, d.store = s →
    (cashoutEach true payout customers fullTime (dueReports s due) (Asset.muse 0, []) :
      Act n (Asset × List (Nat × Nat))).run d = .ok (paid, l ++ (i, time) :: l') d₁ →
    (Action.forEach l fun x => dropListening x.1 x.2 : Act n Unit).run d₁ = .ok u d₂ →
    ∃ a : Account, d₂.store.get Kind.account i = some a ∧ time ≤ a.totalListeningTime
  /-- The divisors: the listeners, and their time modulo 2 ^ 64. -/
  counted : ∀ {n : Nat} {d d₁ : Database chainSchema} {now fullTime : Nat}
    {customers : List Nat}, d.store = s →
    (countListeners (dueReports s fun t => t ≤ now) ([], 0) : Act n (List Nat × Nat)).run d =
      .ok (customers, fullTime) d₁ →
    customers.length = (listeners s now).card ∧ fullTime = u64 (listenedHours s now) ∧
      (u32 customers.length ≠ 0 ↔ ¬2 ^ 32 ∣ (listeners s now).card) ∧
      (u32 fullTime ≠ 0 ↔ ¬2 ^ 32 ∣ listenedHours s now)
  /-- There are some when a report is due. -/
  divisors : ∀ {now : Nat}, (dueReports s fun t => t + 60 * 24 * 60 ≤ now) ≠ [] →
    0 < (listeners s now).card ∧ 0 < listenedHours s now

theorem Books.cashesOut {s : Store chainSchema} (hb : Books True nothing s) : CashesOut s where
  report := by
    rintro n d d₁ hf2 payout customers fullTime due l l' i r res rfl hdue hr
    have hnil : debt hf2 [] = nothing := by
      cases hf2 <;> rfl
    obtain ⟨hb₁, hrest, -⟩ := cashoutEach_books ((i, r) :: l')
      (fun x hx => (mem_dueReports.mp (hdue ▸ hx)).1) (hdue ▸ nodup_dueReports _ _) (hnil ▸ hb)
      (fun _ x hx => by cases hx) hr
    have hg : d₁.store.get Kind.report i = some r := hrest (i, r) List.mem_cons_self
    obtain ⟨hpos, htime, hplay⟩ := hb₁.outstanding hg
    have hplay := hplay trivial
    obtain ⟨a, ha, hat⟩ := heard_some (s := d₁.store) (i := r.consumer) (by omega)
    obtain ⟨c, hc, hct⟩ := plays_some hplay
    exact ⟨a, c, ha, by omega, by omega, hc, by omega⟩
  settled := by
    rintro n d d₁ d₂ payout paid customers fullTime due l l' i time u rfl hr hsettle
    have hb₀ : Books True (debt true []) d.store := hb
    obtain ⟨hb₁, -, hpos⟩ := cashoutEach_books []
      (fun x hx => (mem_dueReports.mp (List.append_nil _ ▸ hx)).1)
      (by rw [List.append_nil]; exact nodup_dueReports _ _) hb₀ (fun _ x hx => by cases hx) hr
    have htime : 0 < time := hpos rfl (i, time) (by simp)
    have hb₂ : Books True (owedBy ((i, time) :: l')) d₂.store := settle_books _ hb₁ hsettle
    have hi := hb₂.listened i
    have hnonneg : 0 ≤ reported d₂.store (timeFor i) := FMap.sum_nonneg (timeFor_nonneg i)
    rw [owedBy_cons, if_pos rfl] at hi
    obtain ⟨a, ha, hat⟩ := heard_some (s := d₂.store) (i := i) (by omega)
    exact ⟨a, ha, by omega⟩
  counted := by
    rintro n d d₁ now fullTime customers rfl hr
    obtain ⟨hcard, htime⟩ := countListeners_count hr
    refine ⟨hcard, htime, ?_, ?_⟩
    · rw [show customers.length = (listeners d.store now).card from hcard]
      unfold u32
      omega
    · rw [show fullTime = u64 (listenedHours d.store now) from htime]
      unfold u32 u64
      omega
  divisors := hb.divisors

/-- The books as the accounts and contents have them. -/
structure Audited (s : Store chainSchema) : Prop where
  listened : ∀ i (a : Account), s.get Kind.account i = some a →
    (a.totalListeningTime : Int) = reported s (timeFor i) ∧ a.totalListeningTime ≤ 86400
  played : ∀ i (c : Content), s.get Kind.content i = some c →
    (c.timesPlayed24 : Int) = reported s (playFor i)
  cashout : CashesOut s

/-- **The books agree with the reports in every state attained over unspoilt attempts**, and where a
block comes to its cashout, as long as no content has 2 ^ 32 of them. -/
theorem listening_audited [Fc] {g : GenesisState} {d : Database chainSchema}
    {t : Store chainSchema} (hd : Attained Countable Unspoilt g d) (ht : Unbooked d.store t) :
    Audited t := by
  have hb : Books True nothing t := (hd.reached.books fun hop _ => hop).unbooked ht
  refine ⟨fun i a ha => ?_, fun i c hc => ?_, hb.cashesOut⟩
  · have hi := hb.listened i
    have hday := hb.daily i
    rw [heard_eq ha] at hi hday
    exact ⟨hi.trans (add_zero _), hday⟩
  · have hi := hb.played trivial i
    rw [plays_eq hc] at hi
    exact hi

end MuseChain
