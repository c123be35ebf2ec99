/-
  File:      MuseChain/Safety/Tokens.lean
  Subject:   Assets of the users: the supply that is counted is what is held.

  * `Store.counted z`: the supply that the object of an asset counts.
  * `TokenFlow g s t`: a step that moves what is held less what is counted by `g`, in every asset
    that the accounts have no field for, and leaves no balance below zero. Flows add up.
  * Market, payouts and transfers are flows of zero (`TokenStill`); issuing and burning move both
    sides.
  * **`tokens_conserved`**: every state reached counts what is held.
-/
import MuseChain.Safety.Matching
import MuseChain.Safety.Tallies
import MuseChain.Safety.ChainRuns
import MuseChain.Safety.Votes

namespace MuseChain

variable {n : Nat}

/-! ## 1. Flows of assets -/

/-- The supply that the object of an asset counts. -/
def Store.counted (s : Store chainSchema) (z : Nat) : Int :=
  FMap.part (fun a : AssetObject => a.currentSupply) (s.get Kind.asset z)

/-- MUSE and MBD, which the accounts have fields for. -/
def coreSymbol (z : Nat) : Prop := z = museSymbol ∨ z = mbdSymbol

/-- A balance that is not below zero. -/
def AccountBalance.Solvent (b : AccountBalance) : Prop := 0 ≤ b.balance

/-- What a genesis leaves to be claimed is MUSE. -/
def Balance.InMuse (b : Balance) : Prop := b.balance.assetId = museSymbol

/-- What is held less what is counted has moved by `g`; no balance has come below zero, and nothing
but MUSE is left to be claimed. -/
structure TokenFlow (g : Nat → Int) (s t : Store chainSchema) : Prop where
  gap : ∀ z, ¬coreSymbol z → t.weight (heldWeight z) - t.counted z =
    s.weight (heldWeight z) - s.counted z + g z
  solvent : Upholds Kind.accountBalance AccountBalance.Solvent s t
  claims : Upholds Kind.balance Balance.InMuse s t

/-- Neither the holdings nor the supply move against each other. -/
def TokenStill : Store chainSchema → Store chainSchema → Prop := TokenFlow fun _ => 0

section

variable {g g' : Nat → Int} {s t u : Store chainSchema}

theorem TokenFlow.trans (h : TokenFlow g s t) (h' : TokenFlow g' t u) :
    TokenFlow (fun z => g z + g' z) s u := by
  refine ⟨fun z hz => ?_, trans_of _ h.solvent h'.solvent, trans_of _ h.claims h'.claims⟩
  rw [h'.gap z hz, h.gap z hz]
  omega

theorem TokenFlow.of_eq (h : TokenFlow g s t) (hg : ∀ z, ¬coreSymbol z → g z = g' z) :
    TokenFlow g' s t :=
  ⟨fun z hz => by rw [h.gap z hz, hg z hz], h.solvent, h.claims⟩

theorem tokenStill_refl (s : Store chainSchema) : TokenStill s s :=
  ⟨fun _ _ => (add_zero _).symm, refl_of _ s, refl_of _ s⟩

instance : IsPreorder (Store chainSchema) TokenStill where
  refl := tokenStill_refl
  trans _ _ _ h h' := (h.trans h').of_eq fun _ _ => add_zero 0

end

section

variable {α β : Type} {g g' : Nat → Int}

theorem Steps.tokenFlow {x : Act n α} {f : α → Act n β} (hx : Steps (TokenFlow g) x)
    (hf : ∀ a, Steps (TokenFlow g') (f a)) : Steps (TokenFlow fun z => g z + g' z) (x >>= f) :=
  hx.comp hf fun _ _ _ => TokenFlow.trans

/-- A flow of nothing that is not in MUSE or MBD. -/
theorem Steps.tokenStill {x : Act n α} (hx : Steps (TokenFlow g) x)
    (hg : ∀ z, ¬coreSymbol z → g z = 0) : Steps TokenStill x :=
  hx.mono fun _ _ h => h.of_eq hg

end

/-! ## 2. Programs that write elsewhere -/

/-- The parts that holdings and supplies are in. -/
def Part.token : Part → Bool
  | .made .accountBalance | .gone .accountBalance | .whole .accountBalance | .made .limitOrder
  | .gone .limitOrder | .whole .limitOrder | .gone .asset | .asset .supply | .made .balance
  | .gone .balance | .whole .balance => true
  | _ => false

/-- The parts that are left to be claimed. -/
def Part.claim : Part → Bool
  | .made .balance | .gone .balance | .whole .balance => true
  | _ => false

section

variable {l : List Part} {s t : Store chainSchema} (h : Obeys (changes l) s t)

include h

/-- New assets are not issued yet. -/
theorem counted_eq (hgone : Part.gone .asset ∉ l) (hsupply : Part.asset .supply ∉ l) (z : Nat) :
    t.counted z = s.counted z := by
  unfold Store.counted
  rcases changes_cases (h Kind.asset z) hgone with
    ⟨a, b, ha, hb, hab⟩ | ⟨ha, hb⟩ | ⟨a, b, ha, hb, _, hblank, hab⟩
  · have hsame : a.currentSupply = b.currentSupply := (hab .supply).resolve_left hsupply
    rw [ha, hb]
    exact hsame.symm
  · rw [ha, hb]
  · have hsame : a.currentSupply = b.currentSupply := (hab .supply).resolve_left hsupply
    rw [ha, hb]
    exact hsame.symm.trans hblank

theorem solvent_of_changes (hm : Part.made .accountBalance ∉ l)
    (hg : Part.gone .accountBalance ∉ l) (hw : Part.whole .accountBalance ∉ l) :
    Upholds Kind.accountBalance AccountBalance.Solvent s t :=
  Untouched.upholds (funext fun _ => get_of_unchanged h hm hg fun _ _ hab => Or.resolve_left hab hw)

theorem claims_of_changes (hm : Part.made .balance ∉ l) (hg : Part.gone .balance ∉ l)
    (hw : Part.whole .balance ∉ l) : Upholds Kind.balance Balance.InMuse s t :=
  Untouched.upholds (funext fun _ => get_of_unchanged h hm hg fun _ _ hab => Or.resolve_left hab hw)

/-- What is written to nothing but claims and elsewhere moves no asset. -/
theorem tokenStill_of_claims (hl : ∀ p ∈ l, p.token = true → p.claim = true)
    (hclaims : Upholds Kind.balance Balance.InMuse s t) : TokenStill s t := by
  have hn : ∀ {p : Part}, p.token = true → p.claim = false → p ∉ l := fun ht hc hm => by
    rw [hl _ hm ht] at hc
    cases hc
  refine ⟨fun z hz => ?_, solvent_of_changes h (hn rfl rfl) (hn rfl rfl) (hn rfl rfl), hclaims⟩
  have hweight : t.weight (heldWeight z) = s.weight (heldWeight z) := by
    refine Store.weight_congr fun k i => ?_
    have hzero : ∀ a : Account, heldWeight z Kind.account a = 0 := fun a => by
      simp only [heldWeight]
      rw [if_neg fun e => hz (.inl e), if_neg fun e => hz (.inr e), add_zero]
    cases k with
    | account =>
      have hpart : ∀ o : Option Account, FMap.part (heldWeight z Kind.account) o = 0 := fun o => by
        cases o with
        | none => rfl
        | some a => exact hzero a
      exact (hpart _).trans (hpart _).symm
    | accountBalance =>
      exact congrArg _ (get_of_unchanged (k := Kind.accountBalance) h (hn rfl rfl) (hn rfl rfl)
        fun _ _ hab => Or.resolve_left hab (hn rfl rfl))
    | limitOrder =>
      exact congrArg _ (get_of_unchanged (k := Kind.limitOrder) h (hn rfl rfl) (hn rfl rfl)
        fun _ _ hab => Or.resolve_left hab (hn rfl rfl))
    | _ => exact (part_zero _).trans (part_zero _).symm
  rw [hweight, counted_eq h (hn rfl rfl) (hn rfl rfl), add_zero]

/-- **What is written elsewhere moves no asset.** -/
theorem tokenStill_of_changes (hl : ∀ p ∈ l, p.token = false) : TokenStill s t := by
  have hn : ∀ {p : Part}, p.token = true → p ∉ l := fun hp hm => by
    rw [hl _ hm] at hp
    cases hp
  refine tokenStill_of_claims h (fun p hp ht => ?_)
    (claims_of_changes h (hn rfl) (hn rfl) (hn rfl))
  rw [hl p hp] at ht
  cases ht

end

theorem Composed.tokenStill {l : List Part} {α : Type} {x : Act n α} (h : Composed l x)
    (hl : ∀ p ∈ l, p.token = false) : Steps TokenStill x :=
  h.steps.mono fun _ _ h => tokenStill_of_changes h hl

theorem Composed.solvent {l : List Part} {α : Type} {x : Act n α} (h : Composed l x)
    (hm : Part.made .accountBalance ∉ l) (hg : Part.gone .accountBalance ∉ l)
    (hw : Part.whole .accountBalance ∉ l) :
    Steps (Upholds Kind.accountBalance AccountBalance.Solvent) x :=
  h.steps.mono fun _ _ h => solvent_of_changes h hm hg hw

/-- A movement of purses is a flow, when the supplies stay. -/
theorem Transfers.tokenFlow {f : Nat → Nat → Int} {g : Nat → Int} {s t : Store chainSchema}
    (h : Transfers f g s t) (hfill : Obeys (changes fillParts) s t)
    (hb : Upholds Kind.accountBalance AccountBalance.Solvent s t) : TokenFlow g s t := by
  refine ⟨fun z hz => ?_, hb, claims_of_changes hfill (by decide) (by decide) (by decide)⟩
  have hs := h.surplus z
  unfold MuseChain.surplus at hs
  rw [if_neg fun e => hz (.inr e), if_neg fun e => hz (.inr e)] at hs
  rw [counted_eq hfill (by decide) (by decide)]
  omega

/-! ## 3. Balances -/

theorem solvent_adjustAssetBalance (acc : Nat) (delta : Asset) :
    Steps (Upholds Kind.accountBalance AccountBalance.Solvent)
      (adjustAssetBalance acc delta : Act n Unit) := by
  refine ⟨fun {d u d'} hr => ?_⟩
  unfold adjustAssetBalance at hr
  split at hr
  · cases hr
    exact refl_of _ _
  · have hr := bind_findRow_ok.mp hr
    split at hr
    · obtain ⟨hpos, hr⟩ := Action.bind_require_ok.mp hr
      obtain ⟨i, d₁, h1, hr⟩ := Action.bind_ok.mp hr
      cases hr
      exact (upholds_create (P := AccountBalance.Solvent) hpos.le).step h1
    · rename_i i b hfind
      have hg : d.store.get Kind.accountBalance i = some b :=
        FMap.mem_rows.mp (List.mem_of_find?_eq_some hfind)
      -- what is left of the balance, with or without the check
      have hmodify : ∀ {u'}, (0 ≤ b.balance → 0 ≤ b.balance + delta.amount) →
          (Action.modifyWith (S := chainSchema) Kind.accountBalance i
            (fun b : AccountBalance => safe (b.balance + delta.amount))
            (fun (b : AccountBalance) x => { b with balance := x }) : Act n Unit).run d =
              .ok u' d' →
          Upholds Kind.accountBalance AccountBalance.Solvent d.store d'.store := by
        intro u' hleft hr
        obtain ⟨b', x, hg', hx, hf, e⟩ := modifyWith_store hr
        obtain rfl : b = b' := Option.some.inj (hg.symm.trans hg')
        obtain ⟨rfl, _⟩ := safe_ok.mp hx
        intro hs
        rw [e]
        exact upholds_write hf (fun hs => hleft (hs i b hg)) hs
      split at hr
      · obtain ⟨need, hneed, hr⟩ := Action.bind_lift_ok.mp hr
        obtain ⟨rfl, _⟩ := safe_ok.mp hneed
        obtain ⟨hle, hr⟩ := Action.bind_require_ok.mp hr
        exact hmodify (fun _ => by omega) hr
      · exact hmodify (fun _ => by omega) hr

@[simp] theorem solvent_adjustBalance (acc : Nat) (delta : Asset) :
    Steps (Upholds Kind.accountBalance AccountBalance.Solvent)
      (adjustBalance acc delta : Act n Unit) := by
  unfold adjustBalance
  refine steps_ite (fun _ => ?_) fun _ => steps_ite (fun _ => ?_) fun _ => ?_
  · exact (composed_adjustMuseBalance (l := [.account .muse]) acc delta (by decide)).solvent
      (by decide) (by decide) (by decide)
  · exact (composed_adjustMbdBalance (l := [.account .mbd, .props .supply]) acc delta
      (by decide)).solvent (by decide) (by decide) (by decide)
  · exact solvent_adjustAssetBalance acc delta

/-- **A change of a balance is a flow of it.** -/
theorem tokenFlow_adjustBalance (acc : Nat) (delta : Asset) :
    Steps (TokenFlow delta.of) (adjustBalance acc delta : Act n Unit) := by
  refine ⟨fun {d u d'} hr => ?_⟩
  exact ((moves_adjustBalance acc delta).step hr).tokenFlow
    ((composed_adjustBalance acc delta (by decide)).steps.step hr)
    ((solvent_adjustBalance acc delta).step hr)

theorem Asset.of_core {a : Asset} (h : coreSymbol a.assetId) (z : Nat) (hz : ¬coreSymbol z) :
    a.of z = 0 :=
  if_neg fun e : z = a.assetId => hz (e ▸ h)

/-- MUSE and MBD are no assets of the users. -/
theorem tokenStill_adjustBalance (acc : Nat) {delta : Asset} (h : coreSymbol delta.assetId) :
    Steps TokenStill (adjustBalance acc delta : Act n Unit) :=
  (tokenFlow_adjustBalance acc delta).tokenStill (Asset.of_core h)

theorem tokenFlow_changeAssetSupply (i : Nat) (delta : Int) :
    Steps (TokenFlow fun z => -(⟨delta, i⟩ : Asset).of z)
      (changeAssetSupply i delta : Act n Unit) := by
  refine ⟨fun {d u d'} hr => ?_⟩
  obtain ⟨a, x, hg, hx, hf, e⟩ := modifyWith_store hr
  obtain ⟨rfl, _⟩ := safe_ok.mp hx
  have hchanges := (composed_changeAssetSupply (l := [.asset .supply]) i delta
    (by decide)).steps.step hr
  refine ⟨fun z _ => ?_, solvent_of_changes hchanges (by decide) (by decide) (by decide),
    claims_of_changes hchanges (by decide) (by decide) (by decide)⟩
  rw [e, Store.weight_write _ _ _ _ hg]
  unfold Store.counted Asset.of
  rw [Store.get_write_self]
  simp only [heldWeight]
  split
  · rename_i hz
    subst hz
    rw [hg]
    show _ - (a.currentSupply + delta) = _ - a.currentSupply + -delta
    omega
  · omega

/-! ## 4. Fees and payouts -/

section

variable {d d' : Database chainSchema} {u : Unit}

/-- Only MUSE and MBD have a supply that is adjusted. -/
theorem adjustSupply_core {delta : Asset} {b : Bool}
    (h : (adjustSupply delta b : Act n Unit).run d = .ok u d') : coreSymbol delta.assetId := by
  unfold adjustSupply modifyDgp at h
  obtain ⟨p, _, h⟩ := bind_getDgp_ok.mp h
  obtain ⟨feed, _, h⟩ := bind_getFeedHistory_ok.mp h
  obtain ⟨q, x, _, hx, _⟩ := modifyWith_store h
  split at hx
  · rename_i hm
    exact .inl hm
  · split at hx
    · rename_i hb
      exact .inr hb
    · cases hx

theorem tokenStill_adjustSupply (delta : Asset) (b : Bool) :
    Steps TokenStill (adjustSupply delta b : Act n Unit) :=
  (composed_adjustSupply (l := [.props .supply, .props .fund]) delta b (by decide)).tokenStill
    (by decide)

theorem tokenStill_createVesting (acc : Nat) (muse : Asset) :
    Steps TokenStill (createVesting acc muse : Act n Asset) :=
  (composed_createVesting (l := vestingParts) acc muse (by decide)).tokenStill (by decide)

/-- A fee is taken from the supply of its asset, which must have one. -/
theorem tokenStill_payFee (acc : Nat) (fee : Asset) :
    Steps TokenStill (payFee acc fee : Act n Unit) := by
  refine ⟨fun {d u d'} h => ?_⟩
  obtain ⟨_, h⟩ := Action.bind_require_ok.mp h
  split at h
  · cases h
    exact refl_of _ _
  · obtain ⟨neg, _, h⟩ := Action.bind_lift_ok.mp h
    obtain ⟨_, d₁, h1, h2⟩ := Action.bind_ok.mp h
    have hpaid := (tokenStill_adjustBalance acc (adjustSupply_core h2)).step h1
    exact trans_of TokenStill hpaid ((tokenStill_adjustSupply _ _).step h2)

theorem tokenStill_createMbd (acc : Nat) {muse : Asset} (hm : coreSymbol muse.assetId) :
    Steps TokenStill (createMbd acc muse : Act n Asset) := by
  refine ⟨fun {d a d'} h => ?_⟩
  unfold createMbd at h
  split at h
  · cases h
    exact refl_of _ _
  · obtain ⟨feed, _, h⟩ := bind_getFeedHistory_ok.mp h
    split at h
    · obtain ⟨_, d₁, h1, h⟩ := Action.bind_ok.mp h
      cases h
      exact (tokenStill_adjustBalance acc hm).step h1
    · obtain ⟨mbd, _, h⟩ := Action.bind_lift_ok.mp h
      obtain ⟨_, d₁, h1, h⟩ := Action.bind_ok.mp h
      obtain ⟨neg, _, h⟩ := Action.bind_lift_ok.mp h
      obtain ⟨_, d₂, h2, h⟩ := Action.bind_ok.mp h
      obtain ⟨_, d₃, h3, h⟩ := Action.bind_ok.mp h
      cases h
      -- what was credited has a supply too
      have hpaid := (tokenStill_adjustBalance acc (adjustSupply_core h3)).step h1
      have hburnt := (tokenStill_adjustSupply _ _).step h2
      exact trans_of TokenStill (trans_of TokenStill hpaid hburnt)
        ((tokenStill_adjustSupply _ _).step h3)

theorem tokenStill_payDistributions {toPay : Asset} (hp : coreSymbol toPay.assetId)
    (l : List Distribution) (totalPaid : Asset) :
    Steps TokenStill (payDistributions toPay l totalPaid : Act n Asset) := by
  induction l generalizing totalPaid with
  | nil => exact (looks_pure _).steps
  | cons di rest ih =>
    unfold payDistributions
    refine steps_bind (by simp) fun x => steps_bind (by simp) fun y => ?_
    refine steps_bind (by simp) fun paid => steps_bind (by simp) fun vesting => ?_
    refine steps_bind (by simp) fun author => ?_
    refine steps_bind (tokenStill_createVesting _ _) fun _ => ?_
    exact steps_bind (tokenStill_createMbd _ hp) fun _ => ih paid

theorem tokenStill_payToContentSide (side : ContentSide) (content : Nat) {payout : Asset}
    (hp : coreSymbol payout.assetId) :
    Steps TokenStill (payToContentSide side content payout : Act n Unit) := by
  have hwrite : ∀ {x : Act n Unit}, Composed [.content .accumulated] x → Steps TokenStill x :=
    fun h => h.tokenStill (by decide)
  have hside : ∀ (c : Content) (x : Asset),
      Same [.content .accumulated] Kind.content c (side.setAccumulated c x) := by
    intro c x f
    cases side <;> cases f <;> simp +decide [ContentSide.setAccumulated]
  unfold payToContentSide
  refine steps_bind (looks_get _ _).steps fun co => steps_ite (fun _ => ?_) fun _ => ?_
  · exact hwrite (composed_modifyWith fun c x => hside c x)
  · refine steps_bind (by simp) fun hf2 => ?_
    have hsum : ∀ {a b : Asset}, payout.add a = .ok b → coreSymbol b.assetId := fun h => by
      obtain ⟨_, rfl⟩ := Asset.add_ok h
      exact hp
    refine steps_join_of (P := fun toPay : Asset => coreSymbol toPay.assetId)
      (fun toPay hpay => ?_) fun _ hj => steps_ite
        (fun _ => steps_bind_lift fun toPay htoPay => hj _ (hsum htoPay)) fun _ => hj _ hp
    refine steps_bind (tokenStill_payDistributions hpay _ _) fun totalPaid => ?_
    refine steps_bind (by simp) fun _ => steps_bind (by simp) fun rest => ?_
    refine steps_ite (fun _ => ?_) fun _ => ?_
    · refine steps_bind (looks_get _ _).steps fun c => steps_ite (fun _ => ?_) fun _ => by simp
      exact hwrite (composed_modify fun c => hside c rest)
    · refine steps_ite (fun _ => ?_) fun _ => by simp
      exact hwrite (composed_modifyWith fun c x => hside c x)

theorem tokenStill_payToPlatform (platform : Nat) (payout : Asset) :
    Steps TokenStill (payToPlatform platform payout : Act n Unit) := by
  unfold payToPlatform
  refine steps_bind (looks_get _ _).steps fun pl => steps_bind (by simp) fun owner => ?_
  refine steps_bind (by simp) fun vesting => steps_bind (tokenStill_createVesting _ _) fun _ => ?_
  exact steps_bind (tokenStill_createMbd _ (.inl rfl)) fun _ => by simp

/-- What is paid is added to an amount of MUSE, so it is MUSE. -/
theorem tokenStill_payToContent (content : Nat) (payout : Asset) (platform : Nat) :
    Steps TokenStill (payToContent content payout platform : Act n Asset) := by
  unfold payToContent
  refine steps_bind (by simp) fun hf2 => steps_ite
    (fun _ => steps_bind (by simp) fun payout => ?_) fun _ => steps_bind (by simp) fun _ =>
      steps_bind (by simp) fun _ => steps_bind (by simp) fun payout => ?_
  all_goals
    refine steps_bind (looks_get _ _).steps fun co => steps_bind (by simp) fun platformAmount => ?_
    refine steps_bind (by simp) fun left => steps_bind (by simp) fun compAmount => ?_
    refine steps_bind_lift fun master hmaster => ?_
    obtain ⟨_, rfl⟩ := Asset.sub_ok hmaster
    refine ⟨fun {d a d'} h => ?_⟩
    obtain ⟨_, d₁, h1, h⟩ := Action.bind_ok.mp h
    obtain ⟨_, d₂, h2, h⟩ := Action.bind_ok.mp h
    obtain ⟨_, d₃, h3, h⟩ := Action.bind_ok.mp h
    obtain ⟨paid, hpaid, h⟩ := Action.bind_lift_ok.mp h
    obtain ⟨hsame, _⟩ := Asset.add_ok hpaid
    have hmuse : ∀ x, coreSymbol (⟨x, payout.assetId⟩ : Asset).assetId := fun _ => .inl hsame.symm
    have hm := (tokenStill_payToContentSide .master content (hmuse _)).step h1
    have hc := (tokenStill_payToContentSide .comp content (hmuse _)).step h2
    have hp := (tokenStill_payToPlatform platform _).step h3
    obtain ⟨_, _, h⟩ := Action.bind_lift_ok.mp h
    obtain ⟨_, _, h⟩ := Action.bind_lift_ok.mp h
    obtain ⟨_, d₄, h4, h⟩ := Action.bind_ok.mp h
    cases h
    have hplays := (Composed.tokenStill (l := [.content .plays])
      (composed_modifyWith fun _ _ f => by cases f <;> simp +decide) (by decide)).step h4
    exact trans_of TokenStill (trans_of TokenStill hm hc) (trans_of TokenStill hp hplays)

theorem tokenStill_cashoutEach (hf2 : Bool) (totalPayout : Asset) (customers fullTime : Nat)
    (l : List (Nat × Report)) (acc : Asset × List (Nat × Nat)) :
    Steps TokenStill (cashoutEach hf2 totalPayout customers fullTime l acc :
      Act n (Asset × List (Nat × Nat))) := by
  induction l generalizing acc with
  | nil => exact (looks_pure _).steps
  | cons r rest ih =>
    unfold cashoutEach
    refine steps_bind (by simp) fun consumer => steps_bind (by simp) fun _ => ?_
    refine steps_bind (by simp) fun reserve => ?_
    refine steps_bind (tokenStill_payToContent _ _ _) fun paidNow => ?_
    refine steps_bind (by simp) fun paid => ?_
    have hremove : Composed [.account .listening, .gone .report]
        (Action.remove (S := chainSchema) Kind.report r.1 : Act n Unit) := .remove (by decide)
    have hrest : ∀ x, Steps TokenStill (do
        Action.remove (S := chainSchema) Kind.report r.1
        cashoutEach hf2 totalPayout customers fullTime rest x : Act n (Asset × List (Nat × Nat))) :=
      fun x => steps_bind (hremove.tokenStill (by decide)) fun _ => ih x
    refine steps_ite (fun _ => hrest _) fun _ => steps_bind ?_ fun _ => hrest _
    exact (composed_dropListening (l := [.account .listening]) _ _ (by decide)).tokenStill
      (by decide)

theorem tokenStill_processContentCashout (contentReward : Asset) :
    Steps TokenStill (processContentCashout contentReward : Act n Asset) := by
  have hdrop : ∀ l : List (Nat × Nat), Steps TokenStill
      (Action.forEach l fun l => dropListening l.1 l.2 : Act n Unit) := fun l =>
    steps_forEach fun b => (composed_dropListening (l := [.account .listening]) b.1 b.2
      (by decide)).tokenStill (by decide)
  unfold processContentCashout
  refine steps_bind (by simp) fun now => steps_bind (by simp) fun hf2 => ?_
  refine steps_ite (fun _ => steps_bind (by simp) fun totalPayout => ?_) fun _ =>
    steps_bind (by simp) fun totalPayout => ?_
  all_goals
    refine steps_bind (looks_dueRows _ _ _).steps fun reports => steps_bind (by simp) fun seen => ?_
    refine steps_bind (looks_dueRows _ _ _).steps fun due => ?_
    refine steps_bind (tokenStill_cashoutEach ..) fun paid => ?_
    exact steps_ite (fun _ => steps_bind (hdrop _) fun _ => by simp) fun _ => by simp

/-- What is converted to is added to an amount of MUSE. -/
theorem tokenStill_convertEach (price : Price) (l : List (Nat × ConvertRequest))
    (net : Asset × Asset) (hnet : net.2.assetId = museSymbol) :
    Steps TokenStill (convertEach price l net : Act n (Asset × Asset)) := by
  induction l generalizing net with
  | nil => exact (looks_pure _).steps
  | cons r rest ih =>
    unfold convertEach
    refine steps_bind (by simp) fun user => steps_bind (by simp) fun toIssue => ?_
    refine ⟨fun {d a d'} h => ?_⟩
    obtain ⟨_, d₁, h1, h⟩ := Action.bind_ok.mp h
    obtain ⟨netMbd, _, h⟩ := Action.bind_lift_ok.mp h
    obtain ⟨netMuse, hmuse, h⟩ := Action.bind_lift_ok.mp h
    obtain ⟨_, d₂, h2, h⟩ := Action.bind_ok.mp h
    obtain ⟨hsame, rfl⟩ := Asset.add_ok hmuse
    have hpaid := (tokenStill_adjustBalance user (.inl (hsame.symm.trans hnet))).step h1
    have hremove : Composed [.gone .convertRequest]
        (Action.remove (S := chainSchema) Kind.convertRequest r.1 : Act n Unit) :=
      .remove (by decide)
    exact trans_of TokenStill hpaid (trans_of TokenStill
      ((hremove.tokenStill (by decide)).step h2)
        ((ih (netMbd, ⟨net.2.amount + toIssue.amount, net.2.assetId⟩) hnet).step h))

theorem tokenStill_processConversions : Steps TokenStill (processConversions : Act n Unit) := by
  unfold processConversions
  refine steps_bind (by simp) fun now => steps_bind (by simp) fun feed => ?_
  refine steps_ite (fun _ => by simp) fun _ => steps_bind (looks_dueRows _ _ _).steps fun due => ?_
  refine steps_bind (tokenStill_convertEach _ _ _ rfl) fun net => ?_
  exact Composed.tokenStill (l := [.props .supply])
    (composed_modifyWith fun _ _ f => by cases f <;> simp +decide) (by decide)

theorem tokenStill_payBlock : Steps TokenStill (payBlock : Act n Unit) := by
  unfold payBlock
  refine steps_bind (by simp) fun contentReward => ?_
  refine steps_bind ((composed_getProducerReward (l := producerParts) (by decide)).tokenStill
    (by decide)) fun witnessPay => ?_
  refine steps_bind (by simp) fun num => steps_ite
    (fun _ => steps_bind (by simp) fun vestingReward => ?_) fun _ =>
      steps_bind (by simp) fun vestingReward => ?_
  all_goals
    refine steps_bind ((composed_processFunds (l := [.props .supply, .props .fund]) _ _ _
      (by decide)).tokenStill (by decide)) fun _ => ?_
    refine steps_bind tokenStill_processConversions fun _ => ?_
    refine steps_bind (tokenStill_processContentCashout _) fun paid => ?_
    refine steps_bind ((composed_adjustFunds (l := [.props .supply]) _ _
      (by decide)).tokenStill (by decide)) fun _ => ?_
    exact (composed_processVestingWithdrawals (l := withdrawalParts) (by decide)).tokenStill
      (by decide)

end

/-! ## 5. The market -/

theorem solvent_cancelOrder (i : Nat) :
    Steps (Upholds Kind.accountBalance AccountBalance.Solvent) (cancelOrder i : Act n Unit) := by
  unfold cancelOrder
  refine steps_bind (looks_getObject _ _).steps fun o => steps_bind (by simp) fun seller => ?_
  refine steps_bind (solvent_adjustBalance _ _) fun _ => ?_
  exact (Composed.remove (l := [.gone .limitOrder]) (by decide)).solvent (by decide) (by decide)
    (by decide)

theorem solvent_fillOrder (i : Nat) (pays receives : Asset) :
    Steps (Upholds Kind.accountBalance AccountBalance.Solvent)
      (fillOrder i pays receives : Act n Bool) := by
  have hbook : ∀ {x : Act n Unit}, Composed [.gone .limitOrder, .whole .limitOrder] x →
      Steps (Upholds Kind.accountBalance AccountBalance.Solvent) x := fun h =>
    h.solvent (by decide) (by decide) (by decide)
  unfold fillOrder
  refine steps_bind (looks_getObject _ _).steps fun o => steps_bind (by simp) fun _ => ?_
  refine steps_bind (by simp) fun _ => steps_bind (by simp) fun seller => ?_
  refine steps_bind (solvent_adjustBalance _ _) fun _ => steps_ite (fun _ => ?_) fun _ => ?_
  · exact steps_bind (hbook (.remove (by decide))) fun _ => by simp
  · refine steps_bind (hbook (composed_modifyWith fun _ _ => .inl (by decide))) fun _ => ?_
    refine steps_bind (looks_getObject _ _).steps fun o => steps_bind (by simp) fun worth => ?_
    exact steps_ite (fun _ => steps_bind (solvent_cancelOrder i) fun _ => by simp) fun _ => by simp

theorem tokenStill_cancelOrder (i : Nat) : Steps TokenStill (cancelOrder i : Act n Unit) := by
  refine ⟨fun {d u d'} h => ?_⟩
  obtain ⟨o, ho, _⟩ := bind_getObject_ok.mp h
  obtain ⟨acc, _, hmoves⟩ := cancelOrder_moves ho h
  exact hmoves.tokenFlow ((composed_cancelOrder i (by decide)).steps.step h)
    ((solvent_cancelOrder i).step h)

/-- The order pays in the asset that it sells. -/
theorem tokenFlow_fillOrder (i : Nat) (pays receives : Asset) :
    Steps (TokenFlow fun z => receives.of z - pays.of z)
      (fillOrder i pays receives : Act n Bool) := by
  refine ⟨fun {d gone d'} h => ?_⟩
  obtain ⟨o, ho, hrun⟩ := bind_getObject_ok.mp h
  obtain ⟨hsame, _⟩ := Action.bind_require_ok.mp hrun
  obtain ⟨p, z⟩ := pays
  obtain rfl : o.sellPrice.base.assetId = z := hsame
  obtain ⟨acc, _, hmoves⟩ := fillOrder_moves ho h
  exact hmoves.tokenFlow ((composed_fillOrder i _ _ (by decide)).steps.step h)
    ((solvent_fillOrder i _ _).step h)

/-- **What one order pays the other receives.** -/
theorem tokenStill_matchOrders (newOrder oldOrder : Nat) (matchPrice : Price) :
    Steps TokenStill (matchOrders newOrder oldOrder matchPrice : Act n (Bool × Bool)) := by
  unfold matchOrders
  refine steps_bind (looks_getObject _ _).steps fun a => steps_bind (looks_getObject _ _).steps
    fun b => steps_bind (by simp) fun amounts => ?_
  obtain ⟨newReceives, oldReceives⟩ := amounts
  have hfill := (tokenFlow_fillOrder (n := n) newOrder oldReceives newReceives).tokenFlow
    fun newFilled => (tokenFlow_fillOrder oldOrder newReceives oldReceives).tokenFlow
      fun oldFilled => (looks_pure (newFilled, oldFilled)).steps (R := TokenStill)
  exact hfill.tokenStill fun z _ => by omega

theorem tokenStill_matchEach (newOrder : Nat) (l : List (Nat × LimitOrder)) :
    Steps TokenStill (matchEach newOrder l : Act n Unit) := by
  induction l with
  | nil => exact (looks_pure ()).steps
  | cons old rest ih =>
    unfold matchEach
    refine steps_bind (tokenStill_matchOrders _ _ _) fun filled => ?_
    exact steps_ite (fun _ => by simp) fun _ => ih

theorem tokenStill_applyOrder (order : Nat) : Steps TokenStill (applyOrder order : Act n Bool) := by
  unfold applyOrder
  refine steps_bind (looks_getObject _ _).steps fun o => steps_bind (by simp) fun best => ?_
  refine steps_bind (by simp) fun orders => ?_
  exact steps_bind (tokenStill_matchEach _ _) fun _ => by simp

theorem tokenStill_clearExpiredOrders : Steps TokenStill (clearExpiredOrders : Act n Unit) := by
  unfold clearExpiredOrders
  refine steps_bind (by simp) fun now => steps_bind (looks_dueRows _ _ _).steps fun orders => ?_
  exact steps_forEach fun o => tokenStill_cancelOrder o.1

theorem tokenFlow_createOrder (o : LimitOrder) : Steps (TokenFlow o.amountForSale.of)
    (Action.create (S := chainSchema) Kind.limitOrder o : Act n Nat) := by
  refine ⟨fun {d i d'} h => ?_⟩
  have hchanges := (Composed.create (l := [.made .limitOrder]) (k := Kind.limitOrder) (by decide)
    trivial).steps.step h
  refine ⟨fun z _ => ?_, solvent_of_changes hchanges (by decide) (by decide) (by decide),
    claims_of_changes hchanges (by decide) (by decide) (by decide)⟩
  obtain ⟨hi, hnone, hf, e⟩ := create_store h
  rw [counted_eq hchanges (by decide) (by decide), e, Store.weight_create _ _ _ _ _ (hi ▸ hnone)]
  unfold Asset.of LimitOrder.amountForSale
  simp only [heldWeight, eq_comm (a := z)]
  omega

/-- A new order holds what was taken from the balance for it. -/
theorem tokenStill_placeOrder {owner : String} {orderid : Nat} {amountToSell : Asset}
    {fillOrKill : Bool} {expiration : Nat} {sellPrice : Except Exn Price}
    (hp : ∀ price, sellPrice = .ok price → price.base.assetId = amountToSell.assetId) :
    Steps TokenStill (placeOrder owner orderid amountToSell fillOrKill expiration sellPrice :
      Act n Unit) := by
  unfold placeOrder
  refine steps_bind (by simp) fun now => steps_bind (by simp) fun _ => ?_
  refine steps_bind (by simp) fun acc => steps_bind (by simp) fun balance => ?_
  refine steps_bind (by simp) fun ge => steps_bind (by simp) fun _ => ?_
  refine steps_bind_lift fun neg hneg => ?_
  obtain rfl := Asset.neg_ok hneg
  have hrest : ∀ i, Steps TokenStill (do
      let filled ← applyOrder i
      if fillOrKill then Action.require (filled = true) "filled" : Act n Unit) := fun i =>
    steps_bind (tokenStill_applyOrder i) fun _ => steps_ite (fun _ => by simp) fun _ => by simp
  have hcreate : ∀ price, sellPrice = .ok price → Steps (TokenFlow amountToSell.of) (do
      let i ← Action.create (S := chainSchema) Kind.limitOrder
        { created := now, seller := owner, orderid := orderid, forSale := amountToSell.amount,
          sellPrice := price, expiration := expiration : LimitOrder }
      let filled ← applyOrder i
      if fillOrKill then Action.require (filled = true) "filled" : Act n Unit) := by
    intro price hprice
    refine Steps.mono ((tokenFlow_createOrder _).tokenFlow hrest) fun s t h => h.of_eq fun z _ => ?_
    show (if z = price.base.assetId then amountToSell.amount else 0) + 0 = _
    rw [hp price hprice, add_zero]
    rfl
  have hplaced := (tokenFlow_adjustBalance (n := n) acc
    ⟨-amountToSell.amount, amountToSell.assetId⟩).tokenFlow fun _ => steps_bind_lift hcreate
  refine hplaced.tokenStill fun z _ => ?_
  unfold Asset.of
  split
  · exact neg_add_cancel _
  · rfl

/-! ## 6. Operations -/

theorem tokenStill_transfer (sender receiver : String) (amount : Asset) :
    Steps TokenStill (transfer sender receiver amount : Act n Unit) := by
  have hproved : ∀ acc now, Steps TokenStill (setProved acc now : Act n Unit) := fun acc now =>
    (composed_setProved (l := [.account .challenges]) acc now (by decide)).tokenStill (by decide)
  unfold transfer
  refine steps_bind (by simp) fun fromAccount => steps_bind (by simp) fun toAccount => ?_
  refine steps_bind (by simp) fun a => steps_ite (fun _ => steps_bind (by simp) fun now =>
    steps_bind (hproved _ _) fun _ => ?_) fun _ => ?_
  all_goals
    refine steps_ite (fun _ => ?_) fun _ => steps_throw _
    refine steps_bind (by simp) fun balance => steps_bind (by simp) fun ge => ?_
    refine steps_bind (by simp) fun _ => steps_bind_lift fun neg hneg => ?_
    obtain rfl := Asset.neg_ok hneg
    have hmoved := (tokenFlow_adjustBalance (n := n) fromAccount
      ⟨-amount.amount, amount.assetId⟩).tokenFlow fun _ => tokenFlow_adjustBalance toAccount amount
    refine hmoved.tokenStill fun z _ => ?_
    unfold Asset.of
    split
    · exact neg_add_cancel _
    · rfl

theorem tokenStill_transferToVesting (sender receiver : String) {amount : Asset}
    (h : coreSymbol amount.assetId) :
    Steps TokenStill (transferToVesting sender receiver amount : Act n Unit) := by
  unfold transferToVesting
  refine steps_bind (by simp) fun fromAccount => steps_ite (fun _ => steps_bind (by simp)
    fun toAccount => ?_) fun _ => steps_bind (by simp) fun toAccount => ?_
  all_goals
    refine steps_bind (by simp) fun balance => steps_bind (by simp) fun ge => ?_
    refine steps_bind (by simp) fun _ => steps_bind_lift fun neg hneg => ?_
    obtain rfl := Asset.neg_ok hneg
    refine steps_bind (tokenStill_adjustBalance _ h) fun _ => ?_
    exact steps_bind (tokenStill_createVesting _ _) fun _ => by simp

theorem tokenStill_convert (owner : String) (requestid : Nat) {amount : Asset}
    (h : coreSymbol amount.assetId) :
    Steps TokenStill (convert owner requestid amount : Act n Unit) := by
  unfold convert
  refine steps_bind (by simp) fun acc => steps_bind (by simp) fun balance => ?_
  refine steps_bind (by simp) fun ge => steps_bind (by simp) fun _ => ?_
  refine steps_bind_lift fun neg hneg => ?_
  obtain rfl := Asset.neg_ok hneg
  refine steps_bind (tokenStill_adjustBalance _ h) fun _ => steps_bind (by simp) fun feed => ?_
  refine steps_bind (by simp) fun _ => steps_bind (by simp) fun now => ?_
  refine steps_bind ?_ fun _ => by simp
  exact (Composed.create (l := [.made .convertRequest]) (k := Kind.convertRequest) (by decide)
    trivial).tokenStill (by decide)

theorem tokenStill_limitOrderCreate {o : LimitOrderCreateOp} :
    Steps TokenStill (limitOrderCreate o : Act n Unit) := by
  refine tokenStill_placeOrder fun price h => ?_
  unfold Price.ofAssets at h
  split at h
  · cases h
  · cases h
    rfl

theorem tokenStill_limitOrderCreate2 {o : LimitOrderCreate2Op} {u : Unit}
    (h : o.validate = .ok u) : Steps TokenStill (limitOrderCreate2 o : Act n Unit) := by
  obtain ⟨_, h⟩ := check_bind_ok.mp h
  obtain ⟨hsame, _⟩ := check_bind_ok.mp h
  refine tokenStill_placeOrder fun price hp => ?_
  cases hp
  exact hsame.symm

theorem tokenStill_challengeAuthority (challenger challenged : String) (requireOwner : Bool) :
    Steps TokenStill (challengeAuthority challenger challenged requireOwner : Act n Unit) := by
  unfold challengeAuthority
  refine steps_bind (by simp) fun challengedId => steps_bind (by simp) fun challengerId => ?_
  refine steps_ite (fun _ => steps_throw _) fun _ => steps_bind (by simp) fun a => ?_
  refine steps_bind (by simp) fun ge => steps_bind (by simp) fun _ => ?_
  refine steps_bind (by simp) fun c => steps_bind (by simp) fun _ => ?_
  refine steps_bind (by simp) fun now => steps_bind (by simp) fun _ => ?_
  refine steps_bind_lift fun neg hneg => ?_
  obtain rfl := Asset.neg_ok hneg
  refine steps_bind (tokenStill_adjustBalance _ (.inl rfl)) fun _ => ?_
  refine steps_bind (tokenStill_createVesting _ _) fun _ => ?_
  exact Composed.tokenStill (l := [.account .challenges])
    (composed_modify fun _ f => by cases f <;> simp +decide) (by decide)

theorem tokenStill_streamingPlatformUpdate (owner url : String) (fee : Asset) :
    Steps TokenStill (streamingPlatformUpdate owner url fee : Act n Unit) := by
  have hwrite : ∀ {α : Type} {x : Act n α}, Composed [.platform .url, .made .streamingPlatform] x →
      Steps TokenStill x := fun h => h.tokenStill (by decide)
  unfold streamingPlatformUpdate
  refine steps_bind (by simp) fun acc => steps_bind (by simp) fun _ => ?_
  refine steps_bind (by simp) fun a => steps_bind (by simp) fun ge => ?_
  refine steps_bind (by simp) fun _ => steps_bind (looks_findRow _ _).steps fun platform => ?_
  rcases platform with _ | ⟨i, p⟩
  · refine steps_bind (by simp) fun wso => steps_bind (by simp) fun ge => ?_
    refine steps_bind (by simp) fun _ => steps_bind (by simp) fun now => ?_
    refine steps_bind (hwrite (.create (by decide) rfl)) fun _ => tokenStill_payFee _ _
  · exact hwrite (composed_modify fun _ f => by cases f <;> simp +decide)

/-- What is issued is held by the receiver. -/
theorem tokenStill_assetIssue (issuer : String) (assetToIssue : Asset) (receiver : String) :
    Steps TokenStill (assetIssue issuer assetToIssue receiver : Act n Unit) := by
  unfold assetIssue
  refine steps_bind (looks_getAssetById _).steps fun a => steps_bind (by simp) fun issuerId => ?_
  refine steps_bind (by simp) fun _ => steps_bind (by simp) fun acc => ?_
  refine steps_bind (by simp) fun supply => steps_bind (by simp) fun _ => ?_
  have hissued := (tokenFlow_adjustBalance (n := n) acc assetToIssue).tokenFlow fun _ =>
    tokenFlow_changeAssetSupply assetToIssue.assetId assetToIssue.amount
  exact hissued.tokenStill fun z _ => add_neg_cancel _

/-- What is burnt is taken from the payer. -/
theorem tokenStill_assetReserve (payer : String) (amountToReserve : Asset) :
    Steps TokenStill (assetReserve payer amountToReserve : Act n Unit) := by
  unfold assetReserve
  refine steps_bind (looks_getAssetById _).steps fun _ => steps_bind (by simp) fun acc => ?_
  refine steps_bind_lift fun neg hneg => ?_
  obtain rfl := Asset.neg_ok hneg
  have hburnt := (tokenFlow_adjustBalance (n := n) acc
    ⟨-amountToReserve.amount, amountToReserve.assetId⟩).tokenFlow fun _ =>
      tokenFlow_changeAssetSupply amountToReserve.assetId (-amountToReserve.amount)
  exact hburnt.tokenStill fun z _ => add_neg_cancel _

theorem tokenStill_contentUpdate [Fc] (o : ContentUpdateOp) :
    Steps TokenStill (contentUpdate o : Act n Unit) := by
  unfold contentUpdate payToContentMaster payToContentComp
  repeat' first
    | with_reducible apply steps_bind | intro _ | (simp; done) | exact (looks_get _ _).steps
    | exact tokenStill_payToContentSide _ _ (.inl rfl)
    | exact Composed.tokenStill (l := [.content .terms])
        (composed_modify fun c => updateContent_same o _ _ c) (by decide)
    | split

/-- A claim is paid in what it is compared with. -/
theorem tokenStill_balanceClaim [Fc] {o : BalanceClaimOp} {d d' : Database chainSchema} {u : Unit}
    (hm : ∀ i b, d.store.get Kind.balance i = some b → Balance.InMuse b)
    (h : (balanceClaim o : Act n Unit).run d = .ok u d') : TokenStill d.store d'.store := by
  obtain ⟨b, hb, h⟩ := bind_getObject_ok.mp h
  obtain ⟨acc, _, _, _, h⟩ := bind_getAccountId_ok h
  obtain ⟨_, h⟩ := Action.bind_require_ok.mp h
  obtain ⟨le, hle, h⟩ := Action.bind_lift_ok.mp h
  obtain ⟨_, h⟩ := Action.bind_require_ok.mp h
  obtain ⟨lt, _, h⟩ := Action.bind_lift_ok.mp h
  have hmuse : o.totalClaimed.assetId = museSymbol := (Asset.le_ok hle).trans (hm _ b hb)
  have hpaid : Steps TokenStill (adjustBalance acc o.totalClaimed : Act n Unit) :=
    tokenStill_adjustBalance acc (.inl hmuse)
  split at h
  · obtain ⟨p, _, h⟩ := bind_headBlockTime_ok h
    obtain ⟨_, d₁, h1, h⟩ := Action.bind_ok.mp h
    have hchanges : Obeys (changes [.whole .balance]) d.store d₁.store :=
      (composed_modifyWith (k := Kind.balance) fun _ _ => .inl (by decide)).steps.step h1
    refine trans_of TokenStill (tokenStill_of_claims hchanges (by decide) ?_) (hpaid.step h)
    refine (upholds_modifyWith fun b x hx hb => ?_).step h1
    obtain ⟨_, rfl⟩ := Asset.sub_ok hx
    exact hb
  · obtain ⟨_, d₁, h1, h⟩ := Action.bind_ok.mp h
    have hchanges : Obeys (changes [.gone .balance]) d.store d₁.store :=
      (Composed.remove (by decide)).steps.step h1
    refine trans_of TokenStill (tokenStill_of_claims hchanges (by decide) ?_) (hpaid.step h)
    intro hs i c hc
    obtain ⟨_, _, e⟩ := remove_store h1
    rw [e, Store.get_erase_self] at hc
    split at hc
    · cases hc
    · exact hs i c hc

/-! ## 7. The genesis -/

/-- What all accounts hold of an asset in balance objects. -/
def Store.inBalances (s : Store chainSchema) (z : Nat) : Int :=
  (s.table Kind.accountBalance).map.sum fun b : AccountBalance =>
    if b.assetType = z then b.balance else 0

/-- What is for sale of an asset in open orders. -/
def Store.forSale (s : Store chainSchema) (z : Nat) : Int :=
  (s.table Kind.limitOrder).map.sum fun o : LimitOrder =>
    if o.sellPrice.base.assetId = z then o.forSale else 0

theorem weight_held (s : Store chainSchema) {z : Nat} (hz : ¬coreSymbol z) :
    s.weight (heldWeight z) = s.inBalances z + s.forSale z := by
  have hzero : (heldWeight z Kind.account : Account → Int) = fun _ => 0 := funext fun a => by
    simp only [heldWeight]
    rw [if_neg fun e => hz (.inl e), if_neg fun e => hz (.inr e), add_zero]
  unfold Store.weight
  simp only [chainSchema, Kind.all, List.map_cons, List.map_nil, List.sum_cons, List.sum_nil]
  rw [hzero]
  simp only [heldWeight, FMap.sum_zero]
  unfold Store.inBalances Store.forSale
  ring

theorem tokenStill_made {k : Kind} {a : k.Object} (hk : (Part.made k).token = false)
    (hb : Blank k a) : Steps TokenStill (Action.create (S := chainSchema) k a : Act 0 Nat) :=
  (Composed.create List.mem_cons_self hb).tokenStill (l := [.made k]) fun p hp => by
    rw [List.mem_singleton.mp hp, hk]

theorem tokenStill_initAccounts (g : GenesisState) : Steps TokenStill (initAccounts g) := by
  unfold initAccounts
  refine steps_bind (tokenStill_made (k := .account) rfl (by simp [Blank])) fun _ => ?_
  refine steps_bind (tokenStill_made (k := .account) rfl (by simp [Blank])) fun _ => ?_
  refine steps_bind (tokenStill_made (k := .account) rfl (by simp [Blank])) fun _ => ?_
  refine steps_bind ((made_initMiner g).mono fun _ _ h =>
    tokenStill_of_changes h (by decide)) fun _ => ?_
  exact steps_bind (tokenStill_made (k := .witness) rfl (by simp [Blank])) fun _ => by simp

theorem tokenStill_initGlobals (g : GenesisState) : Steps TokenStill (initGlobals g) := by
  unfold initGlobals
  have hasset : ∀ symbol description, Steps TokenStill (Action.create (S := chainSchema) Kind.asset
      (coreAsset symbol description) : Act 0 Nat) := fun _ _ => tokenStill_made rfl rfl
  refine steps_bind (tokenStill_made (k := .dynamicGlobalProperty) rfl trivial) fun _ => ?_
  refine steps_bind (hasset _ _) fun _ => steps_bind (hasset _ _) fun _ => ?_
  refine steps_bind (hasset _ _) fun _ => ?_
  refine steps_bind (tokenStill_made (k := .feedHistory) rfl trivial) fun _ => ?_
  refine steps_bind (tokenStill_made (k := .hardforkProperty) rfl trivial) fun _ => ?_
  exact steps_bind (tokenStill_made (k := .witnessSchedule) rfl trivial) fun _ => by simp

/-- The counted supplies are what is held, no balance is below zero, and nothing but MUSE is left to
be claimed. -/
structure TokensBacked (s : Store chainSchema) : Prop where
  gap : ∀ z, ¬coreSymbol z → s.weight (heldWeight z) = s.counted z
  solvent : ∀ i b, s.get Kind.accountBalance i = some b → AccountBalance.Solvent b
  claims : ∀ i b, s.get Kind.balance i = some b → Balance.InMuse b

theorem TokensBacked.of_tokenStill {s t : Store chainSchema} (hs : TokensBacked s)
    (h : TokenStill s t) : TokensBacked t := by
  refine ⟨fun z hz => ?_, h.solvent hs.solvent, h.claims hs.claims⟩
  have hgap := h.gap z hz
  have hbefore := hs.gap z hz
  omega

theorem tokensBacked_emptyStore : TokensBacked emptyStore := by
  have hnone : ∀ {k : Kind}, k ≠ .blockSummary → ∀ i, emptyStore.get k i = none := by
    intro k hk i
    cases k with
    | blockSummary => exact absurd rfl hk
    | _ => rfl
  refine ⟨fun z hz => ?_, fun i b hb => ?_, fun i b hb => ?_⟩
  · have hcounted : emptyStore.counted z = 0 := by
      unfold Store.counted
      rw [hnone (by decide)]
      rfl
    rw [hcounted, weight_held _ hz]
    rfl
  · rw [hnone (by decide)] at hb
    cases hb
  · rw [hnone (by decide)] at hb
    cases hb

/-! ## 8. Runs -/

section

variable [Fc] {ok : Store chainSchema → Operation → Prop}

/-- **Every step moves holdings and supplies alike.** -/
theorem ChainStep.tokenStill {s t : Store chainSchema} (h : ChainStep ok s t)
    (hm : ∀ i b, s.get Kind.balance i = some b → Balance.InMuse b) : TokenStill s t := by
  cases h with
  | @operation d d' u clock n push op hv ha _ hr =>
    cases op with
    | proposalUpdate o => cases ha
    | transfer sender receiver amount memo =>
      exact (tokenStill_transfer sender receiver amount).step hr
    | transferToVesting sender receiver amount =>
      obtain ⟨_, hv⟩ := check_bind_ok.mp hv
      obtain ⟨hmuse, _⟩ := check_bind_ok.mp hv
      exact (tokenStill_transferToVesting sender receiver (.inl hmuse)).step hr
    | convert owner requestid amount =>
      obtain ⟨_, hv⟩ := check_bind_ok.mp hv
      obtain ⟨hmbd, _⟩ := check_bind_ok.mp hv
      exact (tokenStill_convert owner requestid (.inr hmbd)).step hr
    | limitOrderCreate o => exact tokenStill_limitOrderCreate.step hr
    | limitOrderCreate2 o => exact (tokenStill_limitOrderCreate2 hv).step hr
    | limitOrderCancel owner orderid =>
      exact Steps.step (steps_bind (by simp) fun i => tokenStill_cancelOrder i) hr
    | challengeAuthority challenger challenged requireOwner =>
      exact (tokenStill_challengeAuthority challenger challenged requireOwner).step hr
    | streamingPlatformUpdate owner url fee =>
      exact (tokenStill_streamingPlatformUpdate owner url fee).step hr
    | contentUpdate o => exact (tokenStill_contentUpdate o).step hr
    | balanceClaim o => exact tokenStill_balanceClaim hm hr
    | assetIssue issuer assetToIssue receiver =>
      exact (tokenStill_assetIssue issuer assetToIssue receiver).step hr
    | assetReserve issuer payer amountToReserve =>
      exact (tokenStill_assetReserve payer amountToReserve).step hr
    | _ =>
      exact ((composed_evaluate clock push ha).tokenStill
        (by simp +decide [Operation.parts])).step hr
  | @routine d d' u n r hr =>
    cases r with
    | expiredOrders => exact tokenStill_clearExpiredOrders.step hr
    | pay => exact tokenStill_payBlock.step hr
    | _ =>
      exact ((Routine.composed_act _).tokenStill (by simp +decide [Routine.parts])).step hr

/-- What the genesis leaves to be claimed is MUSE, and so is the supply that it counts. -/
theorem tokenStill_importGenesis (g : GenesisState) : Steps TokenStill (importGenesis g) := by
  unfold importGenesis
  refine steps_bind (steps_forEach fun a => ?_) fun _ => ?_
  · unfold importAccount
    exact (composed_accountCreate (l := accountCreateParts) _ (by decide)).tokenStill (by decide)
  refine steps_bind (steps_forEach fun a => ?_) fun _ => ?_
  · refine steps_bind (by simp) fun issuer => ?_
    exact steps_bind (tokenStill_made (k := .asset) rfl rfl) fun _ => by simp
  refine steps_bind (steps_forEach fun b => ?_) fun _ => steps_forEach fun v => ?_
  · unfold importBalance
    refine steps_bind ⟨fun {d i d'} h => ?_⟩ fun _ => ?_
    · have hchanges : Obeys (changes [.made .balance]) d.store d'.store :=
        (Composed.create (k := Kind.balance) List.mem_cons_self trivial).steps.step h
      exact tokenStill_of_claims hchanges (by decide)
        ((upholds_create (P := Balance.InMuse) rfl).step h)
    · refine steps_bind ?_ fun _ => ?_
      · exact Composed.tokenStill (l := [.props .supply])
          (composed_modifyWith fun _ _ f => by cases f <;> simp +decide) (by decide)
      · exact (tokenFlow_changeAssetSupply _ _).tokenStill fun z hz => by
          rw [Asset.of_core (.inl rfl) z hz, neg_zero]
  · unfold importVesting modifyDgp
    refine Composed.tokenStill (l := [.account .vests, .props .shares]) ?_ (by decide)
    refine .bind (by simp) fun _ => .bind ?_ fun _ => ?_
    · exact composed_modifyWith fun _ _ f => by cases f <;> simp +decide
    · exact composed_modifyWith fun _ _ f => by cases f <;> simp +decide

theorem tokenStill_initGenesis (g : GenesisState) : Steps TokenStill (initGenesis g) := by
  rw [initGenesis_eq]
  refine steps_bind (tokenStill_initAccounts g) fun _ => ?_
  exact steps_bind (tokenStill_initGlobals g) fun _ => tokenStill_importGenesis g

/-- **Every state reached is backed.** -/
theorem Reached.tokensBacked {g : GenesisState} {s : Store chainSchema} (h : Reached ok g s) :
    TokensBacked s := by
  refine h.invariant (fun hg => ?_) fun hstep hs => hs.of_tokenStill (hstep.tokenStill hs.claims)
  exact tokensBacked_emptyStore.of_tokenStill ((tokenStill_initGenesis g).step hg)

/-- **Assets of the users are conserved.** In every state reached, an asset other than MUSE, VESTS
and MBD has been issued in just the amount that is in balances and open orders; an account has one
balance of an asset at most, and none is below zero. -/
theorem tokens_conserved {g : GenesisState} {d : Database chainSchema}
    (h : Attained ok Unspoilt g d) :
    (∀ (z : Nat) (a : AssetObject), z ≠ museSymbol → z ≠ vestsSymbol → z ≠ mbdSymbol →
      d.store.get Kind.asset z = some a →
      a.currentSupply = d.store.inBalances z + d.store.forSale z) ∧
    (∀ (i j : Nat) (b c : AccountBalance), d.store.get Kind.accountBalance i = some b →
      d.store.get Kind.accountBalance j = some c → b.owner = c.owner →
      b.assetType = c.assetType → i = j) ∧
    ∀ (i : Nat) (b : AccountBalance), d.store.get Kind.accountBalance i = some b →
      0 ≤ b.balance := by
  have hb := h.reached.tokensBacked
  clear h
  generalize d.store = s at hb ⊢
  refine ⟨fun z a hm _ hd ha => ?_, fun i j b c hi hj howner htype => ?_, hb.solvent⟩
  · have hz : ¬coreSymbol z := fun hc => hc.elim hm hd
    rw [← weight_held s hz, hb.gap z hz]
    unfold Store.counted
    rw [ha]
    rfl
  · by_contra hij
    have hclash := s.unique Kind.accountBalance i j b c hij hi hj
    simp [Schema.clashes, Kind.unique, howner, htype] at hclash

end

section

attribute [local instance] sampleFc

def tokenIssue : Operation := .assetIssue initMinerName ⟨5, 3⟩ "alice"

/-- Alice has been issued 5 of the asset of the init miner. -/
def tokenIssued : Database chainSchema :=
  evaluated tokenIssue (evaluated sampleAssetCreate aliceStart)

def tokenSale : Operation :=
  .limitOrderCreate
    { owner := "alice", orderid := 1, amountToSell := ⟨2, 3⟩, minToReceive := ⟨1, mbdSymbol⟩
      fillOrKill := false, expiration := genesisTime + 3600 }

/-- Two of the five are for sale. -/
def tokenOffered : Database chainSchema := evaluated tokenSale tokenIssued

theorem runs_tokenOffered :
    (((evaluate 0 (fun _ => pure ()) sampleAssetCreate : Act 0 Unit).run aliceStart).isOk = true ∧
      ((evaluate 0 (fun _ => pure ()) tokenIssue : Act 0 Unit).run
        (evaluated sampleAssetCreate aliceStart)).isOk = true ∧
      ((evaluate 0 (fun _ => pure ()) tokenSale : Act 0 Unit).run tokenIssued).isOk = true) ∧
    (tokenOffered.store.get Kind.asset 3).map (fun a : AssetObject => a.currentSupply) = some 5 ∧
      tokenOffered.store.inBalances 3 = 3 ∧ tokenOffered.store.forSale 3 = 2 := by
  decide +kernel

theorem reached_tokenIssued {ok : Store chainSchema → Operation → Prop}
    (hok : ∀ s, ok s sampleAssetCreate ∧ ok s tokenIssue) :
    Reached ok aliceGenesis tokenIssued.store := by
  obtain ⟨⟨hcreate, hissue, _⟩, _⟩ := runs_tokenOffered
  have hcreated := (reached_aliceStart ok).evaluated (by decide +kernel) rfl (hok _).1 hcreate
  exact hcreated.evaluated (by decide +kernel) rfl (hok _).2 hissue

theorem reached_tokenOffered {ok : Store chainSchema → Operation → Prop}
    (hok : ∀ s, ok s sampleAssetCreate ∧ ok s tokenIssue ∧ ok s tokenSale) :
    Reached ok aliceGenesis tokenOffered.store := by
  have hissued : Reached ok aliceGenesis tokenIssued.store :=
    reached_tokenIssued fun s => ⟨(hok s).1, (hok s).2.1⟩
  exact hissued.evaluated (by decide +kernel) rfl (hok _).2.2 runs_tokenOffered.1.2.2

/-- Alice sends one of the rest, and then more than she has: both are taken back. -/
def tokenAttempted : Database chainSchema :=
  approved ["alice"] (proposed
    [.transfer "alice" initMinerName ⟨1, 3⟩ "", .transfer "alice" initMinerName ⟨9, 3⟩ ""]
    (evaluated tokenSale (evaluated tokenIssue (evaluated sampleAssetCreate
      (Node.genesis aliceGenesis).db))))

theorem attained_tokenAttempted {ok : Store chainSchema → Operation → Prop}
    (hok : ∀ s, ok s sampleAssetCreate ∧ ok s tokenIssue ∧ ok s tokenSale)
    (hpropose : ∀ s ops time, ok s (.proposalCreate ops time none)) :
    Attained ok Unspoilt aliceGenesis tokenAttempted := by
  have hstart : Attained ok Unspoilt aliceGenesis (Node.genesis aliceGenesis).db := attained_alice
  have hcreated := hstart.evaluated sampleAssetCreate (by decide +kernel) rfl (hok _).1
    (by decide +kernel)
  have hissued := hcreated.evaluated tokenIssue (by decide +kernel) rfl (hok _).2.1
    (by decide +kernel)
  have hoffered := hissued.evaluated tokenSale (by decide +kernel) rfl (hok _).2.2
    (by decide +kernel)
  exact hoffered.attempted (by decide +kernel) (hpropose _ _ _) (by decide +kernel)
    fun _ => unspoilt_of_whole (by decide +kernel)

theorem tokens_conserved_attempted :
    ((tokenAttempted.store.get Kind.asset 3).map (fun a : AssetObject => a.currentSupply) = some 5 ∧
      tokenAttempted.store.inBalances 3 = 3 ∧ tokenAttempted.store.forSale 3 = 2) ∧
    (∀ (z : Nat) (a : AssetObject), z ≠ museSymbol → z ≠ vestsSymbol → z ≠ mbdSymbol →
      tokenAttempted.store.get Kind.asset z = some a →
      a.currentSupply = tokenAttempted.store.inBalances z + tokenAttempted.store.forSale z) ∧
    (∀ (i j : Nat) (b c : AccountBalance), tokenAttempted.store.get Kind.accountBalance i = some b →
      tokenAttempted.store.get Kind.accountBalance j = some c → b.owner = c.owner →
      b.assetType = c.assetType → i = j) ∧
    ∀ (i : Nat) (b : AccountBalance), tokenAttempted.store.get Kind.accountBalance i = some b →
      0 ≤ b.balance := by
  have hattained : Attained (fun _ _ => True) Unspoilt aliceGenesis tokenAttempted :=
    attained_tokenAttempted (fun _ => ⟨trivial, trivial, trivial⟩) fun _ _ _ => trivial
  exact ⟨by decide +kernel, tokens_conserved hattained⟩

end

/-! ### An execution that is taken back in part -/

/-- The containers of the undo state are walked through from the last element to the first and
then upwards. -/
@[reducible] def lastFirstFc : Fc :=
  { sampleFc with
    walk := fun {_} l => l.drop (l.length - 1) ++ l.take (l.length - 1)
    walk_perm := fun _ => List.perm_append_comm.trans (.of_eq (List.take_append_drop ..)) }

section

attribute [local instance] lastFirstFc

/-- The init miner holds shares and could withdraw them. -/
def threeGenesis : GenesisState :=
  { sampleGenesis with
    initialAccounts := [{ name := "bob", ownerKey := 1 }, { name := "carol", ownerKey := 2 }]
    initialVestingBalances := [⟨3, 1000⟩] }

/-- Carol, bob and the init miner have 5 each. -/
def tokenThree : Database chainSchema :=
  evaluated (.assetIssue initMinerName ⟨5, 3⟩ initMinerName)
    (evaluated (.assetIssue initMinerName ⟨5, 3⟩ "bob")
      (evaluated (.assetIssue initMinerName ⟨5, 3⟩ "carol")
        (evaluated sampleAssetCreate (Node.genesis threeGenesis).db)))

/-- Carol pays bob, and the init miner pays him and withdraws twice, which fails in the callback of
`modify`. -/
def tokenPayments : List Operation :=
  [.transfer "carol" "bob" ⟨1, 3⟩ "", minerLeaves, .transfer initMinerName "bob" ⟨2, 3⟩ "",
    minerLeaves]

def tokenSpoilt : Database chainSchema :=
  approved ["carol", initMinerName] (proposed tokenPayments tokenThree)

/-- **A failed execution makes tokens**: only one of the payments is taken back. -/
theorem tokens_made : ∃ (g : GenesisState) (d : Database chainSchema),
    Attained (fun _ _ => True) (fun _ _ _ => True) g d ∧
      (d.store.get Kind.asset 3).map (fun a : AssetObject => a.currentSupply) = some 15 ∧
      d.store.inBalances 3 + d.store.forSale 3 = 17 := by
  have hstart : Attained (fun _ _ => True) (fun _ _ _ => True) threeGenesis
      (Node.genesis threeGenesis).db := .genesis (by decide +kernel)
  have hthree : Attained (fun _ _ => True) (fun _ _ _ => True) threeGenesis tokenThree := by
    have hcreated := hstart.evaluated sampleAssetCreate (by decide +kernel) rfl trivial
      (by decide +kernel)
    have hcarol := hcreated.evaluated (.assetIssue initMinerName ⟨5, 3⟩ "carol")
      (by decide +kernel) rfl trivial (by decide +kernel)
    have hbob := hcarol.evaluated (.assetIssue initMinerName ⟨5, 3⟩ "bob")
      (by decide +kernel) rfl trivial (by decide +kernel)
    exact hbob.evaluated _ (by decide +kernel) rfl trivial (by decide +kernel)
  have hspoilt : Attained (fun _ _ => True) (fun _ _ _ => True) threeGenesis tokenSpoilt :=
    hthree.attempted (by decide +kernel) trivial (by decide +kernel) fun _ => trivial
  exact ⟨_, _, hspoilt, by decide +kernel⟩

end

end MuseChain
