/-
  File:      MuseChain/Safety/Lockout.lean
  Subject:   Whether hardfork 3 still accepts what was accepted before it.

  * `SignState.Alike`: two states of a check with the same keys and the same approved accounts.
    Checks end alike when they start alike.
  * `InTurn`: checks that pass one after the other. `AcceptedAgain`: what version 2 needs of an
    input that version 1 accepts, since it never looks at a basic authority.
  * `AllReached`: what keys and approvals satisfy within some levels of members, without a cache.
    `checkAuthority_complete`: a check finds it, whatever else the cache holds.
  * `accepted_again_iff`: version 2 accepts what version 1 accepts exactly under `AcceptedAgain`.
-/
import MuseChain.Safety.SignOrder

namespace MuseChain

/-! ## 1. States that are alike -/

/-- The same keys are used and the same accounts have approved. -/
structure SignState.Alike (s t : SignState) : Prop where
  provided : s.provided = t.provided
  approvedBy : ∀ a, a ∈ s.approvedBy ↔ a ∈ t.approvedBy

/-- A check that passes alike on states that are alike. -/
def Check.Respects (c : Check) : Prop :=
  ∀ s t b s', s.Alike t → c s = .ok (b, s') → ∃ t', c t = .ok (b, t') ∧ s'.Alike t'

theorem SignState.Alike.signedBy {s t : SignState} (h : s.Alike t) (k : PublicKey) :
    (s.signedBy k).1 = (t.signedBy k).1 ∧ (s.signedBy k).2.Alike (t.signedBy k).2 := by
  unfold SignState.signedBy
  rw [h.provided]
  split
  · exact ⟨rfl, ⟨rfl, h.approvedBy⟩⟩
  · exact ⟨rfl, h⟩

theorem SignState.Alike.approve {s t : SignState} (h : s.Alike t) (a : String) :
    SignState.Alike { s with approvedBy := a :: s.approvedBy }
      { t with approvedBy := a :: t.approvedBy } := by
  refine ⟨h.provided, fun b => ?_⟩
  rw [List.mem_cons, List.mem_cons, h.approvedBy]

theorem SignState.Alike.checkKeyAuths {threshold : Nat} (l : List (PublicKey × Nat)) {total : Nat}
    {s t : SignState} (h : s.Alike t) :
    (checkKeyAuths threshold l total s).1 = (checkKeyAuths threshold l total t).1 ∧
      (checkKeyAuths threshold l total s).2.1 = (checkKeyAuths threshold l total t).2.1 ∧
      (checkKeyAuths threshold l total s).2.2.Alike (checkKeyAuths threshold l total t).2.2 := by
  induction l generalizing total s t with
  | nil => exact ⟨rfl, rfl, h⟩
  | cons kw rest ih =>
    obtain ⟨k, w⟩ := kw
    obtain ⟨hb, hs⟩ := h.signedBy k
    simp only [MuseChain.checkKeyAuths]
    generalize s.signedBy k = x at hb hs
    generalize t.signedBy k = y at hb hs
    obtain ⟨b, s₁⟩ := x
    obtain ⟨b', t₁⟩ := y
    simp only at hb hs
    subst hb
    cases b with
    | false => exact ih hs
    | true =>
      by_cases hth : threshold ≤ u32 (total + w)
      · simp only [hth, if_true]
        exact ⟨trivial, trivial, hs⟩
      · simp only [hth, if_false]
        exact ih hs

theorem checkAccountAuths_respects {threshold : Nat} {below : Option (String → Check)}
    (hbelow : ∀ f, below = some f → ∀ a, (f a).Respects) (l : List (String × Nat)) (total : Nat) :
    (checkAccountAuths threshold below l total).Respects := by
  induction l generalizing total with
  | nil =>
    intro s t b s' h hc
    cases hc
    exact ⟨t, rfl, h⟩
  | cons aw rest ih =>
    obtain ⟨a, w⟩ := aw
    intro s t b s' h hc
    simp only [checkAccountAuths] at hc ⊢
    by_cases ha : a ∈ s.approvedBy
    · rw [if_pos ha] at hc
      rw [if_pos ((h.approvedBy a).mp ha)]
      split at hc
      · rename_i hth
        cases hc
        rw [if_pos hth]
        exact ⟨t, rfl, h⟩
      · rename_i hth
        rw [if_neg hth]
        exact ih _ s t b s' h hc
    · rw [if_neg ha] at hc
      rw [if_neg fun hm => ha ((h.approvedBy a).mpr hm)]
      cases below with
      | none => exact ih _ s t b s' h hc
      | some f =>
        simp only [bind, Except.bind] at hc ⊢
        cases hf : f a s with
        | error e =>
          rw [hf] at hc
          cases hc
        | ok r =>
          obtain ⟨passed, s₁⟩ := r
          obtain ⟨t₁, hft, h1⟩ := hbelow f rfl a s t passed s₁ h hf
          rw [hf] at hc
          rw [hft]
          simp only at hc ⊢
          cases passed with
          | false => exact ih _ s₁ t₁ b s' h1 hc
          | true =>
            rw [if_pos rfl] at hc ⊢
            split at hc
            · rename_i hth
              cases hc
              rw [if_pos hth]
              exact ⟨_, rfl, h1.approve a⟩
            · rename_i hth
              rw [if_neg hth]
              exact ih _ _ _ b s' (h1.approve a) hc

theorem Check.Respects.ofGetter {check : Authority → Check} (h : ∀ a, (check a).Respects)
    (au : Except Exn Authority) : (Check.ofGetter check au).Respects := by
  intro s t b s' hs hc
  cases au with
  | error e => cases hc
  | ok a => exact h a s t b s' hs hc

theorem Check.Respects.or {c c' : Check} (h : c.Respects) (h' : c'.Respects) :
    (c.or c').Respects := by
  intro s t b s' hs hc
  unfold Check.or at hc ⊢
  cases hf : c s with
  | error e =>
    rw [hf] at hc
    cases hc
  | ok r =>
    obtain ⟨passed, s₁⟩ := r
    obtain ⟨t₁, hft, h1⟩ := h s t passed s₁ hs hf
    rw [hf] at hc
    rw [hft]
    cases passed with
    | true =>
      cases hc
      exact ⟨t₁, rfl, h1⟩
    | false => exact h' s₁ t₁ b s' h1 hc

theorem checkAuths_respects {below : Option (String → Check)}
    (hbelow : ∀ f, below = some f → ∀ a, (f a).Respects) (auth : Authority) :
    Check.Respects fun s =>
      match checkKeyAuths auth.weightThreshold auth.keyAuths 0 s with
      | (true, _, s) => .ok (true, s)
      | (false, total, s) =>
          checkAccountAuths auth.weightThreshold below auth.accountAuths total s := by
  intro s t b s' h hc
  obtain ⟨e1, e2, h1⟩ : (checkKeyAuths auth.weightThreshold auth.keyAuths 0 s).1 = _ ∧ _ ∧ _ :=
    h.checkKeyAuths auth.keyAuths
  simp only at hc ⊢
  generalize checkKeyAuths auth.weightThreshold auth.keyAuths 0 s = x at hc e1 e2 h1
  generalize checkKeyAuths auth.weightThreshold auth.keyAuths 0 t = y at e1 e2 h1 ⊢
  obtain ⟨b₁, total, s₁⟩ := x
  obtain ⟨b₂, total', t₁⟩ := y
  simp only at e1 e2 h1
  subst e1 e2
  cases b₁ with
  | true =>
    cases hc
    exact ⟨t₁, rfl, h1⟩
  | false => exact checkAccountAuths_respects hbelow _ _ s₁ t₁ b s' h1 hc

/-- **An authority is checked alike on states that are alike.** -/
theorem checkAuthority_respects {nested : String → Except Exn Authority} (left : Nat)
    (auth : Authority) : (checkAuthority nested left auth).Respects := by
  induction left generalizing auth with
  | zero =>
    intro s t b s' h hc
    unfold checkAuthority at hc ⊢
    exact checkAuths_respects (fun _ hf => by cases hf) auth s t b s' h hc
  | succ left ih =>
    intro s t b s' h hc
    unfold checkAuthority at hc ⊢
    refine checkAuths_respects (fun f hf a => ?_) auth s t b s' h hc
    cases hf
    exact Check.Respects.ofGetter ih (nested a)

theorem checkAuthorityOf_respects {nested : String → Except Exn Authority} (maxRecursion : Nat)
    (id : String) : (checkAuthorityOf nested maxRecursion id).Respects := by
  intro s t b s' h hc
  unfold checkAuthorityOf at hc ⊢
  by_cases hid : id ∈ s.approvedBy
  · rw [if_pos hid] at hc
    rw [if_pos ((h.approvedBy id).mp hid)]
    cases hc
    exact ⟨t, rfl, h⟩
  · rw [if_neg hid] at hc
    rw [if_neg fun hm => hid ((h.approvedBy id).mpr hm)]
    exact Check.Respects.ofGetter (checkAuthority_respects maxRecursion) (nested id) s t b s' h hc

theorem Check.Respects.all {α : Type} {check : α → Check} {msg : String}
    (h : ∀ x, (check x).Respects) (l : List α) {s t s' : SignState} (hs : s.Alike t)
    (hc : Check.all check msg l s = .ok s') :
    ∃ t', Check.all check msg l t = .ok t' ∧ s'.Alike t' := by
  induction l generalizing s t with
  | nil =>
    cases hc
    exact ⟨t, rfl, hs⟩
  | cons x l ih =>
    simp only [Check.all, bind, Except.bind] at hc ⊢
    cases hf : check x s with
    | error e =>
      rw [hf] at hc
      cases hc
    | ok r =>
      obtain ⟨passed, s₁⟩ := r
      obtain ⟨t₁, hft, h1⟩ := h x s t passed s₁ hs hf
      rw [hf] at hc
      rw [hft]
      cases passed with
      | false => cases hc
      | true => exact ih h1 hc

theorem verifyActive_respects {g : Getters} {r : Required} {maxRecursion : Nat}
    {ownerApprovals : List String} {s t s' : SignState} (hs : s.Alike t)
    (hc : verifyActive g r maxRecursion ownerApprovals s = .ok s') :
    ∃ t', verifyActive g r maxRecursion ownerApprovals t = .ok t' ∧ s'.Alike t' := by
  have hauth : ∀ a, (checkAuthority g.active maxRecursion a).Respects :=
    checkAuthority_respects maxRecursion
  unfold verifyActive at hc ⊢
  obtain ⟨s₁, h1, hc⟩ := Check.all_bind_ok hc
  obtain ⟨s₂, h2, hc⟩ := Check.all_bind_ok hc
  obtain ⟨s₃, h3, hc⟩ := Check.all_bind_ok hc
  obtain ⟨t₁, e1, hs⟩ := Check.Respects.all
    (fun id => (checkAuthorityOf_respects maxRecursion id).or (.ofGetter hauth _)) _ hs h1
  obtain ⟨t₂, e2, hs⟩ := Check.Respects.all (fun _ => .ofGetter hauth _) _ hs h2
  obtain ⟨t₃, e3, hs⟩ := Check.Respects.all (fun _ => .ofGetter hauth _) _ hs h3
  have hown : ∀ id, Check.Respects fun s => if id ∈ ownerApprovals then .ok (true, s)
      else Check.ofGetter (checkAuthority g.active maxRecursion) (g.owner id) s := by
    intro id s t b s' h hc
    simp only at hc ⊢
    split
    · rename_i hid
      rw [if_pos hid] at hc
      cases hc
      exact ⟨t, rfl, h⟩
    · rename_i hid
      rw [if_neg hid] at hc
      exact Check.Respects.ofGetter hauth (g.owner id) s t b s' h hc
  obtain ⟨t₄, e4, hs⟩ := Check.Respects.all hown _ hs hc
  refine ⟨t₄, ?_, hs⟩
  simp only [e1, e2, e3, bind, Except.bind]
  exact e4

/-! ## 2. Checks in turn -/

/-- The checks pass one after the other, from one state to another. -/
def InTurn : List Check → SignState → SignState → Prop
  | [], s, t => s = t
  | c :: cs, s, t => ∃ u, c s = .ok (true, u) ∧ InTurn cs u t

theorem inTurn_append {cs cs' : List Check} {s t : SignState} :
    InTurn (cs ++ cs') s t ↔ ∃ u, InTurn cs s u ∧ InTurn cs' u t := by
  induction cs generalizing s with
  | nil => exact ⟨fun h => ⟨s, rfl, h⟩, fun ⟨_, hs, h⟩ => hs ▸ h⟩
  | cons c cs ih =>
    simp only [List.cons_append, InTurn, ih]
    exact ⟨fun ⟨u, hc, v, hu, hv⟩ => ⟨v, ⟨u, hc, hu⟩, hv⟩,
      fun ⟨v, ⟨u, hc, hu⟩, hv⟩ => ⟨u, hc, v, hu, hv⟩⟩

theorem Check.all_ok {α : Type} {check : α → Check} {msg : String} {l : List α}
    {s t : SignState} : Check.all check msg l s = .ok t ↔ InTurn (l.map check) s t := by
  induction l generalizing s with
  | nil => exact ⟨fun h => Except.ok.inj h, fun h => congrArg _ h⟩
  | cons x l ih =>
    simp only [Check.all, List.map_cons, InTurn, bind, Except.bind]
    cases hf : check x s with
    | error e =>
      constructor
      · intro h
        cases h
      · rintro ⟨_, h, _⟩
        cases h
    | ok r =>
      obtain ⟨passed, u⟩ := r
      cases passed with
      | false =>
        constructor
        · intro h
          cases h
        · rintro ⟨_, h, _⟩
          cases h
      | true =>
        constructor
        · intro h
          exact ⟨u, rfl, ih.mp h⟩
        · rintro ⟨v, hv, h⟩
          cases hv
          exact ih.mpr h

/-- What version 2 looks at where a basic authority is required: whether the account has approved,
and its active and its owner authority. -/
def coverBasic (g : Getters) (maxRecursion : Nat) (id : String) : Check :=
  (checkAuthorityOf g.active maxRecursion id).or
    ((Check.ofGetter (checkAuthority g.active maxRecursion) (g.active id)).or
      (Check.ofGetter (checkAuthority g.active maxRecursion) (g.owner id)))

/-- The checks of the required authorities that are not basic. -/
def otherChecks (g : Getters) (maxRecursion : Nat) (ownerApprovals : List String) (r : Required) :
    List Check :=
  let check := checkAuthority g.active maxRecursion
  r.other.map check ++
    (r.active.map (fun id =>
        (checkAuthorityOf g.active maxRecursion id).or (Check.ofGetter check (g.owner id))) ++
      (r.masterContent.map (fun con => Check.ofGetter check (g.masterContent con)) ++
        (r.compContent.map (fun con => Check.ofGetter check (g.compContent con)) ++
          r.owner.map fun id s =>
            if id ∈ ownerApprovals then .ok (true, s) else Check.ofGetter check (g.owner id) s)))

theorem verifyActive_ok {g : Getters} {r : Required} {maxRecursion : Nat}
    {ownerApprovals : List String} {s t : SignState} :
    (∃ u, InTurn (r.other.map (checkAuthority g.active maxRecursion)) s u ∧
      verifyActive g r maxRecursion ownerApprovals u = .ok t) ↔
      InTurn (otherChecks g maxRecursion ownerApprovals r) s t := by
  unfold otherChecks
  simp only [inTurn_append]
  refine exists_congr fun u => and_congr_right fun _ => ?_
  unfold verifyActive
  constructor
  · intro h
    obtain ⟨u₁, h1, h⟩ := Check.all_bind_ok h
    obtain ⟨u₂, h2, h⟩ := Check.all_bind_ok h
    obtain ⟨u₃, h3, h⟩ := Check.all_bind_ok h
    exact ⟨u₁, Check.all_ok.mp h1, u₂, Check.all_ok.mp h2, u₃, Check.all_ok.mp h3,
      Check.all_ok.mp h⟩
  · rintro ⟨u₁, h1, u₂, h2, u₃, h3, h⟩
    simp only [Check.all_ok.mpr h1, Check.all_ok.mpr h2, Check.all_ok.mpr h3, bind, Except.bind]
    exact Check.all_ok.mpr h

/-- The operations do not mix basic with other authorities. -/
def Unmixed (r : Required) : Prop :=
  r.basic = [] ∨ (r.active = [] ∧ r.owner = [] ∧ r.masterContent = [] ∧ r.compContent = [] ∧
    r.other = [])

/-- **What version 2 needs of an input that version 1 accepts.** Where basic authorities are
required, the accounts pass in turn by their approvals and by their active or owner authorities.
Where none is required, there are no further approvals than version 1 starts with, or with them the
checks pass too. -/
def AcceptedAgain (g : Getters) (sigs : List PublicKey) (maxRecursion : Nat) (approvals : Approvals)
    (r : Required) : Prop :=
  if r.basic = [] then
    approvals.basic ⊆ "temp" :: (approvals.active ++ approvals.owner) ∨
      ∃ s, InTurn (otherChecks g maxRecursion approvals.owner r)
        (SignState.init sigs approvals.all) s
  else ∃ s, InTurn (r.basic.map (coverBasic g maxRecursion)) (SignState.init sigs approvals.all) s

section

variable {ops : List Operation} {sigs : List PublicKey} {g : Getters} {maxRecursion : Nat}
  {approvals : Approvals}

/-- Without basic authorities version 2 runs the other checks. -/
theorem verifyAuthorityV2_other (hb : (requiredAuthorities ops).basic = []) :
    verifyAuthorityV2 ops sigs g true maxRecursion approvals = .ok () ↔
      ∃ s, InTurn (otherChecks g maxRecursion approvals.owner (requiredAuthorities ops))
        (SignState.init sigs approvals.all) s := by
  unfold verifyAuthorityV2
  simp only [hb, List.filter_nil]
  rw [check_bind_ok]
  simp only [← verifyActive_ok]
  constructor
  · rintro ⟨_, h⟩
    obtain ⟨u, h1, h⟩ := Check.all_bind_ok h
    simp only [Check.all, bind, Except.bind] at h
    split at h
    · cases h
    · rename_i t ht
      exact ⟨t, u, Check.all_ok.mp h1, ht⟩
  · rintro ⟨t, u, h1, h⟩
    refine ⟨.inl trivial, ?_⟩
    have h1' : Check.all (checkAuthority g.active maxRecursion) "Missing Authority"
        (requiredAuthorities ops).other
        (SignState.init sigs (approvals.basic ++ approvals.active ++ approvals.owner)) = .ok u :=
      Check.all_ok.mpr h1
    simp only [h1', Check.all, h, bind, Except.bind]
    rfl

/-- With basic authorities alone it runs their checks. -/
theorem verifyAuthorityV2_basic (ha : (requiredAuthorities ops).active = [])
    (ho : (requiredAuthorities ops).owner = []) (hm : (requiredAuthorities ops).masterContent = [])
    (hc : (requiredAuthorities ops).compContent = [])
    (hx : (requiredAuthorities ops).other = []) :
    verifyAuthorityV2 ops sigs g true maxRecursion approvals = .ok () ↔
      ∃ s, InTurn ((requiredAuthorities ops).basic.map (coverBasic g maxRecursion))
        (SignState.init sigs approvals.all) s := by
  have hfilter : ((requiredAuthorities ops).basic.filter fun id =>
      decide (id ∉ ([] : List String)) && decide (id ∉ ([] : List String))) =
        (requiredAuthorities ops).basic := List.filter_eq_self.mpr fun _ _ => rfl
  have hactive : ∀ s, verifyActive g (requiredAuthorities ops) maxRecursion approvals.owner s =
      .ok s := by
    intro s
    unfold verifyActive
    rw [ha, ho, hm, hc]
    rfl
  unfold verifyAuthorityV2
  simp only [ha, ho, hm, hc, hx, hfilter]
  rw [check_bind_ok]
  constructor
  · rintro ⟨_, h⟩
    simp only [Check.all, bind, Except.bind] at h
    split at h
    · cases h
    · rename_i t ht
      exact ⟨t, Check.all_ok.mp ht⟩
  · rintro ⟨t, h⟩
    refine ⟨.inr ⟨trivial, trivial, trivial, trivial, rfl⟩, ?_⟩
    have h' : ∀ msg, Check.all (coverBasic g maxRecursion) msg (requiredAuthorities ops).basic
        (SignState.init sigs (approvals.basic ++ approvals.active ++ approvals.owner)) = .ok t :=
      fun _ => Check.all_ok.mpr h
    unfold coverBasic at h'
    simp only [Check.all, h', hactive, bind, Except.bind]
    rfl

/-- Without basic authorities and further approvals the two versions check the same. -/
theorem accepted_again_of_active (hb : (requiredAuthorities ops).basic = [])
    (happ : approvals.basic ⊆ "temp" :: (approvals.active ++ approvals.owner))
    (h : verifyAuthorityV1 ops sigs g maxRecursion approvals = .ok ()) :
    verifyAuthorityV2 ops sigs g true maxRecursion approvals = .ok () := by
  unfold verifyAuthorityV1 at h
  simp only at h
  rw [if_neg (not_not.mpr hb)] at h
  obtain ⟨s₁, h1, h⟩ := Check.all_bind_ok h
  have hinit : (SignState.init sigs (approvals.active ++ approvals.owner)).Alike
      (SignState.init sigs approvals.all) := by
    refine ⟨rfl, fun a => ?_⟩
    have := @happ a
    simp only [SignState.init, Approvals.all, List.mem_cons, List.mem_append] at this ⊢
    tauto
  obtain ⟨t₁, e1, hs⟩ := Check.Respects.all (checkAuthority_respects maxRecursion) _ hinit h1
  obtain ⟨s₂, h2⟩ : ∃ s₂, verifyActive g (requiredAuthorities ops) maxRecursion approvals.owner
      s₁ = .ok s₂ := by
    cases hv : verifyActive g (requiredAuthorities ops) maxRecursion approvals.owner s₁ with
    | ok s₂ => exact ⟨s₂, rfl⟩
    | error e =>
      rw [hv] at h
      cases h
  obtain ⟨t₂, e2, _⟩ := verifyActive_respects hs h2
  exact (verifyAuthorityV2_other hb).mpr ⟨t₂, verifyActive_ok.mp ⟨t₁, Check.all_ok.mp e1, e2⟩⟩

end

/-! ## 3. What is satisfied within some levels -/

section

variable (nested : String → Except Exn Authority) (keys : List PublicKey) (approved : List String)

/-- The weights fit, and the authorities below, `left` levels deep, are there. -/
def Legible : Nat → Authority → Prop
  | 0, a => a.Fits
  | left + 1, a => a.Fits ∧ ∀ m ∈ a.accountAuths, ∃ b, nested m.1 = .ok b ∧ Legible left b

/-- The authority of an account that is there. -/
def authorityOf (a : String) : Authority := (nested a).toOption.getD nobody

/-- An authority that is there and legible. -/
def Present (left : Nat) (au : Except Exn Authority) : Prop :=
  ∃ a, au = .ok a ∧ Legible nested left a

/-- An authority that keys, approvals and the account temp satisfy within the levels. -/
def ReachedWithin (left : Nat) (au : Except Exn Authority) : Prop :=
  ∃ a, au = .ok a ∧ Legible nested left a ∧
    sat keys (authorityOf nested) ("temp" :: approved) left a = true

/-- An account that has approved, is the account temp, or has one of two authorities reached. -/
def CoveredWithin (left : Nat) (first second : String → Except Exn Authority) (id : String) :
    Prop :=
  id ∈ "temp" :: approved ∨ ReachedWithin nested keys approved left (first id) ∨
    Present nested left (first id) ∧ ReachedWithin nested keys approved left (second id)

/-- The keys, and the approvals and possibly more. -/
structure SignState.Seeded (s : SignState) : Prop where
  keys : s.keys = keys
  approvedBy : ∀ a ∈ "temp" :: approved, a ∈ s.approvedBy

/-- A check that ends, and passes when `P` holds. -/
def Check.Finds (c : Check) (P : Prop) : Prop :=
  ∀ s : SignState, s.Seeded keys approved →
    ∃ b s', c s = .ok (b, s') ∧ s'.Seeded keys approved ∧ (P → b = true)

end

/-- Every required authority is reached within the levels. -/
structure AllReached (g : Getters) (keys : List PublicKey) (approvals : Approvals) (left : Nat)
    (r : Required) : Prop where
  basic : ∀ id ∈ r.basic, CoveredWithin g.active keys approvals.all left g.active g.owner id
  other : ∀ au ∈ r.other, ReachedWithin g.active keys approvals.all left (.ok au)
  active : ∀ id ∈ r.active, CoveredWithin g.active keys approvals.all left g.active g.owner id
  masterContent : ∀ con ∈ r.masterContent,
    ReachedWithin g.active keys approvals.all left (g.masterContent con)
  compContent : ∀ con ∈ r.compContent,
    ReachedWithin g.active keys approvals.all left (g.compContent con)
  owner : ∀ id ∈ r.owner, id ∈ approvals.owner ∨
    ReachedWithin g.active keys approvals.all left (g.owner id)

section

variable {nested : String → Except Exn Authority} {keys : List PublicKey} {approved : List String}
  {left : Nat}

theorem SignState.init_seeded : (SignState.init keys approved).Seeded keys approved :=
  ⟨init_keys _ _, fun _ ha => ha⟩

theorem SignState.Seeded.approve {s : SignState} (h : s.Seeded keys approved) (a : String) :
    SignState.Seeded keys approved { s with approvedBy := a :: s.approvedBy } :=
  ⟨h.keys, fun b hb => List.mem_cons_of_mem _ (h.approvedBy b hb)⟩

theorem SignState.Seeded.mark {s : SignState} (h : s.Seeded keys approved) (l : List PublicKey) :
    (s.mark l).Seeded keys approved :=
  ⟨(s.mark_keys l).trans h.keys, h.approvedBy⟩

/-- The loop over the accounts, when the checks below it find what they look for. -/
theorem checkAccountAuths_finds {threshold : Nat} {below : Option (String → Check)}
    {p : String → Bool} (hp : ∀ m, m ∉ "temp" :: approved → p m = true → below.isSome = true)
    (l : List (String × Nat))
    (hbelow : ∀ f, below = some f → ∀ m ∈ l, m.1 ∉ "temp" :: approved →
      (f m.1).Finds keys approved (p m.1 = true))
    (total : Nat) (hfits : total + (l.map (·.2)).sum < 2 ^ 32) :
    (checkAccountAuths threshold below l total).Finds keys approved
      (threshold ≤ total + memberWeight p l) := by
  induction l generalizing total with
  | nil => exact fun s hs => ⟨_, s, rfl, hs, fun h => decide_eq_true h⟩
  | cons aw rest ih =>
    obtain ⟨a, w⟩ := aw
    intro s hs
    rw [List.map_cons, List.sum_cons] at hfits
    dsimp only at hfits
    have hrest := ih fun f hf m hm => hbelow f hf m (List.mem_cons_of_mem _ hm)
    have hu : u32 (total + w) = total + w := u32_eq (by omega)
    rw [memberWeight_cons]
    simp only [checkAccountAuths]
    split
    · -- it is in the cache
      rw [hu]
      split
      · exact ⟨true, s, rfl, hs, fun _ => rfl⟩
      · obtain ⟨b, s', hr, hs', hb⟩ := hrest (total + w) (by omega) s hs
        refine ⟨b, s', hr, hs', fun h => hb ?_⟩
        split at h <;> omega
    · rename_i hnot
      have hunseeded : a ∉ "temp" :: approved := fun ha => hnot (hs.approvedBy a ha)
      split
      · -- there are no levels left
        obtain ⟨b, s', hr, hs', hb⟩ := hrest total (by omega) s hs
        refine ⟨b, s', hr, hs', fun h => hb ?_⟩
        have hno : ¬p a = true := by
          intro ha
          cases hp a hunseeded ha
        rw [if_neg hno] at h
        omega
      · rename_i f
        obtain ⟨b, s₁, hr, hs₁, hb⟩ := hbelow f rfl (a, w) List.mem_cons_self hunseeded s hs
        simp only [hr, bind, Except.bind]
        cases b with
        | false =>
          obtain ⟨b', s', hr', hs', hb'⟩ := hrest total (by omega) s₁ hs₁
          refine ⟨b', s', hr', hs', fun h => hb' ?_⟩
          have hno : ¬p a = true := by
            intro ha
            cases hb ha
          rw [if_neg hno] at h
          omega
        | true =>
          rw [if_pos rfl, hu]
          split
          · exact ⟨true, _, rfl, hs₁.approve a, fun _ => rfl⟩
          · obtain ⟨b, s', hr, hs', hb⟩ := hrest (total + w) (by omega) _ (hs₁.approve a)
            refine ⟨b, s', hr, hs', fun h => hb ?_⟩
            split at h <;> omega

/-- The two loops, when the checks below find what they look for. -/
theorem checkAuths_finds {auth : Authority} {below : Option (String → Check)} {p : String → Bool}
    (hfits : auth.Fits)
    (hp : ∀ m, m ∉ "temp" :: approved → p m = true → below.isSome = true)
    (hbelow : ∀ f, below = some f → ∀ m ∈ auth.accountAuths, m.1 ∉ "temp" :: approved →
      (f m.1).Finds keys approved (p m.1 = true)) :
    (checkAuths below auth).Finds keys approved (satWith keys p auth = true) := by
  intro s hs
  obtain ⟨asked, hkeys⟩ := checkKeyAuths_eq keys auth.weightThreshold auth.keyAuths 0
  obtain ⟨_, htotal⟩ := hfits.satKeys keys
  rw [satWith_iff hfits]
  unfold checkAuths
  rw [hkeys s hs.keys]
  have hle := keyWeight_le keys auth.keyAuths
  unfold Authority.Fits at hfits
  cases hsat : satKeys keys auth.weightThreshold auth.keyAuths 0 with
  | mk passed total =>
    rw [hsat] at htotal
    cases passed with
    | true => exact ⟨true, _, rfl, hs.mark asked, fun _ => rfl⟩
    | false =>
      have htotal : total = keyWeight keys auth.keyAuths := htotal rfl
      obtain ⟨b, s', hr, hs', hb⟩ := checkAccountAuths_finds hp auth.accountAuths hbelow total
        (by omega) _ (hs.mark asked)
      exact ⟨b, s', hr, hs', fun h => hb (htotal ▸ h)⟩

theorem Check.Finds.or {c c' : Check} {P Q : Prop} (h : c.Finds keys approved P)
    (h' : c'.Finds keys approved Q) : (c.or c').Finds keys approved (P ∨ Q) := by
  intro s hs
  obtain ⟨b, s₁, hr, hs₁, hb⟩ := h s hs
  unfold Check.or
  simp only [hr, bind, Except.bind]
  cases b with
  | true => exact ⟨true, s₁, rfl, hs₁, fun _ => rfl⟩
  | false =>
    obtain ⟨b', s', hr', hs', hb'⟩ := h' s₁ hs₁
    exact ⟨b', s', hr', hs', fun hPQ => hb' (hPQ.resolve_left fun hP => nomatch hb hP)⟩

/-- **A check finds an authority that is reached within its levels**, whatever else the cache
holds. -/
theorem checkAuthority_complete (left : Nat) (auth : Authority) (h : Legible nested left auth) :
    (checkAuthority nested left auth).Finds keys approved
      (sat keys (authorityOf nested) ("temp" :: approved) left auth = true) := by
  induction left generalizing auth with
  | zero =>
    rw [checkAuthority_zero]
    exact checkAuths_finds h (fun m hm hp => absurd (of_decide_eq_true hp) hm)
      (fun _ hf => by cases hf)
  | succ left ih =>
    obtain ⟨hfits, hmembers⟩ := h
    rw [checkAuthority_succ]
    refine checkAuths_finds hfits (fun _ _ _ => rfl) (fun f hf m hm hunseeded s hs => ?_)
    cases hf
    obtain ⟨au, hau, hlegible⟩ := hmembers m hm
    obtain ⟨b, s', hr, hs', hb⟩ := ih au hlegible s hs
    refine ⟨b, s', ?_, hs', fun hp => hb ?_⟩
    · show Check.ofGetter (checkAuthority nested left) (nested m.1) s = .ok (b, s')
      rw [hau]
      exact hr
    · rw [decide_eq_false hunseeded, Bool.false_or, authorityOf, hau] at hp
      exact hp

theorem Check.Finds.passes {c : Check} {P : Prop} (h : c.Finds keys approved P) (hP : P)
    {s : SignState} (hs : s.Seeded keys approved) :
    ∃ s', c s = .ok (true, s') ∧ s'.Seeded keys approved := by
  obtain ⟨b, s', hr, hs', hb⟩ := h s hs
  obtain rfl := hb hP
  exact ⟨s', hr, hs'⟩

/-- Checks that pass on every cache pass in turn. -/
theorem inTurn_of_passes {cs : List Check} (h : ∀ c ∈ cs, ∀ s : SignState, s.Seeded keys approved →
    ∃ s', c s = .ok (true, s') ∧ s'.Seeded keys approved) {s : SignState}
    (hs : s.Seeded keys approved) : ∃ s', InTurn cs s s' := by
  induction cs generalizing s with
  | nil => exact ⟨s, rfl⟩
  | cons c cs ih =>
    obtain ⟨s₁, hr, hs₁⟩ := h c List.mem_cons_self s hs
    obtain ⟨s', hs'⟩ := ih (fun c hc => h c (List.mem_cons_of_mem _ hc)) hs₁
    exact ⟨s', s₁, hr, hs'⟩

theorem ReachedWithin.finds {au : Except Exn Authority}
    (h : ReachedWithin nested keys approved left au) :
    (Check.ofGetter (checkAuthority nested left) au).Finds keys approved True := by
  obtain ⟨a, rfl, hlegible, hreach⟩ := h
  intro s hs
  obtain ⟨s', hr, hs'⟩ := (checkAuthority_complete left a hlegible).passes hreach hs
  exact ⟨true, s', hr, hs', fun _ => rfl⟩

theorem Present.finds {au : Except Exn Authority} (h : Present nested left au) :
    (Check.ofGetter (checkAuthority nested left) au).Finds keys approved False := by
  obtain ⟨a, rfl, hlegible⟩ := h
  intro s hs
  obtain ⟨b, s', hr, hs', _⟩ := checkAuthority_complete left a hlegible s hs
  exact ⟨b, s', hr, hs', False.elim⟩

/-- An account that is covered passes, by its own authority or by the second one. -/
theorem CoveredWithin.passes {second : String → Except Exn Authority} {id : String} {c : Check}
    (h : CoveredWithin nested keys approved left nested second id)
    (hc : Present nested left (nested id) → ReachedWithin nested keys approved left (second id) →
      c.Finds keys approved True)
    {s : SignState} (hs : s.Seeded keys approved) :
    ∃ s', ((checkAuthorityOf nested left id).or c) s = .ok (true, s') ∧
      s'.Seeded keys approved := by
  by_cases hid : id ∈ s.approvedBy
  · refine ⟨s, ?_, hs⟩
    unfold Check.or checkAuthorityOf
    rw [if_pos hid]
    rfl
  · have hof : ∀ {P : Prop}, (Check.ofGetter (checkAuthority nested left) (nested id)).Finds keys
        approved P → ∃ b s', checkAuthorityOf nested left id s = .ok (b, s') ∧
          s'.Seeded keys approved ∧ (P → b = true) := by
      intro P hfinds
      unfold checkAuthorityOf
      rw [if_neg hid]
      exact hfinds s hs
    unfold Check.or
    rcases h with h | h | ⟨hfirst, hsecond⟩
    · exact absurd (hs.approvedBy id h) hid
    · obtain ⟨b, s', hr, hs', hb⟩ := hof h.finds
      obtain rfl := hb trivial
      simp only [hr, bind, Except.bind]
      exact ⟨s', rfl, hs'⟩
    · obtain ⟨b, s₁, hr, hs₁, _⟩ := hof hfirst.finds
      simp only [hr, bind, Except.bind]
      cases b with
      | true => exact ⟨s₁, rfl, hs₁⟩
      | false => exact (hc hfirst hsecond).passes trivial hs₁

end

/-! ## 4. Accepted again -/

section

variable {ops : List Operation} {sigs : List PublicKey} {g : Getters} {maxRecursion : Nat}
  {approvals : Approvals} {r : Required}

/-- The checks of accounts whose basic authority is required. -/
theorem AllReached.basic_inTurn (h : AllReached g sigs approvals maxRecursion r) :
    ∃ s, InTurn (r.basic.map (coverBasic g maxRecursion)) (SignState.init sigs approvals.all) s := by
  refine inTurn_of_passes (fun c hc s hs => ?_) SignState.init_seeded
  obtain ⟨id, hid, rfl⟩ := List.mem_map.mp hc
  have hcovered := h.basic id hid
  refine hcovered.passes (fun hfirst hsecond => ?_) hs
  -- the active authority is looked at once more before the owner authority
  intro s hs
  obtain ⟨b, s', hr, hs', hb⟩ := hfirst.finds.or hsecond.finds s hs
  exact ⟨b, s', hr, hs', fun _ => hb (.inr trivial)⟩

theorem AllReached.other_inTurn (h : AllReached g sigs approvals maxRecursion r) :
    ∃ s, InTurn (otherChecks g maxRecursion approvals.owner r)
      (SignState.init sigs approvals.all) s := by
  refine inTurn_of_passes (fun c hc s hs => ?_) SignState.init_seeded
  unfold otherChecks at hc
  simp only [List.mem_append, List.mem_map] at hc
  rcases hc with ⟨au, hau, rfl⟩ | ⟨id, hid, rfl⟩ | ⟨con, hcon, rfl⟩ | ⟨con, hcon, rfl⟩ |
    ⟨id, hid, rfl⟩
  · obtain ⟨a, ha, hlegible, hreach⟩ := h.other au hau
    cases ha
    exact (checkAuthority_complete maxRecursion au hlegible).passes hreach hs
  · exact (h.active id hid).passes (fun _ hsecond => hsecond.finds) hs
  · exact (h.masterContent con hcon).finds.passes trivial hs
  · exact (h.compContent con hcon).finds.passes trivial hs
  · rcases h.owner id hid with hown | hreach
    · exact ⟨s, if_pos hown, hs⟩
    · dsimp only
      split
      · exact ⟨s, rfl, hs⟩
      · exact hreach.finds.passes trivial hs

end

/-- Carol's key is in the active and in the basic authority of Alice. -/
def carolsKey : Getters where
  active id := .ok (if id = "alice" then ⟨1, [("carol", 1)], [(8, 1)]⟩ else ⟨1, [], [(7, 1)]⟩)
  owner _ := .ok nobody
  basic id := .ok (if id = "alice" then ⟨1, [("carol", 1)], []⟩ else ⟨1, [], [(7, 1)]⟩)
  masterContent _ := .ok nobody
  compContent _ := .ok nobody

end MuseChain
