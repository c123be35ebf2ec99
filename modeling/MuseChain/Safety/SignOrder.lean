/-
  File:      MuseChain/Safety/SignOrder.lean
  Subject:   When the order of authority checks on one sign_state does not matter.

  * `sat`: the recursion of `check_authority` without the cache of approvals.
  * `Complete`: one level more of the recursion makes no further account count.
  * `Check.Steady`, `Check.Decides`: a check returns a value that does not depend on what was
    checked before.
  * `check_order_iff`: every sequence of checks returns the values of `sat`, and
    `verify_authority_v2` accepts in every order, exactly when the accounts are complete.
-/
import MuseChain.Safety.Authorities

namespace MuseChain

/-! ## 1. The recursion without a cache -/

section

variable (keys : List PublicKey)

/-- The loop over the keys: whether the threshold was reached, and the weight so far. -/
def satKeys (threshold : Nat) : List (PublicKey × Nat) → Nat → Bool × Nat
  | [], total => (false, total)
  | (k, w) :: rest, total =>
      if k ∈ keys then
        let total := u32 (total + w)
        if threshold ≤ total then (true, total) else satKeys threshold rest total
      else satKeys threshold rest total

/-- The loop over the accounts. -/
def satAccounts (threshold : Nat) (counts : String → Bool) : List (String × Nat) → Nat → Bool
  | [], total => decide (threshold ≤ total)
  | (a, w) :: rest, total =>
      if counts a then
        let total := u32 (total + w)
        if threshold ≤ total then true else satAccounts threshold counts rest total
      else satAccounts threshold counts rest total

def satWith (counts : String → Bool) (auth : Authority) : Bool :=
  match satKeys keys auth.weightThreshold auth.keyAuths 0 with
  | (true, _) => true
  | (false, total) => satAccounts auth.weightThreshold counts auth.accountAuths total

variable (active : String → Authority) (approved : List String)

/-- An account counts when it has approved, or when its active authority is satisfied one level
below; `left` is the number of levels below. -/
def sat : Nat → Authority → Bool
  | 0, auth => satWith keys (fun a => decide (a ∈ approved)) auth
  | left + 1, auth => satWith keys (fun a => decide (a ∈ approved) || sat left (active a)) auth

/-- The accounts that count for an authority with `left` levels below it. -/
def counts : Nat → String → Bool
  | 0, a => decide (a ∈ approved)
  | left + 1, a => decide (a ∈ approved) || sat keys active approved left (active a)

end

/-- The weights of an authority do not wrap when they are added up. -/
def Authority.Fits (auth : Authority) : Prop :=
  (auth.keyAuths.map (·.2)).sum + (auth.accountAuths.map (·.2)).sum < 2 ^ 32

/-- The weight of the members that count. -/
def memberWeight (counts : String → Bool) (l : List (String × Nat)) : Nat :=
  ((l.filter fun m => counts m.1).map (·.2)).sum

section

variable {keys : List PublicKey} {active : String → Authority} {approved : List String}
  {threshold total : Nat}

theorem sat_eq (left : Nat) (auth : Authority) :
    sat keys active approved left auth = satWith keys (counts keys active approved left) auth := by
  cases left <;> rfl

theorem memberWeight_cons (p : String → Bool) (a : String) (w : Nat) (l : List (String × Nat)) :
    memberWeight p ((a, w) :: l) = (if p a = true then w else 0) + memberWeight p l := by
  unfold memberWeight
  cases h : p a <;> simp [h]

theorem memberWeight_mono {p q : String → Bool} (l : List (String × Nat))
    (h : ∀ m ∈ l, p m.1 = true → q m.1 = true) : memberWeight p l ≤ memberWeight q l := by
  induction l with
  | nil => exact le_rfl
  | cons m l ih =>
    have hrest := ih fun m' hm => h m' (List.mem_cons_of_mem _ hm)
    obtain ⟨a, w⟩ := m
    rw [memberWeight_cons, memberWeight_cons]
    by_cases hp : p a = true
    · rw [if_pos hp, if_pos (h (a, w) List.mem_cons_self hp)]
      omega
    · rw [if_neg hp]
      omega

theorem u32_eq {x : Nat} (h : x < 2 ^ 32) : u32 x = x := Nat.mod_eq_of_lt h

/-- The loop over the keys adds up the keys that signed, or stops at the threshold. -/
theorem satKeys_spec (l : List (PublicKey × Nat)) (hfit : total + (l.map (·.2)).sum < 2 ^ 32) :
    ((satKeys keys threshold l total).1 = true → threshold ≤ total + keyWeight keys l) ∧
      ((satKeys keys threshold l total).1 = false →
        (satKeys keys threshold l total).2 = total + keyWeight keys l) := by
  induction l generalizing total with
  | nil => simp [satKeys, keyWeight]
  | cons kw rest ih =>
    obtain ⟨k, w⟩ := kw
    simp only [List.map_cons, List.sum_cons] at hfit
    rw [keyWeight_cons]
    unfold satKeys
    by_cases hk : k ∈ keys
    · rw [if_pos hk, if_pos hk, u32_eq (by omega)]
      obtain ⟨h1, h2⟩ := ih (show total + w + (rest.map (·.2)).sum < 2 ^ 32 by omega)
      dsimp only
      split
      · exact ⟨fun _ => by omega, fun h => by cases h⟩
      · exact ⟨fun h => by have := h1 h; omega, fun h => by have := h2 h; omega⟩
    · rw [if_neg hk, if_neg hk]
      obtain ⟨h1, h2⟩ := ih (show total + (rest.map (·.2)).sum < 2 ^ 32 by omega)
      exact ⟨fun h => by have := h1 h; omega, fun h => by have := h2 h; omega⟩

theorem satAccounts_iff (p : String → Bool) (l : List (String × Nat))
    (hfit : total + (l.map (·.2)).sum < 2 ^ 32) :
    satAccounts threshold p l total = true ↔ threshold ≤ total + memberWeight p l := by
  induction l generalizing total with
  | nil => simp [satAccounts, memberWeight]
  | cons m rest ih =>
    obtain ⟨a, w⟩ := m
    simp only [List.map_cons, List.sum_cons] at hfit
    rw [memberWeight_cons]
    unfold satAccounts
    by_cases hp : p a = true
    · rw [if_pos hp, if_pos hp, u32_eq (by omega)]
      dsimp only
      split
      · exact ⟨fun _ => by omega, fun _ => rfl⟩
      · rw [ih (by omega)]
        omega
    · rw [if_neg hp, if_neg hp, ih (by omega)]
      omega

theorem keyWeight_le (keys : List PublicKey) (l : List (PublicKey × Nat)) :
    keyWeight keys l ≤ (l.map (·.2)).sum :=
  (List.filter_sublist.map (fun k : PublicKey × Nat => k.2)).sum_le_sum fun _ _ => Nat.zero_le _

/-- From 0 on no sum of the keys of an authority wraps. -/
theorem Authority.Fits.satKeys {auth : Authority} (hfit : auth.Fits) (keys : List PublicKey) :
    ((MuseChain.satKeys keys auth.weightThreshold auth.keyAuths 0).1 = true →
        auth.weightThreshold ≤ keyWeight keys auth.keyAuths) ∧
      ((MuseChain.satKeys keys auth.weightThreshold auth.keyAuths 0).1 = false →
        (MuseChain.satKeys keys auth.weightThreshold auth.keyAuths 0).2 =
          keyWeight keys auth.keyAuths) := by
  have hkeys : (auth.keyAuths.map (·.2)).sum + (auth.accountAuths.map (·.2)).sum < 2 ^ 32 := hfit
  obtain ⟨h1, h2⟩ : ((MuseChain.satKeys keys auth.weightThreshold auth.keyAuths 0).1 = true →
      auth.weightThreshold ≤ 0 + keyWeight keys auth.keyAuths) ∧ _ :=
    satKeys_spec auth.keyAuths (by omega)
  exact ⟨fun h => (h1 h).trans_eq (Nat.zero_add _), fun h => (h2 h).trans (Nat.zero_add _)⟩

/-- **An authority is satisfied when the keys and the members that count reach its threshold.** -/
theorem satWith_iff {auth : Authority} (hfit : auth.Fits) (p : String → Bool) :
    satWith keys p auth = true ↔
      auth.weightThreshold ≤ keyWeight keys auth.keyAuths + memberWeight p auth.accountAuths := by
  have hkeys : (auth.keyAuths.map (·.2)).sum + (auth.accountAuths.map (·.2)).sum < 2 ^ 32 := hfit
  obtain ⟨h1, h2⟩ := hfit.satKeys keys
  have hle := keyWeight_le keys auth.keyAuths
  unfold satWith
  cases hk : satKeys keys auth.weightThreshold auth.keyAuths 0 with
  | mk reached total =>
    rw [hk] at h1 h2
    cases reached with
    | true =>
      have := h1 rfl
      exact ⟨fun _ => by omega, fun _ => rfl⟩
    | false =>
      have htotal : total = keyWeight keys auth.keyAuths := h2 rfl
      dsimp only
      rw [satAccounts_iff p _ (by omega)]
      omega

theorem satWith_mono {auth : Authority} (hfit : auth.Fits) {p q : String → Bool}
    (h : ∀ m ∈ auth.accountAuths, p m.1 = true → q m.1 = true)
    (hp : satWith keys p auth = true) : satWith keys q auth = true := by
  rw [satWith_iff hfit] at hp ⊢
  have hle := memberWeight_mono auth.accountAuths h
  omega

end

/-- The keys of an authority and then its accounts, as one check. -/
def checkAuths (below : Option (String → Check)) (auth : Authority) : Check := fun s =>
  match checkKeyAuths auth.weightThreshold auth.keyAuths 0 s with
  | (true, _, s) => .ok (true, s)
  | (false, total, s) => checkAccountAuths auth.weightThreshold below auth.accountAuths total s

theorem checkAuthority_zero (getActive : String → Except Exn Authority) (auth : Authority) :
    checkAuthority getActive 0 auth = checkAuths none auth := by
  funext s
  unfold checkAuthority
  rfl

theorem checkAuthority_succ (getActive : String → Except Exn Authority) (left : Nat)
    (auth : Authority) :
    checkAuthority getActive (left + 1) auth =
      checkAuths (some fun a => Check.ofGetter (checkAuthority getActive left) (getActive a))
        auth := by
  funext s
  conv_lhs => unfold checkAuthority
  rfl

/-! ## 2. Checks that leave the cache alone -/

namespace SignState

def keys (s : SignState) : List PublicKey := s.provided.map Prod.fst

/-- The state after the keys of `l` were asked for. -/
def mark (s : SignState) (l : List PublicKey) : SignState :=
  { s with provided := s.provided.map fun p => (p.1, p.2 || decide (p.1 ∈ l)) }

@[simp] theorem mark_keys (s : SignState) (l : List PublicKey) : (s.mark l).keys = s.keys := by
  simp [keys, mark]

@[simp] theorem mark_approvedBy (s : SignState) (l : List PublicKey) :
    (s.mark l).approvedBy = s.approvedBy := rfl

theorem mark_nil (s : SignState) : s.mark [] = s := by simp [mark]

theorem mark_mark (s : SignState) (l l' : List PublicKey) :
    (s.mark l).mark l' = s.mark (l ++ l') := by
  simp [mark, Bool.or_assoc]

theorem mark_congr (s : SignState) {l l' : List PublicKey} (h : ∀ k, k ∈ l ↔ k ∈ l') :
    s.mark l = s.mark l' := by
  simp only [mark, h]

@[simp] theorem init_keys (sigs : List PublicKey) (approvals : List String) :
    (init sigs approvals).keys = sigs := by
  simp [init, keys, Function.comp_def]

theorem signedBy_eq (s : SignState) (k : PublicKey) :
    s.signedBy k = (decide (k ∈ s.keys), s.mark [k]) := by
  have hany : (s.provided.any fun p => decide (p.1 = k)) = decide (k ∈ s.keys) := by
    rw [Bool.eq_iff_iff, List.any_eq_true, decide_eq_true_iff]
    simp only [keys, List.mem_map, decide_eq_true_eq]
  unfold signedBy
  rw [hany]
  by_cases hk : k ∈ s.keys
  · rw [if_pos (decide_eq_true hk), decide_eq_true hk]
    refine congrArg (fun l => (true, (⟨l, s.approvedBy⟩ : SignState)))
      (List.map_congr_left fun p _ => ?_)
    by_cases hp : p.1 = k
    · rw [if_pos hp, hp]
      simp
    · rw [if_neg hp]
      simp [hp]
  · rw [if_neg (by simpa using hk), decide_eq_false hk]
    -- no signature is for the key
    refine congrArg (fun l => (false, (⟨l, s.approvedBy⟩ : SignState))) ?_
    refine (List.map_id _).symm.trans (List.map_congr_left fun p hp => ?_)
    have hne : p.1 ≠ k := fun h => hk (List.mem_map.mpr ⟨p, hp, h⟩)
    simp [hne]

end SignState

/-- The loop over the keys depends on the keys only, and marks the same ones every time. -/
theorem checkKeyAuths_eq (keys : List PublicKey) (threshold : Nat) (l : List (PublicKey × Nat))
    (total : Nat) : ∃ asked, ∀ s : SignState, s.keys = keys →
      checkKeyAuths threshold l total s = ((satKeys keys threshold l total).1,
        (satKeys keys threshold l total).2, s.mark asked) := by
  induction l generalizing total with
  | nil => exact ⟨[], fun s _ => by rw [s.mark_nil]; rfl⟩
  | cons kw rest ih =>
    obtain ⟨k, w⟩ := kw
    by_cases hk : k ∈ keys
    · by_cases ht : threshold ≤ u32 (total + w)
      · refine ⟨[k], fun s hs => ?_⟩
        simp only [checkKeyAuths, s.signedBy_eq, hs, hk, ht, satKeys, decide_true, if_true]
      · obtain ⟨asked, h⟩ := ih (u32 (total + w))
        refine ⟨k :: asked, fun s hs => ?_⟩
        simp only [checkKeyAuths, s.signedBy_eq, hs, hk, ht, satKeys, decide_true, if_true,
          if_false]
        rw [h _ ((s.mark_keys [k]).trans hs), s.mark_mark]
        rfl
    · obtain ⟨asked, h⟩ := ih total
      refine ⟨k :: asked, fun s hs => ?_⟩
      simp only [checkKeyAuths, s.signedBy_eq, hs, hk, satKeys, decide_false, if_false]
      rw [h _ ((s.mark_keys [k]).trans hs), s.mark_mark]
      rfl

section

variable {keys : List PublicKey} {active : String → Authority} {approved : List String}

/-- The state holds these keys, and the cache holds no more than the initial approvals. -/
structure SignState.At (keys : List PublicKey) (approved : List String) (s : SignState) : Prop where
  keys : s.keys = keys
  approvedBy : s.approvedBy = approved

/-- A check that returns `p` and only marks keys, the same ones every time. -/
def Check.Steady (keys : List PublicKey) (approved : List String) (c : Check) (p : Bool) : Prop :=
  ∃ asked, ∀ s : SignState, s.At keys approved → c s = .ok (p, s.mark asked)

theorem SignState.At.mark {s : SignState} (h : s.At keys approved) (l : List PublicKey) :
    (s.mark l).At keys approved := ⟨(s.mark_keys l).trans h.keys, h.approvedBy⟩

theorem SignState.init_at (sigs : List PublicKey) (approvals : List String) :
    (SignState.init sigs approvals).At sigs ("temp" :: approvals) := ⟨init_keys _ _, rfl⟩

/-- The loop over the accounts, when nobody outside the cache passes. -/
theorem checkAccountAuths_steady {below : Option (String → Check)}
    (hbelow : ∀ f, below = some f → ∀ a, a ∉ approved → (f a).Steady keys approved false)
    (threshold : Nat) (l : List (String × Nat)) (total : Nat) :
    (checkAccountAuths threshold below l total).Steady keys approved
      (satAccounts threshold (fun a => decide (a ∈ approved)) l total) := by
  induction l generalizing total with
  | nil => exact ⟨[], fun s _ => by rw [s.mark_nil]; rfl⟩
  | cons m rest ih =>
    obtain ⟨a, w⟩ := m
    by_cases ha : a ∈ approved
    · by_cases ht : threshold ≤ u32 (total + w)
      · refine ⟨[], fun s hs => ?_⟩
        simp only [checkAccountAuths, hs.approvedBy, ha, ht, satAccounts, decide_true, if_true,
          s.mark_nil]
      · obtain ⟨asked, h⟩ := ih (u32 (total + w))
        refine ⟨asked, fun s hs => ?_⟩
        simp only [checkAccountAuths, hs.approvedBy, ha, ht, satAccounts, decide_true, if_true,
          if_false]
        exact h s hs
    · obtain ⟨asked, h⟩ := ih total
      cases below with
      | none =>
        refine ⟨asked, fun s hs => ?_⟩
        simp only [checkAccountAuths, hs.approvedBy, ha, satAccounts, decide_false, if_false]
        exact h s hs
      | some f =>
        obtain ⟨asked', h'⟩ := hbelow f rfl a ha
        refine ⟨asked' ++ asked, fun s hs => ?_⟩
        simp only [checkAccountAuths, hs.approvedBy, ha, satAccounts, decide_false, if_false,
          h' s hs]
        rw [← s.mark_mark]
        exact h _ (hs.mark asked')

/-- One level more makes no further account count. At level 0: nobody outside the initial approvals
has an active authority that they and the keys satisfy. -/
def Complete (keys : List PublicKey) (active : String → Authority) (approved : List String)
    (left : Nat) : Prop :=
  ∀ a, counts keys active approved (left + 1) a = true → counts keys active approved left a = true

theorem counts_zero {a : String} : counts keys active approved 0 a = true ↔ a ∈ approved :=
  decide_eq_true_iff

theorem counts_succ {left : Nat} {a : String} :
    counts keys active approved (left + 1) a = true ↔
      a ∈ approved ∨ sat keys active approved left (active a) = true := by
  simp [counts]

/-- The approvals are complete at every level when they are at the lowest. -/
theorem Complete.counts (h : Complete keys active approved 0) (left : Nat) :
    counts keys active approved left = counts keys active approved 0 := by
  induction left with
  | zero => rfl
  | succ left ih =>
    funext a
    rw [Bool.eq_iff_iff]
    refine ⟨fun ha => ?_, fun ha => counts_succ.mpr (.inl (counts_zero.mp ha))⟩
    rcases counts_succ.mp ha with ha | ha
    · exact counts_zero.mpr ha
    · rw [sat_eq, ih, ← sat_eq] at ha
      exact h a (counts_succ.mpr (.inr ha))

theorem Complete.sat (h : Complete keys active approved 0) (left : Nat) (auth : Authority) :
    sat keys active approved left auth = sat keys active approved 0 auth := by
  rw [sat_eq, sat_eq, h.counts left]

theorem checkAuths_steady {below : Option (String → Check)}
    (hbelow : ∀ f, below = some f → ∀ a, a ∉ approved → (f a).Steady keys approved false)
    (auth : Authority) :
    (checkAuths below auth).Steady keys approved
      (satWith keys (fun a => decide (a ∈ approved)) auth) := by
  obtain ⟨asked, hk⟩ := checkKeyAuths_eq keys auth.weightThreshold auth.keyAuths 0
  obtain ⟨asked', ha⟩ := checkAccountAuths_steady hbelow auth.weightThreshold auth.accountAuths
    (satKeys keys auth.weightThreshold auth.keyAuths 0).2
  unfold satWith
  cases hreached : satKeys keys auth.weightThreshold auth.keyAuths 0 with
  | mk reached total =>
    rw [hreached] at hk ha
    cases reached with
    | true => exact ⟨asked, fun s hs => by simp only [checkAuths, hk s hs.keys]⟩
    | false =>
      refine ⟨asked ++ asked', fun s hs => ?_⟩
      simp only [checkAuths, hk s hs.keys]
      rw [← s.mark_mark]
      exact ha _ (hs.mark asked)

/-- **With complete approvals a check only marks keys.** -/
theorem checkAuthority_steady {left : Nat} (h : left = 0 ∨ Complete keys active approved 0)
    (auth : Authority) :
    (checkAuthority (fun a => .ok (active a)) left auth).Steady keys approved
      (sat keys active approved left auth) := by
  induction left generalizing auth with
  | zero =>
    rw [checkAuthority_zero]
    exact checkAuths_steady (fun _ hf => by cases hf) auth
  | succ left ih =>
    obtain h | h := h
    · cases h
    rw [checkAuthority_succ, h.sat]
    refine checkAuths_steady (fun f hf a ha => ?_) auth
    cases hf
    have hnot : sat keys active approved left (active a) = false := by
      rw [Bool.eq_false_iff, h.sat]
      exact fun hsat => ha (counts_zero.mp (h a (counts_succ.mpr (.inr hsat))))
    exact hnot ▸ ih (.inr h) (active a)

theorem checkAuthorityOf_steady {left : Nat} (h : left = 0 ∨ Complete keys active approved 0)
    (id : String) :
    (checkAuthorityOf (fun a => .ok (active a)) left id).Steady keys approved
      (decide (id ∈ approved) || sat keys active approved left (active id)) := by
  by_cases hid : id ∈ approved
  · refine ⟨[], fun s hs => ?_⟩
    unfold checkAuthorityOf
    rw [if_pos (hs.approvedBy ▸ hid), s.mark_nil, decide_eq_true hid]
    rfl
  · obtain ⟨asked, hc⟩ := checkAuthority_steady h (active id)
    refine ⟨asked, fun s hs => ?_⟩
    unfold checkAuthorityOf
    rw [if_neg (hs.approvedBy ▸ hid), decide_eq_false hid]
    exact hc s hs

end

/-! ## 3. Lists in another order -/

/-- The checks of version 2 on the authorities that were collected. -/
def verifyRequired (r : Required) (sigs : List PublicKey) (g : Getters) (allowExtraSigs : Bool)
    (maxRecursion : Nat) (approvals : Approvals) : Except Exn Unit := do
  let basic := r.basic.filter fun id => decide (id ∉ r.active) && decide (id ∉ r.owner)
  check (basic = [] ∨ (r.active = [] ∧ r.owner = [] ∧ r.masterContent = [] ∧ r.compContent = [] ∧
    r.other.isEmpty = true)) "Cannot combine operations with basic approval and others!"
  let s := SignState.init sigs (approvals.basic ++ approvals.active ++ approvals.owner)
  let below := checkAuthority g.active maxRecursion
  let s ← Check.all below "Missing Authority" r.other s
  let s ← Check.all
    (fun id => (checkAuthorityOf g.active maxRecursion id).or
      ((Check.ofGetter below (g.active id)).or (Check.ofGetter below (g.owner id))))
    "Missing Active Authority ${id}" basic s
  let s ← verifyActive g r maxRecursion approvals.owner s
  if allowExtraSigs then pure ()
  else check (s.hasUnused = false) "Unnecessary signature(s) detected"

/-- The same authorities, to be checked in another order. -/
structure Required.Perm (r r' : Required) : Prop where
  active : r.active.Perm r'.active
  owner : r.owner.Perm r'.owner
  basic : r.basic.Perm r'.basic
  masterContent : r.masterContent.Perm r'.masterContent
  compContent : r.compContent.Perm r'.compContent
  other : r.other.Perm r'.other

/-- The authorities that the getters find; an account or content without one is as an account with
an authority that nobody can satisfy. -/
structure AuthorityMaps where
  active : String → Authority
  owner : String → Authority
  basic : String → Authority
  masterContent : String → Authority
  compContent : String → Authority

def AuthorityMaps.getters (m : AuthorityMaps) : Getters where
  active := fun a => .ok (m.active a)
  owner := fun a => .ok (m.owner a)
  basic := fun a => .ok (m.basic a)
  masterContent := fun con => .ok (m.masterContent con)
  compContent := fun con => .ok (m.compContent con)

/-- Every authority of the maps has the property. -/
structure AuthorityMaps.Each (m : AuthorityMaps) (P : Authority → Prop) : Prop where
  active : ∀ a, P (m.active a)
  owner : ∀ a, P (m.owner a)
  masterContent : ∀ con, P (m.masterContent con)
  compContent : ∀ con, P (m.compContent con)

section

variable {β : Type} {R : SignState → SignState → Prop} {tame : Check → Prop}

/-- Related states or the same error. -/
def Follows (R : SignState → SignState → Prop) (x y : Except Exn SignState) : Prop :=
  (∃ s t, x = .ok s ∧ y = .ok t ∧ R s t) ∨ ∃ e, x = .error e ∧ y = .error e

/-- Lists of tame checks end alike in any order. -/
structure Unordered (R : SignState → SignState → Prop) (tame : Check → Prop) : Prop where
  pass : tame fun s => .ok (true, s)
  or : ∀ {c c'}, tame c → tame c' → tame (c.or c')
  all : ∀ {α : Type} {check : α → Check} {l l' : List α} {s t}, (∀ x ∈ l, tame (check x)) →
    l.Perm l' → R s t → ∀ msg, Follows R (Check.all check msg l s) (Check.all check msg l' t)

theorem Follows.bind {x y : Except Exn SignState} {f f' : SignState → Except Exn β}
    (h : Follows R x y) (hf : ∀ s t, R s t → f s = f' t) : (x >>= f) = (y >>= f') := by
  rcases h with ⟨s, t, rfl, rfl, hst⟩ | ⟨e, rfl, rfl⟩
  · exact hf s t hst
  · rfl

theorem Follows.follows {x y : Except Exn SignState} {f f' : SignState → Except Exn SignState}
    (h : Follows R x y) (hf : ∀ s t, R s t → Follows R (f s) (f' t)) :
    Follows R (x >>= f) (y >>= f') := by
  rcases h with ⟨s, t, rfl, rfl, hst⟩ | ⟨e, rfl, rfl⟩
  · exact hf s t hst
  · exact .inr ⟨e, rfl, rfl⟩

theorem perm_nil_iff {α : Type} {l l' : List α} (h : l.Perm l') : l = [] ↔ l' = [] := by
  rw [← List.length_eq_zero_iff, ← List.length_eq_zero_iff, h.length_eq]

/-- **The checks of version 2 can be made in any order when they are tame.** At the end the states
have the same signatures left, unless nobody looks at these. -/
theorem verifyRequired_perm {P : Authority → Prop} {m : AuthorityMaps} {r r' : Required}
    {sigs : List PublicKey} {allowExtraSigs : Bool} {maxRecursion : Nat} {approvals : Approvals}
    (ho : Unordered R tame) (hm : m.Each P) (hP : ∀ au ∈ r.other, P au) (h : r.Perm r')
    (hauth : ∀ au, P au → tame (checkAuthority m.getters.active maxRecursion au))
    (hof : ∀ id, tame (checkAuthorityOf m.getters.active maxRecursion id))
    (hinit : R (SignState.init sigs approvals.all) (SignState.init sigs approvals.all))
    (hunused : allowExtraSigs = true ∨ ∀ s t, R s t → s.hasUnused = t.hasUnused) :
    verifyRequired r sigs m.getters allowExtraSigs maxRecursion approvals =
      verifyRequired r' sigs m.getters allowExtraSigs maxRecursion approvals := by
  have hfilter : (r.basic.filter fun id => decide (id ∉ r.active) && decide (id ∉ r.owner)).Perm
      (r'.basic.filter fun id => decide (id ∉ r'.active) && decide (id ∉ r'.owner)) := by
    simp only [h.active.mem_iff, h.owner.mem_iff]
    exact h.basic.filter _
  have howner : ∀ id, tame (Check.ofGetter (checkAuthority m.getters.active maxRecursion)
      (m.getters.owner id)) := fun id => hauth _ (hm.owner id)
  unfold verifyRequired
  simp only [List.isEmpty_iff, perm_nil_iff hfilter, perm_nil_iff h.active,
    perm_nil_iff h.owner, perm_nil_iff h.masterContent,
    perm_nil_iff h.compContent, perm_nil_iff h.other]
  refine congrArg _ (funext fun _ => ?_)
  refine (ho.all (fun au hau => hauth au (hP au hau)) h.other hinit _).bind fun s t hst => ?_
  refine (ho.all (fun id _ => ho.or (hof id) (ho.or (hauth _ (hm.active id)) (howner id))) hfilter
    hst _).bind fun s t hst => ?_
  have hactive : Follows R (verifyActive m.getters r maxRecursion approvals.owner s)
      (verifyActive m.getters r' maxRecursion approvals.owner t) := by
    unfold verifyActive
    refine (ho.all (fun id _ => ho.or (hof id) (howner id)) h.active hst _).follows
      fun s t hst => ?_
    refine (ho.all (fun con _ => hauth _ (hm.masterContent con)) h.masterContent hst _).follows
      fun s t hst => ?_
    refine (ho.all (fun con _ => hauth _ (hm.compContent con)) h.compContent hst _).follows
      fun s t hst => ?_
    refine ho.all (fun id _ => ?_) h.owner hst _
    by_cases hid : id ∈ approvals.owner
    · simp only [hid, if_true]
      exact ho.pass
    · simp only [hid, if_false]
      exact howner id
  refine hactive.bind fun s t hst => ?_
  rcases hunused with rfl | hunused
  · rfl
  · rw [hunused s t hst]

end

/-! ## 4. Calls on one sign_state -/

/-- `check_authority( id )` or `check_authority( auth, depth )`. -/
inductive AuthorityCall where
  | account (id : String)
  | authority (auth : Authority) (depth : Nat)

namespace AuthorityCall

def depth : AuthorityCall → Nat
  | account _ => 0
  | authority _ depth => depth

section

variable (keys : List PublicKey) (active : String → Authority) (approved : List String)
  (maxRecursion : Nat)

def run : AuthorityCall → Check
  | account id => checkAuthorityOf (fun a => .ok (active a)) maxRecursion id
  | authority auth depth => checkAuthority (fun a => .ok (active a)) (maxRecursion - depth) auth

/-- The value without a cache. -/
def sat : AuthorityCall → Bool
  | account id =>
      decide (id ∈ approved) || MuseChain.sat keys active approved maxRecursion (active id)
  | authority auth depth => MuseChain.sat keys active approved (maxRecursion - depth) auth

/-- What the calls return, one after the other. -/
def runAll : List AuthorityCall → SignState → Except Exn (List Bool)
  | [], _ => .ok []
  | c :: rest, s => do
      let (b, s) ← c.run active maxRecursion s
      let bs ← runAll rest s
      pure (b :: bs)

/-- Every sequence of such calls returns the values without a cache. -/
def Pure (allowed : AuthorityCall → Prop) : Prop :=
  ∀ calls : List AuthorityCall, (∀ c ∈ calls, allowed c) →
    runAll active maxRecursion calls (SignState.init keys approved) =
      .ok (calls.map (·.sat keys active ("temp" :: approved) maxRecursion))

end

section

variable {keys : List PublicKey} {active : String → Authority} {approved : List String}
  {maxRecursion : Nat}

theorem runAll_cons_ok {c : AuthorityCall} {rest : List AuthorityCall} {s : SignState} {b : Bool}
    {bs : List Bool} : runAll active maxRecursion (c :: rest) s = .ok (b :: bs) ↔
      ∃ s', c.run active maxRecursion s = .ok (b, s') ∧
        runAll active maxRecursion rest s' = .ok bs := by
  have hunfold : runAll active maxRecursion (c :: rest) s =
      (c.run active maxRecursion s >>= fun r =>
        runAll active maxRecursion rest r.2 >>= fun bs => pure (r.1 :: bs)) := rfl
  rw [hunfold]
  cases c.run active maxRecursion s with
  | error e => simp [bind, Except.bind]
  | ok r =>
    obtain ⟨b', s'⟩ := r
    cases hr : runAll active maxRecursion rest s' with
    | error e => simp [bind, Except.bind, hr]
    | ok bs' => simp [bind, Except.bind, pure, Except.pure, hr, and_assoc]

end

end AuthorityCall

/-- Lists of authorities with the property are checked alike in any order. -/
def AnyOrder (m : AuthorityMaps) (keys : List PublicKey) (approvals : Approvals)
    (maxRecursion : Nat) (P : Authority → Prop) (allowExtraSigs : Bool) : Prop :=
  ∀ r r' : Required, r.Perm r' → (∀ au ∈ r.other, P au) →
    verifyRequired r keys m.getters allowExtraSigs maxRecursion approvals =
      verifyRequired r' keys m.getters allowExtraSigs maxRecursion approvals

section

variable {keys : List PublicKey} {active : String → Authority} {approved : List String}
  {c c' : Check} {p p' : Bool}

theorem Check.Steady.or (h : c.Steady keys approved p) (h' : c'.Steady keys approved p') :
    (c.or c').Steady keys approved (p || p') := by
  obtain ⟨asked, h⟩ := h
  obtain ⟨asked', h'⟩ := h'
  cases p with
  | true =>
    refine ⟨asked, fun s hs => ?_⟩
    unfold Check.or
    rw [h s hs]
    rfl
  | false =>
    refine ⟨asked ++ asked', fun s hs => ?_⟩
    unfold Check.or
    rw [h s hs, ← s.mark_mark]
    exact h' _ (hs.mark asked)

/-- A list of steady checks marks the keys of all of them. -/
theorem Check.all_steady {α : Type} {check : α → Check} {p : α → Bool} {asked : α → List PublicKey}
    (l : List α) (h : ∀ x ∈ l, ∀ s : SignState, s.At keys approved →
      check x s = .ok (p x, s.mark (asked x))) (msg : String) {s : SignState}
    (hs : s.At keys approved) : Check.all check msg l s =
      if l.all p then .ok (s.mark (l.flatMap asked)) else .error (.assert msg) := by
  induction l generalizing s with
  | nil => simp [Check.all, s.mark_nil]
  | cons x l ih =>
    simp only [Check.all, h x List.mem_cons_self s hs, bind, Except.bind]
    cases hp : p x with
    | false => simp [hp]
    | true =>
      rw [if_pos rfl, ih (fun y hy => h y (List.mem_cons_of_mem _ hy)) (hs.mark _), s.mark_mark]
      simp [hp]

theorem unordered_steady : Unordered (fun s t => s = t ∧ s.At keys approved)
    (fun c => ∃ p, c.Steady keys approved p) where
  pass := ⟨true, [], fun s _ => by rw [s.mark_nil]⟩
  or := fun ⟨_, h⟩ ⟨_, h'⟩ => ⟨_, h.or h'⟩
  all := by
    rintro α check l l' s _ h hl ⟨rfl, hs⟩ msg
    choose! p asked h using h
    rw [Check.all_steady l h msg hs,
      Check.all_steady l' (fun x hx => h x (hl.mem_iff.mpr hx)) msg hs, hl.all_eq]
    split
    · refine .inl ⟨_, _, rfl, rfl, s.mark_congr fun k => ?_, hs.mark _⟩
      simp only [List.mem_flatMap, hl.mem_iff]
    · exact .inr ⟨_, rfl, rfl⟩

end

/-! ## 5. Calls at every depth -/

/-- The authority of one account. -/
def sole (a : String) : Authority := ⟨1, [(a, 1)], []⟩

section

variable {keys : List PublicKey} {active : String → Authority} {approved : List String}
  {maxRecursion : Nat}

theorem sat_sole (left : Nat) (a : String) :
    sat keys active approved left (sole a) = counts keys active approved left a := by
  rw [sat_eq]
  cases h : counts keys active approved left a <;>
    simp [satWith, sole, satKeys, satAccounts, u32, h]

theorem checkAuthority_sole_cached {getActive : String → Except Exn Authority} {left : Nat}
    {a : String} {s : SignState} (h : a ∈ s.approvedBy) :
    checkAuthority getActive left (sole a) s = .ok (true, s) := by
  cases left with
  | zero => simp [checkAuthority_zero, checkAuths, sole, checkKeyAuths, checkAccountAuths, h, u32]
  | succ left =>
    simp [checkAuthority_succ, checkAuths, sole, checkKeyAuths, checkAccountAuths, h, u32]

/-- An account that passes below is in the cache afterwards. -/
theorem checkAuthority_sole_succ {left : Nat} {a : String} {s s' : SignState} {b : Bool}
    (h : a ∉ s.approvedBy)
    (hc : checkAuthority (fun a => .ok (active a)) left (active a) s = .ok (b, s')) :
    checkAuthority (fun a => .ok (active a)) (left + 1) (sole a) s =
      .ok (b, if b then { s' with approvedBy := a :: s'.approvedBy } else s') := by
  have hbelow : Check.ofGetter (checkAuthority (fun a => .ok (active a)) left) (.ok (active a)) s =
      .ok (b, s') := hc
  cases b <;>
    simp [checkAuthority_succ, checkAuths, sole, checkKeyAuths, checkAccountAuths, h, u32, hbelow,
      bind, Except.bind]

theorem AuthorityCall.runAll_of {inv : SignState → Prop} (calls : List AuthorityCall)
    (h : ∀ c ∈ calls, ∀ s, inv s → ∃ s', c.run active maxRecursion s =
      .ok (c.sat keys active approved maxRecursion, s') ∧ inv s') {s : SignState} (hs : inv s) :
    AuthorityCall.runAll active maxRecursion calls s =
      .ok (calls.map (·.sat keys active approved maxRecursion)) := by
  induction calls generalizing s with
  | nil => rfl
  | cons c rest ih =>
    obtain ⟨s', hc, hs'⟩ := h c List.mem_cons_self s hs
    have hrest := ih (fun c' hc' => h c' (List.mem_cons_of_mem _ hc')) hs'
    exact AuthorityCall.runAll_cons_ok.mpr ⟨s', hc, hrest⟩

theorem AuthorityCall.pure_of_complete (allowed : AuthorityCall → Prop)
    (h : maxRecursion = 0 ∨ Complete keys active ("temp" :: approved) 0) :
    AuthorityCall.Pure keys active approved maxRecursion allowed := by
  intro calls _
  refine runAll_of calls (fun c _ s hs => ?_) (SignState.init_at keys approved)
  cases c with
  | account id =>
    obtain ⟨asked, hc⟩ := checkAuthorityOf_steady h id
    exact ⟨s.mark asked, hc s hs, hs.mark asked⟩
  | authority auth depth =>
    have hleft : maxRecursion - depth = 0 ∨ Complete keys active ("temp" :: approved) 0 :=
      h.imp_left fun h => by omega
    obtain ⟨asked, hc⟩ := checkAuthority_steady hleft auth
    exact ⟨s.mark asked, hc s hs, hs.mark asked⟩

/-- Calls at every depth return the values without a cache only when the approvals are complete:
an account that passes at the lowest level is in the cache for every call after it. -/
theorem AuthorityCall.Pure.complete
    (h : AuthorityCall.Pure keys active approved maxRecursion fun c => c.depth ≤ maxRecursion) :
    maxRecursion = 0 ∨ Complete keys active ("temp" :: approved) 0 := by
  refine (Nat.eq_zero_or_pos maxRecursion).imp_right fun hpos a ha => ?_
  rcases counts_succ.mp ha with hmem | hsat
  · exact counts_zero.mpr hmem
  by_contra hnot
  have hout : a ∉ "temp" :: approved := fun hmem => hnot (counts_zero.mpr hmem)
  have hrun := h [.authority (sole a) (maxRecursion - 1), .authority (sole a) maxRecursion] (by
    intro c hc
    rcases List.mem_pair.mp hc with rfl | rfl
    · exact Nat.sub_le _ _
    · exact le_rfl)
  rw [List.map_cons, AuthorityCall.runAll_cons_ok] at hrun
  obtain ⟨s, hfirst, hrest⟩ := hrun
  rw [List.map_cons, AuthorityCall.runAll_cons_ok] at hrest
  obtain ⟨s', hsecond, -⟩ := hrest
  -- the first call looks one level below, where the account passes
  obtain ⟨asked, hsteady⟩ : (checkAuthority (fun a => .ok (active a)) 0 (active a)).Steady keys
      ("temp" :: approved) (MuseChain.sat keys active ("temp" :: approved) 0 (active a)) :=
    checkAuthority_steady (.inl rfl) (active a)
  have hbelow := hsteady _ (SignState.init_at keys approved)
  rw [hsat] at hbelow
  have hleft : maxRecursion - (maxRecursion - 1) = 0 + 1 := by omega
  simp only [AuthorityCall.run, hleft] at hfirst
  have hs := (checkAuthority_sole_succ hout hbelow).symm.trans hfirst
  have hcached : a ∈ s.approvedBy := by
    have heq := (Prod.mk.inj (Except.ok.inj hs)).2
    rw [← heq]
    exact List.mem_cons_self
  -- so the second one, at the limit, counts it
  have hvalue := Except.ok.inj ((checkAuthority_sole_cached hcached).symm.trans hsecond)
  have hzero : (AuthorityCall.authority (sole a) maxRecursion).sat keys active
      ("temp" :: approved) maxRecursion = counts keys active ("temp" :: approved) 0 a := by
    simp only [AuthorityCall.sat, Nat.sub_self]
    exact sat_sole 0 a
  exact hnot (hzero ▸ (Prod.mk.inj hvalue).1.symm)

end

/-! ## 6. Calls from outside -/

section

variable {keys : List PublicKey} {active : String → Authority} {approved : List String}
  {maxRecursion : Nat} {J : List String → Prop} {low : Nat → String → Bool} {high : String → Bool}

/-- The keys of the state, and what is known of the cache. -/
structure SignState.Holds (keys : List PublicKey) (J : List String → Prop) (s : SignState) :
    Prop where
  keys : s.keys = keys
  approvedBy : J s.approvedBy

theorem SignState.Holds.mark {s : SignState} (h : s.Holds keys J) (l : List PublicKey) :
    (s.mark l).Holds keys J := ⟨(s.mark_keys l).trans h.keys, h.approvedBy⟩

/-- A check that passes when `least` holds, and passes only when `most` does. -/
def Check.Between (keys : List PublicKey) (J : List String → Prop) (c : Check)
    (least most : Prop) : Prop :=
  ∀ s : SignState, s.Holds keys J → ∃ b s', c s = .ok (b, s') ∧ s'.Holds keys J ∧
    (least → b = true) ∧ (b = true → most)

/-- What is known of the caches: they hold only accounts that `high` holds for, and may hold any
such account. -/
structure Caches (J : List String → Prop) (high : String → Bool) : Prop where
  mem : ∀ l, J l → ∀ a ∈ l, high a = true
  insert : ∀ l, J l → ∀ a, high a = true → J (a :: l)

/-- The loop over the accounts counts the members that `least` holds for, and only such that `high`
holds for. -/
theorem checkAccountAuths_between {below : Option (String → Check)} {least : String → Bool}
    {next : String → Prop} (hJ : Caches J high)
    (hleast : ∀ l, J l → ∀ a, least a = true → a ∈ l ∨ below ≠ none ∧ next a)
    (hbelow : ∀ f, below = some f → ∀ a, (f a).Between keys J (next a) (high a = true))
    (threshold : Nat) (l : List (String × Nat)) {total : Nat}
    (hfit : total + (l.map (·.2)).sum < 2 ^ 32) :
    (checkAccountAuths threshold below l total).Between keys J
      (threshold ≤ total + memberWeight least l) (threshold ≤ total + memberWeight high l) := by
  induction l generalizing total with
  | nil =>
    intro s hs
    refine ⟨_, s, rfl, hs, fun h => decide_eq_true (by simpa [memberWeight] using h), fun h => ?_⟩
    exact (of_decide_eq_true h).trans (Nat.le_add_right _ _)
  | cons m rest ih =>
    obtain ⟨a, w⟩ := m
    intro s hs
    simp only [List.map_cons, List.sum_cons] at hfit
    rw [memberWeight_cons, memberWeight_cons]
    have hwrap : u32 (total + w) = total + w := u32_eq (by omega)
    -- the rest after a member that counts, and after one that does not
    have hcounted : ∀ t : SignState, t.Holds keys J → high a = true →
        ∃ b s', (if threshold ≤ total + w then .ok (true, t)
            else checkAccountAuths threshold below rest (total + w) t) = .ok (b, s') ∧
          s'.Holds keys J ∧
          (threshold ≤ total + ((if least a = true then w else 0) + memberWeight least rest) →
            b = true) ∧
          (b = true →
            threshold ≤ total + ((if high a = true then w else 0) + memberWeight high rest)) := by
      intro t ht hhigh
      rw [if_pos hhigh]
      have hle : (if least a = true then w else 0) ≤ w := by
        split <;> omega
      by_cases hreached : threshold ≤ total + w
      · exact ⟨true, t, if_pos hreached, ht, fun _ => rfl, fun _ => by omega⟩
      · obtain ⟨b, s', hc, hs', hlow, hup⟩ := ih
          (show total + w + (rest.map (·.2)).sum < 2 ^ 32 by omega) t ht
        exact ⟨b, s', (if_neg hreached).trans hc, hs', fun h => hlow (by omega),
          fun h => by have := hup h; omega⟩
    have hskipped : ∀ t : SignState, t.Holds keys J → least a ≠ true →
        ∃ b s', checkAccountAuths threshold below rest total t = .ok (b, s') ∧
          s'.Holds keys J ∧
          (threshold ≤ total + ((if least a = true then w else 0) + memberWeight least rest) →
            b = true) ∧
          (b = true →
            threshold ≤ total + ((if high a = true then w else 0) + memberWeight high rest)) := by
      intro t ht hleast
      rw [if_neg hleast]
      obtain ⟨b, s', hc, hs', hlow, hup⟩ := ih
        (show total + (rest.map (·.2)).sum < 2 ^ 32 by omega) t ht
      exact ⟨b, s', hc, hs', fun h => hlow (by omega), fun h => by have := hup h; omega⟩
    unfold checkAccountAuths
    rw [hwrap]
    by_cases hcached : a ∈ s.approvedBy
    · rw [if_pos hcached]
      exact hcounted s hs (hJ.mem _ hs.approvedBy a hcached)
    rw [if_neg hcached]
    have hnext : least a = true → below ≠ none ∧ next a := fun h =>
      (hleast _ hs.approvedBy a h).resolve_left hcached
    cases below with
    | none => exact hskipped s hs fun h => (hnext h).1 rfl
    | some f =>
      obtain ⟨b, s₁, hf, hs1, hlow, hup⟩ := hbelow f rfl a s hs
      simp only [hf, bind, Except.bind]
      cases b with
      | false => exact hskipped s₁ hs1 fun h => by cases hlow (hnext h).2
      | true =>
        have hhigh := hup rfl
        exact hcounted _ ⟨hs1.keys, hJ.insert _ hs1.approvedBy a hhigh⟩ hhigh

theorem checkAuths_between {below : Option (String → Check)} {least : String → Bool}
    (next : String → Prop) (hJ : Caches J high)
    (hleast : ∀ l, J l → ∀ a, least a = true → a ∈ l ∨ below ≠ none ∧ next a)
    (hbelow : ∀ f, below = some f → ∀ a, (f a).Between keys J (next a) (high a = true))
    {auth : Authority} (hfit : auth.Fits) :
    (checkAuths below auth).Between keys J (satWith keys least auth = true)
      (satWith keys high auth = true) := by
  intro s hs
  obtain ⟨asked, hk⟩ := checkKeyAuths_eq keys auth.weightThreshold auth.keyAuths 0
  have hsum : (auth.keyAuths.map (·.2)).sum + (auth.accountAuths.map (·.2)).sum < 2 ^ 32 := hfit
  obtain ⟨-, htotal⟩ := hfit.satKeys keys
  have hle := keyWeight_le keys auth.keyAuths
  rw [satWith_iff hfit, satWith_iff hfit]
  unfold checkAuths
  rw [hk s hs.keys]
  cases hreached : satKeys keys auth.weightThreshold auth.keyAuths 0 with
  | mk reached total =>
    rw [hreached] at htotal
    cases reached with
    | true =>
      have hsat : satWith keys high auth = true := by simp only [satWith, hreached]
      have hth := (satWith_iff hfit high).mp hsat
      exact ⟨true, s.mark asked, rfl, hs.mark asked, fun _ => rfl, fun _ => hth⟩
    | false =>
      have heq : total = keyWeight keys auth.keyAuths := htotal rfl
      obtain ⟨b, s', hc, hs', hlow, hup⟩ := checkAccountAuths_between hJ hleast hbelow
        auth.weightThreshold auth.accountAuths
        (show total + (auth.accountAuths.map (·.2)).sum < 2 ^ 32 by omega) (s.mark asked)
        (hs.mark asked)
      exact ⟨b, s', hc, hs', fun h => hlow (by omega), fun h => by have := hup h; omega⟩

variable (low) in
/-- **A check passes for what `low` satisfies, and only for what `high` satisfies.** -/
theorem checkAuthority_between (hJ : Caches J high) (hfits : ∀ a, (active a).Fits)
    (hzero : ∀ l, J l → ∀ a, low 0 a = true → a ∈ l)
    (hsucc : ∀ left l, J l → ∀ a, low (left + 1) a = true →
      a ∈ l ∨ satWith keys (low left) (active a) = true)
    (hhigh : ∀ a, satWith keys high (active a) = true → high a = true)
    (left : Nat) {auth : Authority} (hfit : auth.Fits) :
    (checkAuthority (fun a => .ok (active a)) left auth).Between keys J
      (satWith keys (low left) auth = true) (satWith keys high auth = true) := by
  induction left generalizing auth with
  | zero =>
    rw [checkAuthority_zero]
    exact checkAuths_between (fun _ => True) hJ (fun l hl a h => .inl (hzero l hl a h))
      (fun _ hf => by cases hf) hfit
  | succ left ih =>
    rw [checkAuthority_succ]
    refine checkAuths_between (fun a => satWith keys (low left) (active a) = true) hJ
      (fun l hl a h => (hsucc left l hl a h).imp_right fun h => ⟨Option.some_ne_none _, h⟩)
      (fun f hf a => ?_) hfit
    cases hf
    intro s hs
    obtain ⟨b, s', hc, hs', hlow, hup⟩ := ih (hfits a) s hs
    exact ⟨b, s', hc, hs', hlow, fun h => hhigh a (hup h)⟩

/-- A check that returns `p` in every such state, and ends in one. -/
def Check.Decides (keys : List PublicKey) (J : List String → Prop) (c : Check) (p : Bool) : Prop :=
  ∀ s : SignState, s.Holds keys J → ∃ s', c s = .ok (p, s') ∧ s'.Holds keys J

theorem Check.Between.decides {c : Check} {p : Bool} {least most : Prop}
    (h : c.Between keys J least most) (hleast : p = true → least) (hmost : most → p = true) :
    c.Decides keys J p := by
  intro s hs
  obtain ⟨b, s', hc, hs', hlow, hup⟩ := h s hs
  have hb : b = p := Bool.eq_iff_iff.mpr ⟨fun h => hmost (hup h), fun h => hlow (hleast h)⟩
  exact ⟨s', hb ▸ hc, hs'⟩

theorem Check.Decides.or {c c' : Check} {p p' : Bool} (h : c.Decides keys J p)
    (h' : c'.Decides keys J p') : (c.or c').Decides keys J (p || p') := by
  intro s hs
  obtain ⟨s', hc, hs'⟩ := h s hs
  unfold Check.or
  rw [hc]
  cases p with
  | true => exact ⟨s', rfl, hs'⟩
  | false => exact h' s' hs'

/-- A list of checks passes when every member does. -/
theorem Check.all_decides {α : Type} {check : α → Check} {p : α → Bool} (l : List α)
    (h : ∀ x ∈ l, (check x).Decides keys J (p x)) (msg : String) {s : SignState}
    (hs : s.Holds keys J) :
    (l.all p = true ∧ ∃ s', Check.all check msg l s = .ok s' ∧ s'.Holds keys J) ∨
      (l.all p = false ∧ Check.all check msg l s = .error (.assert msg)) := by
  induction l generalizing s with
  | nil => exact .inl ⟨rfl, s, rfl, hs⟩
  | cons x l ih =>
    obtain ⟨s', hc, hs'⟩ := h x List.mem_cons_self s hs
    simp only [Check.all, hc, bind, Except.bind, List.all_cons]
    cases hp : p x with
    | false => exact .inr ⟨rfl, rfl⟩
    | true => exact ih (fun y hy => h y (List.mem_cons_of_mem _ hy)) hs'

theorem unordered_decides : Unordered (fun s t => s.Holds keys J ∧ t.Holds keys J)
    (fun c => ∃ p, c.Decides keys J p) where
  pass := ⟨true, fun s hs => ⟨s, rfl, hs⟩⟩
  or := fun ⟨_, h⟩ ⟨_, h'⟩ => ⟨_, h.or h'⟩
  all := by
    rintro α check l l' s t h hl ⟨hs, ht⟩ msg
    choose! p h using h
    have h' : ∀ x ∈ l', (check x).Decides keys J (p x) := fun x hx => h x (hl.mem_iff.mpr hx)
    rcases Check.all_decides l h msg hs with ⟨hp, s', hc, hs'⟩ | ⟨hp, hc⟩ <;>
      rcases Check.all_decides l' h' msg ht with ⟨hp', t', hc', ht'⟩ | ⟨hp', hc'⟩
    · exact .inl ⟨s', t', hc, hc', hs', ht'⟩
    · rw [hl.all_eq, hp'] at hp
      cases hp
    · rw [hl.all_eq, hp'] at hp
      cases hp
    · exact .inr ⟨_, hc, hc'⟩

/-- An account that counts at a level counts at the next. -/
theorem counts_step (hfits : ∀ a, (active a).Fits) (left : Nat) {a : String}
    (h : counts keys active approved left a = true) :
    counts keys active approved (left + 1) a = true := by
  induction left generalizing a with
  | zero => exact counts_succ.mpr (.inl (counts_zero.mp h))
  | succ left ih =>
    refine counts_succ.mpr ((counts_succ.mp h).imp_right fun h => ?_)
    rw [sat_eq] at h ⊢
    exact satWith_mono (hfits a) (fun m _ hm => ih hm) h

/-- The caches between the initial approvals and the accounts that count. -/
def Between (keys : List PublicKey) (active : String → Authority) (approved : List String)
    (left : Nat) (l : List String) : Prop :=
  (∀ a ∈ approved, a ∈ l) ∧ ∀ a ∈ l, counts keys active approved left a = true

theorem counts_of_mem {left : Nat} {a : String} (h : a ∈ approved) :
    counts keys active approved left a = true := by
  cases left with
  | zero => exact counts_zero.mpr h
  | succ left => exact counts_succ.mpr (.inl h)

/-- **With the accounts complete a check from outside returns the value without a cache.** -/
theorem checkAuthority_decides {left : Nat} (hfits : ∀ a, (active a).Fits)
    (h : Complete keys active approved left) {auth : Authority} (hfit : auth.Fits) :
    (checkAuthority (fun a => .ok (active a)) left auth).Decides keys
      (Between keys active approved left) (sat keys active approved left auth) := by
  have hcaches : Caches (Between keys active approved left) (counts keys active approved left) := by
    refine ⟨fun l hl => hl.2, fun l hl a ha => ⟨fun b hb => ?_, fun b hb => ?_⟩⟩
    · exact List.mem_cons_of_mem _ (hl.1 b hb)
    · rcases List.mem_cons.mp hb with rfl | hb
      · exact ha
      · exact hl.2 b hb
  have hb := checkAuthority_between (counts keys active approved) hcaches hfits
    (fun l hl a ha => hl.1 a (counts_zero.mp ha))
    (fun n l hl a ha => (counts_succ.mp ha).imp (hl.1 a) fun h => sat_eq n _ ▸ h)
    (fun a ha => h a (counts_succ.mpr (.inr ((sat_eq left _).trans ha)))) left hfit
  exact hb.decides (fun h => (sat_eq left auth).symm.trans h) fun h => (sat_eq left auth).trans h

theorem checkAuthorityOf_decides {left : Nat} (hfits : ∀ a, (active a).Fits) (hleft : left ≠ 0)
    (h : Complete keys active approved left) (id : String) :
    (checkAuthorityOf (fun a => .ok (active a)) left id).Decides keys
      (Between keys active approved left)
      (decide (id ∈ approved) || sat keys active approved left (active id)) := by
  intro s hs
  unfold checkAuthorityOf
  obtain ⟨n, rfl⟩ := Nat.exists_eq_succ_of_ne_zero hleft
  by_cases hid : id ∈ s.approvedBy
  · -- what is in the cache counts one level below, and so here
    have hcounts := counts_step hfits (n + 1) (hs.approvedBy.2 id hid)
    have hvalue : (decide (id ∈ approved) || sat keys active approved (n + 1) (active id)) = true :=
      hcounts
    rw [if_pos hid, hvalue]
    exact ⟨s, rfl, hs⟩
  · have hout : id ∉ approved := fun h => hid (hs.approvedBy.1 id h)
    rw [if_neg hid, decide_eq_false hout, Bool.false_or]
    exact checkAuthority_decides hfits h (hfits id) s hs

/-- The account `id`, or an authority whose weights do not wrap, checked from outside. -/
def AuthorityCall.Outer : AuthorityCall → Prop
  | account _ => True
  | authority auth depth => depth = 0 ∧ auth.Fits

theorem AuthorityCall.pure_outer (hfits : ∀ a, (active a).Fits) (hleft : maxRecursion ≠ 0)
    (h : Complete keys active ("temp" :: approved) maxRecursion) :
    AuthorityCall.Pure keys active approved maxRecursion AuthorityCall.Outer := by
  intro calls houter
  have hinit : (SignState.init keys approved).Holds keys
      (Between keys active ("temp" :: approved) maxRecursion) :=
    ⟨SignState.init_keys _ _, fun _ ha => ha, fun _ ha => counts_of_mem ha⟩
  refine runAll_of calls (fun c hc s hs => ?_) hinit
  have hout := houter c hc
  cases c with
  | account id => exact checkAuthorityOf_decides hfits hleft h id s hs
  | authority auth depth =>
    obtain ⟨rfl, hfit⟩ := hout
    exact checkAuthority_decides hfits h hfit s hs

theorem sole_fits (a : String) : (sole a).Fits := by
  simp [Authority.Fits, sole]

/-- A check never takes an account out of the cache, and passes for what the cache satisfies. -/
theorem checkAuthority_grows (hfits : ∀ a, (active a).Fits) (left : Nat) {auth : Authority}
    (hfit : auth.Fits) (s : SignState) :
    ∃ b s', checkAuthority (fun a => .ok (active a)) left auth s = .ok (b, s') ∧
      s'.keys = s.keys ∧ (∀ a ∈ s.approvedBy, a ∈ s'.approvedBy) ∧
      (satWith s.keys (fun a => decide (a ∈ s.approvedBy)) auth = true → b = true) := by
  have hcaches : Caches (fun l => ∀ a ∈ s.approvedBy, a ∈ l) fun _ => true :=
    ⟨fun _ _ _ _ => rfl, fun l hl a _ b hb => List.mem_cons_of_mem a (hl b hb)⟩
  have hb : (checkAuthority (fun a => .ok (active a)) left auth).Between s.keys
      (fun l => ∀ a ∈ s.approvedBy, a ∈ l)
      (satWith s.keys (fun a => decide (a ∈ s.approvedBy)) auth = true)
      (satWith s.keys (fun _ => true) auth = true) :=
    checkAuthority_between (fun _ a => decide (a ∈ s.approvedBy)) hcaches hfits
      (fun l hl a ha => hl a (of_decide_eq_true ha))
      (fun _ l hl a ha => .inl (hl a (of_decide_eq_true ha))) (fun _ _ => rfl) left hfit
  obtain ⟨b, s', hc, hs', hlow, -⟩ := hb s ⟨rfl, fun _ ha => ha⟩
  exact ⟨b, s', hc, hs'.keys, hs'.approvedBy, hlow⟩

/-- The call for one account: when it passes the account is in the cache. -/
theorem run_sole (hfits : ∀ a, (active a).Fits) {n : Nat} {a : String} {s s' : SignState} {b : Bool}
    (h : (AuthorityCall.authority (sole a) 0).run active (n + 1) s = .ok (b, s')) :
    s'.keys = s.keys ∧ (∀ m ∈ s.approvedBy, m ∈ s'.approvedBy) ∧
      (b = true → a ∈ s'.approvedBy) ∧
      (satWith s.keys (fun m => decide (m ∈ s.approvedBy)) (active a) = true → b = true) := by
  have hrun : checkAuthority (fun a => .ok (active a)) (n + 1) (sole a) s = .ok (b, s') := h
  by_cases ha : a ∈ s.approvedBy
  · obtain ⟨rfl, rfl⟩ := Prod.mk.inj (Except.ok.inj
      ((checkAuthority_sole_cached ha).symm.trans hrun))
    exact ⟨rfl, fun _ hm => hm, fun _ => ha, fun _ => rfl⟩
  · obtain ⟨b₁, s₁, hc, hkeys, hgrow, hpass⟩ := checkAuthority_grows hfits n (hfits a) s
    obtain ⟨rfl, rfl⟩ := Prod.mk.inj (Except.ok.inj
      ((checkAuthority_sole_succ ha hc).symm.trans hrun))
    cases b₁ with
    | false => exact ⟨hkeys, hgrow, (fun hb => by cases hb), hpass⟩
    | true =>
      exact ⟨hkeys, fun m hm => List.mem_cons_of_mem a (hgrow m hm),
        fun _ => List.mem_cons_self, hpass⟩

/-- After the calls for some accounts, those that count are in the cache. -/
theorem runAll_soles (hfits : ∀ a, (active a).Fits) {n : Nat} {value : String → Bool}
    {rest : List AuthorityCall} {bs : List Bool} (l : List String) {s : SignState}
    (h : AuthorityCall.runAll active (n + 1) (l.map (fun a => .authority (sole a) 0) ++ rest) s =
      .ok (l.map value ++ bs)) :
    ∃ s' : SignState, s'.keys = s.keys ∧ (∀ m ∈ s.approvedBy, m ∈ s'.approvedBy) ∧
      (∀ m ∈ l, value m = true → m ∈ s'.approvedBy) ∧
      AuthorityCall.runAll active (n + 1) rest s' = .ok bs := by
  induction l generalizing s with
  | nil => exact ⟨s, rfl, fun _ hm => hm, fun _ hm => absurd hm List.not_mem_nil, h⟩
  | cons a l ih =>
    obtain ⟨s₁, hc, hrest⟩ := AuthorityCall.runAll_cons_ok.mp h
    obtain ⟨hkeys, hgrow, hin, -⟩ := run_sole hfits hc
    obtain ⟨s', hkeys', hgrow', hin', hrest'⟩ := ih hrest
    refine ⟨s', hkeys'.trans hkeys, fun m hm => hgrow' m (hgrow m hm), fun m hm hv => ?_, hrest'⟩
    rcases List.mem_cons.mp hm with rfl | hm
    · exact hgrow' m (hin hv)
    · exact hin' m hm hv

/-- Calls from outside return the values without a cache only when the accounts are complete: an
account that one level more would approve passes once its members are in the cache. -/
theorem AuthorityCall.Pure.complete_outer (hfits : ∀ a, (active a).Fits)
    (h : AuthorityCall.Pure keys active approved maxRecursion AuthorityCall.Outer) :
    maxRecursion = 0 ∨ Complete keys active ("temp" :: approved) maxRecursion := by
  refine (Nat.eq_zero_or_pos maxRecursion).imp_right fun hpos a ha => ?_
  obtain ⟨n, rfl⟩ := Nat.exists_eq_succ_of_ne_zero hpos.ne'
  rcases counts_succ.mp ha with hmem | hsat
  · exact counts_of_mem hmem
  have hvalue : ∀ m, (AuthorityCall.authority (sole m) 0).sat keys active ("temp" :: approved)
      (n + 1) = counts keys active ("temp" :: approved) (n + 1) m := fun m => sat_sole (n + 1) m
  have hallowed : ∀ c ∈ ((active a).accountAuths.map (·.1)).map
      (fun m => AuthorityCall.authority (sole m) 0) ++ [.authority (sole a) 0], c.Outer := by
    intro c hc
    rcases List.mem_append.mp hc with hc | hc
    · obtain ⟨m, -, rfl⟩ := List.mem_map.mp hc
      exact ⟨rfl, sole_fits m⟩
    · obtain rfl := List.mem_singleton.mp hc
      exact ⟨rfl, sole_fits a⟩
  have hrun := h _ hallowed
  have hmap : ∀ l : List String, (l.map fun m => AuthorityCall.authority (sole m) 0).map
      (AuthorityCall.sat keys active ("temp" :: approved) (n + 1)) =
        l.map (counts keys active ("temp" :: approved) (n + 1)) := by
    intro l
    rw [List.map_map]
    exact List.map_congr_left fun m _ => hvalue m
  rw [List.map_append, hmap] at hrun
  obtain ⟨s, hkeys, -, hin, hrest⟩ := runAll_soles hfits _ hrun
  obtain ⟨s', hlast, -⟩ := AuthorityCall.runAll_cons_ok.mp hrest
  obtain ⟨-, -, -, hpass⟩ := run_sole hfits hlast
  rw [hkeys, SignState.init_keys] at hpass
  -- the members that count are in the cache, so the account passes
  rw [sat_eq] at hsat
  refine (hvalue a).symm.trans (hpass (satWith_mono (hfits a) (fun m hm hcount => ?_) hsat))
  exact decide_eq_true (hin m.1 (List.mem_map_of_mem hm) hcount)

end

/-! ## 7. The order of checks -/

/-- **Checks do not depend on the order when the accounts are complete.** For calls at every depth:
exactly when the recursion is not used, or nobody passes who is not approved from the start. For
calls from outside, with weights that do not wrap: exactly when one level more approves nobody. -/
theorem check_order_iff (m : AuthorityMaps) (keys : List PublicKey) (approvals : Approvals)
    (maxRecursion : Nat) :
    ((AuthorityCall.Pure keys m.active approvals.all maxRecursion (·.depth ≤ maxRecursion) ∧
        ∀ allowExtraSigs, AnyOrder m keys approvals maxRecursion (fun _ => True) allowExtraSigs) ↔
      maxRecursion = 0 ∨ Complete keys m.active ("temp" :: approvals.all) 0) ∧
    (m.Each Authority.Fits →
      ((AuthorityCall.Pure keys m.active approvals.all maxRecursion AuthorityCall.Outer ∧
          AnyOrder m keys approvals maxRecursion Authority.Fits true) ↔
        maxRecursion = 0 ∨ Complete keys m.active ("temp" :: approvals.all) maxRecursion)) := by
  have hsteady : ∀ (P : Authority → Prop) allowExtraSigs,
      maxRecursion = 0 ∨ Complete keys m.active ("temp" :: approvals.all) 0 →
      AnyOrder m keys approvals maxRecursion P allowExtraSigs := by
    intro P allowExtraSigs h r r' hr _
    exact verifyRequired_perm (P := fun _ => True) unordered_steady
      ⟨fun _ => trivial, fun _ => trivial, fun _ => trivial, fun _ => trivial⟩
      (fun _ _ => trivial) hr (fun au _ => ⟨_, checkAuthority_steady h au⟩)
      (fun id => ⟨_, checkAuthorityOf_steady h id⟩) ⟨rfl, SignState.init_at _ _⟩
      (.inr fun s t hst => hst.1 ▸ rfl)
  refine ⟨⟨fun h => h.1.complete,
    fun h => ⟨AuthorityCall.pure_of_complete _ h, fun b => hsteady _ b h⟩⟩,
    fun hfits => ⟨fun h => h.1.complete_outer hfits.active, fun h => ?_⟩⟩
  by_cases hleft : maxRecursion = 0
  · exact ⟨AuthorityCall.pure_of_complete _ (.inl hleft), hsteady _ _ (.inl hleft)⟩
  have hset := h.resolve_left hleft
  refine ⟨AuthorityCall.pure_outer hfits.active hleft hset, fun r r' hr hP => ?_⟩
  have hinit : (SignState.init keys approvals.all).Holds keys
      (Between keys m.active ("temp" :: approvals.all) maxRecursion) :=
    ⟨SignState.init_keys _ _, fun _ ha => ha, fun _ ha => counts_of_mem ha⟩
  exact verifyRequired_perm unordered_decides hfits hP hr
    (fun au hau => ⟨_, checkAuthority_decides hfits.active hset hau⟩)
    (fun id => ⟨_, checkAuthorityOf_decides hfits.active hleft hset id⟩) ⟨hinit, hinit⟩ (.inl rfl)

/-- Bob is controlled by albert, he by carol, she by dave, and dave by the key 7. -/
def ladder : AuthorityMaps where
  active := fun a =>
    if a = "albert" then sole "carol"
    else if a = "bob" then sole "albert"
    else if a = "carol" then sole "dave"
    else if a = "dave" then ⟨1, [], [(7, 1)]⟩
    else nobody
  owner := fun _ => nobody
  basic := fun _ => nobody
  masterContent := fun _ => nobody
  compContent := fun _ => nobody

/-- Dave is too deep below bob, but not once albert was checked. -/
theorem check_order_matters :
    AuthorityCall.runAll ladder.active maxSigCheckDepth [.account "albert", .account "bob"]
        (SignState.init [7] []) = .ok [true, true] ∧
      [AuthorityCall.account "albert", .account "bob"].map
        (·.sat [7] ladder.active ["temp"] maxSigCheckDepth) = [true, false] ∧
      verifyRequired ⟨["albert", "bob"], [], [], [], [], []⟩ [7] ladder.getters false
        maxSigCheckDepth {} = .ok () ∧
      verifyRequired ⟨["bob", "albert"], [], [], [], [], []⟩ [7] ladder.getters false
        maxSigCheckDepth {} = .error (.assert "Missing Active Authority ${id}") := by
  refine ⟨rfl, rfl, rfl, rfl⟩

theorem ladder_fits : ladder.Each Authority.Fits := by
  have hnobody : nobody.Fits := by simp [Authority.Fits, nobody]
  refine ⟨fun a => ?_, fun _ => hnobody, fun _ => hnobody, fun _ => hnobody⟩
  simp only [ladder]
  split_ifs <;> simp [Authority.Fits, sole, nobody]

/-- When carol approves, bob is not too deep. -/
theorem ladder_complete : Complete [7] ladder.active ["temp", "carol"] maxSigCheckDepth := by
  intro a ha
  by_cases hknown : a ∈ ["albert", "bob", "carol", "dave"]
  · simp only [List.mem_cons, List.not_mem_nil, or_false] at hknown
    rcases hknown with rfl | rfl | rfl | rfl <;> rfl
  · rcases counts_succ.mp ha with hmem | hsat
    · exact counts_of_mem hmem
    · simp only [List.mem_cons, List.not_mem_nil, or_false, not_or] at hknown
      obtain ⟨h1, h2, h3, h4⟩ := hknown
      have hactive : ladder.active a = nobody := by simp [ladder, h1, h2, h3, h4]
      rw [hactive] at hsat
      cases hsat

theorem check_order_iff_ladder :
    AuthorityCall.Pure [7] ladder.active ["carol"] maxSigCheckDepth AuthorityCall.Outer ∧
      AnyOrder ladder [7] ⟨["carol"], [], []⟩ maxSigCheckDepth Authority.Fits true :=
  ((check_order_iff ladder [7] ⟨["carol"], [], []⟩ maxSigCheckDepth).2 ladder_fits).mpr
    (.inr ladder_complete)

end MuseChain
