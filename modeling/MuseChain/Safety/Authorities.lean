/-
  File:      MuseChain/Safety/Authorities.lean
  Subject:   What verify_authority proves: the authorities that keys and approvals derive.

  * `Satisfied`, `Vouched`: the least relation in which an authority is satisfied by its keys
    among the signatures and by its member accounts that approved or whose own authority is
    satisfied. It has no depth and no order.
  * `SignState.Sound`: every account in the cache is vouched for. Every check keeps it.
  * `verifyAuthorityV2_derivable`: what version 2 accepts is derivable.
  * `verifyAuthorityV1_derivable_iff`: for version 1 this is so exactly when the operations do not
    bring basic and content authorities together.
-/
import MuseChain.Protocol.SignState

namespace MuseChain

/-! ## 1. Derivable authorities -/

/-- The weight of an authority's keys that have signed. -/
def keyWeight (keys : List PublicKey) (l : List (PublicKey × Nat)) : Nat :=
  ((l.filter fun k => decide (k.1 ∈ keys)).map (·.2)).sum

section

variable (nested : String → Except Exn Authority) (keys : List PublicKey) (approved : List String)

mutual

/-- An authority whose keys and whose members that are vouched for reach the threshold. -/
inductive Satisfied : Authority → Prop
  | mk {auth : Authority} (members : List (String × Nat))
      (hsub : members.Sublist auth.accountAuths) (hmembers : ∀ m ∈ members, Vouched m.1)
      (hweight : auth.weightThreshold ≤
        keyWeight keys auth.keyAuths + (members.map (·.2)).sum) : Satisfied auth

/-- An account that has approved, is the account temp, or has a satisfied authority. -/
inductive Vouched : String → Prop
  | approved {a : String} (h : a ∈ approved) : Vouched a
  | temp : Vouched "temp"
  | nested {a : String} {au : Authority} (h : nested a = .ok au) (hs : Satisfied au) : Vouched a

end

/-- An authority that is looked up and satisfied. -/
def Granted (au : Except Exn Authority) : Prop :=
  ∃ a, au = .ok a ∧ Satisfied nested keys approved a

/-- The cache of a check holds nothing that cannot be derived. -/
structure SignState.Sound (s : SignState) : Prop where
  provided : ∀ p ∈ s.provided, p.1 ∈ keys
  approvedBy : ∀ a ∈ s.approvedBy, Vouched nested keys approved a

/-- A check that keeps the cache and shows `P` when it passes. -/
def Check.Shows (c : Check) (P : Prop) : Prop :=
  ∀ s b s', c s = .ok (b, s') → s.Sound nested keys approved →
    s'.Sound nested keys approved ∧ (b = true → P)

end

section

variable {nested : String → Except Exn Authority} {keys : List PublicKey} {approved : List String}

theorem SignState.init_sound : (SignState.init keys approved).Sound nested keys approved := by
  refine ⟨fun p hp => ?_, fun a ha => ?_⟩
  · obtain ⟨k, hk, rfl⟩ := List.mem_map.mp hp
    exact hk
  · rcases List.mem_cons.mp ha with rfl | ha
    · exact .temp
    · exact .approved ha

/-! ## 2. Keys -/

theorem SignState.signedBy_sound {s s' : SignState} {k : PublicKey} {b : Bool}
    (h : s.signedBy k = (b, s')) (hs : s.Sound nested keys approved) :
    s'.Sound nested keys approved ∧ (b = true → k ∈ keys) := by
  unfold SignState.signedBy at h
  split at h
  · rename_i hany
    cases h
    obtain ⟨p, hp, hk⟩ := List.any_eq_true.mp hany
    have hmem : k ∈ keys := of_decide_eq_true hk ▸ hs.provided p hp
    refine ⟨⟨fun q hq => ?_, hs.approvedBy⟩, fun _ => hmem⟩
    obtain ⟨q', hq', rfl⟩ := List.mem_map.mp hq
    split
    · exact hmem
    · exact hs.provided q' hq'
  · cases h
    exact ⟨hs, fun hb => by cases hb⟩

theorem keyWeight_cons (k : PublicKey) (w : Nat) (l : List (PublicKey × Nat)) :
    keyWeight keys ((k, w) :: l) = (if k ∈ keys then w else 0) + keyWeight keys l := by
  unfold keyWeight
  by_cases h : k ∈ keys
  · simp [h]
  · simp [h]

/-- The loop over the keys never counts more than the keys that signed. -/
theorem checkKeyAuths_sound {threshold : Nat} (l : List (PublicKey × Nat)) {total total' : Nat}
    {s s' : SignState} {b : Bool} (h : checkKeyAuths threshold l total s = (b, total', s'))
    (hs : s.Sound nested keys approved) :
    s'.Sound nested keys approved ∧ total' ≤ total + keyWeight keys l ∧
      (b = true → threshold ≤ total') := by
  induction l generalizing total s with
  | nil =>
    cases h
    exact ⟨hs, Nat.le_add_right _ _, fun hb => by cases hb⟩
  | cons kw rest ih =>
    obtain ⟨k, w⟩ := kw
    rw [keyWeight_cons]
    simp only [checkKeyAuths] at h
    split at h
    · rename_i s₁ hsig
      obtain ⟨hs1, hk⟩ := SignState.signedBy_sound hsig hs
      have hu : u32 (total + w) ≤ total + w := Nat.mod_le _ _
      rw [if_pos (hk rfl)]
      split at h
      · cases h
        exact ⟨hs1, by omega, fun _ => ‹_›⟩
      · obtain ⟨hs2, hle, hb⟩ := ih h hs1
        exact ⟨hs2, by omega, hb⟩
    · rename_i s₁ hsig
      obtain ⟨hs1, _⟩ := SignState.signedBy_sound hsig hs
      obtain ⟨hs2, hle, hb⟩ := ih h hs1
      exact ⟨hs2, by omega, hb⟩

/-! ## 3. Accounts -/

theorem SignState.Sound.approve {s : SignState} {a : String} (hs : s.Sound nested keys approved)
    (ha : Vouched nested keys approved a) :
    ({ s with approvedBy := a :: s.approvedBy } : SignState).Sound nested keys approved := by
  refine ⟨hs.provided, fun b hb => ?_⟩
  rcases List.mem_cons.mp hb with rfl | hb
  · exact ha
  · exact hs.approvedBy b hb

/-- Some members of `l` that are vouched for lift `total` to the threshold. -/
def Reaches (nested : String → Except Exn Authority) (keys : List PublicKey)
    (approved : List String) (threshold total : Nat) (l : List (String × Nat)) : Prop :=
  ∃ members : List (String × Nat), members.Sublist l ∧
    (∀ m ∈ members, Vouched nested keys approved m.1) ∧
    threshold ≤ total + (members.map (·.2)).sum

theorem Reaches.skip {threshold total : Nat} {m : String × Nat} {l : List (String × Nat)}
    (h : Reaches nested keys approved threshold total l) :
    Reaches nested keys approved threshold total (m :: l) := by
  obtain ⟨members, hsub, hm, hw⟩ := h
  exact ⟨members, hsub.cons m, hm, hw⟩

theorem Reaches.count {threshold total w : Nat} {a : String} {l : List (String × Nat)}
    (ha : Vouched nested keys approved a)
    (h : Reaches nested keys approved threshold (u32 (total + w)) l) :
    Reaches nested keys approved threshold total ((a, w) :: l) := by
  obtain ⟨members, hsub, hm, hw⟩ := h
  have hu : u32 (total + w) ≤ total + w := Nat.mod_le _ _
  refine ⟨(a, w) :: members, hsub.cons_cons _, fun m hmem => ?_, ?_⟩
  · rcases List.mem_cons.mp hmem with rfl | hmem
    · exact ha
    · exact hm m hmem
  · simp only [List.map_cons, List.sum_cons]
    omega

theorem reaches_nil {threshold total : Nat} {l : List (String × Nat)} (h : threshold ≤ total) :
    Reaches nested keys approved threshold total l :=
  ⟨[], List.nil_sublist l, fun _ hm => absurd hm List.not_mem_nil, by simpa using h⟩

/-- The loop over the accounts, when the checks below it are sound. -/
theorem checkAccountAuths_sound {threshold : Nat} {below : Option (String → Check)}
    (hbelow : ∀ f, below = some f →
      ∀ a, (f a).Shows nested keys approved (Vouched nested keys approved a))
    (l : List (String × Nat)) (total : Nat) :
    (checkAccountAuths threshold below l total).Shows nested keys approved
      (Reaches nested keys approved threshold total l) := by
  induction l generalizing total with
  | nil =>
    intro s b s' h hs
    cases h
    exact ⟨hs, fun hb => reaches_nil (of_decide_eq_true hb)⟩
  | cons aw rest ih =>
    obtain ⟨a, w⟩ := aw
    intro s b s' h hs
    simp only [checkAccountAuths] at h
    split at h
    · rename_i ha
      have hv := hs.approvedBy a ha
      split at h
      · cases h
        exact ⟨hs, fun _ => (reaches_nil ‹_›).count hv⟩
      · obtain ⟨hs', hr⟩ := ih _ s b s' h hs
        exact ⟨hs', fun hb => (hr hb).count hv⟩
    · split at h
      · obtain ⟨hs', hr⟩ := ih _ s b s' h hs
        exact ⟨hs', fun hb => (hr hb).skip⟩
      · rename_i f
        cases hf : f a s with
        | error e =>
          rw [hf] at h
          cases h
        | ok r =>
          obtain ⟨passed, s₁⟩ := r
          rw [hf] at h
          obtain ⟨hs1, hp⟩ := hbelow f rfl a s passed s₁ hf hs
          simp only [bind, Except.bind] at h
          cases passed with
          | false =>
            obtain ⟨hs', hr⟩ := ih _ s₁ b s' h hs1
            exact ⟨hs', fun hb => (hr hb).skip⟩
          | true =>
            have hs2 := hs1.approve (hp rfl)
            rw [if_pos rfl] at h
            split at h
            · cases h
              exact ⟨hs2, fun _ => (reaches_nil ‹_›).count (hp rfl)⟩
            · obtain ⟨hs', hr⟩ := ih _ _ b s' h hs2
              exact ⟨hs', fun hb => (hr hb).count (hp rfl)⟩

/-- An authority, when the checks below it are sound. -/
theorem checkAuths_sound {below : Option (String → Check)}
    (hbelow : ∀ f, below = some f →
      ∀ a, (f a).Shows nested keys approved (Vouched nested keys approved a)) (auth : Authority) :
    Check.Shows nested keys approved
      (fun s =>
        match checkKeyAuths auth.weightThreshold auth.keyAuths 0 s with
        | (true, _, s) => .ok (true, s)
        | (false, total, s) =>
            checkAccountAuths auth.weightThreshold below auth.accountAuths total s)
      (Satisfied nested keys approved auth) := by
  intro s b s' h hs
  simp only at h
  split at h
  · rename_i total s₁ hk
    cases h
    obtain ⟨hs1, hle, hth⟩ := checkKeyAuths_sound _ hk hs
    have hr : Reaches nested keys approved auth.weightThreshold total auth.accountAuths :=
      reaches_nil (hth rfl)
    obtain ⟨members, hsub, hm, hw⟩ := hr
    exact ⟨hs1, fun _ => .mk members hsub hm (by omega)⟩
  · rename_i total s₁ hk
    obtain ⟨hs1, hle, _⟩ := checkKeyAuths_sound _ hk hs
    obtain ⟨hs', hr⟩ := checkAccountAuths_sound hbelow _ _ s₁ b s' h hs1
    refine ⟨hs', fun hb => ?_⟩
    obtain ⟨members, hsub, hm, hw⟩ := hr hb
    exact .mk members hsub hm (by omega)

/-! ## 4. Checks -/

theorem Check.Shows.ofGetter {check : Authority → Check} {au : Except Exn Authority}
    (h : ∀ a, (check a).Shows nested keys approved (Satisfied nested keys approved a)) :
    (Check.ofGetter check au).Shows nested keys approved (Granted nested keys approved au) := by
  intro s b s' hc hs
  cases au with
  | error e => cases hc
  | ok a =>
    obtain ⟨hs', hb⟩ := h a s b s' hc hs
    exact ⟨hs', fun hp => ⟨a, rfl, hb hp⟩⟩

theorem Check.Shows.mono {c : Check} {P Q : Prop} (h : c.Shows nested keys approved P)
    (hPQ : P → Q) : c.Shows nested keys approved Q := by
  intro s b s' hc hs
  obtain ⟨hs', hb⟩ := h s b s' hc hs
  exact ⟨hs', fun hp => hPQ (hb hp)⟩

theorem Check.Shows.or {c c' : Check} {P Q : Prop} (h : c.Shows nested keys approved P)
    (h' : c'.Shows nested keys approved Q) : (c.or c').Shows nested keys approved (P ∨ Q) := by
  intro s b s' hc hs
  unfold Check.or at hc
  cases hf : c s with
  | error e =>
    rw [hf] at hc
    cases hc
  | ok r =>
    obtain ⟨passed, s₁⟩ := r
    obtain ⟨hs1, hp⟩ := h s passed s₁ hf hs
    rw [hf] at hc
    cases passed with
    | true =>
      cases hc
      exact ⟨hs1, fun _ => .inl (hp rfl)⟩
    | false =>
      obtain ⟨hs', hb⟩ := h' s₁ b s' hc hs1
      exact ⟨hs', fun hq => .inr (hb hq)⟩

/-- A list of which every member has to pass. -/
theorem Check.Shows.all {α : Type} {check : α → Check} {msg : String} {P : α → Prop}
    {l : List α} (h : ∀ x ∈ l, (check x).Shows nested keys approved (P x)) {s s' : SignState}
    (hc : Check.all check msg l s = .ok s') (hs : s.Sound nested keys approved) :
    s'.Sound nested keys approved ∧ ∀ x ∈ l, P x := by
  induction l generalizing s with
  | nil =>
    cases hc
    exact ⟨hs, fun _ hx => absurd hx List.not_mem_nil⟩
  | cons x l ih =>
    simp only [Check.all] at hc
    cases hf : check x s with
    | error e =>
      rw [hf] at hc
      cases hc
    | ok r =>
      obtain ⟨passed, s₁⟩ := r
      obtain ⟨hs1, hp⟩ := h x List.mem_cons_self s passed s₁ hf hs
      rw [hf] at hc
      cases passed with
      | false => cases hc
      | true =>
        obtain ⟨hs', hall⟩ := ih (fun y hy => h y (List.mem_cons_of_mem _ hy)) hc hs1
        refine ⟨hs', fun y hy => ?_⟩
        rcases List.mem_cons.mp hy with rfl | hy
        · exact hp rfl
        · exact hall y hy

/-- **A check of an authority is sound at every depth.** -/
theorem checkAuthority_sound (left : Nat) (auth : Authority) :
    (checkAuthority nested left auth).Shows nested keys approved
      (Satisfied nested keys approved auth) := by
  induction left generalizing auth with
  | zero =>
    intro s b s' h hs
    unfold checkAuthority at h
    exact checkAuths_sound (fun _ hf => by cases hf) auth s b s' h hs
  | succ left ih =>
    intro s b s' h hs
    unfold checkAuthority at h
    refine checkAuths_sound (fun f hf a => ?_) auth s b s' h hs
    cases hf
    -- an account below is vouched for when the authority it is looked up under is satisfied
    have hg : (Check.ofGetter (checkAuthority nested left) (nested a)).Shows nested keys approved
        (Granted nested keys approved (nested a)) := .ofGetter ih
    refine hg.mono fun hg => ?_
    obtain ⟨au, hau, hsat⟩ := hg
    exact .nested hau hsat

theorem checkAuthorityOf_sound (maxRecursion : Nat) (id : String) :
    (checkAuthorityOf nested maxRecursion id).Shows nested keys approved
      (Vouched nested keys approved id) := by
  intro s b s' hc hs
  unfold checkAuthorityOf at hc
  split at hc
  · cases hc
    exact ⟨hs, fun _ => hs.approvedBy id ‹_›⟩
  · have hg : (Check.ofGetter (checkAuthority nested maxRecursion) (nested id)).Shows nested keys
        approved (Granted nested keys approved (nested id)) :=
      .ofGetter (checkAuthority_sound maxRecursion)
    obtain ⟨hs', hb⟩ := hg s b s' hc hs
    refine ⟨hs', fun hp => ?_⟩
    obtain ⟨au, hau, hsat⟩ := hb hp
    exact .nested hau hsat

end

/-! ## 5. What the operations require -/

/-- An account that has approved, is the account temp, or has one of two authorities satisfied. -/
def Covered (nested : String → Except Exn Authority) (keys : List PublicKey)
    (approved : List String) (first second : String → Except Exn Authority) (id : String) : Prop :=
  id ∈ approved ∨ id = "temp" ∨ Granted nested keys approved (first id) ∨
    Granted nested keys approved (second id)

/-- The required authorities that both versions check with the active authorities of members. -/
structure Derived (g : Getters) (keys : List PublicKey) (approved ownerApprovals : List String)
    (r : Required) : Prop where
  other : ∀ au ∈ r.other, Satisfied g.active keys approved au
  active : ∀ id ∈ r.active, Covered g.active keys approved g.active g.owner id
  masterContent : ∀ con ∈ r.masterContent, Granted g.active keys approved (g.masterContent con)
  compContent : ∀ con ∈ r.compContent, Granted g.active keys approved (g.compContent con)
  owner : ∀ id ∈ r.owner, id ∈ ownerApprovals ∨ Granted g.active keys approved (g.owner id)

section

variable {nested : String → Except Exn Authority} {keys : List PublicKey} {approved : List String}
  {g : Getters} {r : Required} {maxRecursion : Nat} {s s' : SignState}

theorem Vouched.cases_or {id : String} (h : Vouched nested keys approved id) :
    id ∈ approved ∨ id = "temp" ∨ Granted nested keys approved (nested id) := by
  cases h with
  | approved h => exact .inl h
  | temp => exact .inr (.inl rfl)
  | nested h hs => exact .inr (.inr ⟨_, h, hs⟩)

theorem Covered.of_vouched {second : String → Except Exn Authority} {id : String}
    (h : Vouched nested keys approved id ∨ Granted nested keys approved (second id)) :
    Covered nested keys approved nested second id := by
  rcases h with h | h
  · rcases h.cases_or with h | h | h
    · exact .inl h
    · exact .inr (.inl h)
    · exact .inr (.inr (.inl h))
  · exact .inr (.inr (.inr h))

theorem Check.all_bind_ok {α β : Type} {check : α → Check} {msg : String} {l : List α}
    {f : SignState → Except Exn β} {b : β} (h : (Check.all check msg l s >>= f) = .ok b) :
    ∃ s₁, Check.all check msg l s = .ok s₁ ∧ f s₁ = .ok b := by
  cases hc : Check.all check msg l s with
  | error e =>
    rw [hc] at h
    cases h
  | ok s₁ =>
    rw [hc] at h
    exact ⟨s₁, rfl, h⟩

theorem verifyActive_sound {ownerApprovals : List String}
    (h : verifyActive g r maxRecursion ownerApprovals s = .ok s')
    (hs : s.Sound g.active keys approved)
    (hother : ∀ au ∈ r.other, Satisfied g.active keys approved au) :
    Derived g keys approved ownerApprovals r := by
  have hauth : ∀ a, (checkAuthority g.active maxRecursion a).Shows g.active keys approved
      (Satisfied g.active keys approved a) := checkAuthority_sound maxRecursion
  unfold verifyActive at h
  obtain ⟨s₁, h1, h⟩ := Check.all_bind_ok h
  obtain ⟨s₂, h2, h⟩ := Check.all_bind_ok h
  obtain ⟨s₃, h3, h⟩ := Check.all_bind_ok h
  obtain ⟨hs1, hactive⟩ := Check.Shows.all
    (fun id _ => (checkAuthorityOf_sound maxRecursion id).or (.ofGetter hauth)) h1 hs
  obtain ⟨hs2, hmaster⟩ := Check.Shows.all (fun con _ => Check.Shows.ofGetter hauth) h2 hs1
  obtain ⟨hs3, hcomp⟩ := Check.Shows.all (fun con _ => Check.Shows.ofGetter hauth) h3 hs2
  have hown : ∀ id ∈ r.owner, Check.Shows g.active keys approved
      (fun s => if id ∈ ownerApprovals then .ok (true, s)
        else Check.ofGetter (checkAuthority g.active maxRecursion) (g.owner id) s)
      (id ∈ ownerApprovals ∨ Granted g.active keys approved (g.owner id)) := by
    intro id _ s b s' hc hs
    simp only at hc
    split at hc
    · cases hc
      exact ⟨hs, fun _ => .inl ‹_›⟩
    · obtain ⟨hs', hb⟩ := Check.Shows.ofGetter hauth s b s' hc hs
      exact ⟨hs', fun hp => .inr (hb hp)⟩
  obtain ⟨_, howner⟩ := Check.Shows.all hown h hs3
  exact ⟨hother, fun id hid => .of_vouched (hactive id hid), hmaster, hcomp, howner⟩

end

/-! ## 6. Version 2 -/

def Approvals.all (a : Approvals) : List String := a.basic ++ a.active ++ a.owner

/-- Every authority of `r` is derivable, with the active authorities of members. -/
structure DerivableV2 (g : Getters) (keys : List PublicKey) (approvals : Approvals) (r : Required) :
    Prop extends Derived g keys approvals.all approvals.owner r where
  basic : ∀ id ∈ r.basic, Covered g.active keys approvals.all g.active g.owner id

theorem derivable_of_verifyAuthorityV2 {ops : List Operation} {sigs : List PublicKey} {g : Getters}
    {allowExtraSigs : Bool} {maxRecursion : Nat} {approvals : Approvals}
    (h : verifyAuthorityV2 ops sigs g allowExtraSigs maxRecursion approvals = .ok ()) :
    DerivableV2 g sigs approvals (requiredAuthorities ops) := by
  have hauth : ∀ a, (checkAuthority g.active maxRecursion a).Shows g.active sigs approvals.all
      (Satisfied g.active sigs approvals.all a) := checkAuthority_sound maxRecursion
  unfold verifyAuthorityV2 at h
  obtain ⟨-, h⟩ := check_bind_ok.mp h
  obtain ⟨s₁, h1, h⟩ := Check.all_bind_ok h
  obtain ⟨s₂, h2, h⟩ := Check.all_bind_ok h
  obtain ⟨hs1, hother⟩ := Check.Shows.all (fun a _ => hauth a) h1 SignState.init_sound
  obtain ⟨hs2, hbasic⟩ := Check.Shows.all
    (fun id _ => (checkAuthorityOf_sound maxRecursion id).or
      ((Check.Shows.ofGetter hauth).or (.ofGetter hauth))) h2 hs1
  obtain ⟨s₃, h3⟩ : ∃ s₃, verifyActive g (requiredAuthorities ops) maxRecursion approvals.owner s₂ =
      .ok s₃ := by
    cases hv : verifyActive g (requiredAuthorities ops) maxRecursion approvals.owner s₂ with
    | ok s₃ => exact ⟨s₃, rfl⟩
    | error e =>
      rw [hv] at h
      cases h
  have hd := verifyActive_sound h3 hs2 hother
  refine ⟨hd, fun id hid => ?_⟩
  by_cases ha : id ∈ (requiredAuthorities ops).active
  · exact hd.active id ha
  by_cases ho : id ∈ (requiredAuthorities ops).owner
  · rcases hd.owner id ho with h | h
    · exact .inl (List.mem_append_right _ h)
    · exact .inr (.inr (.inr h))
  have hmem : id ∈ (requiredAuthorities ops).basic.filter fun id =>
      decide (id ∉ (requiredAuthorities ops).active) &&
        decide (id ∉ (requiredAuthorities ops).owner) := by
    rw [List.mem_filter]
    exact ⟨hid, by simp [ha, ho]⟩
  rcases hbasic id hmem with h | h | h
  · exact .of_vouched (.inl h)
  · exact .inr (.inr (.inl h))
  · exact .inr (.inr (.inr h))

/-- **What version 2 accepts is derivable.** -/
theorem verifyAuthorityV2_derivable (ops : List Operation) (sigs : List PublicKey) (g : Getters)
    (allowExtraSigs : Bool) (maxRecursion : Nat) (approvals : Approvals)
    (h : verifyAuthorityV2 ops sigs g allowExtraSigs maxRecursion approvals = .ok ()) :
    DerivableV2 g sigs approvals (requiredAuthorities ops) :=
  derivable_of_verifyAuthorityV2 h

/-- An authority that asks for nothing, and one that nobody can satisfy. -/
def anybody : Authority := ⟨0, [], []⟩

def nobody : Authority := ⟨1, [], []⟩

theorem not_granted_nobody {nested : String → Except Exn Authority} {keys : List PublicKey}
    {approved : List String} : ¬Granted nested keys approved (.ok nobody) := by
  rintro ⟨a, ha, hsat⟩
  cases ha
  cases hsat with
  | mk members hsub _ hweight =>
    have hnil : members = [] := List.sublist_nil.mp hsub
    subst hnil
    simp [nobody, keyWeight] at hweight

/-- The account temp passes without an approval and without an authority. -/
theorem temp_without_authority : ∃ (ops : List Operation) (sigs : List PublicKey) (g : Getters)
    (approvals : Approvals),
    verifyAuthorityV2 ops sigs g false maxSigCheckDepth approvals = .ok () ∧
      ∃ id ∈ (requiredAuthorities ops).active, id ∉ approvals.all ∧
        ¬Granted g.active sigs approvals.all (g.active id) ∧
        ¬Granted g.active sigs approvals.all (g.owner id) := by
  refine ⟨[.custom ["temp"]], [], ⟨fun _ => .ok nobody, fun _ => .ok nobody, fun _ => .ok nobody,
    fun _ => .ok nobody, fun _ => .ok nobody⟩, {}, rfl, "temp", ?_, ?_, not_granted_nobody,
    not_granted_nobody⟩
  · decide
  · decide

/-- A custom operation of Alice, signed by Carol, who is a member of Alice's active authority. -/
theorem verifyAuthorityV2_derivable_custom :
    DerivableV2 ⟨fun id => .ok (if id = "alice" then ⟨1, [("carol", 1)], [(8, 1)]⟩ else
        ⟨1, [], [(7, 1)]⟩), fun _ => .ok nobody, fun _ => .ok nobody, fun _ => .ok nobody,
      fun _ => .ok nobody⟩ [7] {} (requiredAuthorities [.custom ["alice"]]) :=
  verifyAuthorityV2_derivable [.custom ["alice"]] [7] _ false maxSigCheckDepth {} rfl

/-! ## 7. Version 1 -/

/-- Every authority of `r` is derivable, a basic one with the basic authorities of members. -/
structure DerivableV1 (g : Getters) (keys : List PublicKey) (approvals : Approvals) (r : Required) :
    Prop extends
    Derived g keys (approvals.active ++ approvals.owner) approvals.owner r where
  basic : ∀ id ∈ r.basic, Covered g.basic keys approvals.basic g.basic g.active id ∨
    Granted g.basic keys approvals.basic (g.owner id)

/-- Basic and content authorities together, and no other that version 1 would refuse. -/
def MixesContent (r : Required) : Prop :=
  r.basic ≠ [] ∧ (r.masterContent ≠ [] ∨ r.compContent ≠ []) ∧ r.active = [] ∧ r.owner = [] ∧
    r.other = []

theorem verifyAuthorityV1_derivable {ops : List Operation} {sigs : List PublicKey} {g : Getters}
    {maxRecursion : Nat} {approvals : Approvals}
    (hmix : ¬MixesContent (requiredAuthorities ops))
    (h : verifyAuthorityV1 ops sigs g maxRecursion approvals = .ok ()) :
    DerivableV1 g sigs approvals (requiredAuthorities ops) := by
  unfold verifyAuthorityV1 at h
  simp only at h
  split at h
  · rename_i hb
    obtain ⟨hactive, h⟩ := check_bind_ok.mp h
    obtain ⟨howner, h⟩ := check_bind_ok.mp h
    obtain ⟨hother, h⟩ := check_bind_ok.mp h
    obtain ⟨s, h1, h⟩ := Check.all_bind_ok h
    rw [List.isEmpty_iff] at hother
    have hauth : ∀ a, (checkAuthority g.basic maxRecursion a).Shows g.basic sigs approvals.basic
        (Satisfied g.basic sigs approvals.basic a) := checkAuthority_sound maxRecursion
    obtain ⟨_, hbasic⟩ := Check.Shows.all
      (fun id _ => (checkAuthorityOf_sound maxRecursion id).or
        ((Check.Shows.ofGetter hauth).or (.ofGetter hauth))) h1 SignState.init_sound
    have hcontent : (requiredAuthorities ops).masterContent = [] ∧
        (requiredAuthorities ops).compContent = [] := by
      by_contra hc
      rw [not_and_or] at hc
      exact hmix ⟨hb, hc, hactive, howner, hother⟩
    refine ⟨⟨?_, ?_, ?_, ?_, ?_⟩, fun id hid => ?_⟩
    · simp [hother]
    · simp [hactive]
    · simp [hcontent.1]
    · simp [hcontent.2]
    · simp [howner]
    · rcases hbasic id hid with h | h | h
      · exact .inl (.of_vouched (.inl h))
      · exact .inl (.inr (.inr (.inr h)))
      · exact .inr h
  · rename_i hb
    rw [not_not] at hb
    obtain ⟨s₁, h1, h⟩ := Check.all_bind_ok h
    obtain ⟨hs1, hother⟩ := Check.Shows.all
      (fun a _ => checkAuthority_sound maxRecursion a) h1 SignState.init_sound
    obtain ⟨s₂, h2⟩ : ∃ s₂, verifyActive g (requiredAuthorities ops) maxRecursion approvals.owner
        s₁ = .ok s₂ := by
      cases hv : verifyActive g (requiredAuthorities ops) maxRecursion approvals.owner s₁ with
      | ok s₂ => exact ⟨s₂, rfl⟩
      | error e =>
        rw [hv] at h
        cases h
    exact ⟨verifyActive_sound h2 hs1 hother, by simp [hb]⟩

theorem checkAuthority_anybody {nested : String → Except Exn Authority} (left : Nat)
    (s : SignState) : checkAuthority nested left anybody s = .ok (true, s) := by
  unfold checkAuthority
  cases left with
  | zero => rfl
  | succ left => rfl

theorem Check.all_pass {α : Type} {check : α → Check} {msg : String} {l : List α} {s : SignState}
    (h : ∀ x ∈ l, check x s = .ok (true, s)) : Check.all check msg l s = .ok s := by
  induction l with
  | nil => rfl
  | cons x l ih =>
    simp only [Check.all, h x List.mem_cons_self]
    exact ih fun y hy => h y (List.mem_cons_of_mem _ hy)

/-- Version 1 accepts without a signature what needs open basic authorities only. -/
theorem verifyAuthorityV1_anybody {ops : List Operation} {g : Getters} {maxRecursion : Nat}
    {approvals : Approvals} (hb : (requiredAuthorities ops).basic ≠ [])
    (ha : (requiredAuthorities ops).active = []) (ho : (requiredAuthorities ops).owner = [])
    (hx : (requiredAuthorities ops).other = []) (hg : ∀ id, g.basic id = .ok anybody) :
    verifyAuthorityV1 ops [] g maxRecursion approvals = .ok () := by
  unfold verifyAuthorityV1
  simp only
  rw [if_pos hb, check_bind_ok]
  refine ⟨ha, ?_⟩
  rw [check_bind_ok]
  refine ⟨ho, ?_⟩
  rw [check_bind_ok]
  refine ⟨by rw [hx]; rfl, ?_⟩
  rw [Check.all_pass fun id _ => ?_]
  · rfl
  · have hid : checkAuthorityOf g.basic maxRecursion id (SignState.init [] approvals.basic) =
        .ok (true, SignState.init [] approvals.basic) := by
      unfold checkAuthorityOf
      split
      · rfl
      · rw [hg]
        exact checkAuthority_anybody _ _
    unfold Check.or
    rw [hid]
    rfl

/-- **Version 1 is sound exactly for operations that do not mix basic and content authorities.** -/
theorem verifyAuthorityV1_derivable_iff (ops : List Operation) :
    (∀ sigs g maxRecursion approvals,
      verifyAuthorityV1 ops sigs g maxRecursion approvals = .ok () →
        DerivableV1 g sigs approvals (requiredAuthorities ops)) ↔
      ¬MixesContent (requiredAuthorities ops) := by
  constructor
  · rintro hsound ⟨hb, hcontent, ha, ho, hx⟩
    have hd := hsound [] ⟨fun _ => .ok nobody, fun _ => .ok nobody, fun _ => .ok anybody,
      fun _ => .ok nobody, fun _ => .ok nobody⟩ maxSigCheckDepth {}
      (verifyAuthorityV1_anybody hb ha ho hx fun _ => rfl)
    rcases hcontent with hm | hc
    · obtain ⟨con, hcon⟩ := List.exists_mem_of_ne_nil _ hm
      exact not_granted_nobody (hd.masterContent con hcon)
    · obtain ⟨con, hcon⟩ := List.exists_mem_of_ne_nil _ hc
      exact not_granted_nobody (hd.compContent con hcon)
  · intro hmix sigs g maxRecursion approvals h
    exact verifyAuthorityV1_derivable hmix h

/-- Alice's friendship, signed with her basic key, disables a content that another key manages. -/
theorem content_disabled_by_anyone : ∃ (ops : List Operation) (sigs : List PublicKey) (g : Getters),
    verifyAuthorityV1 ops sigs g maxSigCheckDepth {} = .ok () ∧
      ¬DerivableV1 g sigs {} (requiredAuthorities ops) := by
  refine ⟨[.friendship "alice" "brenda", .contentDisable "ipfs://a"], [7],
    ⟨fun _ => .ok nobody, fun _ => .ok nobody, fun _ => .ok ⟨1, [], [(7, 1)]⟩,
      fun _ => .ok ⟨1, [], [(9, 1)]⟩, fun _ => .ok nobody⟩, rfl, fun hd => ?_⟩
  obtain ⟨a, ha, hsat⟩ := hd.masterContent "ipfs://a" (by decide)
  cases ha
  cases hsat with
  | mk members hsub _ hweight =>
    have hnil : members = [] := List.sublist_nil.mp hsub
    subst hnil
    simp [keyWeight] at hweight

end MuseChain
