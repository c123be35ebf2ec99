/-
  File:      MuseChain/Safety/Managers.lean
  Subject:   Who manages a content: the votes that an operation declares, and the authority that is
             stored.

  * `Declared l auths`: every voter has the weight that `l` declares, and all have 100.
  * `declared_managementAuths_iff`: the stored authority is the declared one if and only if the
    percentages sum to 100 exactly and nobody is named again after a percentage.
  * **`content_managed_iff`**: so it is for both operations and both sides.
-/
import MuseChain.Lib.Groups
import MuseChain.Safety.ContentEdits
import MuseChain.Safety.Selection
import MuseChain.Safety.Votes

namespace MuseChain

variable {n : Nat}

/-! ## 1. A map of names -/

section

variable {m : List (String × Nat)} {name j : String} {w : Nat}

/-- The names of a `flat_map` stand in order, so that none stands twice. -/
def NameSorted (m : List (String × Nat)) : Prop :=
  m.Pairwise fun a b => nameLt a.1 b.1 = true

theorem nameLt_trans {a b c : String} (h : nameLt a b = true) (h' : nameLt b c = true) :
    nameLt a c = true :=
  decide_eq_true (lt_trans (of_decide_eq_true h) (of_decide_eq_true h'))

theorem ne_of_nameLt {a b : String} (h : nameLt a b = true) : a ≠ b := by
  rintro rfl
  exact lt_irrefl _ (of_decide_eq_true h)

theorem lookup_setAuth (j name : String) (w : Nat) (m : List (String × Nat)) :
    (setAuth name w m).lookup j = if j = name then some w else m.lookup j := by
  induction m with
  | nil =>
    by_cases hj : j = name
    · rw [hj, if_pos rfl]
      exact List.lookup_cons_self
    · have hne : (j == name) = false := beq_eq_false_iff_ne.mpr hj
      rw [if_neg hj]
      simp only [setAuth, List.lookup_cons, List.lookup_nil, hne]
  | cons p m ih =>
    obtain ⟨k, v⟩ := p
    simp only [setAuth]
    by_cases hj : j = name
    · subst hj
      rw [if_pos rfl] at ih ⊢
      split
      · exact List.lookup_cons_self
      · rename_i hk
        split
        · exact List.lookup_cons_self
        · have hne : (j == k) = false := beq_eq_false_iff_ne.mpr (Ne.symm hk)
          simp only [List.lookup_cons, hne]
          exact ih
    · have hne : (j == name) = false := beq_eq_false_iff_ne.mpr hj
      rw [if_neg hj] at ih ⊢
      split
      · rename_i hk
        subst hk
        simp only [List.lookup_cons, hne]
      · split
        · simp only [List.lookup_cons, hne]
        · simp only [List.lookup_cons, ih]

theorem mem_setAuth {p : String × Nat} (h : p ∈ setAuth name w m) : p = (name, w) ∨ p ∈ m := by
  induction m with
  | nil => exact .inl (List.mem_singleton.mp h)
  | cons q m ih =>
    obtain ⟨k, v⟩ := q
    simp only [setAuth] at h
    split at h
    · exact (List.mem_cons.mp h).imp_right (List.mem_cons_of_mem _)
    · split at h
      · exact List.mem_cons.mp h
      · rcases List.mem_cons.mp h with h | h
        · exact .inr (h ▸ List.mem_cons_self)
        · exact (ih h).imp_right (List.mem_cons_of_mem _)

theorem nameSorted_setAuth (hm : NameSorted m) : NameSorted (setAuth name w m) := by
  induction m with
  | nil => exact List.pairwise_singleton _ _
  | cons q m ih =>
    obtain ⟨k, v⟩ := q
    obtain ⟨hfirst, hrest⟩ := List.pairwise_cons.mp hm
    simp only [setAuth]
    split
    · rename_i hk
      subst hk
      exact List.pairwise_cons.mpr ⟨hfirst, hrest⟩
    · rename_i hk
      split
      · rename_i hlt
        refine List.pairwise_cons.mpr ⟨fun p hp => ?_, hm⟩
        rcases List.mem_cons.mp hp with rfl | hp
        · exact hlt
        · exact nameLt_trans hlt (hfirst p hp)
      · rename_i hlt
        refine List.pairwise_cons.mpr ⟨fun p hp => ?_, ih hrest⟩
        rcases mem_setAuth hp with rfl | hp
        · exact nameLt_of_not (Bool.not_eq_true _ ▸ hlt) hk
        · exact hfirst p hp

theorem NameSorted.lookup_of_mem (hm : NameSorted m) (h : (name, w) ∈ m) :
    m.lookup name = some w := by
  induction m with
  | nil => cases h
  | cons q m ih =>
    obtain ⟨k, v⟩ := q
    obtain ⟨hfirst, hrest⟩ := List.pairwise_cons.mp hm
    rcases List.mem_cons.mp h with h | h
    · cases h
      exact List.lookup_cons_self
    · have hne : (name == k) = false :=
        beq_eq_false_iff_ne.mpr (Ne.symm (ne_of_nameLt (hfirst _ h)))
      simp only [List.lookup_cons, hne]
      exact ih hrest h

theorem NameSorted.nodup (hm : NameSorted m) : (m.map (·.1)).Nodup :=
  List.pairwise_map.mpr (hm.imp ne_of_nameLt)

end

/-! ## 2. The list of votes and the map of weights -/

/-- The percentages that `l` declares for a voter, together. -/
def declaredOf (l : List ManagementVote) (name : String) : Nat :=
  ((l.filter fun v => v.voter = name).map (·.percentage)).sum

/-- The percentage of a voter that stands last in the list. -/
def lastOf : List ManagementVote → String → Option Nat
  | [], _ => none
  | v :: l, name => (lastOf l name).or (if v.voter = name then some v.percentage else none)

/-- Every voter of `l` has the weight that `l` declares, and all of them have 100. -/
structure Declared (l : List ManagementVote) (auths : List (String × Nat)) : Prop where
  weights : ∀ v ∈ l, auths.lookup v.voter = some (declaredOf l v.voter)
  total : (auths.map (·.2)).sum = 100

/-- The percentages sum to 100 exactly, and who is named again has nothing before. -/
structure NamedOnce (l : List ManagementVote) : Prop where
  exact : (l.map (·.percentage)).sum = 100
  once : l.Pairwise fun v w => v.voter = w.voter → v.percentage = 0

section

variable {l : List ManagementVote} {v : ManagementVote} {name : String} {p : Nat}

theorem declaredOf_cons (v : ManagementVote) (l : List ManagementVote) (name : String) :
    declaredOf (v :: l) name =
      (if v.voter = name then v.percentage else 0) + declaredOf l name := by
  unfold declaredOf
  by_cases h : v.voter = name
  · simp [h]
  · simp [h]

theorem lastOf_of_mem (h : v ∈ l) : ∃ p, lastOf l v.voter = some p := by
  induction l with
  | nil => cases h
  | cons w l ih =>
    simp only [lastOf]
    cases hl : lastOf l v.voter with
    | some p => exact ⟨p, rfl⟩
    | none =>
      rcases List.mem_cons.mp h with rfl | h
      · exact ⟨_, if_pos rfl⟩
      · obtain ⟨p, hp⟩ := ih h
        rw [hl] at hp
        cases hp

theorem mem_of_lastOf (h : lastOf l name = some p) :
    ∃ v ∈ l, v.voter = name ∧ v.percentage = p := by
  induction l with
  | nil => cases h
  | cons w l ih =>
    simp only [lastOf] at h
    cases hl : lastOf l name with
    | some q =>
      rw [hl] at h
      cases h
      obtain ⟨v, hv, e⟩ := ih hl
      exact ⟨v, List.mem_cons_of_mem _ hv, e⟩
    | none =>
      rw [hl] at h
      by_cases hw : w.voter = name
      · rw [if_pos hw] at h
        cases h
        exact ⟨w, List.mem_cons_self, hw, rfl⟩
      · rw [if_neg hw] at h
        cases h

theorem le_declaredOf (h : v ∈ l) : v.percentage ≤ declaredOf l v.voter :=
  List.le_sum_of_mem
    (List.mem_map_of_mem (List.mem_filter.mpr ⟨h, decide_eq_true rfl⟩))

theorem declaredOf_of_absent (h : lastOf l name = none) : declaredOf l name = 0 := by
  unfold declaredOf
  rw [List.filter_eq_nil_iff.mpr fun v hv e => ?_]
  · rfl
  · obtain ⟨p, hp⟩ := lastOf_of_mem hv
    rw [of_decide_eq_true e, h] at hp
    cases hp

/-- What stands last is everything if and only if what stands before is nothing. -/
theorem last_declared_iff (l : List ManagementVote) :
    (∀ v ∈ l, lastOf l v.voter = some (declaredOf l v.voter)) ↔
      l.Pairwise fun v w => v.voter = w.voter → v.percentage = 0 := by
  induction l with
  | nil => exact iff_of_true (fun _ h => nomatch h) .nil
  | cons v l ih =>
    rw [List.pairwise_cons, ← ih]
    -- a voter of the tail has the same last percentage in the whole list
    have hlast : ∀ w ∈ l, lastOf (v :: l) w.voter = lastOf l w.voter := by
      intro w hw
      obtain ⟨p, hp⟩ := lastOf_of_mem hw
      simp only [lastOf, hp, Option.some_or]
    constructor
    · intro h
      have hzero : ∀ w ∈ l, v.voter = w.voter → v.percentage = 0 := by
        intro w hw hvw
        obtain ⟨p, hp⟩ := lastOf_of_mem hw
        obtain ⟨x, hx, hxw, rfl⟩ := mem_of_lastOf hp
        have hle := le_declaredOf hx
        have hall := h w (List.mem_cons_of_mem _ hw)
        rw [hlast w hw, hp, declaredOf_cons, if_pos hvw] at hall
        have hsum := Option.some.inj hall
        rw [hxw] at hle
        omega
      refine ⟨hzero, fun w hw => ?_⟩
      have hall := h w (List.mem_cons_of_mem _ hw)
      rw [hlast w hw, declaredOf_cons] at hall
      rw [hall]
      split
      · rename_i hvw
        rw [hzero w hw hvw, Nat.zero_add]
      · rw [Nat.zero_add]
    · rintro ⟨hzero, h⟩ x hx
      by_cases hin : ∃ w ∈ l, w.voter = x.voter
      · obtain ⟨w, hw, hwx⟩ := hin
        rw [← hwx, hlast w hw, h w hw, declaredOf_cons]
        split
        · rename_i hvw
          rw [hzero w hw hvw, Nat.zero_add]
        · rw [Nat.zero_add]
      · obtain rfl : x = v := by
          rcases List.mem_cons.mp hx with rfl | hx
          · rfl
          · exact absurd ⟨x, hx, rfl⟩ hin
        have hnone : lastOf l x.voter = none := by
          cases hl : lastOf l x.voter with
          | none => rfl
          | some p =>
            obtain ⟨w, hw, hwx, -⟩ := mem_of_lastOf hl
            exact absurd ⟨w, hw, hwx⟩ hin
        rw [declaredOf_cons, if_pos rfl, declaredOf_of_absent hnone]
        simp only [lastOf, hnone, Option.none_or, if_true, Nat.add_zero]

/-- Every vote counts for one of the keys. -/
theorem sum_declaredOf {keys : List String} (hk : keys.Nodup) (h : ∀ v ∈ l, v.voter ∈ keys) :
    (keys.map (declaredOf l)).sum = (l.map (·.percentage)).sum := by
  rw [← List.sum_toFinset _ hk]
  exact sum_groups l (·.voter) (·.percentage) fun v hv => List.mem_toFinset.mpr (h v hv)

end

/-! ## 3. The authority that is stored -/

section

variable {l : List ManagementVote} {m : List (String × Nat)} {name : String}

theorem lookup_votes (l : List ManagementVote) (m : List (String × Nat)) (name : String) :
    (l.foldl (fun m v => setAuth v.voter (u16 v.percentage) m) m).lookup name =
      ((lastOf l name).map u16).or (m.lookup name) := by
  induction l generalizing m with
  | nil => rfl
  | cons v l ih =>
    rw [List.foldl_cons, ih, lookup_setAuth]
    simp only [lastOf]
    cases lastOf l name with
    | some p => rfl
    | none =>
      by_cases h : v.voter = name
      · simp [h]
      · simp [h, Ne.symm h]

theorem lookup_managementAuths (l : List ManagementVote) (name : String) :
    (managementAuths l).lookup name = (lastOf l name).map u16 :=
  (lookup_votes l [] name).trans (Option.or_none)

theorem nameSorted_votes (l : List ManagementVote) (hm : NameSorted m) :
    NameSorted (l.foldl (fun m v => setAuth v.voter (u16 v.percentage) m) m) := by
  induction l generalizing m with
  | nil => exact hm
  | cons v l ih => exact ih (nameSorted_setAuth hm)

theorem nameSorted_managementAuths (l : List ManagementVote) : NameSorted (managementAuths l) :=
  nameSorted_votes l .nil

/-- The weights are the declared ones, and so they are together what was declared. -/
theorem sum_managementAuths
    (h : ∀ v ∈ l, (managementAuths l).lookup v.voter = some (declaredOf l v.voter)) :
    ((managementAuths l).map (·.2)).sum = (l.map (·.percentage)).sum := by
  have hsorted := nameSorted_managementAuths l
  have hweights : (managementAuths l).map (·.2) =
      ((managementAuths l).map (·.1)).map (declaredOf l) := by
    rw [List.map_map]
    refine List.map_congr_left fun p hp => ?_
    have hlook : (managementAuths l).lookup p.1 = some p.2 := hsorted.lookup_of_mem hp
    obtain ⟨q, hq, -⟩ :=
      Option.map_eq_some_iff.mp ((lookup_managementAuths l p.1).symm.trans hlook)
    obtain ⟨v, hv, hvp, -⟩ := mem_of_lastOf hq
    have hall := h v hv
    rw [hvp, hlook] at hall
    exact Option.some.inj hall
  rw [hweights]
  refine sum_declaredOf hsorted.nodup fun v hv => ?_
  obtain ⟨l₁, l₂, e, -⟩ := List.lookup_eq_some_iff.mp (h v hv)
  rw [e]
  exact List.mem_map_of_mem (List.mem_append_right _ List.mem_cons_self)

/-- **The stored authority is the declared one.** -/
theorem declared_managementAuths_iff (l : List ManagementVote) :
    Declared l (managementAuths l) ↔ NamedOnce l := by
  -- no percentage of a sum of 100 is too large for a weight
  have hweight : (l.map (·.percentage)).sum = 100 → ∀ name p, lastOf l name = some p →
      u16 p = p := by
    intro hsum name p hp
    obtain ⟨v, hv, -, rfl⟩ := mem_of_lastOf hp
    have hle : v.percentage ≤ (l.map (·.percentage)).sum :=
      List.le_sum_of_mem (List.mem_map_of_mem hv)
    exact Nat.mod_eq_of_lt (by omega)
  constructor
  · rintro ⟨hw, htotal⟩
    have hsum := (sum_managementAuths hw).symm.trans htotal
    refine ⟨hsum, (last_declared_iff l).mp fun v hv => ?_⟩
    obtain ⟨p, hp⟩ := lastOf_of_mem hv
    have hall := hw v hv
    rw [lookup_managementAuths, hp, Option.map_some, hweight hsum _ p hp] at hall
    exact hp.trans hall
  · rintro ⟨hsum, honce⟩
    have hw : ∀ v ∈ l, (managementAuths l).lookup v.voter = some (declaredOf l v.voter) := by
      intro v hv
      have hp := (last_declared_iff l).mpr honce v hv
      rw [lookup_managementAuths, hp, Option.map_some, hweight hsum _ _ hp]
    exact ⟨hw, (sum_managementAuths hw).trans hsum⟩

end

/-! ## 4. The two operations -/

/-- Who manages a side. -/
def ContentSide.manage : ContentSide → Content → Authority
  | master, c => c.manageMaster
  | comp, c => c.manageComp

/-- The content whose managers an operation may declare. -/
def Operation.managedUrl : Operation → Option String
  | .content o => some o.url
  | .contentUpdate o => some o.url
  | _ => none

/-- The votes that it declares for a side, where it declares any. -/
def Operation.managers : ContentSide → Operation → Option (List ManagementVote)
  | .master, .content o => some o.management
  | .comp, .content o => if o.compMeta.thirdPartyPublishers then o.managementComp else none
  | .master, .contentUpdate o =>
      if o.newManagement ≠ [] ∧ o.side = sideMaster then some o.newManagement else none
  | .comp, .contentUpdate o =>
      if o.newManagement ≠ [] ∧ o.side ≠ sideMaster then some o.newManagement else none
  | _, _ => none

theorem manage_newContent {o : ContentOp} {side : ContentSide} {l : List ManagementVote}
    {hf2 : Bool} {now : Nat} (h : (Operation.content o).managers side = some l) :
    (side.manage (newContent o hf2 now)).accountAuths = managementAuths l := by
  cases side with
  | master =>
    cases h
    rfl
  | comp =>
    simp only [Operation.managers] at h
    split at h
    · rename_i htwo
      simp only [ContentSide.manage, newContent, htwo, if_true, h, Option.getD_some]
    · cases h

theorem manage_updateContent (o : ContentUpdateOp) (hf2 : Bool) (now : Nat) (c : Content)
    (side : ContentSide) :
    match (Operation.contentUpdate o).managers side with
    | some l => (side.manage (updateContent o hf2 now c)).accountAuths = managementAuths l
    | none => side.manage (updateContent o hf2 now c) = side.manage c := by
  by_cases hside : o.side = sideMaster
  · cases side with
    | master =>
      by_cases hne : o.newManagement ≠ []
      · simp [Operation.managers, ContentSide.manage, updateContent, updateMaster, hside, hne]
      · simp [Operation.managers, ContentSide.manage, updateContent, updateMaster, hside, hne]
    | comp => simp [Operation.managers, ContentSide.manage, updateContent, updateMaster, hside]
  · cases side with
    | master => simp [Operation.managers, ContentSide.manage, updateContent, updateComp, hside]
    | comp =>
      by_cases hne : o.newManagement ≠ []
      · simp [Operation.managers, ContentSide.manage, updateContent, updateComp, hside, hne]
      · simp [Operation.managers, ContentSide.manage, updateContent, updateComp, hside, hne]

/-- A payout has no part in the authorities. -/
theorem manage_of_terms {c c' : Content} (h : c'.terms = c.terms) (side : ContentSide) :
    side.manage c' = side.manage c := by
  cases side with
  | master => exact congrArg (·.manageMaster) h
  | comp => exact congrArg (·.manageComp) h

/-- **A side is managed as declared if and only if nobody is named again after a percentage, and
    the percentages make 100.** Where nothing is declared for the side, its managers stay. -/
theorem content_managed_iff [Fc] (clock n : Nat) (op : Operation) (side : ContentSide)
    (url : String) (d d' : Database chainSchema) (hurl : op.managedUrl = some url)
    (h : (applyOperation clock n op).run d = .ok () d') :
    ∃ i, ∃ c' : Content, d'.store.get Kind.content i = some c' ∧ c'.url = url ∧
      match op.managers side with
      | some l => Declared l (side.manage c').accountAuths ↔ NamedOnce l
      | none => ∀ j, ∀ c : Content, d.store.get Kind.content j = some c → c.url = url →
          side.manage c' = side.manage c := by
  cases op with
  | content o =>
    cases hurl
    obtain ⟨hnew, i, now, hget⟩ :=
      content_ok (show (content o : Act n Unit).run d = .ok () d' from h)
    refine ⟨i, newContent o (d.store.passed hardfork02) now, by rw [hget, if_pos rfl], rfl, ?_⟩
    split
    · rename_i l hl
      rw [manage_newContent hl]
      exact declared_managementAuths_iff l
    · intro j c hj hurl
      exact absurd hurl (hnew j c hj)
  | contentUpdate o =>
    cases hurl
    obtain ⟨i, c, hc, hurl, -, ⟨now, c', hc', hterms⟩, -⟩ :=
      contentUpdate_ok (show (contentUpdate o : Act n Unit).run d = .ok () d' from h)
    have hurl' : c'.url = o.url :=
      (congrArg Content.url hterms).trans
        ((updateContent_url o (d.store.passed hardfork02) now c).trans hurl)
    refine ⟨i, c', hc', hurl', ?_⟩
    have hkeep := manage_of_terms hterms side
    have hwrites := manage_updateContent o (d.store.passed hardfork02) now c side
    split
    · rename_i l hl
      rw [hl] at hwrites
      rw [hkeep, hwrites]
      exact declared_managementAuths_iff l
    · rename_i hnone
      rw [hnone] at hwrites
      intro j a hj hurla
      obtain rfl := content_unique hj hc (hurla.trans hurl.symm)
      obtain rfl := Option.some.inj (hj.symm.trans hc)
      exact hkeep.trans hwrites
  | _ => cases hurl

/-! ## 5. A voter who is named twice -/

section

attribute [local instance] sampleFc

/-- A content that these votes manage. -/
def managedBy (l : List ManagementVote) : ContentOp := sampleContentOp [] l

def managedTwice : ContentOp := managedBy [⟨initMinerName, 50⟩, ⟨initMinerName, 50⟩]

/-- Two halves of one voter pass validate(), and leave the content with half of its weight. -/
theorem named_twice_unmanaged :
    ∃ (d d' : Database chainSchema) (o : ContentOp) (i : Nat) (c : Content),
      d = (Node.genesis sampleGenesis).db ∧ (∀ v ∈ o.management, v.percentage < 2 ^ 32) ∧
      (Operation.content o).validate = .ok () ∧
      (applyOperation 0 0 (.content o)).run d = .ok () d' ∧
      d'.store.get Kind.content i = some c ∧ c.url = o.url ∧
      ¬Declared o.management c.manageMaster.accountAuths := by
  obtain ⟨_, hrun⟩ := Outcome.exists_of_isOk (show
    ((applyOperation 0 0 (.content managedTwice)).run
      (Node.genesis sampleGenesis).db).isOk = true by decide +kernel)
  have hc : (((applyOperation 0 0 (.content managedTwice)).run
      (Node.genesis sampleGenesis).db).db.store.get Kind.content 0).map (fun c : Content =>
        (c.url, c.manageMaster.accountAuths)) = some ("ipfs://a", [(initMinerName, 50)]) := by
    decide +kernel
  obtain ⟨c, hc, e⟩ := Option.map_eq_some_iff.mp hc
  obtain ⟨hurl, hauths⟩ := Prod.mk.inj e
  refine ⟨_, _, managedTwice, 0, c, rfl, by decide, by decide +kernel, hrun, hc, hurl, fun h => ?_⟩
  have htotal := h.total
  rw [hauths] at htotal
  cases htotal

/-- Three voters of 50, 30 and 20 percent. -/
def threeManagers : List ManagementVote :=
  [⟨initMinerName, 50⟩, ⟨tempAccount, 30⟩, ⟨minerAccount, 20⟩]

/-- Three voters manage the content as declared. -/
theorem content_managed_iff_three : ∃ i, ∃ c' : Content,
    ((applyOperation 0 0 (.content (managedBy threeManagers))).run
      (Node.genesis sampleGenesis).db).db.store.get Kind.content i = some c' ∧
      c'.url = "ipfs://a" ∧ Declared threeManagers c'.manageMaster.accountAuths := by
  obtain ⟨_, hrun⟩ := Outcome.exists_of_isOk (show
    ((applyOperation 0 0 (.content (managedBy threeManagers))).run
      (Node.genesis sampleGenesis).db).isOk = true by decide +kernel)
  obtain ⟨i, c', hc', hurl, hiff⟩ := content_managed_iff 0 0 (.content (managedBy threeManagers))
    .master "ipfs://a" _ _ rfl hrun
  exact ⟨i, c', hc', hurl, hiff.mpr ⟨by decide, by decide⟩⟩

end

end MuseChain
