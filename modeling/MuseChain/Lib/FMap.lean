/-
  File:      MuseChain/Lib/FMap.lean
  Subject:   Finite maps with natural-number keys, kept as strictly sorted lists.

  The sorted list is the canonical form of the map, so two maps that answer every lookup alike
  ARE the same map (`FMap.ext_get`): a theorem that a sequence of updates was taken back can be
  stated as an equation. There is ONE update, `put i o` (`some a` writes, `none` deletes), with
  one lookup lemma (`get_put`) and one lemma about sums over all entries (`sum_put`).
-/
import Mathlib.Data.List.Basic
import Mathlib.Algebra.Group.Int.Defs
import Mathlib.Algebra.BigOperators.Group.Finset.Basic
import Mathlib.Algebra.BigOperators.Group.List.Basic
import Mathlib.Algebra.Order.BigOperators.Group.List
import Mathlib.Tactic.Ring

namespace MuseChain

/-- A finite map from natural numbers, as a list with strictly increasing keys. -/
structure FMap (α : Type) where
  rows : List (Nat × α)
  sorted : rows.Pairwise (fun p q => p.1 < q.1)

namespace FMap

variable {α : Type}

def empty : FMap α := ⟨[], List.Pairwise.nil⟩

instance : Inhabited (FMap α) := ⟨empty⟩

/-! ## 1. Lookup -/

def getRows : List (Nat × α) → Nat → Option α
  | [], _ => none
  | (j, b) :: r, i => if i = j then some b else getRows r i

def get (m : FMap α) (i : Nat) : Option α := getRows m.rows i

theorem getRows_none_of_lt {r : List (Nat × α)} {i : Nat} (h : ∀ p ∈ r, i < p.1) :
    getRows r i = none := by
  induction r with
  | nil => rfl
  | cons p r ih =>
    obtain ⟨j, b⟩ := p
    have hj : i < j := h (j, b) List.mem_cons_self
    simp only [getRows]
    rw [if_neg (by omega)]
    exact ih fun q hq => h q (List.mem_cons_of_mem _ hq)

theorem mem_rows_of_get {r : List (Nat × α)} {i : Nat} {a : α} (h : getRows r i = some a) :
    (i, a) ∈ r := by
  induction r with
  | nil => simp [getRows] at h
  | cons p r ih =>
    obtain ⟨j, b⟩ := p
    simp only [getRows] at h
    split at h
    · rename_i e
      subst e
      simp only [Option.some.injEq] at h
      subst h
      exact List.mem_cons_self
    · exact List.mem_cons_of_mem _ (ih h)

theorem getRows_of_mem {r : List (Nat × α)} (hs : r.Pairwise (fun p q => p.1 < q.1))
    {i : Nat} {a : α} (h : (i, a) ∈ r) : getRows r i = some a := by
  induction r with
  | nil => simp at h
  | cons p r ih =>
    obtain ⟨j, b⟩ := p
    obtain ⟨hlt, hr⟩ := List.pairwise_cons.mp hs
    simp only [getRows]
    rcases List.mem_cons.mp h with e | hm
    · simp only [Prod.mk.injEq] at e
      rw [if_pos e.1, e.2]
    · have : j < i := hlt (i, a) hm
      rw [if_neg (by omega)]
      exact ih hr hm

theorem mem_rows {m : FMap α} {i : Nat} {a : α} : (i, a) ∈ m.rows ↔ m.get i = some a :=
  ⟨getRows_of_mem m.sorted, mem_rows_of_get⟩

@[simp] theorem get_empty (i : Nat) : (empty : FMap α).get i = none := rfl

/-! ## 2. Equality is equality of all lookups -/

theorem rows_eq_of_get : ∀ {r r' : List (Nat × α)}, r.Pairwise (fun p q => p.1 < q.1) →
    r'.Pairwise (fun p q => p.1 < q.1) → (∀ i, getRows r i = getRows r' i) → r = r'
  | [], [], _, _, _ => rfl
  | [], (j, b) :: r', _, _, h => by simpa [getRows] using h j
  | (j, b) :: r, [], _, _, h => by simpa [getRows] using h j
  | (j, b) :: r, (j', b') :: r', hs, hs', h => by
      obtain ⟨hlt, hr⟩ := List.pairwise_cons.mp hs
      obtain ⟨hlt', hr'⟩ := List.pairwise_cons.mp hs'
      have ej : j = j' := by
        -- the smaller of the two heads is a key of one map and below every key of the other
        rcases lt_trichotomy j j' with hl | e | hl
        · have h1 := h j
          simp only [getRows, if_true] at h1
          rw [if_neg (by omega), getRows_none_of_lt fun p hp => lt_trans hl (hlt' p hp)] at h1
          cases h1
        · exact e
        · have h1 := h j'
          simp only [getRows, if_true] at h1
          rw [if_neg (by omega), getRows_none_of_lt fun p hp => lt_trans hl (hlt p hp)] at h1
          cases h1
      subst ej
      have eb : b = b' := by simpa [getRows] using h j
      subst eb
      have er : r = r' := by
        refine rows_eq_of_get hr hr' fun i => ?_
        by_cases hi : i = j
        · subst hi
          rw [getRows_none_of_lt hlt, getRows_none_of_lt hlt']
        · simpa [getRows, hi] using h i
      rw [er]

theorem ext_get {m m' : FMap α} (h : ∀ i, m.get i = m'.get i) : m = m' := by
  obtain ⟨r, hs⟩ := m
  obtain ⟨r', hs'⟩ := m'
  have e : r = r' := rows_eq_of_get hs hs' h
  subst e
  rfl

/-! ## 3. The update -/

def putRows : List (Nat × α) → Nat → Option α → List (Nat × α)
  | [], _, none => []
  | [], i, some a => [(i, a)]
  | (j, b) :: r, i, o =>
      if i < j then
        match o with
        | none => (j, b) :: r
        | some a => (i, a) :: (j, b) :: r
      else if i = j then
        match o with
        | none => r
        | some a => (i, a) :: r
      else (j, b) :: putRows r i o

theorem mem_putRows {r : List (Nat × α)} {i : Nat} {o : Option α} {p : Nat × α}
    (h : p ∈ putRows r i o) : p ∈ r ∨ p.1 = i := by
  induction r with
  | nil => cases o <;> simp [putRows] at h; simp [h]
  | cons q r ih =>
    obtain ⟨j, b⟩ := q
    simp only [putRows] at h
    split at h
    · cases o with
      | none => exact Or.inl h
      | some a =>
        rcases List.mem_cons.mp h with e | hm
        · exact Or.inr (by rw [e])
        · exact Or.inl hm
    · split at h
      · cases o with
        | none => exact Or.inl (List.mem_cons_of_mem _ h)
        | some a =>
          rcases List.mem_cons.mp h with e | hm
          · exact Or.inr (by rw [e])
          · exact Or.inl (List.mem_cons_of_mem _ hm)
      · rcases List.mem_cons.mp h with e | hm
        · exact Or.inl (by rw [e]; exact List.mem_cons_self)
        · exact (ih hm).imp (List.mem_cons_of_mem _) id

theorem sorted_putRows {r : List (Nat × α)} (hs : r.Pairwise (fun p q => p.1 < q.1))
    (i : Nat) (o : Option α) : (putRows r i o).Pairwise (fun p q => p.1 < q.1) := by
  induction r with
  | nil => cases o <;> simp [putRows]
  | cons q r ih =>
    obtain ⟨j, b⟩ := q
    obtain ⟨hlt, hr⟩ := List.pairwise_cons.mp hs
    simp only [putRows]
    split
    · rename_i hij
      cases o with
      | none => exact hs
      | some a =>
        refine List.pairwise_cons.mpr ⟨fun p hp => ?_, hs⟩
        rcases List.mem_cons.mp hp with e | hm
        · rw [e]; exact hij
        · exact lt_trans hij (hlt p hm)
    · split
      · rename_i hij
        subst hij
        cases o with
        | none => exact hr
        | some a => exact List.pairwise_cons.mpr ⟨hlt, hr⟩
      · refine List.pairwise_cons.mpr ⟨fun p hp => ?_, ih hr⟩
        rcases mem_putRows hp with hm | e
        · exact hlt p hm
        · show j < p.1
          omega

/-- The one update: `some a` writes the entry at `i`, `none` deletes it. -/
def put (m : FMap α) (i : Nat) (o : Option α) : FMap α :=
  ⟨putRows m.rows i o, sorted_putRows m.sorted i o⟩

theorem getRows_putRows {r : List (Nat × α)} (hs : r.Pairwise (fun p q => p.1 < q.1))
    (i j : Nat) (o : Option α) :
    getRows (putRows r i o) j = if j = i then o else getRows r j := by
  induction r with
  | nil => cases o <;> simp [putRows, getRows]
  | cons q r ih =>
    obtain ⟨k, b⟩ := q
    obtain ⟨hlt, hr⟩ := List.pairwise_cons.mp hs
    simp only [putRows]
    by_cases hik : i < k
    · rw [if_pos hik]
      cases o with
      | none =>
        by_cases hj : j = i
        · subst hj
          rw [if_pos rfl]
          simp only [getRows]
          rw [if_neg (by omega)]
          exact getRows_none_of_lt fun p hp => lt_trans hik (hlt p hp)
        · rw [if_neg hj]
      | some a => rfl
    · rw [if_neg hik]
      by_cases hek : i = k
      · subst hek
        rw [if_pos rfl]
        cases o with
        | none =>
          by_cases hj : j = i
          · subst hj
            rw [if_pos rfl]
            exact getRows_none_of_lt hlt
          · simp only [getRows]
            rw [if_neg hj, if_neg hj]
        | some a =>
          simp only [getRows]
          by_cases hj : j = i
          · rw [if_pos hj, if_pos hj]
          · rw [if_neg hj, if_neg hj, if_neg hj]
      · rw [if_neg hek]
        simp only [getRows]
        by_cases hj : j = k
        · rw [if_pos hj, if_neg (by omega), if_pos hj]
        · rw [if_neg hj, ih hr]
          by_cases hji : j = i
          · rw [if_pos hji, if_pos hji]
          · rw [if_neg hji, if_neg hji, if_neg hj]

@[simp] theorem get_put (m : FMap α) (i j : Nat) (o : Option α) :
    (m.put i o).get j = if j = i then o else m.get j := getRows_putRows m.sorted i j o

/-! ## 4. Sums over all entries -/

/-- The sum of `f` over all entries. -/
def sum (f : α → Int) (m : FMap α) : Int := (m.rows.map fun p => f p.2).sum

@[simp] theorem sum_zero (m : FMap α) : m.sum (fun _ => 0) = 0 := by
  unfold sum
  simp

/-- What one entry contributes to a sum: nothing when it is absent. -/
def part (f : α → Int) : Option α → Int
  | none => 0
  | some a => f a

@[simp] theorem part_none (f : α → Int) : part f none = 0 := rfl

@[simp] theorem part_some (f : α → Int) (a : α) : part f (some a) = f a := rfl

theorem sumRows_putRows (f : α → Int) {r : List (Nat × α)}
    (hs : r.Pairwise (fun p q => p.1 < q.1)) (i : Nat) (o : Option α) :
    ((putRows r i o).map fun p => f p.2).sum =
      (r.map fun p => f p.2).sum - part f (getRows r i) + part f o := by
  induction r with
  | nil => cases o <;> simp [putRows, getRows]
  | cons q r ih =>
    obtain ⟨k, b⟩ := q
    obtain ⟨hlt, hr⟩ := List.pairwise_cons.mp hs
    simp only [putRows, getRows]
    by_cases hik : i < k
    · rw [if_pos hik, if_neg (by omega),
        getRows_none_of_lt fun p hp => lt_trans hik (hlt p hp)]
      cases o with
      | none => simp
      | some a => simp [add_comm]
    · rw [if_neg hik]
      by_cases hek : i = k
      · rw [if_pos hek, if_pos hek]
        cases o with
        | none => simp
        | some a => simp [add_comm]
      · rw [if_neg hek, if_neg hek]
        simp only [List.map_cons, List.sum_cons, ih hr]
        ring

/-- **One update changes a sum by the new entry minus the old one.** -/
theorem sum_put (f : α → Int) (m : FMap α) (i : Nat) (o : Option α) :
    (m.put i o).sum f = m.sum f - part f (m.get i) + part f o := sumRows_putRows f m.sorted i o

theorem sumRows_eq_range (f : α → Int) {r : List (Nat × α)}
    (hs : r.Pairwise (fun p q => p.1 < q.1)) {n : Nat} (hn : ∀ p ∈ r, p.1 < n) :
    (r.map fun p => f p.2).sum = ∑ i ∈ Finset.range n, part f (getRows r i) := by
  induction r with
  | nil => simp [getRows]
  | cons q r ih =>
    obtain ⟨k, b⟩ := q
    obtain ⟨hlt, hr⟩ := List.pairwise_cons.mp hs
    have hk : k ∈ Finset.range n := Finset.mem_range.mpr (hn (k, b) List.mem_cons_self)
    have hrest : ∀ i ∈ (Finset.range n).erase k,
        part f (getRows ((k, b) :: r) i) = part f (getRows r i) := by
      intro i hi
      simp only [getRows]
      rw [if_neg (Finset.ne_of_mem_erase hi)]
    have hself : part f (getRows r k) = 0 := by
      rw [getRows_none_of_lt hlt, part_none]
    rw [List.map_cons, List.sum_cons, ih hr fun p hp => hn p (List.mem_cons_of_mem _ hp),
      ← Finset.add_sum_erase _ _ hk, ← Finset.add_sum_erase _ _ hk, hself,
      Finset.sum_congr rfl hrest]
    simp [getRows]

/-- **A sum depends on what each entry contributes.** -/
theorem sum_congr_of {β : Type} {f : α → Int} {g : β → Int} {m : FMap α} {m' : FMap β}
    (h : ∀ i, part f (m.get i) = part g (m'.get i)) : m.sum f = m'.sum g := by
  obtain ⟨n, hn⟩ : ∃ n, (∀ p ∈ m.rows, p.1 < n) ∧ ∀ p ∈ m'.rows, p.1 < n := by
    refine ⟨(m.rows.map (·.1) ++ m'.rows.map (·.1)).sum + 1, fun p hp => ?_, fun p hp => ?_⟩
    · exact Nat.lt_succ_of_le (List.single_le_sum (fun _ _ => Nat.zero_le _) _
        (List.mem_append_left _ (List.mem_map_of_mem hp)))
    · exact Nat.lt_succ_of_le (List.single_le_sum (fun _ _ => Nat.zero_le _) _
        (List.mem_append_right _ (List.mem_map_of_mem hp)))
  unfold sum
  rw [sumRows_eq_range f m.sorted hn.1, sumRows_eq_range g m'.sorted hn.2]
  exact Finset.sum_congr rfl fun i _ => h i

theorem sum_congr {f : α → Int} {m m' : FMap α} (h : ∀ i, part f (m.get i) = part f (m'.get i)) :
    m.sum f = m'.sum f := sum_congr_of h

/-- Sums of what is the same for each entry. -/
theorem sum_eq {f g : α → Int} {m : FMap α} (h : ∀ i a, m.get i = some a → f a = g a) :
    m.sum f = m.sum g := by
  unfold sum
  congr 1
  refine List.map_congr_left fun p hp => h p.1 p.2 (mem_rows.mp hp)

theorem sum_nonneg_of {f : α → Int} {m : FMap α} (h : ∀ i a, m.get i = some a → 0 ≤ f a) :
    0 ≤ m.sum f := by
  refine List.sum_nonneg fun x hx => ?_
  obtain ⟨p, hp, rfl⟩ := List.mem_map.mp hx
  exact h p.1 p.2 (mem_rows.mp hp)

theorem sum_nonneg {f : α → Int} {m : FMap α} (h : ∀ a, 0 ≤ f a) : 0 ≤ m.sum f :=
  sum_nonneg_of fun _ a _ => h a

/-! ## 5. Every entry changed alike -/

section

variable {β : Type}

def map (f : α → β) (m : FMap α) : FMap β :=
  ⟨m.rows.map fun p => (p.1, f p.2), List.pairwise_map.mpr m.sorted⟩

@[simp] theorem get_map (f : α → β) (m : FMap α) (i : Nat) : (m.map f).get i = (m.get i).map f := by
  show getRows (m.rows.map fun p => (p.1, f p.2)) i = (getRows m.rows i).map f
  induction m.rows with
  | nil => rfl
  | cons p r ih =>
    obtain ⟨j, b⟩ := p
    simp only [List.map_cons, getRows]
    split
    · rfl
    · exact ih

theorem sum_map (f : α → β) (g : β → Int) (m : FMap α) : (m.map f).sum g = m.sum fun a => g (f a) := by
  unfold sum map
  rw [List.map_map]
  rfl

end

/-! ## 6. Some entries kept -/

def filter (p : α → Bool) (m : FMap α) : FMap α :=
  ⟨m.rows.filter fun r => p r.2, m.sorted.filter _⟩

@[simp] theorem get_filter (p : α → Bool) (m : FMap α) (i : Nat) :
    (m.filter p).get i = (m.get i).filter p := by
  refine Option.ext fun a => ?_
  rw [← mem_rows, Option.filter_eq_some_iff, ← mem_rows]
  show (i, a) ∈ m.rows.filter _ ↔ _
  rw [List.mem_filter]

/-! ## 7. A constant map -/

/-- The rows `i, …, i + n - 1` with the same entry. -/
def constRows (a : α) : Nat → Nat → List (Nat × α)
  | _, 0 => []
  | i, n + 1 => (i, a) :: constRows a (i + 1) n

theorem le_of_mem_constRows {a : α} {i n : Nat} {p : Nat × α} (h : p ∈ constRows a i n) :
    i ≤ p.1 := by
  induction n generalizing i with
  | zero => cases h
  | succ n ih =>
    rcases List.mem_cons.mp h with rfl | h
    · exact Nat.le_refl _
    · exact Nat.le_of_succ_le (ih h)

theorem lt_of_mem_constRows {a : α} {i n : Nat} {p : Nat × α} (h : p ∈ constRows a i n) :
    p.1 < i + n := by
  induction n generalizing i with
  | zero => cases h
  | succ n ih =>
    rcases List.mem_cons.mp h with rfl | h
    · show i < i + (n + 1)
      omega
    · have := ih h
      omega

theorem sorted_constRows (a : α) (i n : Nat) :
    (constRows a i n).Pairwise (fun p q => p.1 < q.1) := by
  induction n generalizing i with
  | zero => exact List.Pairwise.nil
  | succ n ih => exact List.Pairwise.cons (fun p hp => le_of_mem_constRows hp) (ih (i + 1))

/-- The map of `0, …, n - 1` to `a`. -/
def const (n : Nat) (a : α) : FMap α := ⟨constRows a 0 n, sorted_constRows a 0 n⟩

theorem mem_constRows {a : α} {i j n : Nat} (hi : i ≤ j) (hn : j < i + n) :
    (j, a) ∈ constRows a i n := by
  induction n generalizing i with
  | zero => omega
  | succ n ih =>
    obtain rfl | hlt := Nat.eq_or_lt_of_le hi
    · exact List.mem_cons_self
    · exact List.mem_cons_of_mem _ (ih hlt (by omega))

theorem get_const {n i : Nat} {a : α} : (const n a).get i = if i < n then some a else none := by
  split
  · exact mem_rows.mp (mem_constRows (Nat.zero_le i) (by omega))
  · rename_i hn
    cases hget : (const n a).get i with
    | none => rfl
    | some b =>
      have := lt_of_mem_constRows (mem_rows.mpr hget)
      omega

theorem lt_of_get_const {n i : Nat} {a b : α} (h : (const n a).get i = some b) : i < n := by
  have := lt_of_mem_constRows (mem_rows.mpr h)
  omega

end FMap

end MuseChain
