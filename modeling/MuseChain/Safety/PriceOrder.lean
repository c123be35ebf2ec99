/-
  File:      MuseChain/Safety/PriceOrder.lean
  Subject:   The order of prices, and the range of the order book that a limit order meets.

  `Price.rank`: a price by its base asset, its quote asset and the quotient of its amounts. While
  the amounts are positive and fit in 64 bits, the operators of asset.cpp compare the ranks
  (`Price.Positive.blt_iff`, `beq_iff`, `ble_iff`), so they are the order of a linear order; the
  comparison of `by_price` is the one of the ranks downwards and then of the ids
  (`byPriceLess_iff`). `PriceIndex.range_eq`: what lies from `lower_bound( p.max() )` up to
  `upper_bound( p )`; `ordersBetween_eq_range` says that the market reads just this.
-/
import MuseChain.Lib.Ranges
import MuseChain.Safety.Prices

namespace MuseChain

/-! ## 1. The rank of a price -/

namespace Price

/-- `a >= b` of two prices. -/
def bge (a b : Price) : Bool := !a.blt b

/-- `a != b` of two prices. -/
def bne (a b : Price) : Bool := !a.beq b

/-- Both amounts are positive 64-bit numbers. -/
structure Positive (p : Price) : Prop where
  base : Ample p.base.amount
  quote : Ample p.quote.amount

def ratio (p : Price) : ℚ := p.base.amount / p.quote.amount

def rank (p : Price) : ℕ ×ₗ ℕ ×ₗ ℚ := toLex (p.base.assetId, toLex (p.quote.assetId, p.ratio))

/-- The prices are in the same assets, base and quote. -/
def SamePair (p q : Price) : Prop :=
  p.base.assetId = q.base.assetId ∧ p.quote.assetId = q.quote.assetId

instance (p q : Price) : Decidable (SamePair p q) := inferInstanceAs (Decidable (_ ∧ _))

variable {p q r : Price}

theorem Positive.quote_pos (h : p.Positive) : (0 : ℚ) < p.quote.amount := by
  exact_mod_cast h.quote.1

/-- The cross products are compared as the quotients. -/
theorem Positive.cross_lt_iff (hp : p.Positive) (hq : q.Positive) :
    mul128 q.quote.amount p.base.amount < mul128 p.quote.amount q.base.amount ↔
      p.ratio < q.ratio := by
  rw [mul128_lt_iff hq.quote hp.base hp.quote hq.base, ratio, ratio,
    div_lt_div_iff₀ hp.quote_pos hq.quote_pos, mul_comm (q.quote.amount : ℚ),
    mul_comm (p.quote.amount : ℚ)]

theorem Positive.cross_eq_iff (hp : p.Positive) (hq : q.Positive) :
    mul128 q.quote.amount p.base.amount = mul128 p.quote.amount q.base.amount ↔
      p.ratio = q.ratio := by
  have hlt := hp.cross_lt_iff hq
  have hgt := hq.cross_lt_iff hp
  constructor
  · intro heq
    refine le_antisymm (not_lt.mp fun h => ?_) (not_lt.mp fun h => ?_)
    · exact (hgt.mpr h).ne heq.symm
    · exact (hlt.mpr h).ne heq
  · intro heq
    refine le_antisymm (not_lt.mp fun h => ?_) (not_lt.mp fun h => ?_)
    · exact (hgt.mp h).ne heq.symm
    · exact (hlt.mp h).ne heq

theorem Positive.blt_iff (hp : p.Positive) (hq : q.Positive) :
    p.blt q = true ↔ p.rank < q.rank := by
  unfold blt rank
  rw [Prod.Lex.toLex_lt_toLex, Prod.Lex.toLex_lt_toLex]
  dsimp only
  rcases lt_trichotomy p.base.assetId q.base.assetId with hb | hb | hb
  · rw [if_pos hb]
    exact ⟨fun _ => .inl hb, fun _ => rfl⟩
  · rw [hb, if_neg (lt_irrefl _), if_neg (lt_irrefl _)]
    rcases lt_trichotomy p.quote.assetId q.quote.assetId with hc | hc | hc
    · rw [if_pos hc]
      exact ⟨fun _ => .inr ⟨rfl, .inl hc⟩, fun _ => rfl⟩
    · rw [hc, if_neg (lt_irrefl _), if_neg (lt_irrefl _), decide_eq_true_eq, hp.cross_lt_iff hq]
      refine ⟨fun h => .inr ⟨rfl, .inr ⟨rfl, h⟩⟩, fun h => ?_⟩
      rcases h with h | ⟨_, h | ⟨_, h⟩⟩
      · exact absurd h (lt_irrefl _)
      · exact absurd h (lt_irrefl _)
      · exact h
    · rw [if_neg hc.not_gt, if_pos hc]
      refine ⟨fun h => (by cases h), fun h => ?_⟩
      rcases h with h | ⟨_, h | ⟨h, _⟩⟩
      · exact absurd h (lt_irrefl _)
      · exact absurd h hc.not_gt
      · exact absurd h hc.ne'
  · rw [if_neg hb.not_gt, if_pos hb]
    refine ⟨fun h => (by cases h), fun h => ?_⟩
    rcases h with h | ⟨h, _⟩
    · exact absurd h hb.not_gt
    · exact absurd h hb.ne'

theorem Positive.beq_iff (hp : p.Positive) (hq : q.Positive) :
    p.beq q = true ↔ p.rank = q.rank := by
  have hcross : p.beq q = true ↔ (p.base.assetId = q.base.assetId ∧
      p.quote.assetId = q.quote.assetId) ∧ p.ratio = q.ratio := by
    unfold beq
    rw [Bool.and_eq_true, Bool.and_eq_true, decide_eq_true_eq, decide_eq_true_eq,
      decide_eq_true_eq, hp.cross_eq_iff hq]
  rw [hcross]
  unfold rank
  constructor
  · rintro ⟨⟨hb, hc⟩, hratio⟩
    rw [hb, hc, hratio]
  · intro h
    obtain ⟨hb, h⟩ := Prod.mk.inj (toLex.injective h)
    obtain ⟨hc, hratio⟩ := Prod.mk.inj (toLex.injective h)
    exact ⟨⟨hb, hc⟩, hratio⟩

theorem Positive.ble_iff (hp : p.Positive) (hq : q.Positive) :
    p.ble q = true ↔ p.rank ≤ q.rank := by
  unfold ble
  rw [Bool.or_eq_true, hp.beq_iff hq, hp.blt_iff hq, le_iff_eq_or_lt]

theorem Positive.bgt_iff (hp : p.Positive) (hq : q.Positive) :
    p.bgt q = true ↔ q.rank < p.rank := by
  unfold bgt
  rw [Bool.not_eq_true', ← Bool.not_eq_true, hp.ble_iff hq, not_le]

theorem Positive.bge_iff (hp : p.Positive) (hq : q.Positive) :
    p.bge q = true ↔ q.rank ≤ p.rank := by
  unfold bge
  rw [Bool.not_eq_true', ← Bool.not_eq_true, hp.blt_iff hq, not_lt]

theorem rank_of_samePair (h : SamePair p q) :
    (p.rank < q.rank ↔ p.ratio < q.ratio) ∧ (p.rank ≤ q.rank ↔ p.ratio ≤ q.ratio) ∧
      (p.rank = q.rank ↔ p.ratio = q.ratio) := by
  have hlt : ∀ {a b : Price}, SamePair a b → (a.rank < b.rank ↔ a.ratio < b.ratio) := by
    intro a b hab
    unfold rank
    rw [hab.1, hab.2, Prod.Lex.toLex_lt_toLex, Prod.Lex.toLex_lt_toLex]
    simp
  have hpq := hlt h
  have hqp := hlt ⟨h.1.symm, h.2.symm⟩
  have hle : p.rank ≤ q.rank ↔ p.ratio ≤ q.ratio := by rw [← not_lt, ← not_lt, hqp]
  have hge : q.rank ≤ p.rank ↔ q.ratio ≤ p.ratio := by rw [← not_lt, ← not_lt, hpq]
  exact ⟨hpq, hle, by rw [le_antisymm_iff, le_antisymm_iff, hle, hge]⟩

/-- Between two prices of a pair lie only prices of that pair. -/
theorem samePair_of_between (h : SamePair p r) (hpq : p.rank ≤ q.rank) (hqr : q.rank ≤ r.rank) :
    SamePair p q := by
  obtain ⟨hb, hc⟩ := h
  unfold rank at hpq hqr
  rw [Prod.Lex.toLex_le_toLex, Prod.Lex.toLex_le_toLex] at hpq hqr
  dsimp only at hpq hqr
  constructor <;> omega

theorem Positive.invert (h : p.Positive) : p.invert.Positive := ⟨h.quote, h.base⟩

theorem Positive.ratio_pos (h : p.Positive) : 0 < p.ratio :=
  div_pos (by exact_mod_cast h.base.1) h.quote_pos

theorem ratio_invert (p : Price) : p.invert.ratio = p.ratio⁻¹ := (inv_div _ _).symm

/-- Both amounts of a price, `k` times as large. -/
def scaled (p : Price) (k : Int) : Price :=
  ⟨⟨k * p.base.amount, p.base.assetId⟩, ⟨k * p.quote.amount, p.quote.assetId⟩⟩

theorem rank_scaled {k : Int} (hk : 0 < k) : (p.scaled k).rank = p.rank := by
  have hk' : (k : ℚ) ≠ 0 := by exact_mod_cast hk.ne'
  have hratio : (p.scaled k).ratio = p.ratio := by
    show ((k * p.base.amount : Int) : ℚ) / ((k * p.quote.amount : Int) : ℚ) = _
    rw [Int.cast_mul, Int.cast_mul]
    exact mul_div_mul_left _ _ hk'
  unfold rank
  rw [hratio]
  rfl

theorem maxOf_positive {base quote : Nat} {m : Price} (h : maxOf base quote = .ok m) :
    m.Positive := by
  have hmax : Ample maxShareSupply := ⟨by decide, by decide⟩
  have hone : Ample 1 := ⟨by decide, by decide⟩
  rw [maxOf_ok h]
  exact ⟨hmax, hone⟩

end Price

/-! ## 2. The index by_price -/

/-- `composite_key_compare< std::greater<price>, std::less<object_id_type> >`. -/
def byPriceLess (a b : Nat × LimitOrder) : Bool :=
  if a.2.sellPrice.bgt b.2.sellPrice then true
  else if b.2.sellPrice.bgt a.2.sellPrice then false
  else decide (a.1 < b.1)

/-- Where an order stands: the highest price first, then the lowest id. -/
def orderRank (a : Nat × LimitOrder) : (ℕ ×ₗ ℕ ×ₗ ℚ)ᵒᵈ ×ₗ ℕ :=
  toLex (OrderDual.toDual a.2.sellPrice.rank, a.1)

section

variable {a b : Nat × LimitOrder}

theorem byPriceLess_iff (ha : a.2.sellPrice.Positive) (hb : b.2.sellPrice.Positive) :
    byPriceLess a b = true ↔ orderRank a < orderRank b := by
  unfold byPriceLess orderRank
  rw [Prod.Lex.toLex_lt_toLex, OrderDual.toDual_lt_toDual]
  dsimp only
  have hab := ha.bgt_iff hb
  have hba := hb.bgt_iff ha
  rcases lt_trichotomy b.2.sellPrice.rank a.2.sellPrice.rank with h | h | h
  · rw [if_pos (hab.mpr h)]
    exact ⟨fun _ => .inl h, fun _ => rfl⟩
  · rw [if_neg (mt hab.mp (h ▸ lt_irrefl _)), if_neg (mt hba.mp (h ▸ lt_irrefl _)),
      decide_eq_true_eq, h]
    exact ⟨fun hid => .inr ⟨rfl, hid⟩, fun hid => hid.elim (absurd · (lt_irrefl _)) And.right⟩
  · rw [if_neg (mt hab.mp h.not_gt), if_pos (hba.mpr h)]
    refine ⟨fun hf => (by cases hf), fun hid => ?_⟩
    rcases hid with hid | ⟨hid, _⟩
    · exact absurd hid h.not_gt
    · exact absurd (OrderDual.toDual.injective hid) h.ne

/-- The order that `ordersBetween` sorts by is the same one, equal places included. -/
theorem byPrice_iff (ha : a.2.sellPrice.Positive) (hb : b.2.sellPrice.Positive) :
    byPrice a b = true ↔ orderRank a ≤ orderRank b := by
  unfold byPrice orderRank
  rw [Prod.Lex.toLex_le_toLex, OrderDual.toDual_lt_toDual, Bool.or_eq_true, Bool.and_eq_true,
    Bool.not_eq_true', ← Bool.not_eq_true, ha.bgt_iff hb, hb.bgt_iff ha, decide_eq_true_eq]
  dsimp only
  rw [not_lt, OrderDual.toDual_inj]
  constructor
  · rintro (h | ⟨hle, hid⟩)
    · exact .inl h
    · exact hle.eq_or_lt.symm.imp id fun h => ⟨h.symm, hid⟩
  · rintro (h | ⟨h, hid⟩)
    · exact .inl h
    · exact .inr ⟨h.ge, hid⟩

end

/-- The orders as the index holds them. -/
structure PriceIndex where
  rows : List (Nat × LimitOrder)
  positive : ∀ a ∈ rows, a.2.sellPrice.Positive
  sorted : rows.Pairwise fun a b => byPriceLess a b = true

namespace PriceIndex

variable {index : PriceIndex} {p m : Price}

/-- `lower_bound( k )`: the first place that is not before `k`. -/
def lowerBound (index : PriceIndex) (k : Price) : Nat :=
  index.rows.findIdx fun a => !a.2.sellPrice.bgt k

/-- `upper_bound( k )`: the first place behind `k`. -/
def upperBound (index : PriceIndex) (k : Price) : Nat :=
  index.rows.findIdx fun a => k.bgt a.2.sellPrice

/-- What is visited from `lower_bound( best )` up to `upper_bound( worst )`. -/
def range (index : PriceIndex) (best worst : Price) : List (Nat × LimitOrder) :=
  (index.rows.take (index.upperBound worst)).drop (index.lowerBound best)

/-- The prices go down along the index. -/
theorem ranks_fall (index : PriceIndex) : index.rows.Pairwise fun a b =>
    b.2.sellPrice.rank ≤ a.2.sellPrice.rank := by
  refine index.sorted.imp_of_mem fun ha hb hlt => ?_
  rw [byPriceLess_iff (index.positive _ ha) (index.positive _ hb)] at hlt
  unfold orderRank at hlt
  rw [Prod.Lex.toLex_lt_toLex, OrderDual.toDual_lt_toDual, OrderDual.toDual_inj] at hlt
  rcases hlt with hlt | ⟨heq, _⟩
  · exact hlt.le
  · exact heq.ge

theorem rises_lower (hm : m.Positive) :
    Ranges.Rises (fun a : Nat × LimitOrder => !a.2.sellPrice.bgt m) index.rows := by
  refine index.ranks_fall.imp_of_mem fun ha hb hle => ?_
  rw [Bool.not_eq_true', Bool.not_eq_true', ← Bool.not_eq_true, ← Bool.not_eq_true,
    (index.positive _ ha).bgt_iff hm, (index.positive _ hb).bgt_iff hm, not_lt, not_lt]
  exact fun h => hle.trans h

theorem rises_upper (hp : p.Positive) :
    Ranges.Rises (fun a : Nat × LimitOrder => p.bgt a.2.sellPrice) index.rows := by
  refine index.ranks_fall.imp_of_mem fun ha hb hle => ?_
  rw [hp.bgt_iff (index.positive _ ha), hp.bgt_iff (index.positive _ hb)]
  exact fun h => hle.trans_lt h

/-- What is behind the worse bound is not before the better one. -/
theorem upper_lower (hp : p.Positive) (hm : m.Positive) (h : p.ble m = true) :
    ∀ a ∈ index.rows, p.bgt a.2.sellPrice = true → (!a.2.sellPrice.bgt m) = true := by
  intro a ha hlt
  rw [hp.bgt_iff (index.positive a ha)] at hlt
  rw [Bool.not_eq_true', ← Bool.not_eq_true, (index.positive a ha).bgt_iff hm, not_lt]
  exact hlt.le.trans ((hp.ble_iff hm).mp h)

theorem lowerBound_le (hp : p.Positive) (hm : m.Positive) (h : p.ble m = true) :
    index.lowerBound m ≤ index.upperBound p :=
  Ranges.findIdx_le (rises_lower hm) (rises_upper hp) (upper_lower hp hm h)

/-- The range by a test of each order. -/
theorem range_eq_between (hp : p.Positive) (hm : m.Positive) (h : p.ble m = true) :
    index.range m p = index.rows.filter fun a =>
      !a.2.sellPrice.bgt m && !p.bgt a.2.sellPrice :=
  Ranges.range_eq_filter (rises_lower hm) (rises_upper hp) (upper_lower hp hm h)

/-- **The range holds the orders of the pair between the two prices.** -/
theorem range_eq (hp : p.Positive) (hm : Price.maxOf p.base.assetId p.quote.assetId = .ok m)
    (h : p.ble m = true) : index.range m p = index.rows.filter fun a =>
      Price.SamePair p a.2.sellPrice ∧ p.ble a.2.sellPrice = true ∧
        a.2.sellPrice.ble m = true := by
  have hmax := Price.maxOf_positive hm
  have hpair : Price.SamePair p m := by
    rw [Price.maxOf_ok hm]
    exact ⟨rfl, rfl⟩
  rw [range_eq_between hp hmax h]
  refine List.filter_congr fun a ha => ?_
  have hpos := index.positive a ha
  unfold Price.bgt
  rw [Bool.not_not, Bool.not_not, Bool.eq_iff_iff, Bool.and_eq_true, decide_eq_true_eq]
  constructor
  · rintro ⟨hbest, hworst⟩
    refine ⟨?_, hworst, hbest⟩
    exact Price.samePair_of_between hpair ((hp.ble_iff hpos).mp hworst)
      ((hpos.ble_iff hmax).mp hbest)
  · exact fun hall => ⟨hall.2.2, hall.2.1⟩

end PriceIndex

/-- The index of some orders with ids of their own. -/
theorem pairwise_byPrice {rows : List (Nat × LimitOrder)}
    (hpos : ∀ a ∈ rows, a.2.sellPrice.Positive) (hids : (rows.map Prod.fst).Nodup) :
    (rows.insertionSort fun a b => byPrice a b).Pairwise fun a b => byPriceLess a b = true := by
  have hperm := List.perm_insertionSort (fun a b => byPrice a b) rows
  have hmap : (rows.insertionSort fun a b => byPrice a b).map orderRank =
      (rows.map orderRank).insertionSort (· ≤ ·) :=
    List.map_insertionSort _ _ _ _ fun a ha b hb => byPrice_iff (hpos a ha) (hpos b hb)
  have hle : (rows.insertionSort fun a b => byPrice a b).Pairwise fun a b =>
      orderRank a ≤ orderRank b := by
    rw [← List.pairwise_map, hmap]
    exact List.pairwise_insertionSort _ _
  have hne : (rows.insertionSort fun a b => byPrice a b).Pairwise fun a b => a.1 ≠ b.1 :=
    List.pairwise_map.mp ((hperm.map Prod.fst).nodup_iff.mpr hids)
  refine (hle.and hne).imp_of_mem fun ha hb hab => ?_
  rw [byPriceLess_iff (hpos _ (hperm.mem_iff.mp ha)) (hpos _ (hperm.mem_iff.mp hb))]
  refine hab.1.lt_of_ne fun heq => hab.2 ?_
  exact (Prod.mk.inj (toLex.injective heq)).2

/-- Some of the orders sorted are the sorted orders without the others. -/
theorem sort_filter {rows : List (Nat × LimitOrder)}
    (hpos : ∀ a ∈ rows, a.2.sellPrice.Positive) (hids : (rows.map Prod.fst).Nodup)
    (keep : Nat × LimitOrder → Bool) :
    ((rows.filter keep).insertionSort fun a b => byPrice a b) =
      (rows.insertionSort fun a b => byPrice a b).filter keep := by
  have hfilter : (rows.filter keep).Sublist rows := List.filter_sublist
  have hsorted := pairwise_byPrice (fun a ha => hpos a (hfilter.subset ha))
    (hids.sublist (hfilter.map Prod.fst))
  have hperm := (List.perm_insertionSort (fun a b => byPrice a b) (rows.filter keep)).trans
    ((List.perm_insertionSort (fun a b => byPrice a b) rows).symm.filter keep)
  refine hperm.eq_of_pairwise (fun a b ha hb hab hba => ?_) hsorted
    ((pairwise_byPrice hpos hids).filter keep)
  have ha' := hpos a (hfilter.subset ((List.mem_insertionSort _).mp ha))
  have hb' := hpos b ((List.mem_insertionSort _).mp (List.mem_of_mem_filter hb))
  rw [byPriceLess_iff ha' hb'] at hab
  rw [byPriceLess_iff hb' ha'] at hba
  exact absurd hab hba.not_gt

namespace PriceIndex

def ofRows (rows : List (Nat × LimitOrder)) (hpos : ∀ a ∈ rows, a.2.sellPrice.Positive)
    (hids : (rows.map Prod.fst).Nodup) : PriceIndex where
  rows := rows.insertionSort fun a b => byPrice a b
  positive a ha := hpos a ((List.mem_insertionSort _).mp ha)
  sorted := pairwise_byPrice hpos hids

end PriceIndex

theorem rows_ids_nodup (s : Store chainSchema) :
    ((s.rows Kind.limitOrder).map Prod.fst).Nodup :=
  List.pairwise_map.mpr ((s.table Kind.limitOrder).map.sorted.imp fun h => Nat.ne_of_lt h)

variable {n : Nat}

/-- **What the market reads is the range of the index.** -/
theorem ordersBetween_eq_range {d : Database chainSchema} {best worst : Price}
    (hpos : ∀ a ∈ d.store.rows Kind.limitOrder, a.2.sellPrice.Positive) (hb : best.Positive)
    (hw : worst.Positive) (h : worst.ble best = true) :
    (ordersBetween best worst : Act n (List (Nat × LimitOrder))).run d =
      .ok ((PriceIndex.ofRows _ hpos (rows_ids_nodup d.store)).range best worst) d := by
  unfold ordersBetween
  rw [Action.read_ok, PriceIndex.range_eq_between hw hb h]
  exact congrArg (fun l => Outcome.ok l d) (sort_filter hpos (rows_ids_nodup d.store) _)

/-! ## 3. The order as a whole -/

/-- **Price comparison is rational comparison.** For positive 64-bit amounts the six operators are
    one total preorder; within a pair of assets it is the order of the quotients, computed without
    a wrap and turned round by `~`; `==` is an equivalence that scaling respects. The order of
    `by_price` is then a strict weak order, and its range from `lower_bound( p.max() )` up to
    `upper_bound( p )` holds the orders of the pair between `p` and `p.max()` and no others. -/
theorem price_order_spec {p q r : Price} (hp : p.Positive) (hq : q.Positive) (hr : r.Positive) :
    (p.ble p = true ∧ (p.ble q = true ∨ q.ble p = true) ∧
      (p.ble q = true → q.ble r = true → p.ble r = true)) ∧
    (p.blt q = !q.ble p ∧ p.bgt q = q.blt p ∧ p.bge q = q.ble p ∧ p.bne q = !p.beq q ∧
      p.beq q = (p.ble q && q.ble p)) ∧
    (Price.SamePair p q →
      (Price.mul128 q.quote.amount p.base.amount : Int) = q.quote.amount * p.base.amount ∧
      (p.ble q = true ↔ p.ratio ≤ q.ratio) ∧ (p.blt q = true ↔ p.ratio < q.ratio) ∧
      (p.beq q = true ↔ p.ratio = q.ratio) ∧ (p.blt q = true ↔ q.invert.blt p.invert = true)) ∧
    (p.beq p = true ∧ p.beq q = q.beq p ∧
      (p.beq q = true → q.beq r = true → p.beq r = true) ∧
      ∀ k, 0 < k → (p.scaled k).Positive → (p.scaled k).beq q = p.beq q) ∧
    (∀ i j k : LimitOrder, ∀ x y z : Nat,
      i.sellPrice = p → j.sellPrice = q → k.sellPrice = r →
      byPriceLess (x, i) (x, i) = false ∧
      (byPriceLess (x, i) (y, j) = true → byPriceLess (y, j) (z, k) = true →
        byPriceLess (x, i) (z, k) = true) ∧
      (byPriceLess (x, i) (z, k) = true →
        byPriceLess (x, i) (y, j) = true ∨ byPriceLess (y, j) (z, k) = true)) ∧
    ∀ (index : PriceIndex) (m : Price), Price.maxOf p.base.assetId p.quote.assetId = .ok m →
      p.ble m = true → index.lowerBound m ≤ index.upperBound p ∧
        index.range m p = index.rows.filter fun a =>
          Price.SamePair p a.2.sellPrice ∧ p.ble a.2.sellPrice = true ∧
            a.2.sellPrice.ble m = true := by
  refine ⟨⟨?_, ?_, ?_⟩, ⟨?_, ?_, ?_, rfl, ?_⟩, fun hpair => ⟨?_, ?_, ?_, ?_, ?_⟩,
    ⟨?_, ?_, ?_, fun k hk hpos => ?_⟩, ?_, fun index m hm hle => ⟨?_, ?_⟩⟩
  · exact (hp.ble_iff hp).mpr le_rfl
  · rw [hp.ble_iff hq, hq.ble_iff hp]
    exact le_total _ _
  · rw [hp.ble_iff hq, hq.ble_iff hr, hp.ble_iff hr]
    exact le_trans
  · rw [Bool.eq_iff_iff, Bool.not_eq_true', ← Bool.not_eq_true, hp.blt_iff hq, hq.ble_iff hp,
      not_le]
  · rw [Bool.eq_iff_iff, hp.bgt_iff hq, hq.blt_iff hp]
  · rw [Bool.eq_iff_iff, hp.bge_iff hq, hq.ble_iff hp]
  · rw [Bool.eq_iff_iff, Bool.and_eq_true, hp.beq_iff hq, hp.ble_iff hq, hq.ble_iff hp,
      le_antisymm_iff]
  · rw [Price.mul128_of_nonneg hq.quote.1.le hq.quote.2 hp.base.1.le hp.base.2,
      Int.toNat_of_nonneg (mul_nonneg hq.quote.1.le hp.base.1.le)]
  · rw [hp.ble_iff hq, (Price.rank_of_samePair hpair).2.1]
  · rw [hp.blt_iff hq, (Price.rank_of_samePair hpair).1]
  · rw [hp.beq_iff hq, (Price.rank_of_samePair hpair).2.2]
  · rw [hp.blt_iff hq, hq.invert.blt_iff hp.invert, (Price.rank_of_samePair hpair).1,
      (Price.rank_of_samePair ⟨hpair.2.symm, hpair.1.symm⟩).1, Price.ratio_invert,
      Price.ratio_invert, inv_lt_inv₀ hq.ratio_pos hp.ratio_pos]
  · exact (hp.beq_iff hp).mpr rfl
  · rw [Bool.eq_iff_iff, hp.beq_iff hq, hq.beq_iff hp, eq_comm]
  · rw [hp.beq_iff hq, hq.beq_iff hr, hp.beq_iff hr]
    exact Eq.trans
  · rw [Bool.eq_iff_iff, hpos.beq_iff hq, hp.beq_iff hq, Price.rank_scaled hk]
  · rintro i j k x y z rfl rfl rfl
    rw [← Bool.not_eq_true, byPriceLess_iff (a := (x, i)) (b := (x, i)) hp hp,
      byPriceLess_iff (a := (x, i)) (b := (y, j)) hp hq,
      byPriceLess_iff (a := (y, j)) (b := (z, k)) hq hr,
      byPriceLess_iff (a := (x, i)) (b := (z, k)) hp hr]
    refine ⟨lt_irrefl _, lt_trans, fun h => ?_⟩
    exact (lt_or_ge (orderRank (x, i)) (orderRank (y, j))).imp_right fun hge => hge.trans_lt h
  · exact PriceIndex.lowerBound_le hp (Price.maxOf_positive hm) hle
  · exact PriceIndex.range_eq hp hm hle

/-- Of the prices 1, 2 and 3 for 2. -/
theorem price_order_spec_three :
    (⟨Asset.muse 1, Asset.mbd 2⟩ : Price).ble ⟨Asset.muse 3, Asset.mbd 2⟩ = true := by
  have htwo : Ample 2 := ⟨by decide, by decide⟩
  have hpos : ∀ x : Int, Ample x → (⟨Asset.muse x, Asset.mbd 2⟩ : Price).Positive :=
    fun x hx => ⟨hx, htwo⟩
  have hspec := price_order_spec (hpos 1 ⟨by decide, by decide⟩) (hpos 2 ⟨by decide, by decide⟩)
    (hpos 3 ⟨by decide, by decide⟩)
  exact hspec.1.2.2 (by decide) (by decide)

end MuseChain
