/-
  File:      MuseChain/Safety/AmountTexts.lean
  Subject:   Which amounts survive their text form, and on which numerals the two parsers agree.

  `fromText_numeral`, `shareFromText_numeral` and `amountFromText_numeral` say what each parser makes
  of a sign, digits, a dot and digits. The first two add the fraction, also behind a minus; the
  second scales it only behind the sixth digit (`scaleFraction_eq`). An amount below zero loses a
  place of its fraction when it is printed (`fractionText_neg`). So the round trips hold for the
  amounts without a negative remainder, and the parsers agree on the numerals whose fraction
  `from_variant` happens to scale right.
-/
import MuseChain.Protocol.AmountText
import MuseChain.Safety.AccountNames

namespace MuseChain

/-! ## 1. Places in a text -/

theorem find_of_not_mem {s : Text} {c : Char} (h : c ∉ s) : find s c 0 = npos := by
  have hnone : (s.findIdx? fun x => x == c) = none := by
    rw [List.findIdx?_eq_none_iff]
    intro x hx
    have hne : x ≠ c := by
      rintro rfl
      exact h hx
    simp [hne]
  unfold find
  rw [List.drop_zero, hnone]

theorem find_append {w u v : Text} {c : Char} (h : c ∉ u) :
    find (w ++ (u ++ c :: v)) c w.length = w.length + u.length := by
  have hsome : ((u ++ c :: v).findIdx? fun x => x == c) = some u.length := by
    rw [List.findIdx?_append]
    have hnone : (u.findIdx? fun x => x == c) = none := by
      rw [List.findIdx?_eq_none_iff]
      intro x hx
      have hne : x ≠ c := by
        rintro rfl
        exact h hx
      simp [hne]
    rw [hnone]
    simp [List.findIdx?_cons]
  unfold find
  rw [List.drop_left, hsome]

theorem find_head {u v : Text} {c : Char} (h : c ∉ u) : find (u ++ c :: v) c 0 = u.length := by
  have heq := find_append (w := []) (v := v) h
  simpa using heq

theorem substr_append (u v : Text) (count : Nat) :
    substr (u ++ v) u.length count = .ok (v.take count) := by
  unfold substr
  rw [if_neg (by simp), List.drop_left]

theorem substr_zero (s : Text) (count : Nat) : substr s 0 count = .ok (s.take count) :=
  substr_append [] s count

/-! ## 2. Machine integers -/

theorem uint64OfInt_mod (x : Int) : ∃ k : Int, (uint64OfInt x : Int) = x + k * 2 ^ 64 := by
  refine ⟨-(x / 2 ^ 64), ?_⟩
  unfold uint64OfInt
  have hmod : x % 2 ^ 64 + 2 ^ 64 * (x / 2 ^ 64) = x := Int.emod_add_mul_ediv x (2 ^ 64)
  have hnonneg : 0 ≤ x % 2 ^ 64 := Int.emod_nonneg x (by decide)
  rw [Int.toNat_of_nonneg hnonneg]
  omega

/-- A `uint64_t` is read as the `int64_t` it is congruent to. -/
theorem int64OfNat_spec (n : Nat) : int64Min ≤ int64OfNat n ∧ int64OfNat n ≤ int64Max ∧
    ∃ k : Int, int64OfNat n = n + k * 2 ^ 64 := by
  have hmod : (n : Int) = (n % 2 ^ 64 : Nat) + 2 ^ 64 * (n / 2 ^ 64 : Nat) := by
    have h := Nat.mod_add_div n (2 ^ 64)
    exact_mod_cast h.symm
  have hlt : n % 2 ^ 64 < 2 ^ 64 := Nat.mod_lt n (by decide)
  unfold int64OfNat int64Min int64Max
  split
  · refine ⟨by omega, by omega, -(n / 2 ^ 64 : Nat), ?_⟩
    omega
  · refine ⟨by omega, by omega, -(n / 2 ^ 64 : Nat) - 1, ?_⟩
    omega

theorem mulInt64_of_fits {x y : Int} (hmin : int64Min ≤ x * y) (hmax : x * y ≤ int64Max) :
    mulInt64 x y = x * y := by
  obtain ⟨k, hk⟩ := uint64OfInt_mod (x * y)
  obtain ⟨h1, h2, j, hj⟩ := int64OfNat_spec (uint64OfInt (x * y))
  unfold mulInt64
  unfold int64Min at hmin h1
  unfold int64Max at hmax h2
  omega

/-- The sum is a number that fits exactly when they are congruent. -/
theorem addUint64_eq_iff {amount v : Int} {fract : Nat} (hmin : int64Min ≤ v)
    (hmax : v ≤ int64Max) : addUint64 amount fract = v ↔ (2 ^ 64 : Int) ∣ amount + fract - v := by
  obtain ⟨k, hk⟩ := uint64OfInt_mod amount
  obtain ⟨h1, h2, j, hj⟩ := int64OfNat_spec (uint64OfInt amount + fract)
  have hsum : addUint64 amount fract = amount + fract + (k + j) * 2 ^ 64 := by
    unfold addUint64
    push_cast at hj
    omega
  unfold int64Min at hmin h1
  unfold int64Max at hmax h2
  constructor
  · intro h
    omega
  · rintro ⟨d, hd⟩
    have h1' : -9223372036854775808 ≤ addUint64 amount fract := h1
    have h2' : addUint64 amount fract ≤ 9223372036854775807 := h2
    omega

/-- Two fractions give one sum only if they are the same. -/
theorem addUint64_eq_add_iff {amount : Int} {fract f : Nat} (hmin : int64Min ≤ amount + f)
    (hmax : amount + f ≤ int64Max) (hfract : fract < 2 ^ 64) (hf : f < 2 ^ 64) :
    addUint64 amount fract = amount + f ↔ fract = f := by
  rw [addUint64_eq_iff hmin hmax]
  clear hmin hmax
  constructor
  · intro hdvd
    omega
  · rintro rfl
    rw [Int.sub_self]
    exact Int.dvd_zero _

/-- A fraction is added, never taken off. -/
theorem addUint64_eq_sub_iff {amount : Int} {f : Nat} (hmin : int64Min ≤ amount - f)
    (hmax : amount - f ≤ int64Max) (hf : f < 2 ^ 63) :
    addUint64 amount f = amount - f ↔ f = 0 := by
  rw [addUint64_eq_iff hmin hmax]
  clear hmin hmax
  constructor
  · intro hdvd
    omega
  · rintro rfl
    simp

theorem addUint64_of_fits {amount : Int} {fract : Nat} (hmin : int64Min ≤ amount + fract)
    (hmax : amount + fract ≤ int64Max) : addUint64 amount fract = amount + fract := by
  rw [addUint64_eq_iff hmin hmax, Int.sub_self]
  exact Int.dvd_zero _

/-! ## 3. Loops -/

theorem padTo_eq (n : Nat) (s : Text) : padTo n s = s ++ List.replicate (n - s.length) '0' := by
  fun_induction padTo n s with
  | case1 s hlt ih =>
    rw [ih]
    have hlen : n - s.length = n - (s ++ ['0']).length + 1 := by
      rw [List.length_append, List.length_singleton]
      omega
    rw [hlen, List.replicate_succ, List.append_assoc]
    rfl
  | case2 s hge =>
    rw [Nat.sub_eq_zero_of_le (Nat.le_of_not_lt hge)]
    simp

theorem u64_mul_u64 (a b : Nat) : u64 (u64 a * b) = u64 (a * b) := by
  unfold u64
  rw [Nat.mod_mul_mod]

/-- The loop multiplies once for each place from `i` down to 0, whatever the length is. -/
theorem scaleFraction_below {length : Nat} (hlen : length < 2 ^ 64) (i fract : Nat)
    (hi : i < length) : scaleFraction length i fract = u64 (fract * 10 ^ (i + 1)) := by
  have hu : u64 length = length := Nat.mod_eq_of_lt hlen
  induction i generalizing fract with
  | zero =>
    rw [scaleFraction, hu, if_pos hi, scaleFraction, hu]
    have hlast : sub64 0 1 = 2 ^ 64 - 1 := by decide
    rw [hlast, if_neg (by omega), Nat.zero_add, Nat.pow_one]
  | succ i ih =>
    rw [scaleFraction, hu, if_pos hi, sub64_of_le (by omega) (by omega), Nat.add_sub_cancel,
      ih _ (by omega), u64_mul_u64, Nat.mul_assoc, ← Nat.pow_succ']

theorem scaleFraction_eq {length : Nat} (hlen : length < 2 ^ 64) (fract : Nat) :
    scaleFraction length assetPrecision fract =
      if length ≤ 6 then fract else u64 (fract * 10 ^ 7) := by
  split
  · rename_i hle
    rw [scaleFraction, if_neg]
    unfold u64 assetPrecision
    omega
  · rename_i hgt
    exact scaleFraction_below hlen 6 fract (by omega)

theorem powerLoop_eq (n k : Nat) (h : n + k < 19) :
    powerLoop n ((10 ^ k : Nat) : Int) = .ok ((10 ^ (n + k) : Nat) : Int) := by
  induction n generalizing k with
  | zero => rw [powerLoop, Nat.zero_add]
  | succ n ih =>
    have hle : 10 ^ (k + 1) ≤ 10 ^ 18 := Nat.pow_le_pow_right (by decide) (by omega)
    have hstep : safe ((10 ^ k : Nat) * 10) = .ok ((10 ^ (k + 1) : Nat) : Int) := by
      rw [safe_ok]
      unfold int64Min int64Max
      rw [Nat.pow_succ] at hle ⊢
      generalize 10 ^ k = d at hle ⊢
      push_cast
      omega
    rw [powerLoop, hstep]
    change powerLoop n ((10 ^ (k + 1) : Nat) : Int) = _
    rw [ih (k + 1) (by omega)]
    congr 3
    omega

theorem powerLoop_one {p : Nat} (h : p < 19) : powerLoop p 1 = .ok ((10 ^ p : Nat) : Int) :=
  powerLoop_eq p 0 h

theorem scaledPrecision_eq {p : Nat} (h : p < 19) :
    scaledPrecision p = .ok ((10 ^ p : Nat) : Int) := by
  unfold scaledPrecision
  rw [if_pos h, powerLoop_one h]

/-! ## 4. Numerals -/

/-- A sign, the integer digits, a dot and the fraction digits. -/
def numeral (neg : Bool) (ip fp : Text) : Text := minus neg ++ ip ++ '.' :: fp

/-- The first six fraction digits, with zeros behind them when there are fewer. -/
def millionths (fp : Text) : Nat := decimal (fp.take 6) * 10 ^ (6 - fp.length)

theorem length_numeral (neg : Bool) (ip fp : Text) :
    (numeral neg ip fp).length = (minus neg ++ ip).length + 1 + fp.length := by
  unfold numeral
  rw [List.length_append, List.length_cons]
  omega

/-- How many digits stand behind the dot. -/
theorem count_numeral {neg : Bool} {ip fp : Text} (h : (numeral neg ip fp).length < npos) :
    sub64 (sub64 (numeral neg ip fp).length (minus neg ++ ip).length) 1 = fp.length := by
  have hnpos : npos < 2 ^ 64 := by decide
  have hfirst : sub64 (numeral neg ip fp).length (minus neg ++ ip).length = 1 + fp.length := by
    rw [length_numeral] at h ⊢
    rw [sub64_of_le (by omega) (by omega)]
    omega
  rw [hfirst, sub64_of_le (by omega) (by rw [length_numeral] at h; omega)]
  omega

theorem isDigit_eq (c : Char) : isDigit c = c.isDigit := by
  rfl

theorem isSpace_of_isDigit {c : Char} (h : c.isDigit = true) : isSpace c = false := by
  have hle : 48 ≤ c.toNat := by
    have hboth : 48 ≤ c.toNat ∧ c.toNat ≤ 57 := by
      simpa [Char.isDigit, UInt32.le_iff_toNat_le] using h
    exact hboth.1
  unfold isSpace
  rw [Bool.or_eq_false_iff, decide_eq_false_iff_not, Bool.and_eq_false_iff]
  constructor
  · rintro rfl
    exact absurd hle (by decide)
  · right
    rw [decide_eq_false_iff_not]
    intro hr
    have hr' : c.toNat ≤ 13 := hr
    omega

theorem millionths_lt {fp : Text} (h : AllDigits fp) : millionths fp < 10 ^ 6 := by
  have hlt : decimal (fp.take 6) < 10 ^ (fp.take 6).length := decimal_lt (h.take 6)
  have hmul := Nat.mul_lt_mul_of_pos_right hlt (Nat.pow_pos (n := 6 - fp.length) (show 0 < 10 by decide))
  rw [← Nat.pow_add, List.length_take] at hmul
  have hsix : min 6 fp.length + (6 - fp.length) = 6 := by omega
  rwa [hsix] at hmul

theorem blank_not_mem {w : Text} (h : AllDigits w) : ' ' ∉ w := h.not_mem rfl

theorem not_mem_minus {c : Char} (hc : c ≠ '-') (neg : Bool) : c ∉ minus neg := by
  cases neg with
  | false => exact List.not_mem_nil
  | true => simpa [minus] using hc

theorem not_mem_signed {c : Char} (hc : c ≠ '-') (hdigit : c.isDigit = false) (neg : Bool)
    {w : Text} (h : AllDigits w) : c ∉ minus neg ++ w := by
  rw [List.mem_append]
  rintro (hmem | hmem)
  · exact not_mem_minus hc neg hmem
  · exact h.not_mem hdigit hmem

/-- A text that begins with a sign or a digit does not begin with a blank. -/
theorem head_not_space (neg : Bool) {w v : Text} (hne : w ≠ []) (h : AllDigits w) :
    ∀ c ∈ (minus neg ++ w ++ v).head?, isSpace c = false := by
  cases neg with
  | true =>
    intro c hc
    obtain rfl : '-' = c := Option.some.inj hc
    rfl
  | false =>
    cases w with
    | nil => exact absurd rfl hne
    | cons d w =>
      intro c hc
      obtain rfl : d = c := Option.some.inj hc
      exact isSpace_of_isDigit (h d List.mem_cons_self)

theorem last_not_space {u w : Text} (hne : w ≠ []) (h : ∀ c ∈ w, isSpace c = false) :
    ∀ c ∈ (u ++ w).getLast?, isSpace c = false := by
  intro c hc
  rw [List.getLast?_append_of_ne_nil u hne] at hc
  exact h c (List.mem_of_getLast? hc)

theorem fraction_not_space {fp : Text} (h : AllDigits fp) :
    ∀ c ∈ '.' :: fp, isSpace c = false := by
  intro c hc
  rcases List.mem_cons.mp hc with rfl | hc
  · rfl
  · exact isSpace_of_isDigit (h c hc)

/-! ## 5. The parsers on a numeral -/

def idText (id : Nat) : Text := '2' :: '.' :: '2' :: '8' :: '.' :: Nat.toDigits 10 id

/-- An integer part that is worth an amount fits by itself. -/
theorem units_fit {z : Int} (hmin : int64Min ≤ z * staticPrecision)
    (hmax : z * staticPrecision ≤ int64Max) : int64Min ≤ z ∧ z ≤ int64Max := by
  unfold int64Min staticPrecision at *
  unfold int64Max at *
  omega

section Parsers

variable [FcText] (doc : FcText.Documented)

include doc

theorem assetIdText_eq {id : Nat} (h : id ≤ maxInstanceId) : assetIdText id = .ok (idText id) := by
  unfold assetIdText
  rw [if_pos h, doc.toString_eq, doc.toString_eq, doc.toString_eq]
  rfl

theorem toInt64_padded {fp : Text} (h : AllDigits fp) :
    FcText.toInt64 (padTo 6 (fp.take 6)) = .ok (millionths fp : Int) := by
  have hzeros : 6 - (fp.take 6).length = 6 - fp.length := by
    rw [List.length_take]
    omega
  have hval : decimal (padTo 6 (fp.take 6)) = millionths fp := by
    rw [padTo_eq, decimal_pad, hzeros]
    rfl
  have hdigits : AllDigits (padTo 6 (fp.take 6)) := by
    rw [padTo_eq]
    exact (h.take 6).append (allDigits_zeros _)
  have hne : padTo 6 (fp.take 6) ≠ [] := by
    rw [← List.length_pos_iff, padTo_eq, List.length_append, List.length_replicate]
    omega
  have hlt := millionths_lt h
  have hfit := doc.toInt64_fits false _ hne hdigits
  rw [hval] at hfit
  have hmin : int64Min ≤ signed false (millionths fp) := by
    change -9223372036854775808 ≤ (millionths fp : Int)
    omega
  have hmax : signed false (millionths fp) ≤ int64Max := by
    change (millionths fp : Int) ≤ 9223372036854775807
    omega
  exact hfit hmin hmax

/-- The id behind the blank. -/
theorem parseId_idText {u : Text} {id : Nat} (hid : id ≤ maxInstanceId)
    (hlen : (u ++ ' ' :: idText id).length < npos) :
    Asset.parseId (u ++ ' ' :: idText id) u.length = .ok id := by
  have hnpos : npos < 2 ^ 64 := by decide
  have hsize : u.length + 1 + (idText id).length < npos := by
    simpa [Nat.add_assoc, Nat.add_comm 1] using hlen
  have htake : (idText id).take npos = idText id := List.take_of_length_le (by omega)
  have hsub : substr (u ++ ' ' :: idText id) (u64 (u.length + 1)) npos = .ok (idText id) := by
    have happ := substr_append (u ++ [' ']) (idText id) npos
    rw [htake, List.append_assoc, List.length_append, List.length_singleton] at happ
    rw [u64_of_lt (by omega)]
    exact happ
  have hfirst : find (idText id) '.' 0 = 1 := find_head (u := ['2']) (by decide)
  have hsecond : find (idText id) '.' (u64 (1 + 1)) = 4 :=
    find_append (w := ['2', '.']) (u := ['2', '8']) (by decide)
  have hinstance : substr (idText id) (u64 (4 + 1)) npos = .ok (Nat.toDigits 10 id) := by
    have happ := substr_append ['2', '.', '2', '8', '.'] (Nat.toDigits 10 id) npos
    rw [List.take_of_length_le] at happ
    · exact happ
    · have hcons : (idText id).length = (Nat.toDigits 10 id).length + 5 := rfl
      omega
  have hbound : decimal (Nat.toDigits 10 id) < 2 ^ 64 := by
    rw [decimal_toDigits]
    unfold maxInstanceId at hid
    omega
  have hnumber := doc.toUint64_digits _ Nat.toDigits_ne_nil (allDigits_toDigits id) hbound
  rw [decimal_toDigits] at hnumber
  have hne : ¬ (1 = 0 ∨ 1 = npos) := by decide
  refine except_bind_ok.mpr ⟨idText id, hsub, ?_⟩
  dsimp only
  rw [hfirst, hsecond, if_neg (by decide), if_neg hne]
  refine except_bind_ok.mpr ⟨Nat.toDigits 10 id, hinstance, ?_⟩
  refine except_bind_ok.mpr ⟨id, hnumber, ?_⟩
  rw [if_pos hid]
  rfl

/-- The digits in front of the dot, times 10^6. -/
theorem toInt64_units (neg : Bool) {ip : Text} (hip : AllDigits ip) (hne : ip ≠ [])
    (hmin : int64Min ≤ signed neg (decimal ip) * staticPrecision)
    (hmax : signed neg (decimal ip) * staticPrecision ≤ int64Max) :
    FcText.toInt64 (minus neg ++ ip) = .ok (signed neg (decimal ip)) := by
  obtain ⟨h1, h2⟩ := units_fit hmin hmax
  exact doc.toInt64_fits neg ip hne hip h1 h2

/-- The digits behind the dot up to the blank, at most six of them. -/
theorem parseAmount_numeral (neg : Bool) {ip fp tail : Text} (hip : AllDigits ip) (hne : ip ≠ [])
    (hfp : AllDigits fp) (hlen : (numeral neg ip fp).length < npos)
    (hmin : int64Min ≤ signed neg (decimal ip) * staticPrecision)
    (hmax : signed neg (decimal ip) * staticPrecision ≤ int64Max) :
    Asset.parseAmount (numeral neg ip fp ++ ' ' :: tail) (minus neg ++ ip).length
      (numeral neg ip fp).length =
        .ok (addUint64 (signed neg (decimal ip) * staticPrecision) (millionths fp)) := by
  have hnpos : npos < 2 ^ 64 := by decide
  have hsize := length_numeral neg ip fp
  have hsplit : numeral neg ip fp ++ ' ' :: tail =
      (minus neg ++ ip) ++ '.' :: (fp ++ ' ' :: tail) := by
    unfold numeral
    rw [List.append_assoc]
    rfl
  have hint : substr (numeral neg ip fp ++ ' ' :: tail) 0 (minus neg ++ ip).length =
      .ok (minus neg ++ ip) := by
    rw [substr_zero, hsplit, List.take_left]
  have hfract : substr (numeral neg ip fp ++ ' ' :: tail) (u64 ((minus neg ++ ip).length + 1))
      (min fp.length assetPrecision) = .ok (fp.take 6) := by
    have happ := substr_append (minus neg ++ ip ++ ['.']) (fp ++ ' ' :: tail) (min fp.length 6)
    rw [List.take_append_of_le_length (Nat.min_le_left _ _), List.append_assoc (minus neg ++ ip),
      @List.length_append _ (minus neg ++ ip) ['.'], List.length_singleton] at happ
    rw [hsplit, u64, Nat.mod_eq_of_lt (by omega)]
    refine happ.trans (congrArg Except.ok ?_)
    rw [List.take_eq_take_iff]
    omega
  unfold Asset.parseAmount
  rw [if_neg (by omega)]
  refine except_bind_ok.mpr ⟨_, hint, ?_⟩
  refine except_bind_ok.mpr ⟨_, toInt64_units doc neg hip hne hmin hmax, ?_⟩
  rw [count_numeral hlen]
  refine except_bind_ok.mpr ⟨_, hfract, ?_⟩
  refine except_bind_ok.mpr ⟨_, toInt64_padded doc hfp, ?_⟩
  have hlt := millionths_lt hfp
  rw [mulInt64_of_fits hmin hmax, uint64OfInt_natCast, u64_of_lt (by omega)]
  rfl

/-- `asset::from_string` of a numeral, a blank and an id. -/
theorem fromText_numeral (neg : Bool) {ip fp : Text} {id : Nat} (hip : AllDigits ip)
    (hne : ip ≠ []) (hfp : AllDigits fp) (hid : id ≤ maxInstanceId)
    (hlen : (numeral neg ip fp ++ ' ' :: idText id).length < npos)
    (hmin : int64Min ≤ signed neg (decimal ip) * staticPrecision)
    (hmax : signed neg (decimal ip) * staticPrecision ≤ int64Max) :
    Asset.fromText (numeral neg ip fp ++ ' ' :: idText id) =
      .ok ⟨addUint64 (signed neg (decimal ip) * staticPrecision) (millionths fp), id⟩ := by
  have hlen' : (numeral neg ip fp).length < npos := by
    rw [List.length_append] at hlen
    omega
  have htrim : FcText.trim (numeral neg ip fp ++ ' ' :: idText id) =
      numeral neg ip fp ++ ' ' :: idText id := by
    apply doc.trim_eq
    · unfold numeral
      rw [List.append_assoc]
      exact head_not_space neg hne hip
    · have hid_text : numeral neg ip fp ++ ' ' :: idText id =
          (numeral neg ip fp ++ [' ', '2', '.', '2', '8', '.']) ++ Nat.toDigits 10 id := by
        rw [List.append_assoc]
        rfl
      rw [hid_text]
      exact last_not_space Nat.toDigits_ne_nil
        fun c hc => isSpace_of_isDigit (allDigits_toDigits id c hc)
  have hdot : find (numeral neg ip fp ++ ' ' :: idText id) '.' 0 = (minus neg ++ ip).length := by
    unfold numeral
    rw [List.append_assoc]
    exact find_head (not_mem_signed (by decide) rfl neg hip)
  have hblank : ' ' ∉ numeral neg ip fp := by
    unfold numeral
    rw [List.mem_append]
    rintro (hmem | hmem)
    · exact not_mem_signed (by decide) rfl neg hip hmem
    · rcases List.mem_cons.mp hmem with heq | hmem
      · exact absurd heq (by decide)
      · exact blank_not_mem hfp hmem
  have hspace : find (numeral neg ip fp ++ ' ' :: idText id) ' ' 0 =
      (numeral neg ip fp).length := find_head hblank
  unfold Asset.fromText
  dsimp only
  rw [htrim, hdot, hspace, if_neg (by omega)]
  refine except_bind_ok.mpr ⟨_, parseAmount_numeral doc neg hip hne hfp hlen' hmin hmax, ?_⟩
  exact except_bind_ok.mpr ⟨id, parseId_idText doc hid hlen, rfl⟩

/-- What `from_variant` makes of the digits behind the dot. -/
def scaledFraction (fp : Text) : Nat :=
  if fp.length ≤ 6 then decimal fp else u64 (decimal fp * 10 ^ 7)

/-- `from_variant` of a numeral: it throws at no digits behind the dot and at too many. -/
theorem shareFromText_numeral (neg : Bool) {ip fp : Text} (hip : AllDigits ip)
    (hne : ip ≠ []) (hfp : AllDigits fp) (hlen : (numeral neg ip fp).length < npos)
    (hmin : int64Min ≤ signed neg (decimal ip) * staticPrecision)
    (hmax : signed neg (decimal ip) * staticPrecision ≤ int64Max) {v : Int} :
    shareFromText (numeral neg ip fp) = .ok v ↔
      fp ≠ [] ∧ (decimal fp : Int) ≤ int64Max ∧
        v = addUint64 (signed neg (decimal ip) * staticPrecision) (scaledFraction fp) := by
  have hnpos : npos < 2 ^ 64 := by decide
  have hsize := length_numeral neg ip fp
  have htrim : FcText.trim (numeral neg ip fp) = numeral neg ip fp := by
    apply doc.trim_eq
    · exact head_not_space neg hne hip
    · exact last_not_space (List.cons_ne_nil _ _) (fraction_not_space hfp)
  have hdot : find (numeral neg ip fp) '.' 0 = (minus neg ++ ip).length :=
    find_head (not_mem_signed (by decide) rfl neg hip)
  have hint : substr (numeral neg ip fp) 0 (minus neg ++ ip).length = .ok (minus neg ++ ip) := by
    unfold numeral
    rw [substr_zero, List.take_left]
  have hfract : substr (numeral neg ip fp) (u64 ((minus neg ++ ip).length + 1))
      (max fp.length assetPrecision) = .ok fp := by
    have happ := substr_append (minus neg ++ ip ++ ['.']) fp (max fp.length 6)
    rw [List.take_of_length_le (Nat.le_max_left _ _), List.append_assoc (minus neg ++ ip),
      @List.length_append _ (minus neg ++ ip) ['.'], List.length_singleton] at happ
    rw [u64_of_lt (by omega)]
    exact happ
  have hunits := toInt64_units doc neg hip hne hmin hmax
  have hstart : shareFromText (numeral neg ip fp) = (do
      let fractAmount ← FcText.toInt64 fp
      pure (addUint64 (signed neg (decimal ip) * staticPrecision)
        (scaleFraction fp.length assetPrecision (uint64OfInt fractAmount))) : Except Exn Int) := by
    unfold shareFromText
    dsimp only
    rw [htrim, hdot, if_pos (by omega), hint]
    dsimp only [bind, Except.bind]
    rw [hunits]
    dsimp only
    rw [count_numeral hlen, hfract, mulInt64_of_fits hmin hmax]
  rw [hstart, except_bind_ok]
  constructor
  · rintro ⟨fract, hread, hv⟩
    have hnil : fp ≠ [] := by
      rintro rfl
      obtain ⟨e, he⟩ := doc.toInt64_nil
      rw [he] at hread
      cases hread
    have hsmall : (decimal fp : Int) ≤ int64Max := by
      by_contra hlarge
      obtain ⟨e, he⟩ := doc.toInt64_large fp hfp (Int.not_le.mp hlarge)
      rw [he] at hread
      cases hread
    refine ⟨hnil, hsmall, ?_⟩
    have hvalue := doc.toInt64_fits false fp hnil hfp
      ((by decide : int64Min ≤ 0).trans (Int.natCast_nonneg _)) hsmall
    obtain rfl : (decimal fp : Int) = fract := Except.ok.inj (hvalue.symm.trans hread)
    have hbound : decimal fp < 2 ^ 64 := by
      unfold int64Max at hsmall
      omega
    rw [uint64OfInt_natCast, u64_of_lt hbound, scaleFraction_eq (by omega)] at hv
    exact (Except.ok.inj hv).symm
  · rintro ⟨hnil, hsmall, rfl⟩
    have hvalue := doc.toInt64_fits false fp hnil hfp
      ((by decide : int64Min ≤ 0).trans (Int.natCast_nonneg _)) hsmall
    have hbound : decimal fp < 2 ^ 64 := by
      unfold int64Max at hsmall
      omega
    refine ⟨(decimal fp : Int), hvalue, ?_⟩
    rw [uint64OfInt_natCast, u64_of_lt hbound, scaleFraction_eq (by omega)]
    rfl

end Parsers

/-! ## 6. The two parsers against each other -/

/-- The value of a numeral in millionths, with the digits behind the sixth dropped. -/
def numeralAmount (neg : Bool) (ip fp : Text) : Int :=
  signed neg (decimal ip * 1000000 + millionths fp)

/-- `from_variant` scales the fraction as it should with six digits, with none but zeros, and where
    its seven multiplications happen to wrap around to the right number. -/
theorem scaledFraction_eq_iff {fp : Text} (h : AllDigits fp) :
    (decimal fp : Int) ≤ int64Max ∧ scaledFraction fp = millionths fp ↔
      fp.length = 6 ∨ decimal fp = 0 ∨
        7 ≤ fp.length ∧ decimal fp < 2 ^ 63 ∧ u64 (decimal fp * 10 ^ 7) = millionths fp := by
  have hfits : (decimal fp : Int) ≤ int64Max ↔ decimal fp < 2 ^ 63 := by
    unfold int64Max
    omega
  rw [hfits]
  unfold scaledFraction
  rcases Nat.lt_or_ge 6 fp.length with hlong | hshort
  · rw [if_neg (by omega)]
    have hzero : decimal fp = 0 → u64 (decimal fp * 10 ^ 7) = millionths fp := by
      intro hzero
      have hsplit := decimal_append (fp.take 6) (fp.drop 6)
      rw [List.take_append_drop, hzero] at hsplit
      have hpos : 0 < 10 ^ (fp.drop 6).length := Nat.pow_pos (by decide)
      have hhead : decimal (fp.take 6) = 0 := by
        by_contra hne
        have hmul := Nat.mul_pos (Nat.pos_of_ne_zero hne) hpos
        omega
      rw [hzero, millionths, hhead, Nat.zero_mul, Nat.zero_mul]
      rfl
    constructor
    · rintro ⟨hsmall, heq⟩
      exact .inr (.inr ⟨hlong, hsmall, heq⟩)
    · rintro (hsix | hnil | ⟨_, hsmall, heq⟩)
      · omega
      · exact ⟨by omega, hzero hnil⟩
      · exact ⟨hsmall, heq⟩
  · have hmill : millionths fp = decimal fp * 10 ^ (6 - fp.length) := by
      rw [millionths, List.take_of_length_le hshort]
    have hlt : decimal fp < 10 ^ 6 :=
      (decimal_lt h).trans_le (Nat.pow_le_pow_right (by decide) hshort)
    rw [if_pos hshort, hmill]
    constructor
    · rintro ⟨_, heq⟩
      rcases Nat.eq_zero_or_pos (decimal fp) with hzero | hpos
      · exact .inr (.inl hzero)
      · left
        by_contra hne
        have hten : 10 ^ 1 ≤ 10 ^ (6 - fp.length) := Nat.pow_le_pow_right (by decide) (by omega)
        have hmul := Nat.mul_le_mul_left (decimal fp) hten
        omega
    · rintro (hsix | hzero | ⟨hlong, _⟩)
      · rw [hsix, Nat.sub_self, Nat.pow_zero, Nat.mul_one]
        exact ⟨by omega, rfl⟩
      · rw [hzero, Nat.zero_mul]
        exact ⟨by omega, rfl⟩
      · omega

theorem scaledFraction_lt {fp : Text} (h : AllDigits fp) : scaledFraction fp < 2 ^ 64 := by
  unfold scaledFraction
  split
  · rename_i hshort
    have hpow : 10 ^ fp.length ≤ 10 ^ 6 := Nat.pow_le_pow_right (by decide) hshort
    exact (decimal_lt h).trans_le (hpow.trans (by decide))
  · exact Nat.mod_lt _ (by decide)

theorem numeralAmount_plus (ip fp : Text) :
    numeralAmount false ip fp = signed false (decimal ip) * staticPrecision + millionths fp := by
  simp [numeralAmount, signed, staticPrecision]

theorem numeralAmount_minus (ip fp : Text) :
    numeralAmount true ip fp = signed true (decimal ip) * staticPrecision - millionths fp := by
  simp only [numeralAmount, signed, staticPrecision, if_true]
  push_cast
  ring

/-- The integer part of a numeral that fits. -/
theorem numeralAmount_units {neg : Bool} {ip fp : Text}
    (hmin : int64Min ≤ numeralAmount neg ip fp) (hmax : numeralAmount neg ip fp ≤ int64Max) :
    int64Min ≤ signed neg (decimal ip) * staticPrecision ∧
      signed neg (decimal ip) * staticPrecision ≤ int64Max := by
  unfold int64Min int64Max at *
  cases neg with
  | false =>
    rw [numeralAmount_plus] at hmin hmax
    unfold signed staticPrecision at *
    simp only [Bool.false_eq_true, if_false] at *
    omega
  | true =>
    rw [numeralAmount_minus] at hmin hmax
    unfold signed staticPrecision at *
    simp only [if_true] at *
    omega

/-- `asset::from_string` adds the fraction also behind a minus. -/
theorem addUint64_millionths_iff {neg : Bool} {ip fp : Text} (hfp : AllDigits fp)
    (hmin : int64Min ≤ numeralAmount neg ip fp) (hmax : numeralAmount neg ip fp ≤ int64Max) :
    addUint64 (signed neg (decimal ip) * staticPrecision) (millionths fp) =
      numeralAmount neg ip fp ↔ neg = false ∨ millionths fp = 0 := by
  have hlt : millionths fp < 2 ^ 63 := (millionths_lt hfp).trans (by decide)
  cases neg with
  | false =>
    rw [numeralAmount_plus] at hmin hmax ⊢
    exact iff_of_true (addUint64_of_fits hmin hmax) (.inl rfl)
  | true =>
    rw [numeralAmount_minus] at hmin hmax ⊢
    rw [addUint64_eq_sub_iff hmin hmax hlt]
    simp

/-- Where the sign does not matter, `from_variant` has to scale the fraction right. -/
theorem addUint64_scaled_iff {neg : Bool} {ip fp : Text} (hfp : AllDigits fp)
    (hmin : int64Min ≤ numeralAmount neg ip fp) (hmax : numeralAmount neg ip fp ≤ int64Max)
    (hsign : neg = false ∨ millionths fp = 0) :
    addUint64 (signed neg (decimal ip) * staticPrecision) (scaledFraction fp) =
      numeralAmount neg ip fp ↔ scaledFraction fp = millionths fp := by
  have hlt : millionths fp < 2 ^ 64 := (millionths_lt hfp).trans (by decide)
  have hplus : numeralAmount neg ip fp =
      signed neg (decimal ip) * staticPrecision + millionths fp := by
    rcases hsign with rfl | hzero
    · exact numeralAmount_plus ip fp
    · cases neg with
      | false => exact numeralAmount_plus ip fp
      | true => rw [numeralAmount_minus, hzero]; simp
  rw [hplus] at hmin hmax ⊢
  exact addUint64_eq_add_iff hmin hmax (scaledFraction_lt hfp) hlt

/-- Both parsers read a numeral that fits as its value exactly when it has no minus or a fraction of
    zeros, and six fraction digits or one of the other fractions that `from_variant` scales right. -/
theorem parsers_agree_iff [FcText] (doc : FcText.Documented) {neg : Bool} {ip fp : Text} {id : Nat}
    (hip : AllDigits ip) (hne : ip ≠ []) (hfp : AllDigits fp) (hnil : fp ≠ [])
    (hid : id ≤ maxInstanceId) (hlen : (numeral neg ip fp ++ ' ' :: idText id).length < npos)
    (hmin : int64Min ≤ numeralAmount neg ip fp) (hmax : numeralAmount neg ip fp ≤ int64Max) :
    shareFromText (numeral neg ip fp) = .ok (numeralAmount neg ip fp) ∧
        Asset.fromText (numeral neg ip fp ++ ' ' :: idText id) =
          .ok ⟨numeralAmount neg ip fp, id⟩ ↔
      (neg = false ∨ millionths fp = 0) ∧
        (fp.length = 6 ∨ decimal fp = 0 ∨
          7 ≤ fp.length ∧ decimal fp < 2 ^ 63 ∧ u64 (decimal fp * 10 ^ 7) = millionths fp) := by
  have hlen' : (numeral neg ip fp).length < npos := by
    rw [List.length_append] at hlen
    omega
  obtain ⟨hbase, hbase'⟩ := numeralAmount_units hmin hmax
  have hasset : (Except.ok ⟨addUint64 (signed neg (decimal ip) * staticPrecision)
      (millionths fp), id⟩ : Except Exn Asset) = .ok ⟨numeralAmount neg ip fp, id⟩ ↔
        neg = false ∨ millionths fp = 0 := by
    rw [← addUint64_millionths_iff hfp hmin hmax]
    simp
  rw [fromText_numeral doc neg hip hne hfp hid hlen hbase hbase',
    shareFromText_numeral doc neg hip hne hfp hlen' hbase hbase', hasset,
    ← scaledFraction_eq_iff hfp]
  constructor
  · rintro ⟨⟨_, hsmall, hshare⟩, hsign⟩
    exact ⟨hsign, hsmall, (addUint64_scaled_iff hfp hmin hmax hsign).mp hshare.symm⟩
  · rintro ⟨hsign, hsmall, hscaled⟩
    exact ⟨⟨hnil, hsmall, ((addUint64_scaled_iff hfp hmin hmax hsign).mpr hscaled).symm⟩, hsign⟩

/-! ## 7. amount_from_string -/

theorem checkChars_digits {w : Text} (h : AllDigits w) (rest : Text) (n d : Bool) :
    checkChars (w ++ rest) n d = checkChars rest n d := by
  induction w with
  | nil => rfl
  | cons c w ih =>
    rw [List.cons_append, checkChars, isDigit_eq, if_pos (h c List.mem_cons_self)]
    exact ih h.tail

theorem checkChars_signed (neg : Bool) {ip : Text} (h : AllDigits ip) (rest : Text) :
    checkChars (minus neg ++ ip ++ rest) false false = checkChars rest neg false := by
  cases neg with
  | false => exact checkChars_digits h rest false false
  | true =>
    have hstart : checkChars (minus true ++ ip ++ rest) false false =
        checkChars (ip ++ rest) true false := rfl
    rw [hstart, checkChars_digits h]

theorem checkChars_whole (neg : Bool) {ip : Text} (h : AllDigits ip) :
    checkChars (minus neg ++ ip) false false = .ok (neg, false) := by
  have heq := checkChars_signed neg h []
  rwa [List.append_nil] at heq

theorem checkChars_numeral (neg : Bool) {ip fp : Text} (hip : AllDigits ip)
    (hfp : AllDigits fp) : checkChars (numeral neg ip fp) false false = .ok (neg, true) := by
  have hdot : checkChars ('.' :: fp) neg false = checkChars fp neg true := rfl
  have heq := checkChars_digits hfp [] neg true
  rw [List.append_nil] at heq
  unfold numeral
  rw [checkChars_signed neg hip, hdot, heq]
  rfl

/-- `std::stoll` of digits, up to a character that is none. -/
theorem stoll_digits {w rest : Text} (h : AllDigits w) (hne : w ≠ [])
    (hrest : ∀ c ∈ rest.head?, c.isDigit = false) :
    stoll (w ++ rest) = if (decimal w : Int) ≤ int64Max then .ok (decimal w : Int)
      else .error (.assert "stoll: out_of_range") := by
  obtain ⟨c, w', rfl⟩ := List.exists_cons_of_ne_nil hne
  have hc : c.isDigit = true := h c List.mem_cons_self
  have htake : (c :: w' ++ rest).takeWhile isDigit = c :: w' := by
    have hall : ∀ x ∈ c :: w', isDigit x = true := h
    rw [List.takeWhile_append_of_pos hall]
    cases rest with
    | nil => rw [List.takeWhile_nil, List.append_nil]
    | cons d rest =>
      have hd : ¬ isDigit d = true := by
        rw [isDigit_eq, hrest d rfl]
        exact Bool.false_ne_true
      rw [List.takeWhile_cons_of_neg hd, List.append_nil]
  have hdrop : (c :: w' ++ rest).dropWhile isSpace = c :: w' ++ rest := by
    rw [List.cons_append, List.dropWhile_cons_of_neg]
    rw [isSpace_of_isDigit hc]
    exact Bool.false_ne_true
  have hminus : ¬ (c :: w' ++ rest).head? = some '-' := by
    intro heq
    obtain rfl : c = '-' := Option.some.inj heq
    cases hc
  have hplus : ¬ (c :: w' ++ rest).head? = some '+' := by
    intro heq
    obtain rfl : c = '+' := Option.some.inj heq
    cases hc
  have hnonneg : int64Min ≤ (decimal (c :: w') : Int) :=
    (by decide : int64Min ≤ 0).trans (Int.natCast_nonneg _)
  have hneg : decide ((c :: w' ++ rest).head? = some '-') = false := decide_eq_false hminus
  have hpick : (if (c :: w' ++ rest).head? = some '-' ∨ (c :: w' ++ rest).head? = some '+'
      then (c :: w' ++ rest).drop 1 else c :: w' ++ rest) = c :: w' ++ rest :=
    if_neg (not_or.mpr ⟨hminus, hplus⟩)
  unfold stoll
  simp only [hdrop, hpick, htake, hneg, signed, Bool.false_eq_true, if_false, hnonneg, true_and,
    hne]

/-- The digits in front, times the scale. -/
theorem wholePart_iff {ip rest : Text} {scaled : Nat} (hip : AllDigits ip) (hne : ip ≠ [])
    (hrest : ∀ c ∈ rest.head?, c.isDigit = false) (hpos : 0 < scaled) {x : Int} :
    wholePart (ip ++ rest) scaled = .ok x ↔
      x = (decimal ip * scaled : Nat) ∧ x ≤ int64Max := by
  have hle : decimal ip ≤ decimal ip * scaled := Nat.le_mul_of_pos_right _ hpos
  have hmin : int64Min ≤ 0 := by decide
  unfold wholePart
  rw [if_neg (by simp [hne]), stoll_digits hip hne hrest, except_bind_ok]
  constructor
  · rintro ⟨units, hunits, hx⟩
    split at hunits
    · obtain rfl := Except.ok.inj hunits
      obtain ⟨y, hy, hx⟩ := except_bind_ok.mp hx
      obtain ⟨rfl, _⟩ := safe_ok.mp hy
      obtain ⟨rfl, _, hmax⟩ := safe_ok.mp hx
      refine ⟨?_, hmax⟩
      push_cast
      omega
    · cases hunits
  · rintro ⟨rfl, hmax⟩
    rw [Int.natCast_mul] at hmax
    have hsafe : ∀ y : Int, y = decimal ip * scaled → safe y = .ok (decimal ip * scaled : Int) := by
      rintro y rfl
      exact safe_ok.mpr ⟨rfl, by omega, hmax⟩
    refine ⟨decimal ip, if_pos (by omega), ?_⟩
    refine except_bind_ok.mpr ⟨_, hsafe _ rfl, ?_⟩
    rw [Int.natCast_mul]
    exact hsafe _ (by omega)

theorem stdToString_natCast (n : Nat) : stdToString n = Nat.toDigits 10 n := by
  have hsign : ¬ (n : Int) < 0 := Int.not_lt.mpr (Int.natCast_nonneg n)
  unfold stdToString
  rw [decide_eq_false hsign]
  rfl

/-- The fraction digits with zeros behind them, added to what stands in front of the dot. -/
theorem addFraction_iff {u fp : Text} {p n : Nat} (hp : p < 19) (hfp : AllDigits fp)
    (hle : fp.length ≤ p) (hlen : (u ++ '.' :: fp).length < npos) (hn : (n : Int) ≤ int64Max)
    {x : Int} : addFraction true (u ++ '.' :: fp) u.length ((10 ^ p : Nat) : Int) n = .ok x ↔
      x = (n + decimal fp * 10 ^ (p - fp.length) : Nat) ∧ x ≤ int64Max := by
  have hnpos : npos < 2 ^ 64 := by decide
  have hsize : u.length + 1 + fp.length < npos := by
    rw [List.length_append, List.length_cons] at hlen
    omega
  obtain ⟨a, t, hdigits, ht, _, _⟩ := toDigits_pow_add (k := p) (f := 0) (Nat.pow_pos (by decide))
  have hzeros : substr (stdToString ((10 ^ p : Nat) : Int)) 1 npos = .ok t := by
    rw [stdToString_natCast]
    rw [Nat.add_zero] at hdigits
    rw [hdigits]
    have happ := substr_append [a] t npos
    rwa [List.take_of_length_le (by unfold npos; omega)] at happ
  have hrhs : substr (u ++ '.' :: fp) (u64 (u.length + 1)) npos = .ok fp := by
    have happ := substr_append (u ++ ['.']) fp npos
    rw [List.take_of_length_le (by omega), List.append_assoc, List.length_append,
      List.length_singleton] at happ
    rw [u64_of_lt (by omega)]
    exact happ
  have hvalue : decimal (padTo p fp) = decimal fp * 10 ^ (p - fp.length) := by
    rw [padTo_eq, decimal_pad]
  have hpad : AllDigits (padTo p fp) := by
    rw [padTo_eq]
    exact hfp.append (allDigits_zeros _)
  have hlt : decimal (padTo p fp) < 10 ^ 18 := by
    have hpadded : (padTo p fp).length = p := by
      rw [padTo_eq, List.length_append, List.length_replicate]
      omega
    have hdec := decimal_lt hpad
    rw [hpadded] at hdec
    exact hdec.trans_le (Nat.pow_le_pow_right (by decide) (by omega))
  have hmin : int64Min ≤ 0 := by decide
  have hfits : (decimal (padTo p fp) : Int) ≤ int64Max := by
    unfold int64Max
    omega
  have hstart : addFraction true (u ++ '.' :: fp) u.length ((10 ^ p : Nat) : Int) n =
      (if padTo p fp = [] then .ok (n : Int)
      else (do
        let fraction ← stoll (padTo p fp)
        safe ((n : Int) + fraction) : Except Exn Int)) := by
    unfold addFraction
    rw [if_pos rfl, hzeros, hrhs]
    dsimp only [bind, Except.bind]
    rw [ht, if_pos hle]
  rw [hstart, ← hvalue]
  by_cases hnil : padTo p fp = []
  · rw [if_pos hnil, hnil, decimal_nil, Nat.add_zero]
    constructor
    · intro h
      obtain rfl := Except.ok.inj h
      exact ⟨rfl, hn⟩
    · rintro ⟨rfl, _⟩
      rfl
  · have hread := @stoll_digits _ [] hpad hnil (by simp)
    rw [List.append_nil, if_pos hfits] at hread
    rw [if_neg hnil, hread]
    change safe ((n : Int) + decimal (padTo p fp)) = .ok x ↔ _
    rw [safe_ok, Int.natCast_add]
    constructor
    · rintro ⟨rfl, _, hmax⟩
      exact ⟨rfl, hmax⟩
    · rintro ⟨rfl, hmax⟩
      exact ⟨rfl, by omega, hmax⟩

/-- The end of `amount_from_string`: the bound and the sign. -/
theorem amountFromText_iff {p id n : Nat} {s lhs : Text} {neg dec : Bool} {a : Asset}
    (hp : p < 19) (hcheck : checkChars s false false = .ok (neg, dec))
    (hlhs : substr s (if neg then 1 else 0) (find s '.' 0) = .ok lhs)
    (hsum : ∀ x : Int, (do
      let y ← wholePart lhs ((10 ^ p : Nat) : Int)
      addFraction dec s (find s '.' 0) ((10 ^ p : Nat) : Int) y : Except Exn Int) = .ok x ↔ x = n ∧ x ≤ int64Max) :
    amountFromText p id s = .ok a ↔ (n : Int) ≤ maxShareSupply ∧ a = ⟨signed neg n, id⟩ := by
  have hmax : maxShareSupply ≤ int64Max := by decide
  have hmin : int64Min ≤ -maxShareSupply := by decide
  have hlow : (0 : Int) ≤ int64Max := by decide
  constructor
  · intro h
    obtain ⟨found, hfound, h⟩ := except_bind_ok.mp h
    obtain rfl := Except.ok.inj (hcheck.symm.trans hfound)
    obtain ⟨scaled, hscaled, h⟩ := except_bind_ok.mp h
    obtain rfl := Except.ok.inj ((scaledPrecision_eq hp).symm.trans hscaled)
    obtain ⟨lhs', hlhs', h⟩ := except_bind_ok.mp h
    obtain rfl := Except.ok.inj (hlhs.symm.trans hlhs')
    obtain ⟨y, hy, h⟩ := except_bind_ok.mp h
    obtain ⟨x, hx, h⟩ := except_bind_ok.mp h
    obtain ⟨rfl, _⟩ := (hsum x).mp (except_bind_ok.mpr ⟨y, hy, hx⟩)
    split at h
    · rename_i hsupply
      refine ⟨hsupply, ?_⟩
      cases neg with
      | false => exact (Except.ok.inj h).symm
      | true =>
        obtain ⟨z, hz, h⟩ := except_bind_ok.mp h
        obtain ⟨rfl, _⟩ := safe_ok.mp hz
        rw [← Except.ok.inj h, Int.mul_neg_one]
        rfl
    · cases h
  · rintro ⟨hsupply, rfl⟩
    obtain ⟨y, hy, hx⟩ := except_bind_ok.mp ((hsum n).mpr ⟨rfl, hsupply.trans hmax⟩)
    refine except_bind_ok.mpr ⟨(neg, dec), hcheck, ?_⟩
    refine except_bind_ok.mpr ⟨_, scaledPrecision_eq hp, ?_⟩
    refine except_bind_ok.mpr ⟨lhs, hlhs, ?_⟩
    refine except_bind_ok.mpr ⟨y, hy, ?_⟩
    refine except_bind_ok.mpr ⟨(n : Int), hx, ?_⟩
    rw [if_pos hsupply]
    cases neg with
    | false => rfl
    | true =>
      refine except_bind_ok.mpr ⟨-(n : Int), ?_, rfl⟩
      rw [Int.mul_neg_one]
      exact safe_ok.mpr ⟨rfl, by omega, by omega⟩

/-- `amount_from_string` of a sign and digits. -/
theorem amountFromText_whole {p id : Nat} {neg : Bool} {ip : Text} {a : Asset} (hp : p < 19)
    (hip : AllDigits ip) (hne : ip ≠ []) (hlen : ip.length ≤ npos) :
    amountFromText p id (minus neg ++ ip) = .ok a ↔
      ((decimal ip * 10 ^ p : Nat) : Int) ≤ maxShareSupply ∧
        a = ⟨signed neg (decimal ip * 10 ^ p), id⟩ := by
  have hfind : find (minus neg ++ ip) '.' 0 = npos :=
    find_of_not_mem (not_mem_signed (by decide) rfl neg hip)
  refine @amountFromText_iff p id _ _ ip neg false a hp (checkChars_whole neg hip) ?_ ?_
  · have happ := substr_append (minus neg) ip npos
    rw [List.take_of_length_le hlen] at happ
    rw [hfind]
    cases neg with
    | false => exact happ
    | true => exact happ
  · intro x
    have hwhole := @wholePart_iff ip [] (10 ^ p) hip hne (by simp) (Nat.pow_pos (by decide)) x
    rw [List.append_nil] at hwhole
    rw [← hwhole, except_bind_ok]
    constructor
    · rintro ⟨y, hy, hx⟩
      obtain rfl := Except.ok.inj hx
      exact hy
    · intro hx
      exact ⟨x, hx, rfl⟩

/-- `amount_from_string` of a numeral with no more fraction digits than the asset has. -/
theorem amountFromText_numeral {p id : Nat} {neg : Bool} {ip fp : Text} {a : Asset} (hp : p < 19)
    (hip : AllDigits ip) (hne : ip ≠ []) (hfp : AllDigits fp) (hle : fp.length ≤ p)
    (hlen : (numeral neg ip fp).length < npos) :
    amountFromText p id (numeral neg ip fp) = .ok a ↔
      ((decimal ip * 10 ^ p + decimal fp * 10 ^ (p - fp.length) : Nat) : Int) ≤ maxShareSupply ∧
        a = ⟨signed neg (decimal ip * 10 ^ p + decimal fp * 10 ^ (p - fp.length)), id⟩ := by
  have hfind : find (numeral neg ip fp) '.' 0 = (minus neg ++ ip).length :=
    find_head (not_mem_signed (by decide) rfl neg hip)
  have hwhole : ∀ {rest : Text} {x : Int}, (∀ c ∈ rest.head?, c.isDigit = false) →
      (wholePart (ip ++ rest) ((10 ^ p : Nat) : Int) = .ok x ↔
        x = (decimal ip * 10 ^ p : Nat) ∧ x ≤ int64Max) :=
    fun hrest => wholePart_iff hip hne hrest (Nat.pow_pos (by decide))
  refine @amountFromText_iff p id _ _ (ip ++ if neg then ['.'] else []) neg true a hp
    (checkChars_numeral neg hip hfp) ?_ ?_
  · -- the second argument of `substr` is a count, so behind a minus it takes the dot as well
    rw [hfind]
    cases neg with
    | false =>
      have happ := substr_zero (numeral false ip fp) (minus false ++ ip).length
      unfold numeral at happ ⊢
      rw [List.take_left] at happ
      simpa [minus] using happ
    | true =>
      have happ := substr_append ['-'] (ip ++ '.' :: fp) (ip.length + 1)
      have htake : (ip ++ '.' :: fp).take (ip.length + 1) = ip ++ ['.'] := by
        rw [List.take_length_add_append]
        rfl
      rw [htake] at happ
      simpa [numeral, minus] using happ
  · intro x
    rw [hfind, except_bind_ok]
    have hrest : ∀ c ∈ (if neg then ['.'] else [] : Text).head?, c.isDigit = false := by
      cases neg <;> simp
    constructor
    · rintro ⟨y, hy, hx⟩
      obtain ⟨rfl, hmax⟩ := (hwhole hrest).mp hy
      exact (addFraction_iff hp hfp hle hlen hmax).mp hx
    · rintro ⟨rfl, hmax⟩
      have hint : ((decimal ip * 10 ^ p : Nat) : Int) ≤ int64Max := by
        rw [Int.natCast_add] at hmax
        omega
      exact ⟨_, (hwhole hrest).mpr ⟨rfl, hint⟩,
        (addFraction_iff hp hfp hle hlen hint).mpr ⟨rfl, hmax⟩⟩

/-! ## 8. Amounts to text and back -/

/-- A quotient that is cut off towards zero has the sign of the amount, or is zero. -/
theorem signed_tdiv (x : Int) (n : Nat) :
    signed (decide (x.tdiv n < 0)) (x.tdiv n).natAbs = x.tdiv n := by
  unfold signed
  by_cases h : x.tdiv n < 0
  · rw [decide_eq_true h, if_pos rfl]
    omega
  · rw [decide_eq_false h, if_neg Bool.false_ne_true]
    omega

/-- Only a remainder of an amount below zero is below zero. -/
theorem tmod_nonneg_iff (x : Int) {n : Nat} : 0 ≤ x.tmod n ↔ 0 ≤ x ∨ (n : Int) ∣ x := by
  constructor
  · intro h
    rcases Int.lt_or_le x 0 with hneg | hpos
    · right
      have hle : x.tmod n ≤ 0 := by
        have hmod : (-x).tmod n = -x.tmod n := Int.neg_tmod x n
        have hnonneg : 0 ≤ (-x).tmod n := Int.tmod_nonneg _ (by omega)
        omega
      exact Int.dvd_of_tmod_eq_zero (by omega)
    · exact .inl hpos
  · rintro (hpos | hdvd)
    · exact Int.tmod_nonneg _ hpos
    · rw [Int.tmod_eq_zero_of_dvd hdvd]

/-- The digits behind the dot: those of the scale and the remainder, without the first. -/
def fractionText (scale : Nat) (r : Int) : Text := (Nat.toDigits 10 (scale + r).toNat).drop 1

theorem allDigits_fractionText (scale : Nat) (r : Int) : AllDigits (fractionText scale r) :=
  fun c hc => allDigits_toDigits _ c (List.mem_of_mem_drop hc)

/-- A remainder that is not below zero comes out with all its places. -/
theorem fractionText_nonneg {p : Nat} {r : Int} (hr : 0 ≤ r) (hlt : r < (10 ^ p : Nat)) :
    (fractionText (10 ^ p) r).length = p ∧ (decimal (fractionText (10 ^ p) r) : Int) = r := by
  obtain ⟨n, rfl⟩ := Int.eq_ofNat_of_zero_le hr
  obtain ⟨a, t, heq, hlen, _, hval⟩ := toDigits_pow_add (k := p) (f := n) (by omega)
  have hnat : (((10 ^ p : Nat) : Int) + n).toNat = 10 ^ p + n := by omega
  unfold fractionText
  rw [hnat, heq]
  exact ⟨hlen, congrArg Int.ofNat hval⟩

/-- A remainder below zero loses a place, and what comes out is not what it lacks. -/
theorem fractionText_neg {p : Nat} {r : Int} (hr : r < 0) (hlt : -r < (10 ^ p : Nat)) :
    (fractionText (10 ^ p) r).length < p ∧
      ((decimal (fractionText (10 ^ p) r) * 10 ^ (p - (fractionText (10 ^ p) r).length) : Nat) :
        Int) ≠ -r := by
  obtain ⟨m, hm⟩ : ∃ m : Nat, ((10 ^ p : Nat) : Int) + r = m :=
    Int.eq_ofNat_of_zero_le (by omega)
  obtain ⟨a, t, heq, _⟩ := toDigits_head (n := m) (by omega)
  have hp : 0 < p := by
    rcases Nat.eq_zero_or_pos p with rfl | hp
    · simp at hlt
      omega
    · exact hp
  have hlack := tail_ne_lack (by omega) (show m < 10 ^ p by omega) heq
  have hlen : (Nat.toDigits 10 m).length ≤ p := (length_toDigits_le hp).mpr (by omega)
  have htext : fractionText (10 ^ p) r = t := by
    unfold fractionText
    rw [hm, Int.toNat_natCast, heq]
    rfl
  rw [heq, List.length_cons] at hlen
  rw [htext]
  refine ⟨hlen, ?_⟩
  intro hbad
  apply hlack
  omega

theorem tmod_bounds (x : Int) {n : Nat} (hn : 0 < n) :
    -(x.tmod n) < (n : Int) ∧ x.tmod n < (n : Int) := by
  have hpos : (0 : Int) < n := by omega
  have hlow := Int.lt_tmod_of_pos x hpos
  exact ⟨by omega, Int.tmod_lt_of_pos x hpos⟩

theorem stdToString_nonneg {z : Int} (h : 0 ≤ z) : stdToString z = Nat.toDigits 10 z.toNat := by
  obtain ⟨n, rfl⟩ := Int.eq_ofNat_of_zero_le h
  exact stdToString_natCast n

/-- What is printed in front of the dot. -/
def unitsText (x : Int) (n : Nat) : Text := Nat.toDigits 10 (x.tdiv n).natAbs

theorem allDigits_unitsText (x : Int) (n : Nat) : AllDigits (unitsText x n) :=
  allDigits_toDigits _

theorem unitsText_ne_nil (x : Int) (n : Nat) : unitsText x n ≠ [] := Nat.toDigits_ne_nil

theorem length_unitsText {x : Int} (hmin : int64Min ≤ x) (hmax : x ≤ int64Max) {n : Nat} :
    (unitsText x n).length ≤ 19 := by
  have hle : (x.tdiv n).natAbs ≤ x.natAbs := Int.natAbs_tdiv_le_natAbs x n
  unfold int64Min at hmin
  unfold int64Max at hmax
  exact (length_toDigits_le (by decide)).mpr (by omega)

theorem length_minus (neg : Bool) : (minus neg).length ≤ 1 := by
  cases neg <;> decide

theorem length_idText {id : Nat} (h : id ≤ maxInstanceId) : (idText id).length ≤ 20 := by
  have hdigits : (Nat.toDigits 10 id).length ≤ 15 := by
    unfold maxInstanceId at h
    exact (length_toDigits_le (by decide)).mpr (by omega)
  have hcons : (idText id).length = (Nat.toDigits 10 id).length + 5 := rfl
  omega

/-- The text of an amount as a numeral. -/
def amountNumeral (x : Int) (n : Nat) : Text :=
  numeral (decide (x.tdiv n < 0)) (unitsText x n) (fractionText n (x.tmod n))

theorem signed_unitsText (x : Int) (n : Nat) :
    signed (decide (x.tdiv n < 0)) (decimal (unitsText x n)) = x.tdiv n := by
  unfold unitsText
  rw [decimal_toDigits, signed_tdiv]

theorem length_amountNumeral {x : Int} (hmin : int64Min ≤ x) (hmax : x ≤ int64Max) {n : Nat}
    (hn : 0 < n) (hlarge : n ≤ 10 ^ 12) : (amountNumeral x n).length ≤ 40 := by
  obtain ⟨h1, h2⟩ := tmod_bounds x hn
  have hfraction : (fractionText n (x.tmod n)).length ≤ 13 := by
    have hdigits : (Nat.toDigits 10 ((n : Int) + x.tmod n).toNat).length ≤ 13 :=
      (length_toDigits_le (by decide)).mpr (by omega)
    unfold fractionText
    rw [List.length_drop]
    omega
  have hunits := length_unitsText (n := n) hmin hmax
  have hsign := length_minus (decide (x.tdiv n < 0))
  unfold amountNumeral
  rw [length_numeral, List.length_append]
  omega

section Texts

variable [FcText] (doc : FcText.Documented)

include doc

theorem shareToText_eq (x : Int) : shareToText x = amountNumeral x (10 ^ 6) := by
  obtain ⟨h1, _⟩ := tmod_bounds x (n := 10 ^ 6) (by decide)
  have hfraction : (stdToString (staticPrecision + x.tmod staticPrecision)).drop 1 =
      fractionText (10 ^ 6) (x.tmod (10 ^ 6 : Nat)) := by
    have hscale : staticPrecision = ((10 ^ 6 : Nat) : Int) := rfl
    rw [hscale, stdToString_nonneg (by omega)]
    rfl
  unfold shareToText
  rw [hfraction, doc.toString_eq]
  rfl

/-- The sum of `to_string` is taken without sign, and comes out the same. -/
theorem toText_eq (x : Int) {id : Nat} (hid : id ≤ maxInstanceId) :
    Asset.toText ⟨x, id⟩ = .ok (amountNumeral x (10 ^ 6) ++ ' ' :: idText id) := by
  obtain ⟨h1, h2⟩ := tmod_bounds x (n := 10 ^ 6) (by decide)
  have hscale : staticPrecision = ((10 ^ 6 : Nat) : Int) := rfl
  have hsum : u64 (1000000 + uint64OfInt (x.tmod staticPrecision)) =
      (((10 ^ 6 : Nat) : Int) + x.tmod (10 ^ 6 : Nat)).toNat := by
    rw [hscale]
    unfold u64 uint64OfInt
    omega
  have hfraction : (stdToString (u64 (1000000 + uint64OfInt (x.tmod staticPrecision)))).drop 1 =
      fractionText (10 ^ 6) (x.tmod (10 ^ 6 : Nat)) := by
    rw [hsum, stdToString_natCast]
    rfl
  unfold Asset.toText
  dsimp only
  rw [hfraction, assetIdText_eq doc hid]
  rfl

/-- `amount_to_string` leaves a fraction of zeros away. -/
theorem amountToText_eq (x : Int) {p : Nat} (hp : p < 19) :
    amountToText p x = .ok (if x.tmod (10 ^ p : Nat) ≠ 0 then amountNumeral x (10 ^ p)
      else minus (decide (x.tdiv (10 ^ p : Nat) < 0)) ++ unitsText x (10 ^ p)) := by
  obtain ⟨h1, _⟩ := tmod_bounds x (n := 10 ^ p) (Nat.pow_pos (by decide))
  have hunits : FcText.toString (x.tdiv (10 ^ p : Nat)) =
      minus (decide (x.tdiv (10 ^ p : Nat) < 0)) ++ unitsText x (10 ^ p) := doc.toString_eq _
  have hfraction : (FcText.toString (((10 ^ p : Nat) : Int) + x.tmod (10 ^ p : Nat))).drop 1 =
      fractionText (10 ^ p) (x.tmod (10 ^ p : Nat)) := by
    rw [doc.toString_eq, stdToString_nonneg (by omega)]
    rfl
  unfold amountToText
  refine except_bind_ok.mpr ⟨_, powerLoop_one hp, ?_⟩
  dsimp only
  rw [hunits, hfraction]
  split <;> rfl

end Texts

/-- The units of an amount that fits are worth an amount that fits. -/
theorem units_bounds {x : Int} (hmin : int64Min ≤ x) (hmax : x ≤ int64Max) :
    int64Min ≤ x.tdiv (10 ^ 6 : Nat) * staticPrecision ∧
      x.tdiv (10 ^ 6 : Nat) * staticPrecision ≤ int64Max := by
  have hsplit : x.tmod (10 ^ 6 : Nat) + x.tdiv (10 ^ 6 : Nat) * (10 ^ 6 : Nat) = x :=
    Int.tmod_add_tdiv_mul x _
  obtain ⟨h1, h2⟩ := tmod_bounds x (n := 10 ^ 6) (by decide)
  have hscale : staticPrecision = ((10 ^ 6 : Nat) : Int) := rfl
  rw [hscale]
  unfold int64Min int64Max at *
  rcases Int.lt_or_le x 0 with hneg | hpos
  · have hr : x.tmod (10 ^ 6 : Nat) ≤ 0 := by
      have hnot := (tmod_nonneg_iff (-x) (n := 10 ^ 6)).mpr (.inl (by omega))
      rw [Int.neg_tmod] at hnot
      omega
    omega
  · have hr : 0 ≤ x.tmod (10 ^ 6 : Nat) := (tmod_nonneg_iff x).mpr (.inl hpos)
    omega

/-- The units and the fraction give the amount back exactly when the fraction is the remainder. -/
theorem addUint64_units_iff {x : Int} (hmin : int64Min ≤ x) (hmax : x ≤ int64Max) {f : Nat}
    (hf : f < 2 ^ 63) :
    addUint64 (x.tdiv (10 ^ 6 : Nat) * staticPrecision) f = x ↔
      (f : Int) = x.tmod (10 ^ 6 : Nat) := by
  have hsplit : x.tmod (10 ^ 6 : Nat) + x.tdiv (10 ^ 6 : Nat) * staticPrecision = x :=
    Int.tmod_add_tdiv_mul x _
  obtain ⟨h1, h2⟩ := tmod_bounds x (n := 10 ^ 6) (by decide)
  rw [addUint64_eq_iff hmin hmax]
  have hdiff : x.tdiv (10 ^ 6 : Nat) * staticPrecision + f - x = f - x.tmod (10 ^ 6 : Nat) := by
    omega
  rw [hdiff]
  clear hdiff hsplit hmin hmax
  constructor
  · intro hdvd
    omega
  · intro heq
    rw [heq, Int.sub_self]
    exact Int.dvd_zero _

theorem signed_add (neg : Bool) (m n : Nat) : signed neg (m + n) = signed neg m + signed neg n := by
  unfold signed
  cases neg <;> simp
  omega

theorem signed_mul (neg : Bool) (m n : Nat) : signed neg (m * n) = signed neg m * n := by
  unfold signed
  cases neg <;> simp

theorem abs_signed (neg : Bool) (n : Nat) : |signed neg n| = n := by
  unfold signed
  cases neg <;> simp

/-- The units with the sign of the amount, scaled, and a fraction with the same sign. -/
theorem signed_units_add (x : Int) (n f : Nat) :
    signed (decide (x.tdiv n < 0)) (decimal (unitsText x n) * n + f) =
      x.tdiv n * n + signed (decide (x.tdiv n < 0)) f := by
  rw [signed_add, signed_mul, signed_unitsText]

section RoundTrips

variable [FcText] (doc : FcText.Documented) {x : Int} {id : Nat}

include doc

/-- `asset::from_string` undoes `to_string` on the amounts without a negative remainder. -/
theorem fromText_toText_iff (hmin : int64Min ≤ x) (hmax : x ≤ int64Max)
    (hid : id ≤ maxInstanceId) :
    (Asset.toText ⟨x, id⟩ >>= Asset.fromText) = .ok ⟨x, id⟩ ↔ 0 ≤ x.tmod (10 ^ 6 : Nat) := by
  obtain ⟨h1, h2⟩ := tmod_bounds x (n := 10 ^ 6) (by decide)
  obtain ⟨hunits, hunits'⟩ := units_bounds hmin hmax
  have hlt := millionths_lt (allDigits_fractionText (10 ^ 6) (x.tmod (10 ^ 6 : Nat)))
  have hlen : (amountNumeral x (10 ^ 6) ++ ' ' :: idText id).length < npos := by
    have hnum := length_amountNumeral hmin hmax (n := 10 ^ 6) (by decide) (by decide)
    have hidlen := length_idText hid
    rw [List.length_append, List.length_cons]
    unfold npos
    omega
  rw [← signed_unitsText x (10 ^ 6)] at hunits hunits'
  have hread := fromText_numeral doc _ (allDigits_unitsText x _) (unitsText_ne_nil x _)
    (allDigits_fractionText _ _) hid hlen hunits hunits'
  rw [signed_unitsText] at hread
  rw [toText_eq doc x hid]
  change Asset.fromText (amountNumeral x (10 ^ 6) ++ ' ' :: idText id) = _ ↔ _
  unfold amountNumeral
  rw [hread]
  have hinj : (Except.ok ⟨addUint64 (x.tdiv (10 ^ 6 : Nat) * staticPrecision)
      (millionths (fractionText (10 ^ 6) (x.tmod (10 ^ 6 : Nat)))), id⟩ : Except Exn Asset) =
        .ok ⟨x, id⟩ ↔ (millionths (fractionText (10 ^ 6) (x.tmod (10 ^ 6 : Nat))) : Int) =
          x.tmod (10 ^ 6 : Nat) := by
    rw [← addUint64_units_iff hmin hmax (by omega)]
    simp
  rw [hinj]
  constructor
  · intro h
    omega
  · intro hr
    obtain ⟨hsix, hdec⟩ := fractionText_nonneg hr h2
    rw [millionths, hsix, List.take_of_length_le (by omega), Nat.sub_self, Nat.pow_zero,
      Nat.mul_one, hdec]

/-- `from_variant` undoes `to_variant` on the same amounts. -/
theorem shareFromText_shareToText_iff (hmin : int64Min ≤ x) (hmax : x ≤ int64Max) :
    shareFromText (shareToText x) = .ok x ↔ 0 ≤ x.tmod (10 ^ 6 : Nat) := by
  obtain ⟨h1, h2⟩ := tmod_bounds x (n := 10 ^ 6) (by decide)
  obtain ⟨hunits, hunits'⟩ := units_bounds hmin hmax
  have hfp := allDigits_fractionText (10 ^ 6) (x.tmod (10 ^ 6 : Nat))
  have hlen : (amountNumeral x (10 ^ 6)).length < npos := by
    have hnum := length_amountNumeral hmin hmax (n := 10 ^ 6) (by decide) (by decide)
    unfold npos
    omega
  rw [← signed_unitsText x (10 ^ 6)] at hunits hunits'
  have hread := shareFromText_numeral doc _ (allDigits_unitsText x _) (unitsText_ne_nil x _) hfp
    hlen hunits hunits' (v := x)
  rw [signed_unitsText] at hread
  rw [shareToText_eq doc x]
  unfold amountNumeral
  rw [hread]
  rcases Int.lt_or_le (x.tmod (10 ^ 6 : Nat)) 0 with hneg | hr
  · obtain ⟨hshort, _⟩ := fractionText_neg hneg h1
    have hscaled : scaledFraction (fractionText (10 ^ 6) (x.tmod (10 ^ 6 : Nat))) < 2 ^ 63 := by
      unfold scaledFraction
      rw [if_pos (by omega)]
      exact (decimal_lt hfp).trans ((Nat.pow_lt_pow_right (by decide) hshort).trans (by decide))
    refine iff_of_false ?_ (by omega)
    rintro ⟨_, _, hx⟩
    have heq := (addUint64_units_iff hmin hmax hscaled).mp hx.symm
    omega
  · obtain ⟨hsix, hdec⟩ := fractionText_nonneg hr h2
    have hscaled : (scaledFraction (fractionText (10 ^ 6) (x.tmod (10 ^ 6 : Nat))) : Int) =
        x.tmod (10 ^ 6 : Nat) := by
      unfold scaledFraction
      rw [if_pos (by omega), hdec]
    refine iff_of_true ⟨?_, ?_, ?_⟩ hr
    · rw [← List.length_pos_iff, hsix]
      decide
    · rw [hdec]
      unfold int64Max
      omega
    · exact ((addUint64_units_iff hmin hmax (by omega)).mpr hscaled).symm

/-- `amount_from_string` undoes `amount_to_string` on the amounts without a negative remainder at
    the precision of the asset. -/
theorem amountFromText_amountToText_iff {p : Nat} (hp : p ≤ 12) (hsupply : |x| ≤ maxShareSupply) :
    (amountToText p x >>= amountFromText p id) = .ok ⟨x, id⟩ ↔ 0 ≤ x.tmod (10 ^ p : Nat) := by
  have hpos : 0 < 10 ^ p := Nat.pow_pos (by decide)
  have hpow : 10 ^ p ≤ 10 ^ 12 := Nat.pow_le_pow_right (by decide) hp
  obtain ⟨hlow, hhigh⟩ := abs_le.mp hsupply
  have hmin : int64Min ≤ x := (by decide : int64Min ≤ -maxShareSupply).trans hlow
  have hmax : x ≤ int64Max := hhigh.trans (by decide)
  obtain ⟨h1, h2⟩ := tmod_bounds x hpos
  have hsplit : x.tmod (10 ^ p : Nat) + x.tdiv (10 ^ p : Nat) * (10 ^ p : Nat) = x :=
    Int.tmod_add_tdiv_mul x _
  have hlen : (amountNumeral x (10 ^ p)).length < npos := by
    have hnum := length_amountNumeral hmin hmax hpos hpow
    unfold npos
    omega
  have hwhole : (unitsText x (10 ^ p)).length ≤ npos := by
    have hnum := length_unitsText hmin hmax (n := 10 ^ p)
    unfold npos
    omega
  have hfp := allDigits_fractionText (10 ^ p) (x.tmod (10 ^ p : Nat))
  have hinj : ∀ y : Int, (⟨x, id⟩ : Asset) = ⟨y, id⟩ ↔ x = y := by
    intro y
    simp
  rw [amountToText_eq doc x (by omega)]
  change amountFromText p id (if x.tmod (10 ^ p : Nat) ≠ 0 then _ else _) = _ ↔ _
  rcases Int.lt_trichotomy (x.tmod (10 ^ p : Nat)) 0 with hneg | hzero | hr
  · -- the digits of a remainder below zero are too few, so something else is read
    obtain ⟨hshort, hlack⟩ := fractionText_neg hneg h1
    rw [if_pos (by omega)]
    unfold amountNumeral
    rw [amountFromText_numeral (by omega) (allDigits_unitsText _ _) (unitsText_ne_nil _ _) hfp
      hshort.le hlen, signed_units_add, hinj]
    refine iff_of_false ?_ (by omega)
    rintro ⟨_, hx⟩
    generalize decimal (fractionText (10 ^ p) (x.tmod (10 ^ p : Nat))) *
      10 ^ (p - (fractionText (10 ^ p) (x.tmod (10 ^ p : Nat))).length) = f at hx hlack
    have heq : x.tmod (10 ^ p : Nat) = signed (decide (x.tdiv (10 ^ p : Nat) < 0)) f := by
      omega
    unfold signed at heq
    split at heq
    · omega
    · omega
  · rw [if_neg (by omega), amountFromText_whole (by omega) (allDigits_unitsText _ _)
      (unitsText_ne_nil _ _) hwhole, signed_mul, signed_unitsText, hinj]
    refine iff_of_true ⟨?_, by omega⟩ (by omega)
    rw [← abs_signed (decide (x.tdiv (10 ^ p : Nat) < 0)), signed_mul, signed_unitsText]
    have hx : x.tdiv (10 ^ p : Nat) * (10 ^ p : Nat) = x := by omega
    rwa [hx]
  · obtain ⟨hexact, hdec⟩ := fractionText_nonneg hr.le h2
    have hx : 0 ≤ x := by
      rcases (tmod_nonneg_iff x).mp hr.le with hx | hdvd
      · exact hx
      · rw [Int.tmod_eq_zero_of_dvd hdvd] at hr
        omega
    have hq : decide (x.tdiv (10 ^ p : Nat) < 0) = false := by
      rw [decide_eq_false_iff_not]
      exact Int.not_lt.mpr (Int.tdiv_nonneg hx (Int.natCast_nonneg _))
    have hsum := signed_units_add x (10 ^ p) (decimal (fractionText (10 ^ p)
      (x.tmod (10 ^ p : Nat))) * 10 ^ (p - (fractionText (10 ^ p) (x.tmod (10 ^ p : Nat))).length))
    rw [hexact, Nat.sub_self, Nat.pow_zero, Nat.mul_one, hq] at hsum
    unfold signed at hsum
    simp only [Bool.false_eq_true, if_false, hdec] at hsum
    rw [if_pos (by omega)]
    unfold amountNumeral
    rw [amountFromText_numeral (by omega) (allDigits_unitsText _ _) (unitsText_ne_nil _ _) hfp
      hexact.le hlen, hexact, Nat.sub_self, Nat.pow_zero, Nat.mul_one, hinj, hq]
    unfold signed
    simp only [Bool.false_eq_true, if_false, hsum]
    exact iff_of_true ⟨by omega, by omega⟩ hr.le

/-- **Which amounts survive their text form**: in all three pairs those that are not below zero and
    the whole units. -/
theorem amounts_round_trip_iff {p : Nat} (hmin : int64Min ≤ x) (hmax : x ≤ int64Max)
    (hid : id ≤ maxInstanceId) (hp : p ≤ 12) :
    ((Asset.toText ⟨x, id⟩ >>= Asset.fromText) = .ok ⟨x, id⟩ ↔ 0 ≤ x ∨ 1000000 ∣ x) ∧
      (shareFromText (shareToText x) = .ok x ↔ 0 ≤ x ∨ 1000000 ∣ x) ∧
      (|x| ≤ maxShareSupply →
        ((amountToText p x >>= amountFromText p id) = .ok ⟨x, id⟩ ↔ 0 ≤ x ∨ 10 ^ p ∣ x)) := by
  have hsix := tmod_nonneg_iff x (n := 10 ^ 6)
  refine ⟨?_, ?_, fun hsupply => ?_⟩
  · exact (fromText_toText_iff doc hmin hmax hid).trans hsix
  · exact (shareFromText_shareToText_iff doc hmin hmax).trans hsix
  · have hscale := tmod_nonneg_iff x (n := 10 ^ p)
    rw [Int.natCast_pow] at hscale
    have htrip := @amountFromText_amountToText_iff _ doc x id p hp hsupply
    rw [Int.natCast_pow] at htrip
    exact htrip.trans hscale

end RoundTrips

/-! ## 9. Both on a plain fc -/

/-- Trimming, reading and writing as fc does them. -/
@[reducible] def sampleFcText : FcText where
  trim s := ((s.dropWhile isSpace).reverse.dropWhile isSpace).reverse
  toInt64 s :=
    let neg := decide (s.head? = some '-')
    let w := if neg then s.drop 1 else s
    if w ≠ [] ∧ AllDigits w ∧ int64Min ≤ signed neg (decimal w) ∧
        signed neg (decimal w) ≤ int64Max then .ok (signed neg (decimal w))
    else .error (.assert "bad_lexical_cast")
  toUint64 w :=
    if w ≠ [] ∧ AllDigits w ∧ decimal w < 2 ^ 64 then .ok (decimal w)
    else .error (.assert "bad_lexical_cast")
  toString := stdToString

section Samples

attribute [local instance] sampleFcText

theorem dropWhile_of_head {s : Text} (h : ∀ c ∈ s.head?, isSpace c = false) :
    s.dropWhile isSpace = s := by
  cases s with
  | nil => rfl
  | cons c s =>
    rw [List.dropWhile_cons_of_neg]
    rw [h c rfl]
    exact Bool.false_ne_true

/-- Digits do not begin with a minus. -/
theorem sampleFcText_sign {w : Text} (h : AllDigits w) : ¬ w.head? = some '-' := by
  intro heq
  have hc := h '-' (List.mem_of_mem_head? heq)
  cases hc

theorem sampleFcText_documented : FcText.Documented where
  trim_eq s hhead hlast := by
    change ((s.dropWhile isSpace).reverse.dropWhile isSpace).reverse = s
    rw [dropWhile_of_head hhead, dropWhile_of_head, List.reverse_reverse]
    rwa [List.head?_reverse]
  toInt64_fits neg w hne h hmin hmax := by
    cases neg with
    | false =>
      change (if _ then _ else _) = _
      simp only [minus, Bool.false_eq_true, if_false, List.nil_append,
        decide_eq_false (sampleFcText_sign h)]
      exact if_pos ⟨hne, h, hmin, hmax⟩
    | true => exact if_pos ⟨hne, h, hmin, hmax⟩
  toInt64_large w h hlarge := by
    refine ⟨.assert "bad_lexical_cast", ?_⟩
    change (if _ then _ else _) = _
    simp only [Bool.false_eq_true, if_false, decide_eq_false (sampleFcText_sign h)]
    refine if_neg ?_
    rintro ⟨_, _, _, hmax⟩
    exact absurd hmax (Int.not_le.mpr hlarge)
  toInt64_nil := ⟨_, rfl⟩
  toUint64_digits w hne h hlt := if_pos ⟨hne, h, hlt⟩
  toString_eq _ := rfl

/-- One and a half units are read back, and so are minus two. -/
theorem amounts_round_trip_iff_units :
    (Asset.toText ⟨1500000, 0⟩ >>= Asset.fromText) = .ok ⟨1500000, 0⟩ ∧
      shareFromText (shareToText (-2000000)) = .ok (-2000000) ∧
      (amountToText 2 1500000 >>= amountFromText 2 0) = .ok ⟨1500000, 0⟩ := by
  have hmax : (1500000 : Int) ≤ int64Max := by decide
  have hplus := @amounts_round_trip_iff sampleFcText sampleFcText_documented 1500000 0 2
    (by decide) hmax (by decide) (by decide)
  have hminus := @amounts_round_trip_iff sampleFcText sampleFcText_documented (-2000000) 0 2
    (by decide) (by decide) (by decide) (by decide)
  exact ⟨hplus.1.mpr (.inl (by decide)), hminus.2.1.mpr (.inr (by decide)),
    (hplus.2.2 (by decide)).mpr (.inl (by decide))⟩

/-- A millionth below zero is lost in all three. -/
theorem millionth_below_zero_lost :
    (Asset.toText ⟨-1, 0⟩ >>= Asset.fromText) ≠ .ok ⟨-1, 0⟩ ∧
      shareFromText (shareToText (-1)) ≠ .ok (-1) ∧
      (amountToText 6 (-1) >>= amountFromText 6 0) ≠ .ok ⟨-1, 0⟩ := by
  have hmin : int64Min ≤ -1 := by decide
  have hmax : (-1 : Int) ≤ int64Max := by decide
  rw [Ne, Ne, Ne, fromText_toText_iff sampleFcText_documented hmin hmax (by decide),
    shareFromText_shareToText_iff sampleFcText_documented hmin hmax,
    amountFromText_amountToText_iff sampleFcText_documented (by decide) (by decide)]
  decide

/-- Both parsers agree on 1.500000. -/
theorem parsers_agree_iff_six :
    shareFromText (numeral false ['1'] ['5', '0', '0', '0', '0', '0']) = .ok 1500000 ∧
      Asset.fromText (numeral false ['1'] ['5', '0', '0', '0', '0', '0'] ++ ' ' :: idText 0) =
        .ok ⟨1500000, 0⟩ :=
  (@parsers_agree_iff sampleFcText sampleFcText_documented false ['1']
    ['5', '0', '0', '0', '0', '0'] 0 (by decide) (by decide) (by decide) (by decide)
    (by decide) (by decide) (by decide) (by decide)).mpr ⟨.inl rfl, .inl rfl⟩

/-- On 1.5 they do not: the one scales the fraction only behind the sixth digit. -/
theorem parsers_differ_at_one_digit :
    shareFromText (numeral false ['1'] ['5']) = .ok 1000005 ∧
      Asset.fromText (numeral false ['1'] ['5'] ++ ' ' :: idText 0) = .ok ⟨1500000, 0⟩ ∧
      numeralAmount false ['1'] ['5'] = 1500000 := by
  have hone : AllDigits ['1'] := by decide
  have hfive : AllDigits ['5'] := by decide
  refine ⟨?_, ?_, by decide⟩
  · rw [shareFromText_numeral sampleFcText_documented false hone (by decide) hfive (by decide)
      (by decide) (by decide)]
    decide
  · rw [fromText_numeral sampleFcText_documented false hone (by decide) hfive (by decide)
      (by decide) (by decide) (by decide)]
    have hamount : addUint64 (signed false (decimal ['1']) * staticPrecision) (millionths ['5']) =
        1500000 := by decide
    rw [hamount]

end Samples

end MuseChain
