/-
  File:      MuseChain/Safety/AccountNames.lean
  Subject:   The scan of account names accepts the grammar of authority.hpp and nothing else.

  `scanLabels_spec`: at each pass, what is left of the name from `start` on is accepted if and only
  if it is a dotted word, and every place that is read lies inside the name. From it
  `scanAccountName_dotted`; `isValidAccountName_iff` says that the evaluators' test, which works on
  the characters, is this scan of their UTF-8 bytes.
-/
import MuseChain.Lib.Labels
import MuseChain.Protocol.AccountName

namespace MuseChain

/-! ## 1. The alphabet -/

/-- A label begins with a letter, ends with a letter or a digit, and has hyphens only inside. -/
def nameAlphabet : Alphabet UInt8 where
  dot := dotByte
  first := isLowerByte
  inner c := isLowerByte c || isDigitByte c || c == 45
  last c := isLowerByte c || isDigitByte c
  first_dot := rfl
  inner_dot := rfl
  last_dot := rfl

/-! ## 2. One label -/

theorem sub64_of_le {a b : Nat} (hb : b ≤ a) (ha : a < 2 ^ 64) : sub64 a b = a - b := by
  unfold sub64 u64
  omega

/-- The inner loop reads the places it passes and no other. -/
theorem scanInner_spec (name : List UInt8) (passes i : Nat) (h : i + passes ≤ name.length) :
    ∃ b, scanInner name passes i = some b ∧
      (b = true ↔ ∀ j x, i ≤ j → j < i + passes → name[j]? = some x →
        nameAlphabet.inner x = true) := by
  induction passes generalizing i with
  | zero =>
    refine ⟨true, rfl, fun _ j x hij hj _ => ?_, fun _ => rfl⟩
    omega
  | succ passes ih =>
    obtain ⟨b, hb, hiff⟩ := ih (i + 1) (by omega)
    have hget : name[i]? = some name[i] := List.getElem?_eq_getElem (by omega)
    rw [scanInner, hget]
    by_cases hc : nameAlphabet.inner name[i] = true
    · refine ⟨b, (if_pos hc).trans hb, hiff.trans ⟨fun hall j x hij hj hx => ?_, fun hall => ?_⟩⟩
      · rcases hij.eq_or_lt with rfl | hlt
        · obtain rfl := Option.some.inj (hget.symm.trans hx)
          exact hc
        · exact hall j x hlt (by omega) hx
      · exact fun j x hij hj hx => hall j x (by omega) (by omega) hx
    · refine ⟨false, if_neg hc, fun h => (by cases h), fun hall => ?_⟩
      exact absurd (hall i _ le_rfl (by omega) hget) hc

/-- The label at `start`, `k` bytes long, by the places the scan reads. -/
theorem isLabel_slice {name : List UInt8} {start k : Nat} (h : start + k ≤ name.length) :
    nameAlphabet.IsLabel ((name.drop start).take k) ↔
      3 ≤ k ∧ (∃ c, name[start]? = some c ∧ nameAlphabet.first c = true) ∧
        (∃ d, name[start + k - 1]? = some d ∧ nameAlphabet.last d = true) ∧
        ∀ j x, start + 1 ≤ j → j < start + k - 1 → name[j]? = some x →
          nameAlphabet.inner x = true := by
  have hlen : ((name.drop start).take k).length = k := by
    rw [List.length_take, List.length_drop]
    omega
  have hget : ∀ i, i < k → ((name.drop start).take k)[i]? = name[start + i]? := by
    intro i hi
    rw [List.getElem?_take_of_lt hi, List.getElem?_drop]
  rw [Alphabet.isLabel_iff, hlen]
  refine and_congr_right fun hk => ?_
  rw [hget 0 (by omega), hget (k - 1) (by omega), add_zero,
    show start + (k - 1) = start + k - 1 by omega]
  refine and_congr_right fun _ => and_congr_right fun _ => ⟨fun hall j x hj hlt hx => ?_,
    fun hall i x hpos hlt hx => ?_⟩
  · refine hall (j - start) x (by omega) (by omega) ?_
    rw [hget _ (by omega), show start + (j - start) = j by omega]
    exact hx
  · rw [hget _ (by omega)] at hx
    exact hall (start + i) x (by omega) (by omega) hx

/-! ## 3. The scan -/

/-- The end of the label at `start`: the next dot, or the end of the name. -/
theorem findFirstOf_spec {name : List UInt8} {start : Nat} (h : start ≤ name.length) :
    (findFirstOf name dotByte start = npos ∧ dotByte ∉ name.drop start) ∨
      ∃ k, findFirstOf name dotByte start = start + k ∧ start + k < name.length ∧
        dotByte ∉ (name.drop start).take k ∧
        name.drop start = (name.drop start).take k ++ dotByte :: name.drop (start + k + 1) := by
  unfold findFirstOf
  cases hfind : (name.drop start).findIdx? fun x => x == dotByte with
  | none =>
    refine .inl ⟨rfl, fun hmem => ?_⟩
    have hnone := List.findIdx?_eq_none_iff.mp hfind dotByte hmem
    rw [beq_self_eq_true] at hnone
    cases hnone
  | some k =>
    obtain ⟨hk, hdot, hbefore⟩ := List.findIdx?_eq_some_iff_getElem.mp hfind
    have hk' := hk
    rw [List.length_drop] at hk'
    refine .inr ⟨k, rfl, by omega, fun hmem => ?_, ?_⟩
    · obtain ⟨i, hi, hx⟩ := List.mem_iff_getElem.mp hmem
      rw [List.length_take] at hi
      rw [List.getElem_take] at hx
      refine hbefore i (by omega) ?_
      rw [hx]
      exact beq_self_eq_true _
    · have hsplit := List.take_append_drop k (name.drop start)
      rw [List.drop_eq_getElem_cons hk, eq_of_beq hdot, List.drop_drop,
        show start + (k + 1) = start + k + 1 by omega] at hsplit
      exact hsplit.symm

/-- What the scan decides about the label it has found: it is one, or the name is rejected. -/
theorem scanLabels_step {name : List UInt8} (passes : Nat) {start k : Nat}
    (hstart : start + k ≤ name.length) (hlen : name.length < npos)
    (hstop : (if findFirstOf name dotByte start = npos then name.length
      else findFirstOf name dotByte start) = start + k) :
    (nameAlphabet.IsLabel ((name.drop start).take k) ∧
        scanLabels name (passes + 1) start =
          if start + k = name.length then some true else scanLabels name passes (start + k + 1)) ∨
      (¬ nameAlphabet.IsLabel ((name.drop start).take k) ∧
        scanLabels name (passes + 1) start = some false) := by
  have hnpos : npos < 2 ^ 64 := by decide
  have hsub : sub64 (start + k) start = k := by
    rw [sub64_of_le (by omega) (by omega)]
    omega
  rw [scanLabels, hstop, hsub, isLabel_slice hstart]
  by_cases hk : k < 3
  · exact .inr ⟨fun h => absurd h.1 (by omega), if_pos hk⟩
  rw [if_neg hk, sub64_of_le (by omega) (by omega)]
  have hfirst : name[start]? = some name[start] := List.getElem?_eq_getElem (by omega)
  have hlast : name[start + k - 1]? = some name[start + k - 1] :=
    List.getElem?_eq_getElem (by omega)
  obtain ⟨b, hb, hinner⟩ :=
    scanInner_spec name (start + k - 1 - (start + 1)) (start + 1) (by omega)
  rw [show start + 1 + (start + k - 1 - (start + 1)) = start + k - 1 by omega] at hinner
  rw [hfirst, hlast, hb]
  by_cases hc : nameAlphabet.first name[start] = true
  case neg =>
    refine .inr ⟨fun h => ?_, if_neg hc⟩
    obtain ⟨_, ⟨c, hget, hok⟩, _⟩ := h
    obtain rfl := Option.some.inj hget
    exact hc hok
  by_cases hd : nameAlphabet.last name[start + k - 1] = true
  case neg =>
    refine .inr ⟨fun h => ?_, (if_pos hc).trans (if_neg hd)⟩
    obtain ⟨_, _, ⟨d, hget, hok⟩, _⟩ := h
    obtain rfl := Option.some.inj hget
    exact hd hok
  cases b with
  | false =>
    refine .inr ⟨fun h => ?_, (if_pos hc).trans (if_pos hd)⟩
    exact absurd (hinner.mpr h.2.2.2) Bool.false_ne_true
  | true =>
    exact .inl ⟨⟨by omega, ⟨_, rfl, hc⟩, ⟨_, rfl, hd⟩, hinner.mp rfl⟩,
      (if_pos hc).trans (if_pos hd)⟩

/-- **The scan from `start` on**, by induction on the passes that are left: enough of them for the
    bytes that are left. -/
theorem scanLabels_spec {name : List UInt8} (passes start : Nat) (hlen : name.length < npos)
    (hstart : start ≤ name.length) (hpasses : name.length < start + passes) :
    ∃ b, scanLabels name passes start = some b ∧
      (b = true ↔ nameAlphabet.Dotted (name.drop start)) := by
  induction passes generalizing start with
  | zero => omega
  | succ passes ih =>
    rcases findFirstOf_spec hstart with ⟨hfind, hnodot⟩ | ⟨k, hfind, hk, hnodot, hsplit⟩
    · -- the last label
      have hstop : (if findFirstOf name dotByte start = npos then name.length
          else findFirstOf name dotByte start) = start + (name.length - start) := by
        rw [if_pos hfind]
        omega
      have hwhole : (name.drop start).take (name.length - start) = name.drop start :=
        List.take_of_length_le (by rw [List.length_drop])
      have hstep := scanLabels_step passes (by omega) hlen hstop
      rw [hwhole] at hstep
      rw [show nameAlphabet.Dotted (name.drop start) ↔ nameAlphabet.IsLabel (name.drop start) from
        Alphabet.dotted_of_not_mem hnodot]
      rcases hstep with ⟨hlabel, hscan⟩ | ⟨hno, hscan⟩
      · refine ⟨true, hscan.trans (if_pos (by omega)), fun _ => hlabel, fun _ => rfl⟩
      · exact ⟨false, hscan, fun h => (by cases h), fun h => absurd h hno⟩
    · -- a label and a dot
      have hstop : (if findFirstOf name dotByte start = npos then name.length
          else findFirstOf name dotByte start) = start + k := by
        rw [if_neg (by omega), hfind]
      have hstep := scanLabels_step passes hk.le hlen hstop
      obtain ⟨b, hb, hrest⟩ := ih (start + k + 1) (by omega) (by omega)
      have hdotted : nameAlphabet.Dotted (name.drop start) ↔
          nameAlphabet.IsLabel ((name.drop start).take k) ∧
            nameAlphabet.Dotted (name.drop (start + k + 1)) := by
        conv_lhs => rw [hsplit]
        exact Alphabet.dotted_append hnodot
      rw [hdotted]
      rcases hstep with ⟨hlabel, hscan⟩ | ⟨hno, hscan⟩
      · refine ⟨b, (hscan.trans (if_neg (by omega))).trans hb, hrest.trans ?_⟩
        exact ⟨fun h => ⟨hlabel, h⟩, fun h => h.2⟩
      · exact ⟨false, hscan, fun h => (by cases h), fun h => absurd h.1 hno⟩

/-- The scan stays inside the string, ends, and accepts exactly the dotted words of 3 to 16
    bytes. -/
theorem scanAccountName_dotted (name : List UInt8) :
    ∃ b, scanAccountName name = some b ∧
      (b = true ↔ minAccountNameLength ≤ name.length ∧ name.length ≤ maxAccountNameLength ∧
        nameAlphabet.Dotted name) := by
  unfold scanAccountName
  by_cases hmin : name.length < minAccountNameLength
  · refine ⟨false, if_pos hmin, fun h => (by cases h), fun h => ?_⟩
    omega
  by_cases hmax : maxAccountNameLength < name.length
  · refine ⟨false, (if_neg hmin).trans (if_pos hmax), fun h => (by cases h), fun h => ?_⟩
    omega
  have hnpos : maxAccountNameLength < npos := by decide
  have hsize : name.length < npos := by omega
  obtain ⟨b, hb, hdotted⟩ :=
    scanLabels_spec (name.length + 1) 0 hsize (Nat.zero_le _) (by omega)
  refine ⟨b, (if_neg hmin).trans ((if_neg hmax).trans hb), hdotted.trans ?_⟩
  exact ⟨fun h => ⟨by omega, by omega, h⟩, fun h => h.2.2⟩

/-- **Account names.** For every string of bytes the scan reads no place outside the string and
    ends, and it accepts exactly what has 3 to 16 bytes and consists of one or more labels joined
    by dots, each of three bytes or more, the first a lowercase letter, the last a lowercase letter
    or a digit, and those between them lowercase letters, digits and hyphens. -/
theorem is_valid_account_name_spec (name : List UInt8) :
    ∃ b, scanAccountName name = some b ∧
      (b = true ↔ 3 ≤ name.length ∧ name.length ≤ 16 ∧
        ∃ labels : List (List UInt8), labels ≠ [] ∧ name = List.intercalate [dotByte] labels ∧
          ∀ l ∈ labels, 3 ≤ l.length ∧ (∃ c, l[0]? = some c ∧ isLowerByte c = true) ∧
            (∃ d, l[l.length - 1]? = some d ∧ (isLowerByte d || isDigitByte d) = true) ∧
            ∀ i x, 0 < i → i < l.length - 1 → l[i]? = some x →
              (isLowerByte x || isDigitByte x || x == 45) = true) := by
  obtain ⟨b, hb, hspec⟩ := scanAccountName_dotted name
  refine ⟨b, hb, hspec.trans (and_congr_right fun _ => and_congr_right fun _ => ?_)⟩
  rw [Alphabet.dotted_iff_intercalate]
  refine exists_congr fun labels => and_congr_right fun _ => and_congr_right fun _ => ?_
  exact forall₂_congr fun l _ => Alphabet.isLabel_iff

/-! ## 4. The test of the evaluators -/

/-- `nameAlphabet` as characters. -/
def charAlphabet : Alphabet Char where
  dot := '.'
  first := isLower
  inner c := isLower c || isDigit c || c = '-'
  last c := isLower c || isDigit c
  first_dot := by decide
  inner_dot := by decide
  last_dot := by decide

theorem splitDots_of_not_mem {l : List Char} (h : '.' ∉ l) : splitDots l = [l] := by
  induction l with
  | nil => rfl
  | cons c cs ih =>
    obtain ⟨hc, hcs⟩ := List.ne_and_not_mem_of_not_mem_cons h
    rw [splitDots, if_neg (Ne.symm hc), ih hcs]

theorem splitDots_append {l rest : List Char} (h : '.' ∉ l) :
    splitDots (l ++ '.' :: rest) = l :: splitDots rest := by
  induction l with
  | nil => exact if_pos rfl
  | cons c cs ih =>
    obtain ⟨hc, hcs⟩ := List.ne_and_not_mem_of_not_mem_cons h
    rw [List.cons_append, splitDots, if_neg (Ne.symm hc), ih hcs]

theorem isValidLabel_iff (l : List Char) : isValidLabel l = true ↔ charAlphabet.IsLabel l := by
  constructor
  · intro h
    unfold isValidLabel at h
    rw [Bool.and_eq_true, Bool.and_eq_true, Bool.and_eq_true, decide_eq_true_eq] at h
    obtain ⟨⟨⟨hlen, hfirst⟩, hlast⟩, hinner⟩ := h
    cases l with
    | nil => cases hfirst
    | cons c tail =>
      rcases List.eq_nil_or_concat tail with rfl | ⟨mid, d, rfl⟩
      · exact absurd hlen (by simp)
      · rw [List.concat_eq_append] at hlen hlast hinner ⊢
        rw [List.length_cons, List.length_append, List.length_singleton] at hlen
        rw [← List.cons_append, List.getLast?_concat] at hlast
        rw [List.tail_cons, List.dropLast_concat, List.all_eq_true] at hinner
        exact ⟨hfirst, List.ne_nil_of_length_pos (by omega), hinner, hlast⟩
  · rintro ⟨hc, hmid, hinner, hd⟩
    rename_i c d mid
    have hlen : 0 < mid.length := List.length_pos_of_ne_nil hmid
    have hall : (mid.all fun c => isLower c || isDigit c || c = '-') = true :=
      List.all_eq_true.mpr hinner
    unfold isValidLabel
    rw [List.tail_cons, List.dropLast_concat, ← List.cons_append, List.getLast?_concat, hall]
    have hthree : 3 ≤ (c :: mid ++ [d]).length := by
      rw [List.length_append, List.length_cons, List.length_singleton]
      omega
    have hfirst : isLower c = true := hc
    have hlast : (isLower d || isDigit d) = true := hd
    rw [decide_eq_true hthree]
    show (true && isLower c && (isLower d || isDigit d) && true) = true
    rw [hfirst, hlast]
    rfl

/-- By strong induction on the length, from dot to dot. -/
theorem splitDots_iff (l : List Char) :
    (splitDots l).all isValidLabel = true ↔ charAlphabet.Dotted l := by
  by_cases hdot : '.' ∈ l
  · obtain ⟨label, rest, hl, hnodot⟩ := List.eq_append_cons_of_mem hdot
    have hshort : rest.length < l.length := by
      rw [hl, List.length_append, List.length_cons]
      omega
    have ih := splitDots_iff rest
    rw [hl, splitDots_append hnodot, List.all_cons, Bool.and_eq_true, isValidLabel_iff, ih]
    exact (Alphabet.dotted_append (A := charAlphabet) hnodot).symm
  · rw [splitDots_of_not_mem hdot, List.all_cons, List.all_nil, Bool.and_true, isValidLabel_iff]
    exact (Alphabet.dotted_of_not_mem (A := charAlphabet) hdot).symm
termination_by l.length

/-- The bytes of a string. -/
def utf8Bytes (name : String) : List UInt8 := name.toList.flatMap String.utf8EncodeChar

theorem utf8Bytes_eq (name : String) : name.toUTF8.data.toList = utf8Bytes name := by
  rw [String.toUTF8_eq_toByteArray, ← String.utf8Encode_toList, List.utf8Encode,
    List.data_toByteArray]
  rfl

theorem length_utf8Bytes (name : String) : (utf8Bytes name).length = name.utf8ByteSize := by
  rw [← utf8Bytes_eq, String.toUTF8_eq_toByteArray, Array.length_toList]
  exact String.size_toByteArray

/-- The last byte of a character of several bytes is not below 128. -/
theorem exists_high_byte {c : Char} (h : 127 < c.val) : ∃ b ∈ String.utf8EncodeChar c, 128 ≤ b := by
  have htail : ∀ l : List UInt8, ∃ b ∈ l ++ [c.val.toUInt8 &&& 0x3f ||| 0x80], 128 ≤ b :=
    fun l => ⟨_, List.mem_append_right l (List.mem_singleton_self _), UInt8.right_le_or⟩
  have hone : c.utf8Size ≠ 1 := by
    intro hsize
    exact absurd (Char.utf8Size_eq_one_iff.mp hsize) (UInt32.not_le.mpr h)
  rcases Char.utf8Size_eq c with hsize | hsize | hsize | hsize
  · exact absurd hsize hone
  · rw [String.utf8EncodeChar_eq_cons_cons hsize]
    exact htail [_]
  · rw [String.utf8EncodeChar_eq_cons_cons_cons hsize]
    exact htail [_, _]
  · rw [String.utf8EncodeChar_eq_cons_cons_cons_cons hsize]
    exact htail [_, _, _]

def toByte (c : Char) : UInt8 := UInt8.ofNat c.toNat

def ofByte (b : UInt8) : Char := Char.ofNat b.toNat

/-- Below 128 a byte and its character are of the same kind. -/
theorem kind_of_lt : ∀ k < 128, isLowerByte (UInt8.ofNat k) = isLower (Char.ofNat k) ∧
    isDigitByte (UInt8.ofNat k) = isDigit (Char.ofNat k) ∧
    (UInt8.ofNat k == 45) = decide (Char.ofNat k = '-') ∧ (Char.ofNat k).toNat = k := by
  decide +kernel

theorem charAlphabet_low {c : Char} (h : charAlphabet.Letter c) : c.toNat < 128 := by
  have hrange : ∀ a b : Char, (decide (a ≤ c) && decide (c ≤ b)) = true → b.toNat < 128 →
      c.toNat < 128 := by
    intro a b hc hb
    rw [Bool.and_eq_true, decide_eq_true_eq, decide_eq_true_eq] at hc
    exact (UInt32.le_iff_toNat_le.mp hc.2).trans_lt hb
  have hlower : isLower c = true → c.toNat < 128 := fun hc => hrange 'a' 'z' hc (by decide)
  have hdigit : isDigit c = true → c.toNat < 128 := fun hc => hrange '0' '9' hc (by decide)
  rcases h with rfl | hc | hc | hc
  · decide
  · exact hlower hc
  · rcases (Bool.or_eq_true _ _).mp hc with hc | hc
    · exact ((Bool.or_eq_true _ _).mp hc).elim hlower hdigit
    · obtain rfl := of_decide_eq_true hc
      decide
  · exact ((Bool.or_eq_true _ _).mp hc).elim hlower hdigit

theorem nameAlphabet_low {b : UInt8} (h : nameAlphabet.Letter b) : b.toNat < 128 := by
  have hall : ∀ k < 256, 128 ≤ k → isLowerByte (UInt8.ofNat k) = false ∧
      isDigitByte (UInt8.ofNat k) = false ∧ (UInt8.ofNat k == 45) = false ∧
      (UInt8.ofNat k == dotByte) = false := by decide +kernel
  by_contra hhigh
  obtain ⟨hlower, hdigit, hhyphen, hdot⟩ := hall b.toNat b.toNat_lt (Nat.not_lt.mp hhigh)
  rw [UInt8.ofNat_toNat] at hlower hdigit hhyphen hdot
  rcases h with rfl | hc | hc | hc
  · cases hdot
  · exact Bool.false_ne_true (hlower.symm.trans hc)
  · have hc' : (isLowerByte b || isDigitByte b || b == 45) = true := hc
    rw [hlower, hdigit, hhyphen] at hc'
    cases hc'
  · have hc' : (isLowerByte b || isDigitByte b) = true := hc
    rw [hlower, hdigit] at hc'
    cases hc'

theorem charAlphabet_keeps : Alphabet.Keeps charAlphabet nameAlphabet toByte := by
  have hkind : ∀ c, charAlphabet.Letter c → isLowerByte (toByte c) = isLower c ∧
      isDigitByte (toByte c) = isDigit c ∧ (toByte c == 45) = decide (c = '-') := by
    intro c hc
    obtain ⟨hlower, hdigit, hhyphen, _⟩ := kind_of_lt c.toNat (charAlphabet_low hc)
    rw [Char.ofNat_toNat] at hlower hdigit hhyphen
    exact ⟨hlower, hdigit, hhyphen⟩
  refine ⟨rfl, fun c hc => ?_, fun c hc => ?_, fun c hc => ?_⟩
  · exact (hkind c (.inr (.inl hc))).1.trans hc
  · obtain ⟨hlower, hdigit, hhyphen⟩ := hkind c (.inr (.inr (.inl hc)))
    show (isLowerByte (toByte c) || isDigitByte (toByte c) || toByte c == 45) = true
    rw [hlower, hdigit, hhyphen]
    exact hc
  · obtain ⟨hlower, hdigit, _⟩ := hkind c (.inr (.inr (.inr hc)))
    show (isLowerByte (toByte c) || isDigitByte (toByte c)) = true
    rw [hlower, hdigit]
    exact hc

theorem nameAlphabet_keeps : Alphabet.Keeps nameAlphabet charAlphabet ofByte := by
  have hkind : ∀ b, nameAlphabet.Letter b → isLower (ofByte b) = isLowerByte b ∧
      isDigit (ofByte b) = isDigitByte b ∧ decide (ofByte b = '-') = (b == 45) := by
    intro b hb
    obtain ⟨hlower, hdigit, hhyphen, _⟩ := kind_of_lt b.toNat (nameAlphabet_low hb)
    rw [UInt8.ofNat_toNat] at hlower hdigit hhyphen
    exact ⟨hlower.symm, hdigit.symm, hhyphen.symm⟩
  refine ⟨rfl, fun b hb => ?_, fun b hb => ?_, fun b hb => ?_⟩
  · exact (hkind b (.inr (.inl hb))).1.trans hb
  · obtain ⟨hlower, hdigit, hhyphen⟩ := hkind b (.inr (.inr (.inl hb)))
    show (isLower (ofByte b) || isDigit (ofByte b) || decide (ofByte b = '-')) = true
    rw [hlower, hdigit, hhyphen]
    exact hb
  · obtain ⟨hlower, hdigit, _⟩ := hkind b (.inr (.inr (.inr hb)))
    show (isLower (ofByte b) || isDigit (ofByte b)) = true
    rw [hlower, hdigit]
    exact hb

/-- Characters below 128 have one byte each, and are read back from it. -/
theorem flatMap_of_low {l : List Char} (h : ∀ c ∈ l, c.toNat < 128) :
    l.flatMap String.utf8EncodeChar = l.map toByte ∧ (l.map toByte).map ofByte = l := by
  induction l with
  | nil => exact ⟨rfl, rfl⟩
  | cons c l ih =>
    obtain ⟨hbytes, hback⟩ := ih fun d hd => h d (List.mem_cons_of_mem c hd)
    have hc : c.toNat < 128 := h c List.mem_cons_self
    have hsize : c.utf8Size = 1 := by
      rw [Char.utf8Size_eq_one_iff, UInt32.le_iff_toNat_le]
      exact Nat.le_of_lt_succ hc
    have hone : String.utf8EncodeChar c = [toByte c] := by
      rw [String.utf8EncodeChar_eq_singleton hsize]
      refine congrArg (fun b => [b]) (UInt8.toNat_inj.mp ?_)
      rw [UInt32.toNat_toUInt8, toByte, UInt8.toNat_ofNat']
      rfl
    have hchar : ofByte (toByte c) = c := by
      rw [ofByte, toByte, UInt8.toNat_ofNat', Nat.mod_eq_of_lt (by omega), Char.ofNat_toNat]
    exact ⟨by rw [List.flatMap_cons, hone, hbytes]; rfl, by rw [List.map_cons, List.map_cons,
      hchar, hback]⟩

theorem dotted_bytes_iff (l : List Char) :
    nameAlphabet.Dotted (l.flatMap String.utf8EncodeChar) ↔ charAlphabet.Dotted l := by
  constructor
  · intro h
    have hlow : ∀ c ∈ l, c.toNat < 128 := by
      intro c hc
      by_contra hhigh
      obtain ⟨b, hb, h128⟩ := exists_high_byte (c := c)
        (UInt32.lt_iff_toNat_lt.mpr (Nat.lt_of_succ_le (Nat.not_lt.mp hhigh)))
      have hletter := h.letter b (List.mem_flatMap.mpr ⟨c, hc, hb⟩)
      have hlt := nameAlphabet_low hletter
      have hge := UInt8.le_iff_toNat_le.mp h128
      exact absurd hlt (Nat.not_lt.mpr hge)
    obtain ⟨hbytes, hback⟩ := flatMap_of_low hlow
    rw [hbytes] at h
    have hmap := h.map nameAlphabet_keeps
    rw [hback] at hmap
    exact hmap
  · intro h
    rw [(flatMap_of_low fun c hc => charAlphabet_low (h.letter c hc)).1]
    exact h.map charAlphabet_keeps

/-- The evaluators' test of a name is the scan of its bytes. -/
theorem isValidAccountName_iff (name : String) :
    isValidAccountName name = true ↔ scanAccountName name.toUTF8.data.toList = some true := by
  rw [utf8Bytes_eq]
  obtain ⟨b, hb, hspec⟩ := scanAccountName_dotted (utf8Bytes name)
  rw [hb, Option.some.injEq, hspec, length_utf8Bytes, utf8Bytes, dotted_bytes_iff,
    ← splitDots_iff]
  unfold isValidAccountName
  rw [Bool.and_eq_true, Bool.and_eq_true, decide_eq_true_eq, decide_eq_true_eq, and_assoc]

end MuseChain
