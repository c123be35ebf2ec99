/-
  File:      MuseChain/Protocol/AmountText.lean
  Subject:   Amounts as text: asset::to_string and from_string, the variants of a share_type, and
             asset_object::amount_to_string and amount_from_string.

  A text is a list of characters; a place in it and a length are `size_t`, with `npos` for a place
  that was not found. `fc::trim`, `to_int64`, `to_uint64` and `to_string` are not part of the
  repository: they are the operations of `FcText`, and `FcText.Documented` says what is relied on.
  A product or a sum of plain `int64_t` is taken modulo 2^64.
-/
import MuseChain.Lib.Decimals
import MuseChain.Protocol.AccountName
import MuseChain.Protocol.Asset

namespace MuseChain

abbrev Text := List Char

/-! ## 1. Strings -/

/-- `s.find( c, pos )`. -/
def find (s : Text) (c : Char) (pos : Nat) : Nat :=
  match (s.drop pos).findIdx? fun x => x == c with
  | some k => pos + k
  | none => npos

/-- `s.substr( pos, count )`, which throws behind the end. -/
def substr (s : Text) (pos count : Nat) : Except Exn Text :=
  if s.length < pos then .error (.assert "basic_string::substr")
  else .ok ((s.drop pos).take count)

def minus (neg : Bool) : Text := if neg then ['-'] else []

def signed (neg : Bool) (n : Nat) : Int := if neg then -(n : Int) else n

/-- `std::to_string`. -/
def stdToString (x : Int) : Text := minus (decide (x < 0)) ++ Nat.toDigits 10 x.natAbs

def isSpace (c : Char) : Bool := c = ' ' || ('\t' ≤ c && c ≤ '\r')

/-- `std::stoll`: blanks, a sign, and the digits up to the first character that is none. -/
def stoll (s : Text) : Except Exn Int :=
  let t := s.dropWhile isSpace
  let neg := t.head? = some '-'
  let digits := (if neg ∨ t.head? = some '+' then t.drop 1 else t).takeWhile isDigit
  let x := signed neg (decimal digits)
  if digits = [] then .error (.assert "stoll: invalid_argument")
  else if int64Min ≤ x ∧ x ≤ int64Max then .ok x
  else .error (.assert "stoll: out_of_range")

/-- `while( s.size() < n ) s += '0';` -/
def padTo (n : Nat) (s : Text) : Text :=
  if s.length < n then padTo n (s ++ ['0']) else s
termination_by n - s.length
decreasing_by
  rw [List.length_append, List.length_singleton]
  omega

/-- What is called of fc. -/
class FcText where
  trim : Text → Text
  toInt64 : Text → Except Exn Int
  toUint64 : Text → Except Exn Nat
  toString : Int → Text

/-- `trim` takes blanks off both ends; the two parsers read a whole decimal number, with a minus for
    the signed one, and throw at an empty text and at a number that does not fit; `toString` writes
    what `std::to_string` writes. -/
structure FcText.Documented [FcText] : Prop where
  trim_eq : ∀ s : Text, (∀ c ∈ s.head?, isSpace c = false) →
    (∀ c ∈ s.getLast?, isSpace c = false) → trim s = s
  toInt64_fits : ∀ (neg : Bool) (w : Text), w ≠ [] → AllDigits w →
    int64Min ≤ signed neg (decimal w) → signed neg (decimal w) ≤ int64Max →
    toInt64 (minus neg ++ w) = .ok (signed neg (decimal w))
  toInt64_large : ∀ w : Text, AllDigits w → int64Max < decimal w → ∃ e, toInt64 w = .error e
  toInt64_nil : ∃ e, toInt64 [] = .error e
  toUint64_digits : ∀ w : Text, w ≠ [] → AllDigits w → decimal w < 2 ^ 64 →
    toUint64 w = .ok (decimal w)
  toString_eq : ∀ x : Int, toString x = stdToString x

/-! ## 2. asset -/

def assetPrecision : Nat := 6
def staticPrecision : Int := 1000000
def maxInstanceId : Nat := 281474976710655
def implementationIds : Int := 2
def implAssetObjectType : Int := 28

/-- A product of two `int64_t`. -/
def mulInt64 (x y : Int) : Int := int64OfNat (uint64OfInt (x * y))

/-- `amount + fract`, an `int64_t` and a `uint64_t`, stored in an `int64_t`. -/
def addUint64 (amount : Int) (fract : Nat) : Int := int64OfNat (uint64OfInt amount + fract)

variable [FcText]

/-- `std::string( object_id_type( id ) )` of an asset id. -/
def assetIdText (id : Nat) : Except Exn Text :=
  if id ≤ maxInstanceId then
    .ok (FcText.toString implementationIds ++ '.' :: FcText.toString implAssetObjectType ++
      '.' :: FcText.toString id)
  else .error (.assert "instance overflow")

def Asset.toText (a : Asset) : Except Exn Text := do
  let initDigits := a.amount.tdiv staticPrecision
  let fraction := uint64OfInt (a.amount.tmod staticPrecision)
  let output := stdToString initDigits
  let output := output ++ '.' :: (stdToString (u64 (1000000 + fraction))).drop 1
  let id ← assetIdText a.assetId
  pure (output ++ ' ' :: id)

/-- The amount in front of the first blank. -/
def Asset.parseAmount (s : Text) (dotPos spacePos : Nat) : Except Exn Int :=
  if spacePos < dotPos then do
    let intpart ← substr s 0 spacePos
    let units ← FcText.toInt64 intpart
    pure (mulInt64 units staticPrecision)
  else do
    let intpart ← substr s 0 dotPos
    let units ← FcText.toInt64 intpart
    let fractpart ← substr s (u64 (dotPos + 1))
      (min (sub64 (sub64 spacePos dotPos) 1) assetPrecision)
    let fractAmount ← FcText.toInt64 (padTo assetPrecision fractpart)
    pure (addUint64 (mulInt64 units staticPrecision) (uint64OfInt fractAmount))

/-- The instance behind the second dot. -/
def Asset.parseId (s : Text) (spacePos : Nat) : Except Exn Nat := do
  let assetId ← substr s (u64 (spacePos + 1)) npos
  let firstDot := find assetId '.' 0
  let secondDot := find assetId '.' (u64 (firstDot + 1))
  if firstDot = secondDot then .error (.assert "first_dot != second_dot")
  else if firstDot = 0 ∨ firstDot = npos then
    .error (.assert "first_dot != 0 && first_dot != std::string::npos")
  else do
    let instanceText ← substr assetId (u64 (secondDot + 1)) npos
    let number ← FcText.toUint64 instanceText
    if number ≤ maxInstanceId then pure number
    else .error (.assert "number <= GRAPHENE_DB_MAX_INSTANCE_ID")

def Asset.fromText (source : Text) : Except Exn Asset :=
  let s := FcText.trim source
  let dotPos := find s '.' 0
  let spacePos := find s ' ' 0
  if spacePos = npos then .error (.assert "space_pos != std::string::npos")
  else do
    let amount ← Asset.parseAmount s dotPos spacePos
    let number ← Asset.parseId s spacePos
    pure ⟨amount, number⟩

/-! ## 3. share_type -/

/-- `to_variant`. -/
def shareToText (x : Int) : Text :=
  FcText.toString (x.tdiv staticPrecision) ++
    '.' :: (stdToString (staticPrecision + x.tmod staticPrecision)).drop 1

/-- `for( size_t i = …; i < fractpart.length(); i-- ) fract_amount *= 10;` The counter goes down,
    and from 0 to the largest `size_t`, where the loop ends. -/
def scaleFraction (length i fractAmount : Nat) : Nat :=
  if i < u64 length then scaleFraction length (sub64 i 1) (u64 (fractAmount * 10))
  else fractAmount
termination_by if i < u64 length then i + 1 else 0
decreasing_by
  have hlt : u64 length < 2 ^ 64 := Nat.mod_lt _ (by decide)
  have hi : sub64 i 1 = if i = 0 then 2 ^ 64 - 1 else i - 1 := by
    unfold sub64 u64
    split <;> omega
  rw [hi]
  repeat' split
  all_goals omega

/-- `from_variant`. -/
def shareFromText (source : Text) : Except Exn Int := do
  let s := FcText.trim source
  let dotPos := find s '.' 0
  if dotPos ≠ npos then do
    let intpart ← substr s 0 dotPos
    let units ← FcText.toInt64 intpart
    let fractpart ← substr s (u64 (dotPos + 1))
      (max (sub64 (sub64 s.length dotPos) 1) assetPrecision)
    let fractAmount ← FcText.toInt64 fractpart
    pure (addUint64 (mulInt64 units staticPrecision)
      (scaleFraction fractpart.length assetPrecision (uint64OfInt fractAmount)))
  else FcText.toInt64 s

/-! ## 4. asset_object -/

/-- `for( … ) res *= 10;` over a share_type. -/
def powerLoop : Nat → Int → Except Exn Int
  | 0, res => .ok res
  | i + 1, res => do
      let res ← safe (res * 10)
      powerLoop i res

def scaledPrecision (decimals : Nat) : Except Exn Int :=
  if decimals < 19 then powerLoop decimals 1 else .error (.assert "decimals<19")

/-- The loop over the characters: whether a minus and whether a dot were found. -/
def checkChars : Text → Bool → Bool → Except Exn (Bool × Bool)
  | [], negativeFound, decimalFound => .ok (negativeFound, decimalFound)
  | c :: rest, negativeFound, decimalFound =>
      if isDigit c then checkChars rest negativeFound decimalFound
      else if c = '-' ∧ negativeFound = false then checkChars rest true decimalFound
      else if c = '.' ∧ decimalFound = false then checkChars rest negativeFound true
      else .error (.assert "amount_string")

/-- The digits in front of the dot, as `satoshis`. -/
def wholePart (lhs : Text) (scaled : Int) : Except Exn Int :=
  if lhs = [] then .ok 0
  else do
    let units ← stoll lhs
    let units ← safe (units * scaled)
    safe (0 + units)

/-- The digits behind the dot, if there is one, added to `satoshis`. -/
def addFraction (decimalFound : Bool) (amountString : Text) (decimalPos : Nat)
    (scaled satoshis : Int) : Except Exn Int :=
  if decimalFound then do
    let zeros ← substr (stdToString scaled) 1 npos
    let rhs ← substr amountString (u64 (decimalPos + 1)) npos
    if rhs.length ≤ zeros.length then
      if padTo zeros.length rhs = [] then .ok satoshis
      else do
        let fraction ← stoll (padTo zeros.length rhs)
        safe (satoshis + fraction)
    else .error (.assert "rhs.size() <= max_rhs_size")
  else .ok satoshis

/-- `amount_from_string` of an asset_object with this precision and id. -/
def amountFromText (precision id : Nat) (amountString : Text) : Except Exn Asset := do
  let found ← checkChars amountString false false
  let scaled ← scaledPrecision precision
  let decimalPos := find amountString '.' 0
  let lhs ← substr amountString (if found.1 then 1 else 0) decimalPos
  let satoshis ← wholePart lhs scaled
  let satoshis ← addFraction found.2 amountString decimalPos scaled satoshis
  if satoshis ≤ maxShareSupply then
    if found.1 then do
      let satoshis ← safe (satoshis * -1)
      pure ⟨satoshis, id⟩
    else pure ⟨satoshis, id⟩
  else .error (.assert "satoshis <= MUSE_MAX_SHARE_SUPPLY")

/-- `amount_to_string` of an asset_object with this precision. -/
def amountToText (precision : Nat) (amount : Int) : Except Exn Text := do
  let scaled ← powerLoop precision 1
  let result := FcText.toString (amount.tdiv scaled)
  let decimals := amount.tmod scaled
  if decimals ≠ 0 then
    pure (result ++ '.' :: (FcText.toString (scaled + decimals)).drop 1)
  else pure result

end MuseChain
