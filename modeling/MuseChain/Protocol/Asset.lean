/-
  File:      MuseChain/Protocol/Asset.lean
  Subject:   Amounts: fc::safe<int64_t>, asset, price.

  A `share_type` is an integer whose every operation throws when the result leaves int64
  (`safe`). A product of an asset and a price is computed in 128 bits without sign and cut down
  to 64; the result is read as a signed number again, so it can come out negative.
-/
import MuseChain.Db.Action
import MuseChain.Protocol.Config

namespace MuseChain

/-! ## 1. Machine integers -/

def int64Min : Int := -9223372036854775808
def int64Max : Int := 9223372036854775807

/-- The result of a `fc::safe<int64_t>` operation. -/
def safe (x : Int) : Except Exn Int :=
  if int64Min ≤ x ∧ x ≤ int64Max then .ok x else .error (.overflow "Integer Overflow")

theorem safe_ok {x y : Int} : safe x = .ok y ↔ y = x ∧ int64Min ≤ x ∧ x ≤ int64Max := by
  unfold safe
  split
  · rename_i h
    simp [h, eq_comm]
  · rename_i h
    simp [h]

theorem except_bind_ok {α β : Type} {x : Except Exn α} {f : α → Except Exn β} {b : β} :
    (x >>= f) = .ok b ↔ ∃ a, x = .ok a ∧ f a = .ok b := by
  cases x with
  | error e => exact ⟨fun h => (by cases h), fun ⟨_, h, _⟩ => (by cases h)⟩
  | ok a => exact ⟨fun h => ⟨a, rfl, h⟩, fun ⟨a', h, h'⟩ => by cases h; exact h'⟩

/-- `a / b` of two shares: truncated, and a division by zero throws. -/
def safeDiv (a b : Int) : Except Exn Int :=
  if b = 0 then .error (.overflow "Divide by zero") else safe (Int.tdiv a b)

/-- `a % b` of two shares. -/
def safeMod (a b : Int) : Except Exn Int :=
  if b = 0 then .error (.overflow "Divide by zero") else .ok (Int.tmod a b)

def u16 (n : Nat) : Nat := n % 2 ^ 16
def u32 (n : Nat) : Nat := n % 2 ^ 32
def u64 (n : Nat) : Nat := n % 2 ^ 64
def u128 (n : Nat) : Nat := n % 2 ^ 128

theorem u32_of_lt {x : Nat} (h : x < 2 ^ 32) : u32 x = x := Nat.mod_eq_of_lt h

theorem u64_of_lt {x : Nat} (h : x < 2 ^ 64) : u64 x = x := Nat.mod_eq_of_lt h

theorem u64_lt (x : Nat) : u64 x < 2 ^ 64 := Nat.mod_lt x (by decide)

theorem u64_le (x : Nat) : u64 x ≤ x := Nat.mod_le x _

/-- `a - b` of two `uint32_t`. -/
def sub32 (a b : Nat) : Nat := u32 (a + (4294967296 - b))

/-- A signed number as a `uint64_t`. -/
def uint64OfInt (x : Int) : Nat := (x % 2 ^ 64).toNat

theorem uint64OfInt_natCast (x : Nat) : uint64OfInt x = u64 x := by
  unfold uint64OfInt u64
  omega

/-- A signed number as a `fc::uint128`. -/
def uint128OfInt (x : Int) : Nat := (x % 2 ^ 128).toNat

/-- A `uint64_t` as an `int64_t`. -/
def int64OfNat (n : Nat) : Int :=
  if n % 2 ^ 64 < 2 ^ 63 then (n % 2 ^ 64 : Nat) else (n % 2 ^ 64 : Nat) - 2 ^ 64

theorem int64OfNat_of_lt {n : Nat} (h : n < 2 ^ 63) : int64OfNat n = n := by
  have e : n % 2 ^ 64 = n := Nat.mod_eq_of_lt (by omega)
  unfold int64OfNat
  rw [e, if_pos h]

/-! ## 2. Assets -/

structure Asset where
  amount : Int
  assetId : Nat
  deriving DecidableEq, Repr, Inhabited

namespace Asset

def muse (x : Int) : Asset := ⟨x, museSymbol⟩
def vests (x : Int) : Asset := ⟨x, vestsSymbol⟩
def mbd (x : Int) : Asset := ⟨x, mbdSymbol⟩

def sameAsset (a b : Asset) : Except Exn Unit :=
  if a.assetId = b.assetId then .ok () else .error (.assert "a.asset_id == b.asset_id")

def add (a b : Asset) : Except Exn Asset := do
  sameAsset a b
  let x ← safe (a.amount + b.amount)
  pure ⟨x, a.assetId⟩

def sub (a b : Asset) : Except Exn Asset := do
  sameAsset a b
  let x ← safe (a.amount - b.amount)
  pure ⟨x, a.assetId⟩

def neg (a : Asset) : Except Exn Asset := do
  let x ← safe (-a.amount)
  pure ⟨x, a.assetId⟩

theorem sameAsset_ok {a b : Asset} {u : Unit} (h : sameAsset a b = .ok u) :
    a.assetId = b.assetId := by
  unfold sameAsset at h
  split at h
  · assumption
  · cases h

theorem add_ok {a b c : Asset} (h : a.add b = .ok c) :
    a.assetId = b.assetId ∧ c = ⟨a.amount + b.amount, a.assetId⟩ := by
  obtain ⟨_, h1, h⟩ := except_bind_ok.mp h
  obtain ⟨x, h2, h⟩ := except_bind_ok.mp h
  cases h
  exact ⟨sameAsset_ok h1, by rw [(safe_ok.mp h2).1]⟩

theorem sub_ok {a b c : Asset} (h : a.sub b = .ok c) :
    a.assetId = b.assetId ∧ c = ⟨a.amount - b.amount, a.assetId⟩ := by
  obtain ⟨_, h1, h⟩ := except_bind_ok.mp h
  obtain ⟨x, h2, h⟩ := except_bind_ok.mp h
  cases h
  exact ⟨sameAsset_ok h1, by rw [(safe_ok.mp h2).1]⟩

theorem neg_ok {a b : Asset} (h : a.neg = .ok b) : b = ⟨-a.amount, a.assetId⟩ := by
  obtain ⟨x, h1, h⟩ := except_bind_ok.mp h
  cases h
  rw [(safe_ok.mp h1).1]

/-- `a < b`, which asserts that the assets are the same. -/
def lt (a b : Asset) : Except Exn Bool := do
  sameAsset a b
  pure (decide (a.amount < b.amount))

/-- `a <= b` is `(a == b) || (a < b)`: the assertion is only reached when they differ. -/
def le (a b : Asset) : Except Exn Bool := if a = b then .ok true else a.lt b

def ge (a b : Asset) : Except Exn Bool := do
  let r ← a.lt b
  pure !r

def gt (a b : Asset) : Except Exn Bool := do
  let r ← a.le b
  pure !r

/-- `std::max( a, b )`. -/
def max (a b : Asset) : Except Exn Asset := do
  let r ← a.lt b
  pure (if r then b else a)

/-- `asset * uint32_t`. -/
def mulNat (a : Asset) (n : Nat) : Except Exn Asset := do
  let x ← safe (a.amount * n)
  pure ⟨x, a.assetId⟩

/-- `asset / uint32_t`. -/
def divNat (a : Asset) (n : Nat) : Except Exn Asset := do
  let x ← safeDiv a.amount n
  pure ⟨x, a.assetId⟩

end Asset

/-! ## 3. Prices -/

structure Price where
  base : Asset
  quote : Asset
  deriving DecidableEq, Repr, Inhabited

namespace Price

/-- `uint128_t( x ) * y`. -/
def mul128 (x y : Int) : Nat := u128 (uint128OfInt x * uint128OfInt y)

def beq (a b : Price) : Bool :=
  a.base.assetId = b.base.assetId && a.quote.assetId = b.quote.assetId &&
    mul128 b.quote.amount a.base.amount = mul128 a.quote.amount b.base.amount

def blt (a b : Price) : Bool :=
  if a.base.assetId < b.base.assetId then true
  else if a.base.assetId > b.base.assetId then false
  else if a.quote.assetId < b.quote.assetId then true
  else if a.quote.assetId > b.quote.assetId then false
  else mul128 b.quote.amount a.base.amount < mul128 a.quote.amount b.base.amount

def ble (a b : Price) : Bool := a.beq b || a.blt b

def null : Price := ⟨⟨0, museSymbol⟩, ⟨0, museSymbol⟩⟩

def isNull (p : Price) : Bool := p.beq null

/-- `~p`. -/
def invert (p : Price) : Price := ⟨p.quote, p.base⟩

def validate (p : Price) : Except Exn Unit :=
  if p.base.amount ≤ 0 then .error (.assert "base.amount > share_type(0)")
  else if p.quote.amount ≤ 0 then .error (.assert "quote.amount > share_type(0)")
  else if p.base.assetId = p.quote.assetId then
    .error (.assert "base.asset_id != quote.asset_id")
  else .ok ()

/-- `asset / asset`. -/
def ofAssets (base quote : Asset) : Except Exn Price :=
  if base.assetId = quote.assetId then .error (.assert "base.asset_id != quote.asset_id")
  else .ok ⟨base, quote⟩

/-- `price::max( base, quote )`. -/
def maxOf (base quote : Nat) : Except Exn Price := ofAssets ⟨maxShareSupply, base⟩ ⟨1, quote⟩

/-- `amount * num / den` in 128 bits, which must fit in 64. -/
def scale (amount num den : Int) : Except Exn Int :=
  if den ≤ 0 then .error (.assert "b.base.amount.value > 0")
  else
    let r := mul128 amount num / uint128OfInt den
    if r < 2 ^ 64 then .ok (int64OfNat r) else .error (.assert "result.hi == 0")

end Price

/-- `asset * price`. -/
def Asset.mul (a : Asset) (p : Price) : Except Exn Asset :=
  if a.assetId = p.base.assetId then do
    let x ← Price.scale a.amount p.quote.amount p.base.amount
    pure ⟨x, p.quote.assetId⟩
  else if a.assetId = p.quote.assetId then do
    let x ← Price.scale a.amount p.base.amount p.quote.amount
    pure ⟨x, p.base.assetId⟩
  else .error (.assert "invalid asset * price")

theorem Asset.mul_base {a : Asset} {p : Price} (h : a.assetId = p.base.assetId) :
    a.mul p = (do
      let x ← Price.scale a.amount p.quote.amount p.base.amount
      pure ⟨x, p.quote.assetId⟩) := if_pos h

theorem Asset.mul_quote {a : Asset} {p : Price} (h : a.assetId ≠ p.base.assetId)
    (h' : a.assetId = p.quote.assetId) :
    a.mul p = (do
      let x ← Price.scale a.amount p.base.amount p.quote.amount
      pure ⟨x, p.base.assetId⟩) := (if_neg h).trans (if_pos h')

end MuseChain
