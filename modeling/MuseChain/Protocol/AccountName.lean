/-
  File:      MuseChain/Protocol/AccountName.lean
  Subject:   The scan of `is_valid_account_name` over the bytes of a name.
-/
import MuseChain.Protocol.Validate

namespace MuseChain

/-- `a - b` of two `size_t`. -/
def sub64 (a b : Nat) : Nat := u64 (a + (2 ^ 64 - b))

/-- `std::string::npos`. -/
def npos : Nat := 2 ^ 64 - 1

def dotByte : UInt8 := 46

def isLowerByte (c : UInt8) : Bool := 97 ≤ c && c ≤ 122

def isDigitByte (c : UInt8) : Bool := 48 ≤ c && c ≤ 57

/-- `name.find_first_of( c, pos )`. -/
def findFirstOf (name : List UInt8) (c : UInt8) (pos : Nat) : Nat :=
  match (name.drop pos).findIdx? fun x => x == c with
  | some k => pos + k
  | none => npos

/-- The passes of the inner loop from place `i` on, `none` for a place outside the name. -/
def scanInner (name : List UInt8) : Nat → Nat → Option Bool
  | 0, _ => some true
  | passes + 1, i => do
      let c ← name[i]?
      if isLowerByte c || isDigitByte c || c == 45 then scanInner name passes (i + 1)
      else some false

/-- The outer loop from the label at `start` on, `none` for a place outside the name and when the
    passes run out. -/
def scanLabels (name : List UInt8) : Nat → Nat → Option Bool
  | 0, _ => none
  | passes + 1, start =>
      let found := findFirstOf name dotByte start
      let stop := if found = npos then name.length else found
      if sub64 stop start < 3 then some false
      else do
        let first ← name[start]?
        if isLowerByte first then do
          let last ← name[sub64 stop 1]?
          if isLowerByte last || isDigitByte last then do
            let inner ← scanInner name (sub64 stop 1 - (start + 1)) (start + 1)
            if inner then
              if stop = name.length then some true else scanLabels name passes (stop + 1)
            else some false
          else some false
        else some false

/-- `is_valid_account_name` over any bytes. Each pass moves behind another dot, so there are at
    most as many as the name has bytes, and one more. -/
def scanAccountName (name : List UInt8) : Option Bool :=
  if name.length < minAccountNameLength then some false
  else if maxAccountNameLength < name.length then some false
  else scanLabels name (name.length + 1) 0

end MuseChain
