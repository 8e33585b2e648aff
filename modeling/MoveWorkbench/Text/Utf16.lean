/-!
UTF-16 units. A character is one unit or a pair of halves, the high one first. Halves that
stand alone are no characters.
-/

namespace MoveWorkbench.Text

def isHighUnit (n : Nat) : Bool := 0xd800 ≤ n && n < 0xdc00

def isLowUnit (n : Nat) : Bool := 0xdc00 ≤ n && n < 0xe000

/-- The character of a unit that is not half of a pair. Halves that stand alone become
the replacement character. -/
def unitChar (n : Nat) : Char :=
  if isHighUnit n || isLowUnit n then Char.ofNat 0xfffd else Char.ofNat n

/-- The character of a pair. -/
def pairChar (high low : Nat) : Char :=
  Char.ofNat (0x10000 + (high - 0xd800) * 0x400 + (low - 0xdc00))

/-- A part of a text: a character, or a unit. -/
inductive Piece where
  | char (c : Char)
  | unit (n : Nat)

/-- Joins each high unit with the low one right after it. -/
def joinPieces : List Piece → List Char
  | [] => []
  | .char c :: ps => c :: joinPieces ps
  | .unit n :: .unit m :: ps =>
    if isHighUnit n && isLowUnit m then pairChar n m :: joinPieces ps
    else unitChar n :: joinPieces (.unit m :: ps)
  | .unit n :: ps => unitChar n :: joinPieces ps

/-- The characters that units stand for. -/
def joinUnits (units : List Nat) : List Char := joinPieces (units.map .unit)

end MoveWorkbench.Text
