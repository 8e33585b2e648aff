import MoveWorkbench.Fault

/-!
Double-precision numbers by their exact values. A finite double is a rational on a grid
whose spacing is a power of two that depends on the size of the number; every operation
takes the exact result and moves it once to the nearest point of that grid, a half going
to the even neighbour. Results beyond the grid are infinities.
-/

namespace MoveWorkbench

/-- The exponent of the greatest power of two that is not above the size of `x`. -/
def binaryExponent (x : Rat) : Int :=
  let e : Int := x.num.natAbs.log2 - x.den.log2
  if x.abs < 2 ^ e then e - 1 else e

/-- The distance between the doubles around `x`. -/
def spacing (x : Rat) : Rat := 2 ^ max (binaryExponent x - 52) (-1074)

/-- The nearest integer, a half going to the even neighbour. -/
def nearestEven (x : Rat) : Int :=
  let low := x.floor
  if x - low < 1 / 2 then low
  else if 1 / 2 < x - low then low + 1
  else if low % 2 = 0 then low else low + 1

/-- The point of the grid around `x` that is nearest to it. -/
def nearestOnGrid (x : Rat) : Rat := nearestEven (x / spacing x) * spacing x

/-- The finite values of doubles: points of the grid below the overflow limit. -/
def Representable (x : Rat) : Prop := x.abs < 2 ^ (1024 : Nat) ∧ (x / spacing x).den = 1

instance : DecidablePred Representable := fun _ => inferInstanceAs (Decidable (_ ∧ _))

inductive Binary64 where
  | nan
  | infinite (negative : Bool)
  | negativeZero
  | real (value : Rat) (representable : Representable value)
  deriving DecidableEq

namespace Binary64

/-- The double nearest to an exact value. -/
def ofRat (x : Rat) : Binary64 :=
  if h : Representable (nearestOnGrid x) then real (nearestOnGrid x) h
  else infinite (x < 0)

def zero : Binary64 := ofRat 0

/-- The exact value of a finite double. -/
def value? : Binary64 → Option Rat
  | nan | infinite _ => none
  | negativeZero => some 0
  | real x _ => some x

def isNegative : Binary64 → Bool
  | nan => false
  | infinite negative => negative
  | negativeZero => true
  | real x _ => x < 0

def isZero (x : Binary64) : Bool := x.value? = some 0

def isFinite (x : Binary64) : Bool := x.value?.isSome

def neg : Binary64 → Binary64
  | nan => nan
  | infinite negative => infinite (!negative)
  | negativeZero => zero
  | real x _ => if x = 0 then negativeZero else ofRat (-x)

/-- A zero with the given sign. -/
def signedZero (negative : Bool) : Binary64 := if negative then negativeZero else zero

def add : Binary64 → Binary64 → Binary64
  | nan, _ | _, nan => nan
  | infinite a, infinite b => if a = b then infinite a else nan
  | infinite a, _ | _, infinite a => infinite a
  | negativeZero, negativeZero => negativeZero
  | negativeZero, real x _ | real x _, negativeZero => ofRat x
  | real x _, real y _ => ofRat (x + y)

def mul (a b : Binary64) : Binary64 :=
  let negative := a.isNegative != b.isNegative
  match a.value?, b.value? with
  | some x, some y => if x * y = 0 then signedZero negative else ofRat (x * y)
  | _, _ =>
    if a = nan ∨ b = nan ∨ a.isZero ∨ b.isZero then nan else infinite negative

/-- The greatest integer that is not above a finite double. -/
def floor : Binary64 → Except Fault Int
  | nan => .error .notANumber
  | infinite _ => .error .infinite
  | negativeZero => .ok 0
  | real x _ => .ok x.floor

/-- The integer part of a finite double. -/
def truncate : Binary64 → Except Fault Int
  | nan => .error .notANumber
  | infinite _ => .error .infinite
  | negativeZero => .ok 0
  | real x _ => .ok (if x < 0 then x.ceil else x.floor)

/-- The double nearest to an exact value, when that value is not too large for one. -/
def ofRat? (x : Rat) : Except Fault Binary64 :=
  match ofRat x with
  | infinite _ => .error .tooLarge
  | d => .ok d

def ofInt? (n : Int) : Except Fault Binary64 := ofRat? n

/-- The double nearest to an exact quotient. -/
def quotient? (a b : Int) : Except Fault Binary64 := ofRat? (a / b)

/-- Rounds to an integer by adding one half, itself a rounded operation, and taking the
floor. -/
def roundHalfUp (x : Binary64) : Except Fault Int := (x.add (ofRat (1 / 2))).floor

/-- The floor of an integer times a double. -/
def floorScaled (n : Int) (factor : Binary64) : Except Fault Int := do
  ((← ofInt? n).mul factor).floor

end Binary64

end MoveWorkbench
