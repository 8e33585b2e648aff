import MoveWorkbench.Number.Binary64
import MoveWorkbench.Text.Digit

/-!
Decimal text of doubles. A decimal is read as the double nearest to its exact value. A
double is written with the fewest digits that read back as the same double, and with the
nearest of those that are equally short.
-/

namespace MoveWorkbench

namespace Binary64

/-- The double nearest to `digits * 10 ^ exponent`. Exponents that decide the answer by
themselves are settled without computing the power. -/
def ofDecimal (digits : Nat) (exponent : Int) : Binary64 :=
  if digits = 0 then zero
  else if 400 < exponent then infinite false
  else if exponent < -400 - digits.log2 then zero
  else ofRat (digits * (10 : Rat) ^ exponent)

/-- The exponent of the greatest power of ten that is not above the size of `x`. -/
def decimalExponent (x : Rat) : Int :=
  let e := binaryExponent x * 30103 / 100000
  if x.abs < (10 : Rat) ^ e then e - 1
  else if (10 : Rat) ^ (e + 1) ≤ x.abs then e + 1
  else e

/-- Of the two neighbours of `x` on the decimal grid with the given unit, the nearer one
that reads back as the double nearest to `x`; of two at the same distance the even one. -/
def readsBack? (x : Rat) (unit : Rat) : Option Nat :=
  let low := (x / unit).floor.toNat
  let lowBack := ofRat (low * unit) = ofRat x
  let highBack := ofRat ((low + 1) * unit) = ofRat x
  let below := x - low * unit
  let above := (low + 1) * unit - x
  if lowBack ∧ highBack then
    if below < above then some low
    else if above < below then some (low + 1)
    else if low % 2 = 0 then some low else some (low + 1)
  else if lowBack then some low
  else if highBack then some (low + 1)
  else none

/-- The digits, as one number, and the exponent of their unit: the coarsest decimal grid
with a point that reads back. Seventeen digits always do. -/
def shortest (x : Rat) : Nat × Int :=
  let e := decimalExponent x
  ((List.range 17).findSome? fun (n : Nat) =>
    (readsBack? x ((10 : Rat) ^ (e - n))).map fun digits => (digits, e - n)).getD (0, 0)

/-- Digits without the zeros at the end. -/
def significant (digits : Nat) : List Char :=
  ((Nat.toDigits 10 digits).reverse.dropWhile (· == '0')).reverse

/-- How a decimal is laid out: positional while the point stands after more than
`leftmost` and at most `rightmost` digits, otherwise with an exponent of at least
`exponentDigits` digits. -/
structure Layout where
  leftmost : Int
  rightmost : Int
  exponentDigits : Nat

/-- Ten to the sixteenth and one hundred thousandth are the first written with an
exponent, which has two digits or more. -/
def layout : Layout := ⟨-4, 16, 2⟩

/-- Lays out digits whose decimal point stands `point` places after their beginning. -/
def Layout.render (l : Layout) (ds : List Char) (point : Int) : List Char :=
  if l.leftmost < point ∧ point ≤ l.rightmost then
    if point ≤ 0 then '0' :: '.' :: (List.replicate (-point).toNat '0' ++ ds)
    else if (ds.length : Int) ≤ point then
      ds ++ List.replicate (point.toNat - ds.length) '0' ++ ['.', '0']
    else ds.take point.toNat ++ '.' :: ds.drop point.toNat
  else
    let e := point - 1
    let mantissa := match ds with
      | d :: [] => [d]
      | d :: rest => d :: '.' :: rest
      | [] => []
    mantissa ++ 'e' :: (if e < 0 then '-' else '+') ::
      Text.padZeros l.exponentDigits (Nat.toDigits 10 e.natAbs)

/-- The decimal text of a positive value. -/
def positiveText (x : Rat) : List Char :=
  let (digits, exponent) := shortest x
  let width := (Nat.toDigits 10 digits).length
  layout.render (significant digits) (exponent + width)

/-- The decimal text of a double, with the given words for those without a value. -/
def text (notANumber infinity : String) : Binary64 → String
  | nan => notANumber
  | infinite negative => if negative then "-" ++ infinity else infinity
  | negativeZero => "-0.0"
  | real x _ =>
    if x = 0 then "0.0"
    else if x < 0 then "-" ++ String.ofList (positiveText (-x))
    else String.ofList (positiveText x)

end Binary64

end MoveWorkbench
