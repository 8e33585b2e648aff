import MoveWorkbench.Json.Basic
import MoveWorkbench.Number.Decimal
import MoveWorkbench.Text.Leading
import MoveWorkbench.Text.Utf16

/-!
Reading JSON text. The reader goes forward over the characters and stops at the first
one that fits no continuation, so that a misreading is known by what was expected and by
how many characters were left there. Numbers without a value may be written by name, and
of several fields with one name the last value counts, at the place of the first.
-/

namespace MoveWorkbench.Json

/-- What the reader expected, or what it met instead. -/
inductive Expectation where
  | value
  | fieldName
  | colon
  | comma
  | endOfText
  | closingQuote
  | textCharacter
  | escape
  | unitEscape
  | noByteOrderMark
  deriving DecidableEq

def Expectation.message : Expectation → String
  | value => "Expecting value"
  | fieldName => "Expecting property name enclosed in double quotes"
  | colon => "Expecting ':' delimiter"
  | comma => "Expecting ',' delimiter"
  | endOfText => "Extra data"
  | closingQuote => "Unterminated string starting at"
  | textCharacter => "Invalid control character at"
  | escape => "Invalid \\escape"
  | unitEscape => "Invalid \\uXXXX escape"
  | noByteOrderMark => "Unexpected UTF-8 BOM (decode using utf-8-sig)"

/-- Why reading stopped. -/
inductive Misreading where
  /-- With `left` characters left. -/
  | unexpected (expected : Expectation) (left : Nat)
  | tooManyDigits
  deriving DecidableEq

def isSpace (c : Char) : Bool := c == ' ' || c == '\t' || c == '\n' || c == '\r'

def skipSpace (cs : List Char) : List Char := cs.dropWhile isSpace

/-- Integers have at most this many digits. -/
def maxDigits : Nat := 4300

/-- The character that follows a backslash, other than the one of a UTF-16 unit. -/
def escaped? : Char → Option Char
  | '"' => some '"'
  | '\\' => some '\\'
  | '/' => some '/'
  | 'b' => some (Char.ofNat 0x8)
  | 'f' => some (Char.ofNat 0xc)
  | 'n' => some '\n'
  | 'r' => some '\r'
  | 't' => some '\t'
  | _ => none

def unit? (a b c d : Char) : Option Nat := do
  return Text.ofDigits 16 [← Text.hexDigit? a, ← Text.hexDigit? b, ← Text.hexDigit? c,
    ← Text.hexDigit? d]

/-- Puts a piece in front of those read after it. -/
def consPiece (p : Text.Piece) (r : Except Misreading (List Text.Piece × List Char)) :
    Except Misreading (List Text.Piece × List Char) :=
  r.map fun r => (p :: r.1, r.2)

/-- Reads the pieces of a text and what is left after its closing quote. `inside` is all
that stood after the opening one. -/
def readPieces (inside : List Char) : List Char → Except Misreading (List Text.Piece × List Char)
  | [] => .error (.unexpected .closingQuote (inside.length + 1))
  | '"' :: cs => .ok ([], cs)
  | '\\' :: 'u' :: a :: b :: c :: d :: cs =>
    match unit? a b c d, cs with
    | some n, _ :: _ => consPiece (.unit n) (readPieces inside cs)
    | _, _ => .error (.unexpected .unitEscape (cs.length + 5))
  | '\\' :: 'u' :: cs => .error (.unexpected .unitEscape (cs.length + 1))
  | ['\\'] => .error (.unexpected .closingQuote (inside.length + 1))
  | '\\' :: e :: cs =>
    match escaped? e with
    | some c => consPiece (.char c) (readPieces inside cs)
    | none => .error (.unexpected .escape (cs.length + 2))
  | c :: cs =>
    if c.toNat < 0x20 then .error (.unexpected .textCharacter (cs.length + 1))
    else consPiece (.char c) (readPieces inside cs)

/-- Reads a text after its opening quote. -/
def readText (cs : List Char) : Except Misreading (String × List Char) := do
  let (ps, rest) ← readPieces cs cs
  return (String.ofList (Text.joinPieces ps), rest)

/-- The number in front of a text: its digits before and after the point, its exponent,
and whether it has either of the last two. -/
structure Numeral where
  negative : Bool
  whole : List Char
  fraction : List Char
  exponent : Option Int

def digitsOf (cs : List Char) : Nat := Text.ofDigits 10 (cs.filterMap Text.asciiDigit?)

/-- The digits in front of a text and what is left of it. -/
def spanDigits (cs : List Char) : List Char × List Char :=
  (cs.takeWhile Char.isDigit, cs.dropWhile Char.isDigit)

/-- The digits before the point: no zero stands in front of others. -/
def wholePart? : List Char → Option (List Char × List Char)
  | '0' :: cs => some (['0'], cs)
  | c :: cs => if c.isDigit then some (spanDigits (c :: cs)) else none
  | [] => none

/-- The digits after the point, none when no digit follows it. -/
def fractionPart : List Char → List Char × List Char
  | '.' :: cs => match spanDigits cs with
    | ([], _) => ([], '.' :: cs)
    | parts => parts
  | cs => ([], cs)

/-- The exponent, none when no digit follows its letter and sign. -/
def exponentPart (cs : List Char) : Option Int × List Char :=
  match cs with
  | c :: cs' =>
    if c == 'e' || c == 'E' then
      let (negative, ds) := match cs' with
        | '-' :: ds => (true, ds)
        | '+' :: ds => (false, ds)
        | ds => (false, ds)
      match spanDigits ds with
      | ([], _) => (none, cs)
      | (ds, rest) => (some (if negative then -digitsOf ds else digitsOf ds), rest)
    else (none, cs)
  | [] => (none, [])

def numeral? (cs : List Char) : Option (Numeral × List Char) :=
  let (negative, cs) := match cs with
    | '-' :: cs => (true, cs)
    | cs => (false, cs)
  match wholePart? cs with
  | none => none
  | some (whole, cs) =>
    let (fraction, cs) := fractionPart cs
    let (exponent, cs) := exponentPart cs
    some (⟨negative, whole, fraction, exponent⟩, cs)

/-- A numeral with neither point nor exponent is an integer, any other a double. -/
def Numeral.value (n : Numeral) : Except Misreading Json :=
  if n.fraction = [] ∧ n.exponent = none then
    if maxDigits < n.whole.length then .error .tooManyDigits
    else .ok (.int (if n.negative then -digitsOf n.whole else digitsOf n.whole))
  else
    let size := Binary64.ofDecimal (digitsOf (n.whole ++ n.fraction))
      (n.exponent.getD 0 - n.fraction.length)
    .ok (.float (if n.negative then size.neg else size))

/-- The values that are written as a word. -/
def namedValues : List (List Char × Json) := [
  ("null".toList, .null), ("true".toList, .bool true), ("false".toList, .bool false),
  ("NaN".toList, .float .nan), ("Infinity".toList, .float (.infinite false)),
  ("-Infinity".toList, .float (.infinite true))]

/-- Reads a value that is a word or a number. -/
def readPlain (cs : List Char) : Except Misreading (Json × List Char) :=
  match namedValues.findSome? fun p => (Text.after? p.1 cs).map fun rest => (p.2, rest) with
  | some r => .ok r
  | none =>
    match numeral? cs with
    | some (n, rest) => do return (← n.value, rest)
    | none => .error (.unexpected .value cs.length)

mutual

/-- Reads a value at the first character. Every step takes a unit of fuel, and a text
needs at most twice its length. -/
def readValue : Nat → List Char → Except Misreading (Json × List Char)
  | 0, cs => .error (.unexpected .value cs.length)
  | fuel + 1, cs =>
    match cs with
    | '"' :: cs => do
      let (s, rest) ← readText cs
      return (.text s, rest)
    | '[' :: cs =>
      match skipSpace cs with
      | ']' :: rest => .ok (.list [], rest)
      | inner => do
        let (vs, rest) ← readItems fuel inner
        return (.list vs, rest)
    | '\x7b' :: cs =>
      match skipSpace cs with
      | '\x7d' :: rest => .ok (.object [], rest)
      | inner => do
        let (fs, rest) ← readFields fuel inner
        return (.object (Ordered.ofList fs), rest)
    | cs => readPlain cs

/-- Reads the items of a list up to its closing bracket. -/
def readItems : Nat → List Char → Except Misreading (List Json × List Char)
  | 0, cs => .error (.unexpected .value cs.length)
  | fuel + 1, cs => do
    let (v, rest) ← readValue fuel cs
    match skipSpace rest with
    | ']' :: rest => return ([v], rest)
    | ',' :: rest =>
      let (vs, rest) ← readItems fuel (skipSpace rest)
      return (v :: vs, rest)
    | rest => throw (.unexpected .comma rest.length)

/-- Reads the fields of an object up to its closing brace. -/
def readFields : Nat → List Char → Except Misreading (Fields × List Char)
  | 0, cs => .error (.unexpected .value cs.length)
  | fuel + 1, cs =>
    match cs with
    | '"' :: cs => do
      let (name, rest) ← readText cs
      match skipSpace rest with
      | ':' :: rest =>
        let (v, rest) ← readValue fuel (skipSpace rest)
        match skipSpace rest with
        | '\x7d' :: rest => return ([(name, v)], rest)
        | ',' :: rest =>
          let (fs, rest) ← readFields fuel (skipSpace rest)
          return ((name, v) :: fs, rest)
        | rest => throw (.unexpected .comma rest.length)
      | rest => throw (.unexpected .colon rest.length)
    | cs => .error (.unexpected .fieldName cs.length)

end

/-- Reads a value that takes up the whole text but for blanks around it. -/
def readAll (cs : List Char) : Except Misreading Json := do
  if cs.head? = some (Char.ofNat 0xfeff) then
    throw (.unexpected .noByteOrderMark cs.length)
  let (v, rest) ← readValue (2 * cs.length + 2) (skipSpace cs)
  match skipSpace rest with
  | [] => return v
  | rest => throw (.unexpected .endOfText rest.length)

/-- A place in a text, counted in characters from zero. -/
structure Place where
  offset : Nat

/-- The number of the line, from one. -/
def Place.line (p : Place) (cs : List Char) : Nat := (cs.take p.offset).count '\n' + 1

/-- The number of the character in its line, from one. -/
def Place.column (p : Place) (cs : List Char) : Nat :=
  ((cs.take p.offset).reverse.takeWhile (· != '\n')).length + 1

/-- Why a text is no JSON. -/
inductive ReadError where
  | unexpected (expected : Expectation) (place : Place)
  | tooManyDigits

/-- Reads a JSON text. -/
def ofText (s : String) : Except ReadError Json :=
  let cs := s.toList
  match readAll cs with
  | .ok v => .ok v
  | .error (.unexpected expected left) => .error (.unexpected expected ⟨cs.length - left⟩)
  | .error .tooManyDigits => .error .tooManyDigits

/-- What was expected in the text, and where: by line, column and offset. -/
def misreadingMessage (text : String) (expected : Expectation) (place : Place) : String :=
  let cs := text.toList
  expected.message ++ ": line " ++ toString (place.line cs) ++ " column "
    ++ toString (place.column cs) ++ " (char " ++ toString place.offset ++ ")"

end MoveWorkbench.Json
