import MoveWorkbench.Text.Digit
import MoveWorkbench.Text.Utf16

/-!
Encodings of a text that begins with an ASCII character. In the wider encodings that
character has zeros beside it, and where they stand tells which encoding it is. A text
may also begin with a mark, which says that it is in UTF-8.
-/

namespace MoveWorkbench.Text

inductive Encoding where
  | utf8
  | utf16 (bigEndian : Bool)
  | utf32 (bigEndian : Bool)
  deriving DecidableEq

namespace Encoding

/-- The encoding by the zeros among the first four bytes. -/
def ofBytes : List Nat → Encoding
  | [0, _] => utf16 true
  | [_, 0] => utf16 false
  | 0 :: 0 :: _ :: _ :: _ => utf32 true
  | 0 :: _ :: _ :: _ :: _ => utf16 true
  | _ :: 0 :: 0 :: 0 :: _ => utf32 false
  | _ :: 0 :: _ :: _ :: _ => utf16 false
  | _ => utf8

/-- Bytes two by two, if none is left over. -/
def twos? : List Nat → Option (List (List Nat))
  | [] => some []
  | a :: b :: rest => (twos? rest).map ([a, b] :: ·)
  | [_] => none

/-- Bytes four by four, if none is left over. -/
def fours? : List Nat → Option (List (List Nat))
  | [] => some []
  | a :: b :: c :: d :: rest => (fours? rest).map ([a, b, c, d] :: ·)
  | _ => none

/-- The number that a few bytes stand for. -/
def number (bigEndian : Bool) (bytes : List Nat) : Nat :=
  ofDigits 256 (if bigEndian then bytes else bytes.reverse)

/-- The character with a code point, if there are so many. -/
def codeChar? (n : Nat) : Option Char := if n < 0x110000 then some (unitChar n) else none

end Encoding

def bytes (s : String) : List Nat := s.toUTF8.data.toList.map (·.toNat)

/-- The mark that may stand in front of a text. -/
def mark : Char := Char.ofNat 0xfeff

/-- The text that is meant by bytes which are a text in UTF-8, and perhaps another one in
the encoding that their zeros show. -/
def meant? (s : String) : Option String :=
  match s.toList with
  | [] => some s
  | c :: cs =>
    if c = mark then some (String.ofList cs)
    else match Encoding.ofBytes (bytes s) with
      | .utf8 => some s
      | .utf16 bigEndian =>
        (Encoding.twos? (bytes s)).map fun ns =>
          String.ofList (joinUnits (ns.map (Encoding.number bigEndian)))
      | .utf32 bigEndian => do
        let ns ← Encoding.fours? (bytes s)
        return String.ofList (← ns.mapM fun n => Encoding.codeChar? (Encoding.number bigEndian n))

end MoveWorkbench.Text
