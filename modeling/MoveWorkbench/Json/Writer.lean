import MoveWorkbench.Json.Basic
import MoveWorkbench.Number.Decimal

/-!
JSON text with two blanks of indentation a level. It is ASCII: other characters are
written as escapes of their UTF-16 units. Empty lists and objects stand on one line.
-/

namespace MoveWorkbench.Json

/-- A double in JSON text. -/
def numberText (x : Binary64) : String := x.text "NaN" "Infinity"

def unitEscape (n : Nat) : List Char := '\\' :: 'u' :: Text.padZeros 4 (Text.digitsIn 16 n)

/-- The escape of a character by its UTF-16 units. -/
def charEscape (c : Char) : List Char :=
  let n := c.toNat
  if n < 0x10000 then unitEscape n
  else unitEscape (0xd800 + (n - 0x10000) / 0x400) ++ unitEscape (0xdc00 + (n - 0x10000) % 0x400)

def writeChar (c : Char) : List Char :=
  if c == '"' then ['\\', '"']
  else if c == '\\' then ['\\', '\\']
  else if c == '\n' then ['\\', 'n']
  else if c == '\r' then ['\\', 'r']
  else if c == '\t' then ['\\', 't']
  else if c.toNat == 0xc then ['\\', 'f']
  else if c.toNat == 0x8 then ['\\', 'b']
  else if 0x20 ≤ c.toNat && c.toNat < 0x7f then [c]
  else charEscape c

def writeText (s : String) : List Char := '"' :: s.toList.flatMap writeChar ++ ['"']

/-- A new line at the given depth. -/
def newLine (depth : Nat) : List Char := '\n' :: List.replicate (2 * depth) ' '

mutual

def write (depth : Nat) : Json → List Char
  | null => "null".toList
  | bool b => if b then "true".toList else "false".toList
  | int n => (toString n).toList
  | float x => (numberText x).toList
  | text s => writeText s
  | list [] => ['[', ']']
  | list (v :: vs) =>
    '[' :: newLine (depth + 1) ++ write (depth + 1) v ++ writeItems (depth + 1) vs
      ++ newLine depth ++ [']']
  | object [] => ['\x7b', '\x7d']
  | object ((name, v) :: fs) =>
    '\x7b' :: newLine (depth + 1) ++ writeText name ++ [':', ' '] ++ write (depth + 1) v
      ++ writeFields (depth + 1) fs ++ newLine depth ++ ['\x7d']

/-- The items after the first one. -/
def writeItems (depth : Nat) : List Json → List Char
  | [] => []
  | v :: vs => ',' :: newLine depth ++ write depth v ++ writeItems depth vs

/-- The fields after the first one. -/
def writeFields (depth : Nat) : List (String × Json) → List Char
  | [] => []
  | (name, v) :: fs =>
    ',' :: newLine depth ++ writeText name ++ [':', ' '] ++ write depth v ++ writeFields depth fs

end

/-- The JSON text of a value. -/
def toText (v : Json) : String := String.ofList (write 0 v)

end MoveWorkbench.Json

namespace MoveWorkbench.Atom

/-- The name of a field whose key is an atom. -/
def fieldName : Atom → String
  | null => "null"
  | bool b => if b then "true" else "false"
  | int n => toString n
  | float x => Json.numberText x
  | text s => s

@[simp] theorem fieldName_text (s : String) : (text s).fieldName = s := rfl

end MoveWorkbench.Atom
