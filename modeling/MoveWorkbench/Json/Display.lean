import MoveWorkbench.Json.Basic
import MoveWorkbench.Number.Decimal
import MoveWorkbench.Text.Printable

/-!
A value inside running text. Text stands as it is. The parts of lists and objects are set
out in brackets, and text inside them is quoted, with single quotes unless it holds one
and no double quote.
-/

namespace MoveWorkbench.Json

/-- The words of running text for values that have no digits of their own. -/
structure Words where
  null : String
  yes : String
  no : String
  notANumber : String
  infinity : String

def words : Words := ⟨"None", "True", "False", "nan", "inf"⟩

/-- A backslash, a letter and `width` digits of base sixteen. -/
def codeEscape (letter : Char) (width n : Nat) : List Char :=
  '\\' :: letter :: Text.padZeros width (Text.digitsIn 16 n)

def quoteChar (quote c : Char) : List Char :=
  if c == quote || c == '\\' then ['\\', c]
  else if c == '\t' then ['\\', 't']
  else if c == '\n' then ['\\', 'n']
  else if c == '\r' then ['\\', 'r']
  else if Text.isPrintable c then [c]
  else if c.toNat < 0x100 then codeEscape 'x' 2 c.toNat
  else if c.toNat < 0x10000 then codeEscape 'u' 4 c.toNat
  else codeEscape 'U' 8 c.toNat

def quoted (s : String) : String :=
  let cs := s.toList
  let quote := if cs.contains '\'' && !cs.contains '"' then '"' else '\''
  String.ofList (quote :: cs.flatMap (quoteChar quote) ++ [quote])

mutual

/-- A value as it stands inside a list or an object. -/
def displayPart : Json → String
  | null => words.null
  | bool b => if b then words.yes else words.no
  | int n => toString n
  | float x => x.text words.notANumber words.infinity
  | text s => quoted s
  | list xs => "[" ++ ", ".intercalate (displayItems xs) ++ "]"
  | object fs => "\x7b" ++ ", ".intercalate (displayFields fs) ++ "\x7d"

def displayItems : List Json → List String
  | [] => []
  | v :: vs => displayPart v :: displayItems vs

def displayFields : List (String × Json) → List String
  | [] => []
  | (name, v) :: fs => (quoted name ++ ": " ++ displayPart v) :: displayFields fs

end

/-- A value inside running text. -/
def display : Json → String
  | text s => s
  | v => displayPart v

@[simp] theorem display_text (s : String) : display (text s) = s := rfl

end MoveWorkbench.Json
