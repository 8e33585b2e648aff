import MoveWorkbench.Text.Blank
import MoveWorkbench.Text.Word

/-!
Phrases of source text that stand for operations. A phrase is a fixed text in which
letter case does not matter; it may have to begin a word, and to end one or to be called.
The phrases of a family are counted from left to right without overlaps, the first one
in the family's order winning at each place.
-/

namespace MoveWorkbench.Source

/-- The letter that a character is taken for when case does not matter: besides the ASCII
capitals, the dotted and the dotless i, the long s and the Kelvin sign stand for ASCII
letters. -/
def letter (c : Char) : Char :=
  if c.toNat = 0x130 ∨ c.toNat = 0x131 then 'i'
  else if c.toNat = 0x17f then 's'
  else if c.toNat = 0x212a then 'k'
  else c.toLower

/-- Whether a word cannot begin after `before`. -/
def insideWord (before : Option Char) : Bool := before.any Text.isWord

/-- What has to follow the text of a phrase. -/
inductive Ending where
  | anything
  | wordEnd
  /-- Blanks, if any, and an opening parenthesis, which belong to the phrase. -/
  | call
  deriving DecidableEq

structure Phrase where
  beginsWord : Bool
  text : List Char
  ending : Ending

/-- What comes after `text`, whatever the case of the letters that `cs` begins with. -/
def afterText? : List Char → List Char → Option (List Char)
  | [], cs => some cs
  | _ :: _, [] => none
  | t :: text, c :: cs => if letter c = t then afterText? text cs else none

/-- The number of characters by which an ending lengthens a phrase before `rest`. -/
def Ending.length? : Ending → List Char → Option Nat
  | anything, _ => some 0
  | wordEnd, rest => if insideWord rest.head? then none else some 0
  | call, rest =>
    match Text.skipBlanks rest with
    | '(' :: after => some (rest.length - after.length)
    | _ => none

/-- The length of a phrase at the beginning of `cs`, if it stands there. -/
def Phrase.length? (p : Phrase) (before : Option Char) (cs : List Char) : Option Nat :=
  if p.beginsWord && insideWord before then none
  else match afterText? p.text cs with
    | none => none
    | some rest => (p.ending.length? rest).map (p.text.length + ·)

inductive Family where
  | storage
  | creation
  | event
  | loop
  | vector
  | transfer
  | lengthQuery
  | borrow
  deriving DecidableEq

namespace Family

def all : List Family := [storage, creation, event, loop, vector, transfer, lengthQuery, borrow]

private def anywhere (text : String) (ending : Ending) : Phrase := ⟨false, text.toList, ending⟩

private def word (text : String) (ending : Ending) : Phrase := ⟨true, text.toList, ending⟩

def phrases : Family → List Phrase
  | storage => [anywhere ".insert" .wordEnd, anywhere ".remove" .wordEnd,
      anywhere ".borrow_mut" .wordEnd, anywhere ".borrow" .wordEnd]
  | creation => [anywhere "object::new" .anything, word "new" .call]
  | event => [word "event::emit" .wordEnd]
  | loop => [word "while" .wordEnd, word "loop" .wordEnd, word "for" .wordEnd]
  | vector => [word "vector::" .anything, anywhere ".push_back" .wordEnd,
      anywhere ".pop_back" .wordEnd, anywhere ".length" .wordEnd]
  | transfer => [word "transfer::" .anything, word "public_transfer" .wordEnd]
  | lengthQuery => [anywhere "vector::length" .anything, anywhere ".length" .call]
  | borrow => [anywhere ".borrow_mut" .wordEnd, anywhere ".borrow" .wordEnd]

/-- The length of the family's phrase at the beginning of `cs`. -/
def length? (f : Family) (before : Option Char) (cs : List Char) : Option Nat :=
  f.phrases.findSome? (·.length? before cs)

/-- Counts phrases in `cs`, whose first `skip` characters belong to the last one. -/
def countFrom (f : Family) : Option Char → Nat → List Char → Nat
  | _, _, [] => 0
  | _, skip + 1, c :: cs => f.countFrom (some c) skip cs
  | before, 0, c :: cs =>
    match f.length? before (c :: cs) with
    | some n => f.countFrom (some c) (n - 1) cs + 1
    | none => f.countFrom (some c) 0 cs

/-- The number of the family's phrases in a text. -/
def count (f : Family) (cs : List Char) : Nat := f.countFrom none 0 cs

/-- Whether the family has a phrase in a text. -/
def occurs (f : Family) (cs : List Char) : Bool := 0 < f.count cs

@[simp] theorem count_nil (f : Family) : f.count [] = 0 := rfl

end Family

end MoveWorkbench.Source
