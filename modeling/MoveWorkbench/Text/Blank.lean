/-!
Blank characters of every script, and the operations on text that look at them: trimming
the ends, and skipping or joining runs.
-/

namespace MoveWorkbench.Text

/-- White space in the sense of character properties. -/
def isWhite (c : Char) : Bool :=
  let n := c.toNat
  (0x9 ≤ n && n ≤ 0xd) || n == 0x20 || n == 0x85 || n == 0xa0 || n == 0x1680
    || (0x2000 ≤ n && n ≤ 0x200a) || n == 0x2028 || n == 0x2029 || n == 0x202f || n == 0x205f
    || n == 0x3000

/-- White space, or one of the four separators among the control characters. -/
def isBlank (c : Char) : Bool := isWhite c || (0x1c ≤ c.toNat && c.toNat ≤ 0x1f)

def skipBlanks (cs : List Char) : List Char := cs.dropWhile isBlank

/-- Removes the characters of `drop` at both ends. -/
def trimBoth (drop : Char → Bool) (cs : List Char) : List Char :=
  ((cs.dropWhile drop).reverse.dropWhile drop).reverse

def trimBlanks (cs : List Char) : List Char := trimBoth isBlank cs

/-- Replaces each run of blanks by one underscore. The flag says that the last character
seen was a blank, whose underscore stands already. -/
def joinBlanksFrom : Bool → List Char → List Char
  | _, [] => []
  | inRun, c :: cs =>
    if isBlank c then
      if inRun then joinBlanksFrom true cs else '_' :: joinBlanksFrom true cs
    else c :: joinBlanksFrom false cs

def joinBlanks (cs : List Char) : List Char := joinBlanksFrom false cs

end MoveWorkbench.Text
