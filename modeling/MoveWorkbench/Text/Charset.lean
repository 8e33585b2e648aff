/-!
Sets of code points, written as the increasing points at which membership changes.
A code point belongs to the set when an odd number of changes lie at or below it, so
that a property given by many ranges is one list of numbers.
-/

namespace MoveWorkbench.Text

structure Charset where
  changes : List Nat

namespace Charset

def contains (s : Charset) (c : Char) : Bool :=
  s.changes.countP (· ≤ c.toNat) % 2 == 1

end Charset

end MoveWorkbench.Text
