/-!
The ways in which work on untyped data, on numbers or on dates can fail. Each is named for
its cause. What a caller is told about it is decided where the answer is written.
-/

namespace MoveWorkbench

inductive Fault where
  /-- A list or an object stands where a key or an id is needed. -/
  | unhashable
  /-- A value that holds no items stands where several are needed. -/
  | notIterable
  /-- A value other than text stands where text is searched or joined. -/
  | notText
  /-- A list or a text is asked for the value of a field. -/
  | noFields
  /-- A value other than a number stands where one is needed. -/
  | notNumeric
  /-- A value is asked for letter case, replacement or a field that it does not have. -/
  | lacksOperation
  /-- A pair of a key and a value has another number of items than two. -/
  | notAPair
  /-- A value stands where one of a few names is needed, and is none of them. -/
  | unknownName
  /-- An integer is written with more digits than are read. -/
  | tooManyDigits
  /-- The integer part of a value that is not a number. -/
  | notANumber
  /-- A number that cannot be written: without a finite value, or with too many digits. -/
  | unwritable
  /-- The integer part of an infinity. -/
  | infinite
  /-- An integer or a quotient beyond the largest double. -/
  | tooLarge
  /-- A place before the beginning of a text. -/
  | outsideText
  /-- A date outside the years one to 9999, or a span of more than 999999999 days. -/
  | outOfRange
  deriving DecidableEq

end MoveWorkbench
