import MoveWorkbench.Gas.Estimate
import MoveWorkbench.Text.Lines

/-!
Findings: places where gas can be saved. Estimates are checked against thresholds, and
lines of the text for costly phrases. Of the findings about one issue and one function
the first one is kept, and those that save most come first.
-/

namespace MoveWorkbench

structure Finding where
  function : String
  issue : String
  severity : Level
  suggestion : String
  savings : Int
  line : Option Int
  deriving DecidableEq

namespace Finding

def toJson (f : Finding) : Json :=
  .object <| [("function", .text f.function), ("issue", .text f.issue),
    ("severity", .text f.severity.name), ("suggestion", .text f.suggestion),
    ("potential_savings", .int f.savings)]
    ++ (f.line.map fun n => ("line_number", Json.int n)).toList

/-- What a finding is about. -/
def subject (f : Finding) : String × String := (f.issue, f.function)

/-- A threshold that an amount of an estimate can exceed, and the part of it that can
then be saved. -/
structure Threshold where
  issue : String
  severity : Level
  suggestion : String
  exceeded : Bool
  amount : Int
  part : Rat

/-- The cost as a whole, of which the first 2000 cannot be saved. -/
def highGas (e : Estimate) : Threshold where
  issue := "High gas consumption"
  severity := if 5000 < e.gas then .high else .medium
  suggestion := "Consider breaking down into smaller functions or optimizing storage operations"
  exceeded := 3000 < e.gas
  amount := e.gas - 2000
  part := 3 / 10

def excessiveStorage (e : Estimate) : Threshold where
  issue := "Excessive storage operations"
  severity := .medium
  suggestion := "Batch storage operations or use more efficient data structures"
  exceeded := 1000 < e.breakdown.storage
  amount := e.breakdown.storage
  part := 2 / 5

def multipleCreations (e : Estimate) : Threshold where
  issue := "Multiple object creations"
  severity := .medium
  suggestion := "Consider object pooling or reducing object creation"
  exceeded := 4000 < e.breakdown.objectCreation
  amount := e.breakdown.objectCreation
  part := 1 / 4

def thresholds (e : Estimate) : List Threshold :=
  [highGas e, excessiveStorage e, multipleCreations e]

/-- The finding about `function` when a threshold is exceeded. Savings are rounded
down. -/
def Threshold.finding (t : Threshold) (function : String) : Except Fault Finding := do
  return ⟨function, t.issue, t.severity, t.suggestion,
    ← Binary64.floorScaled t.amount (.ofRat t.part), none⟩

/-- The findings about an estimate. -/
def ofEstimate (e : Estimate) : Except Fault (List Finding) :=
  ((thresholds e).filter (·.exceeded)).mapM (·.finding e.function)

/-- A check of one line of a text: what is found, and in which lines. -/
structure LineCheck where
  issue : String
  severity : Level
  suggestion : String
  savings : Int
  applies : List Char → Bool

/-- A loop that asks for a length each time round. -/
def loopLength : LineCheck where
  issue := "Inefficient loop with vector::length"
  severity := .medium
  suggestion := "Cache vector length outside the loop"
  savings := 200
  applies line := Source.Family.loop.occurs line && Source.Family.lengthQuery.occurs line

/-- A borrow in a text with more than three of them. -/
def repeatedBorrow (borrows : Nat) : LineCheck where
  issue := "Repeated storage access"
  severity := .low
  suggestion := "Cache borrowed references to reduce storage access"
  savings := borrows * 50
  applies line := 3 < borrows && Source.Family.borrow.occurs line

/-- An event in a text with more than five of them. -/
def excessiveEvents (events : Nat) : LineCheck where
  issue := "Excessive event emissions"
  severity := .low
  suggestion := "Consolidate events or emit only critical events"
  savings := events * 30
  applies line := 5 < events && Source.Family.event.occurs line

def lineChecks (code : List Char) : List LineCheck :=
  [loopLength, repeatedBorrow (Source.Family.borrow.count code),
    excessiveEvents (Source.Family.event.count code)]

/-- The finding of a check in line `n`. -/
def LineCheck.finding (check : LineCheck) (n : Nat) : Finding :=
  ⟨Source.unknown, check.issue, check.severity, check.suggestion, check.savings, some n⟩

/-- The findings of `checks` in the lines of a text, the first of which has number `n`. -/
def inLines (checks : List LineCheck) : Nat → List (List Char) → List Finding
  | _, [] => []
  | n, line :: rest =>
    (checks.filter (·.applies line)).map (·.finding n) ++ inLines checks (n + 1) rest

/-- All findings in the order in which they are come upon. -/
def triggered (code : List Char) (estimates : List Estimate) : Except Fault (List Finding) := do
  let ofEstimates ← estimates.mapM ofEstimate
  return ofEstimates.flatten ++ inLines (lineChecks code) 1 (Text.lines code)

/-- The first finding on each subject, by falling savings. -/
def ranked (fs : List Finding) : List Finding :=
  (Ordered.distinctBy subject [] fs).mergeSort fun a b => b.savings ≤ a.savings

/-- The findings about a text and the estimates for its functions. -/
def find (code : String) (estimates : List Estimate) : Except Fault (List Finding) :=
  (triggered code.toList estimates).map ranked

end Finding

end MoveWorkbench
