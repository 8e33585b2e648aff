import MoveWorkbench.Design.Document
import MoveWorkbench.Gas.Analysis
import MoveWorkbench.Json.Display
import MoveWorkbench.Store

/-!
The workspace: stored analyses and designs, a clock, and the number of ids drawn so far.
An id is a tag, the time in milliseconds and the number of the id in base thirty-six, so
that ids drawn one after the other differ. What is asked of a workspace gives an answer
and the workspace as it is afterwards, also when it fails.
-/

namespace MoveWorkbench

structure Workspace where
  analyses : Store Analysis
  designs : Store StoredDesign
  /-- In microseconds since the beginning of 1970. -/
  clock : Int
  drawn : Nat

/-- Why a workspace cannot give an answer. -/
inductive Failure where
  | analysisNotFound (id : Atom)
  | designNotFound (id : Atom)
  | importRefused (problem : ImportProblem)
  | fault (fault : Fault)

namespace Failure

/-- The words for a failure that is the caller's to know. -/
def message? : Failure → Option String
  | analysisNotFound id => some ("Analysis not found: " ++ id.toJson.display)
  | designNotFound id => some ("Design not found: " ++ id.toJson.display)
  | importRefused problem => some problem.message
  | fault _ => none

def ofImport : ImportFailure → Failure
  | .refused problem => importRefused problem
  | .stopped f => fault f

/-- The result of a part that can only fail by a fault. -/
def lift {α : Type} : Except Fault α → Except Failure α
  | .ok a => .ok a
  | .error f => .error (fault f)

end Failure

/-- An answer and the workspace that is left. -/
abbrev Answer (α : Type) := Except Failure α × Workspace

namespace Workspace

/-- A workspace in which nothing has been stored. -/
def fresh (clock : Int) : Workspace := ⟨.empty, .empty, clock, 0⟩

/-- The present instant, if the calendar has it. -/
def now (w : Workspace) : Except Fault Instant := Instant.ofMicros w.clock

def advance (w : Workspace) (micros : Int) : Workspace := { w with clock := w.clock + micros }

/-- A time in milliseconds, by two rounded operations and without its fraction. -/
def millis (clock : Int) : Except Fault Int := do
  ((← Binary64.quotient? clock 1000000).mul (.ofRat 1000)).truncate

/-- The id with number `n` at a time in milliseconds. -/
def idText (tag : String) (millis : Int) (n : Nat) : String :=
  tag ++ "-" ++ toString millis ++ "-" ++ String.ofList (Text.padZeros 9 (Text.digitsIn 36 n))

/-- The id that is drawn next. Drawing one at a time beyond the largest double fails, and
uses up its number. -/
def nextId (w : Workspace) (tag : String) : Except Fault String :=
  (millis w.clock).map fun t => idText tag t w.drawn

def draw (w : Workspace) : Workspace := { w with drawn := w.drawn + 1 }

end Workspace

end MoveWorkbench
