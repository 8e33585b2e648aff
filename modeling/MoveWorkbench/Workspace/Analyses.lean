import MoveWorkbench.Gas.Report
import MoveWorkbench.Workspace.Basic

/-!
Work on the analyses of a workspace.
-/

namespace MoveWorkbench.Workspace

/-- The record of an examination. -/
def analysisRecord (id : Atom) (code : String) (found : List Estimate × List Finding × Summary)
    (t : Instant) : Analysis where
  id := id
  code := code
  totalGas := Summary.total found.1
  estimates := found.1
  findings := found.2.1
  summary := found.2.2
  createdAt := t

def putAnalysis (w : Workspace) (a : Analysis) : Workspace :=
  { w with analyses := w.analyses.put a.id a }

/-- Examines a text and stores the analysis. The id is drawn before the clock is read. -/
def analyze (w : Workspace) (code : String) : Answer Analysis :=
  match Analysis.examine code with
  | .error f => (.error (.fault f), w)
  | .ok found =>
    match w.nextId "gas", w.now with
    | .ok id, .ok t =>
      let a := analysisRecord (.text id) code found t
      (.ok a, w.draw.putAnalysis a)
    | .error f, _ => (.error (.fault f), w.draw)
    | _, .error f => (.error (.fault f), w.draw)

/-- Stores an analysis made elsewhere, as of now and under the id that a value is. -/
def storeAnalysis (w : Workspace) (id : Json) (a : Atom → Instant → Analysis) :
    Answer Analysis :=
  match w.now, id.atom with
  | .ok t, .ok id => (.ok (a id t), w.putAnalysis (a id t))
  | .error f, _ => (.error (.fault f), w)
  | _, .error f => (.error (.fault f), w)

def analysis? (w : Workspace) (id : Atom) : Option Analysis := w.analyses.get? id

/-- Compares two stored analyses, if both are there. -/
def compare (w : Workspace) (before after : Atom) : Except Fault (Option Comparison) :=
  match w.analysis? before, w.analysis? after with
  | some a, some b => (Comparison.of a b).map some
  | _, _ => .ok none

/-- The report of a stored analysis. -/
def report (w : Workspace) (id : Atom) : Except Failure String :=
  match w.analysis? id with
  | some a => .ok a.report
  | none => .error (.analysisNotFound id)

end MoveWorkbench.Workspace
