import MoveWorkbench.Http.Framework
import MoveWorkbench.Store.Sweeper
import MoveWorkbench.Workspace.Session

/-!
Runs of the whole system. Actions, requests, imports of what is stored, deletions and sweeps
follow one another, and the clock may be moved anywhere in between. A ledger keeps the ids that
were drawn on the way.
-/

namespace MoveWorkbench.Http

/-- What comes after another in a run. No record is put under an id that was not drawn. -/
inductive Turn where
  | act (action : Action)
  | request (F : Framework) (r : Request)
  | reimport (id : Atom)
  | drawId (tag : String)
  | advance (micros : Int)
  | deleteDesign (id : Atom)
  | deleteAnalysis (id : Atom)
  | keepDesigns (interval : Int) (maxAge : Span) (rounds : Nat)
  | keepAnalyses (interval : Int) (maxAge : Span) (rounds : Nat)

/-- The tag of the ids that a request draws. -/
def Dispatch.tag? : Dispatch → Option String
  | reply _ => none
  | call e => e.tag?

namespace Turn

/-- The tag of the ids that a turn draws. -/
def tag? : Turn → Option String
  | act action => action.tag?
  | request F r => (F.dispatch r).tag?
  | reimport _ => some "design"
  | drawId tag => some tag
  | _ => none

/-- A workspace after a turn. -/
def leave (w : Workspace) : Turn → Workspace
  | act action => (w.act action).2
  | request F r => (F.handle w r).2
  | reimport id => (w.reimportDesign id).2
  | drawId _ => w.draw
  | advance micros => w.advance micros
  | deleteDesign id => { w with designs := w.designs.without id }
  | deleteAnalysis id => { w with analyses := w.analyses.without id }
  | keepDesigns interval maxAge rounds =>
    let run := w.designs.runSweeper (·.updatedAt) interval maxAge rounds w.clock
    { w with designs := run.store, clock := run.clock }
  | keepAnalyses interval maxAge rounds =>
    let run := w.analyses.runSweeper (·.createdAt) interval maxAge rounds w.clock
    { w with analyses := run.store, clock := run.clock }

/-- The id that a turn draws, if it draws one and there is one to be drawn. -/
def drawn? (w : Workspace) (turn : Turn) : Option String :=
  if (turn.leave w).drawn = w.drawn then none
  else turn.tag?.bind fun tag => (w.nextId tag).toOption

end Turn

/-- A workspace together with the ids that were drawn in it, the latest first. -/
structure Ledger where
  workspace : Workspace
  ids : List String

namespace Ledger

def opened (clock : Int) : Ledger := ⟨.fresh clock, []⟩

def after (l : Ledger) (turn : Turn) : Ledger :=
  ⟨turn.leave l.workspace, (turn.drawn? l.workspace).toList ++ l.ids⟩

def run (clock : Int) (turns : List Turn) : Ledger := turns.foldl after (opened clock)

end Ledger

end MoveWorkbench.Http
