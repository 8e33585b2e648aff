import MoveWorkbench.Workspace.Analyses
import MoveWorkbench.Workspace.Call

/-!
Sessions. In a session calls about designs, analyses, queries and sweeps follow one another,
and the clock may be set to any instant in between. A session records what each action was
answered and when, so what was used and when can be told from the record alone, whatever is
stored in the workspace.
-/

namespace MoveWorkbench

/-- What can be asked of a workspace without any change to it. -/
inductive Query where
  | design (id : Atom)
  | problems (id : Atom)
  | moveCode (id : Atom) (options : CodeOptions)
  | mermaid (id : Atom)
  | plantUml (id : Atom)
  | document (id : Atom)
  | analysis (id : Atom)
  | comparison (before after : Atom)
  | report (id : Atom)

inductive Action where
  | call (c : Call)
  | analyze (code : String)
  | ask (q : Query)
  | setClock (t : Instant)
  /-- Sweeps at the time given, or else at the present one. -/
  | sweepDesigns (maxAge : Span) (at? : Option Instant)
  | sweepAnalyses (maxAge : Span) (at? : Option Instant)

/-- The tag of the ids that an action draws. -/
def Action.tag? : Action → Option String
  | call c => c.tag?
  | analyze _ => some "gas"
  | _ => none

/-- What an action is answered. -/
inductive Response where
  | design (answer : Except Failure (Option StoredDesign))
  | analysis (answer : Except Failure Analysis)
  | shown (answer : Except Failure Json)
  /-- A sweep tells the number of records that it evicted. -/
  | swept (evicted : Except Fault Nat)
  | done

namespace Workspace

def ask (w : Workspace) : Query → Except Failure Json
  | .design id => .ok (((w.design? id).map (·.toJson)).getD .null)
  | .problems id => Failure.lift ((w.validate id).map Problem.report)
  | .moveCode id options => (w.moveCode id options).map .text
  | .mermaid id => (w.mermaid id).map .text
  | .plantUml id => (w.plantUml id).map .text
  | .document id => (w.exportDesign id).map .text
  | .analysis id => .ok (((w.analysis? id).map (·.toJson)).getD .null)
  | .comparison before after =>
    Failure.lift ((w.compare before after).map fun c => (c.map (·.toJson)).getD .null)
  | .report id => (w.report id).map .text

/-- The time of a sweep. -/
def timeOf (w : Workspace) (at? : Option Instant) : Except Fault Instant :=
  match at? with
  | some t => .ok t
  | none => w.now

/-- Answers an action. A sweep that fails leaves all records where they are. -/
def act (w : Workspace) : Action → Response × Workspace
  | .call c => (.design (w.perform c).1, (w.perform c).2)
  | .analyze code => (.analysis (w.analyze code).1, (w.analyze code).2)
  | .ask q => (.shown (w.ask q), w)
  | .setClock t => (.done, { w with clock := t.micros })
  | .sweepDesigns maxAge at? =>
    match (w.timeOf at?).bind (w.designs.sweep (·.updatedAt) maxAge) with
    | .ok swept => (.swept (.ok (w.designs.evicted swept)), { w with designs := swept })
    | .error f => (.swept (.error f), w)
  | .sweepAnalyses maxAge at? =>
    match (w.timeOf at?).bind (w.analyses.sweep (·.createdAt) maxAge) with
    | .ok swept => (.swept (.ok (w.analyses.evicted swept)), { w with analyses := swept })
    | .error f => (.swept (.error f), w)

end Workspace

/-- One action of a session: what the clock showed, and the response. -/
structure Event where
  clock : Int
  response : Response

namespace Event

/-- Whether a design was made, imported or edited in success. -/
def usesDesign (id : String) (e : Event) : Bool :=
  match e.response with
  | .design (.ok (some r)) => r.id = id
  | _ => false

/-- Whether an analysis was made. -/
def makesAnalysis (id : Atom) (e : Event) : Bool :=
  match e.response with
  | .analysis (.ok a) => a.id == id
  | _ => false

end Event

/-- A workspace together with what happened in it, the latest first. -/
structure Session where
  workspace : Workspace
  events : List Event

namespace Session

def opened (t : Instant) : Session := ⟨.fresh t.micros, []⟩

def after (s : Session) (action : Action) : Session :=
  ⟨(s.workspace.act action).2, ⟨s.workspace.clock, (s.workspace.act action).1⟩ :: s.events⟩

def run (t : Instant) (actions : List Action) : Session := actions.foldl after (opened t)

/-- What the clock showed at the last event of a kind. -/
def lastTime (s : Session) (p : Event → Bool) : Option Int := (s.events.find? p).map (·.clock)

/-- When a design was last made, imported or edited. -/
def lastUse (s : Session) (id : String) : Option Int := s.lastTime (Event.usesDesign id)

/-- When an analysis was made. -/
def madeAt (s : Session) (id : Atom) : Option Int := s.lastTime (Event.makesAnalysis id)

end Session

end MoveWorkbench
