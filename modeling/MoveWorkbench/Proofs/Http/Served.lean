import MoveWorkbench.Http.Ledger
import MoveWorkbench.Proofs.Workspace.Creation
import MoveWorkbench.Proofs.Workspace.Linked

/-!
Runs of requests. A request comes down to one call about the designs, or to the analysis of a
text, or it changes nothing, whatever the framework makes of it. The calls that requests come down
to connect only to ids, so a workspace that serves requests is reached by such calls.
-/

namespace MoveWorkbench.Http

/-- The workspaces that are left by requests of any kind. Between requests the clock may be
set to any instant, and old records may be swept. -/
inductive Served (F : Framework) : Workspace → Prop where
  | fresh (t : Instant) : Served F (.fresh t.micros)
  | request {w : Workspace} (h : Served F w) (r : Request) : Served F (F.handle w r).2
  | tick {w : Workspace} (h : Served F w) (t : Instant) : Served F { w with clock := t.micros }
  | sweepDesigns {w : Workspace} (h : Served F w) (cutoff : Instant) :
    Served F { w with designs := w.designs.since (·.updatedAt) cutoff }
  | sweepAnalyses {w : Workspace} (h : Served F w) (cutoff : Instant) :
    Served F { w with analyses := w.analyses.since (·.createdAt) cutoff }

/-- What one request comes down to, and the tag of the ids that are drawn for it. -/
inductive Task (w : Workspace) : Option String → Workspace → Prop where
  | none (tag? : Option String) : Task w tag? w
  | call {c : Call} (hc : c.Linking) : Task w c.tag? (w.perform c).2
  | analyze (code : String) : Task w (some "gas") (w.analyze code).2

inductive Step (w : Workspace) : Workspace → Prop where
  | call {c : Call} (hc : c.Linking) : Step w (w.perform c).2
  | aside (analyses : Store Analysis) (n : ℕ) :
    Step w { w with analyses := analyses, drawn := w.drawn + n }

variable {F : Framework} {w : Workspace}

/-- An endpoint does one call or one analysis, or it changes nothing. -/
theorem task_run (w : Workspace) (e : Endpoint) : Task w e.tag? (e.run w).2 := by
  cases e with
  | analyze code => exact .analyze code
  | createDesign name description => exact .call (c := .createDesign (.text name) _) trivial
  | updateDesign id updates => exact .call (c := .updateDesign (.text id) _) trivial
  | addComponent id new => exact .call (c := .addComponent (.text id) _) trivial
  | updateComponent id component updates =>
    exact .call (c := .updateComponent (.text id) (.text component) _) trivial
  | removeComponent id component =>
    exact .call (c := .removeComponent (.text id) (.text component)) trivial
  | addConnection id source target =>
    exact .call (c := .addConnection (.text id) (.text source) (.text target)) ⟨.text target, rfl⟩
  | removeConnection id source target =>
    exact .call (c := .removeConnection (.text id) (.text source) (.text target)) trivial
  | importDesign text => exact .call (c := .importDesign (.text text)) trivial
  | _ => exact .none _

theorem task_handle (F : Framework) (w : Workspace) (r : Request) :
    Task w (F.dispatch r).tag? (F.handle w r).2 := by
  unfold Framework.handle
  cases F.dispatch r with
  | reply reply => exact .none _
  | call e => exact task_run w e

/-- A request comes down to one call, or leaves the designs alone. -/
theorem step_handle (F : Framework) (w : Workspace) (r : Request) : Step w (F.handle w r).2 := by
  have htask := task_handle F w r
  generalize (F.dispatch r).tag? = tag?, (F.handle w r).2 = left at htask
  cases htask with
  | none => exact .aside w.analyses 0
  | call hc => exact .call hc
  | analyze code =>
    obtain ⟨analyses, n, hleft⟩ := Workspace.exists_analyze_eq w code
    rw [hleft]
    exact .aside analyses n

/-- A workspace that serves requests is reached by calls that connect to ids. -/
theorem Served.reached (h : Served F w) : w.Reached Call.Linking := by
  induction h with
  | fresh t => exact .fresh t
  | @request w _ r ih =>
    have hstep := step_handle F w r
    generalize (F.handle w r).2 = left at hstep
    cases hstep with
    | call hc => exact ih.call hc
    | aside analyses n => exact ih.aside analyses n
  | tick _ t ih => exact ih.tick t
  | sweepDesigns _ cutoff ih => exact ih.sweep cutoff
  | sweepAnalyses _ cutoff ih => exact ih.aside _ 0

end MoveWorkbench.Http
