import MoveWorkbench.Design.Edit
import MoveWorkbench.Design.Mermaid
import MoveWorkbench.Design.MoveModule
import MoveWorkbench.Design.PlantUml
import MoveWorkbench.Design.Validation
import MoveWorkbench.Workspace.Basic

/-!
Work on the designs of a workspace. An edit of a stored design answers with the design as
it is now, or with nothing when the design or the component is missing. Only an edit that
is done sets the time of the last change.
-/

namespace MoveWorkbench.Workspace

def putDesign (w : Workspace) (r : StoredDesign) : Workspace :=
  { w with designs := w.designs.put (.text r.id) r }

def design? (w : Workspace) (id : Atom) : Option StoredDesign := w.designs.get? id

/-- Stores a new design under the next id. The clock is read before the id is drawn. -/
def store (w : Workspace) (d : Design) : Answer StoredDesign :=
  match w.now, w.nextId "design" with
  | .ok t, .ok id =>
    let r : StoredDesign := ⟨id, d, t, t⟩
    (.ok r, w.draw.putDesign r)
  | .error f, _ => (.error (.fault f), w)
  | _, .error f => (.error (.fault f), w.draw)

def createDesign (w : Workspace) (name description : Json) : Answer StoredDesign :=
  w.store ⟨name, description, []⟩

/-- The workspace after an edit of a stored design. -/
def settle (w : Workspace) (r : StoredDesign) : Edited → Answer (Option StoredDesign)
  | .missing => (.ok none, w)
  | .stopped f d => (.error (.fault f), w.putDesign { r with design := d })
  | .done d =>
    match w.now with
    | .error f => (.error (.fault f), w.putDesign { r with design := d })
    | .ok t =>
      let r := { r with design := d, updatedAt := t }
      (.ok (some r), w.putDesign r)

/-- Edits a stored design. -/
def edit (w : Workspace) (id : Atom) (f : Design → Edited) : Answer (Option StoredDesign) :=
  match w.design? id with
  | none => (.ok none, w)
  | some r => w.settle r (f r.design)

def updateDesign (w : Workspace) (id : Atom) (updates : Json) : Answer (Option StoredDesign) :=
  w.edit id (·.updateBy updates)

/-- Updates a stored design with components of which some may be there already. -/
def updateDesignWith (w : Workspace) (id : Atom) (updates : Fields)
    (supplies : List Component.Supply) : Answer (Option StoredDesign) :=
  w.edit id (·.updateWith updates supplies)

/-- Adds a component under the next id, which is drawn once the design is found. -/
def addComponent (w : Workspace) (id : Atom) (new : Design.NewComponent) :
    Answer (Option StoredDesign) :=
  match w.design? id with
  | none => (.ok none, w)
  | some r =>
    match w.nextId "comp" with
    | .error f => (.error (.fault f), w.draw)
    | .ok component => w.draw.settle r (r.design.add component new)

def updateComponent (w : Workspace) (id : Atom) (component updates : Json) :
    Answer (Option StoredDesign) :=
  w.edit id (·.updateComponent component updates)

def removeComponent (w : Workspace) (id : Atom) (component : Json) :
    Answer (Option StoredDesign) :=
  w.edit id (·.remove component)

def addConnection (w : Workspace) (id : Atom) (source target : Json) :
    Answer (Option StoredDesign) :=
  w.edit id (·.connect source target)

def removeConnection (w : Workspace) (id : Atom) (source target : Json) :
    Answer (Option StoredDesign) :=
  w.edit id (·.disconnect source target)

/-- The problems of a stored design. That it is missing is a problem of its own. -/
def validate (w : Workspace) (id : Atom) : Except Fault (List Problem) :=
  match w.design? id with
  | none => .ok [.designNotFound]
  | some r => r.design.problems

/-- A text made from a stored design. -/
def render (w : Workspace) (id : Atom) (f : StoredDesign → Except Fault String) :
    Except Failure String :=
  match w.design? id with
  | none => .error (.designNotFound id)
  | some r => Failure.lift (f r)

def moveCode (w : Workspace) (id : Atom) (options : CodeOptions) : Except Failure String :=
  w.render id (·.design.moveCode options)

def mermaid (w : Workspace) (id : Atom) : Except Failure String :=
  w.render id (·.design.mermaid)

def plantUml (w : Workspace) (id : Atom) : Except Failure String :=
  w.render id (·.design.plantUml)

def exportDesign (w : Workspace) (id : Atom) : Except Failure String :=
  w.render id fun r => .ok r.document

/-- Stores the design of a document under a new id. -/
def importDesign (w : Workspace) (text : String) : Answer StoredDesign :=
  match Design.ofText text with
  | .error problem => (.error (.ofImport problem), w)
  | .ok d => w.store d

/-- Imports the document of a stored design. -/
def reimportDesign (w : Workspace) (id : Atom) : Answer StoredDesign :=
  match w.exportDesign id with
  | .error f => (.error f, w)
  | .ok text => w.importDesign text

end MoveWorkbench.Workspace
