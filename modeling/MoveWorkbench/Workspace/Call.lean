import MoveWorkbench.Workspace.Designs

/-!
Calls: what can be asked of the designs of a workspace, with arguments of any kind. What is given
as an id has to be one. An order may in addition list components for a design that are no values
but are there already.
-/

namespace MoveWorkbench

/-- What is asked of the designs of a workspace. -/
inductive Call where
  | createDesign (name description : Json)
  | updateDesign (id updates : Json)
  | addComponent (id : Json) (new : Design.NewComponent)
  | updateComponent (id component updates : Json)
  | removeComponent (id component : Json)
  | addConnection (id source target : Json)
  | removeConnection (id source target : Json)
  | importDesign (document : Json)

/-- A call, or an update of a design that lists `σ`s for its components. -/
inductive Order (σ : Type) where
  | call (c : Call)
  | updateWith (id : Json) (updates : Fields) (components : List σ)

/-- The tag of the ids that a call draws. -/
def Call.tag? : Call → Option String
  | createDesign _ _ | importDesign _ => some "design"
  | addComponent _ _ => some "comp"
  | _ => none

namespace Workspace

/-- Goes on with the id that a value is. -/
def withId {α : Type} (w : Workspace) (id : Json) (f : Atom → Answer α) : Answer α :=
  match id.atom with
  | .ok a => f a
  | .error e => (.error (.fault e), w)

/-- An answer that is there when it is given. -/
def given {α : Type} (a : Answer α) : Answer (Option α) := (a.1.map some, a.2)

def perform (w : Workspace) : Call → Answer (Option StoredDesign)
  | .createDesign name description => given (w.createDesign name description)
  | .updateDesign id updates => w.withId id fun a => w.updateDesign a updates
  | .addComponent id new => w.withId id fun a => w.addComponent a new
  | .updateComponent id component updates =>
    w.withId id fun a => w.updateComponent a component updates
  | .removeComponent id component => w.withId id fun a => w.removeComponent a component
  | .addConnection id source target => w.withId id fun a => w.addConnection a source target
  | .removeConnection id source target =>
    w.withId id fun a => w.removeConnection a source target
  | .importDesign (.text s) => given (w.importDesign s)
  | .importDesign _ => (.error (.fault .notText), w)

def obey (w : Workspace) : Order Component.Supply → Answer (Option StoredDesign)
  | .call c => w.perform c
  | .updateWith id updates supplies =>
    w.withId id fun a => w.updateDesignWith a updates supplies

end Workspace

/-- Answers what clients ask one after the other, each answer with the client that it goes to. -/
def serve {σ β ρ κ : Type} (step : σ → β → ρ × σ) (x : σ) : List (κ × β) → List (κ × ρ) × σ
  | [] => ([], x)
  | (k, b) :: asked =>
    let rest := serve step (step x b).2 asked
    ((k, (step x b).1) :: rest.1, rest.2)

end MoveWorkbench
