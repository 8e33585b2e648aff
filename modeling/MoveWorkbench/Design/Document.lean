import MoveWorkbench.Calendar
import MoveWorkbench.Design.Basic
import MoveWorkbench.Json.Reader

/-!
Stored designs and their JSON documents. Any stored design can be written; a text is taken
as a design when it is an object whose components have fields of the right types. The
first fault in the order of components and fields is reported.
-/

namespace MoveWorkbench

structure StoredDesign where
  id : String
  design : Design
  createdAt : Instant
  updatedAt : Instant

namespace StoredDesign

def toJson (r : StoredDesign) : Json :=
  .object [("id", .text r.id), ("name", r.design.name), ("description", r.design.description),
    ("components", .list (r.design.components.map (·.toJson))),
    ("created_at", .text r.createdAt.text), ("updated_at", .text r.updatedAt.text)]

/-- The document of a design. -/
def document (r : StoredDesign) : String := r.toJson.toText

end StoredDesign

/-- What a field of a component has to be. -/
inductive FieldType where
  | text
  | number
  | textList
  | object
  deriving DecidableEq

namespace FieldType

def name : FieldType → String
  | text => "a string"
  | number => "a number"
  | textList => "a list of strings"
  | object => "an object"

/-- Whether a value is of the type. Null stands for an absent value except where text is
asked for. -/
def admits : FieldType → Json → Bool
  | text, .text _ => true
  | number, .null | number, .int _ | number, .float _ => true
  | textList, .null => true
  | textList, .list vs => vs.all fun v => (v matches .text _)
  | object, .null | object, .object _ => true
  | _, _ => false

end FieldType

/-- Why a text is no document of a design. -/
inductive ImportProblem where
  | notJson (text : String) (expected : Json.Expectation) (place : Json.Place)
  | notAnObject
  | notAListOfObjects
  | wrongField (component : Nat) (field : String) (type : FieldType)

def ImportProblem.message : ImportProblem → String
  | notJson text expected place =>
    "Invalid design JSON: " ++ Json.misreadingMessage text expected place
  | notAnObject => "Design JSON must be an object"
  | notAListOfObjects => "Design components must be a list of objects"
  | wrongField component field type =>
    "Component " ++ toString component ++ ": '" ++ field ++ "' must be " ++ type.name

/-- An import is refused with a problem, or stopped by an integer too long to be read. -/
inductive ImportFailure where
  | refused (problem : ImportProblem)
  | stopped (fault : Fault)

namespace Design

/-- The fields of a component whose types are checked, in order. -/
def checkedFields : List (String × FieldType) := [
  ("id", .text), ("kind", .text), ("name", .text), ("x", .number), ("y", .number),
  ("connections", .textList), ("properties", .object)]

/-- The first field with a value of the wrong type. -/
def wrongField? (fs : Fields) : Option (String × FieldType) :=
  checkedFields.find? fun (name, type) =>
    match Ordered.get? name fs with
    | some v => !type.admits v
    | none => false

/-- The first problem with components, of which the first one has number `n`. -/
def wrongComponent? : Nat → List Fields → Option ImportProblem
  | _, [] => none
  | n, fs :: rest =>
    match wrongField? fs with
    | some (name, type) => some (.wrongField n name type)
    | none => wrongComponent? (n + 1) rest

/-- The fields of a value that is an object. -/
def objectFields? : Json → Option Fields
  | .object fs => some fs
  | _ => none

/-- The components of a document: a list of objects, or nothing. -/
def documentComponents? (fs : Fields) : Option (List Fields) :=
  match (Json.field fs "components").orElse (.list []) with
  | .list vs => vs.mapM objectFields?
  | _ => none

/-- The design of a document that was read. -/
def ofDocument (v : Json) : Except ImportFailure Design :=
  match objectFields? v with
  | none => .error (.refused .notAnObject)
  | some fs =>
    match documentComponents? fs with
    | none => .error (.refused .notAListOfObjects)
    | some cs =>
      match wrongComponent? 0 cs with
      | some problem => .error (.refused problem)
      | none =>
        match cs.mapM Component.ofFields with
        | .error f => .error (.stopped f)
        | .ok components =>
          .ok ⟨Json.fieldOr fs "name" (.text ""), Json.field fs "description", components⟩

/-- The design of a document. -/
def ofText (s : String) : Except ImportFailure Design :=
  match Json.ofText s with
  | .error (.unexpected expected place) => .error (.refused (.notJson s expected place))
  | .error .tooManyDigits => .error (.stopped .tooManyDigits)
  | .ok v => ofDocument v

end Design

end MoveWorkbench
