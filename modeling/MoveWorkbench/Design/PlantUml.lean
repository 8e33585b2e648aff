import MoveWorkbench.Design.Diagram
import MoveWorkbench.Text.Case

/-!
PlantUML class diagrams: a class for each object, with a field for each resource that it
connects to, a class for each resource, and an edge for each connection to a component.
A name that is no identifier is quoted and goes by one.
-/

namespace MoveWorkbench

namespace Diagram

/-- The beginning of the declaration of a class. -/
def classHead (name : Json) : Except Fault String := do
  let s ← name.asText .notText
  return if identifier s = s then "class " ++ s
    else "class \"" ++ replaceQuotes ['\''] s ++ "\" as " ++ identifier s

/-- The field for a resource. -/
def fieldLine (resource : Component) : Except Fault String := do
  let s ← resource.name.asText .lacksOperation
  return "  +" ++ Text.lower s ++ ": " ++ s

def resourceLines (c : Component) : Except Fault (List String) := do
  return [(← classHead c.name) ++ " <<resource>> \x7b", "  +value: u64", "\x7d", ""]

def referenceLine (source target : Component) : Except Fault String := do
  return (← identifierOf source.name) ++ " --> " ++ (← identifierOf target.name)

end Diagram

namespace Design

open Diagram

def objectLines (d : Design) (c : Component) : Except Fault (List String) := do
  let head ← classHead c.name
  let fields ← (d.targetsOfKind c (.text "resource")).mapM fieldLine
  return [head ++ " \x7b", "  +id: UID"] ++ fields ++ ["\x7d", ""]

/-- The lines for the connections that lead to components. -/
def referenceLines (d : Design) : Except Fault (List String) :=
  (d.components.flatMap fun c => (d.targets c).map fun t => (c, t)).mapM fun e =>
    referenceLine e.1 e.2

def plantUmlLines (d : Design) : Except Fault (List String) := do
  let objects ← (d.ofKind (.text "object")).mapM d.objectLines
  let resources ← (d.ofKind (.text "resource")).mapM resourceLines
  let references ← d.referenceLines
  return ["@startuml", "title " ++ d.name.display, ""] ++ objects.flatten ++ resources.flatten
    ++ references ++ ["@enduml"]

def plantUml (d : Design) : Except Fault String := d.plantUmlLines.map Text.joinLines

end Design

end MoveWorkbench
