import MoveWorkbench.Design.Diagram

/-!
Mermaid diagrams: a node for each component, shaped by its kind, an edge for each
connection, and a style for each kind.
-/

namespace MoveWorkbench

namespace Diagram

/-- What stands around the label of a node. -/
structure Shape where
  opening : String
  closing : String

structure KindStyle where
  kind : String
  shape : Shape
  style : String

def kindStyles : List KindStyle := [
  ⟨"module", ⟨"[", "]"⟩, "fill:#4299e1,stroke:#2b6cb0,color:#fff"⟩,
  ⟨"object", ⟨"(", ")"⟩, "fill:#48bb78,stroke:#2f855a,color:#fff"⟩,
  ⟨"resource", ⟨"[[", "]]"⟩, "fill:#9f7aea,stroke:#6b46c1,color:#fff"⟩,
  ⟨"capability", ⟨"\x7b", "\x7d"⟩, "fill:#ecc94b,stroke:#b7791f,color:#1a202c"⟩,
  ⟨"function", ⟨">", "]"⟩, "fill:#ed8936,stroke:#c05621,color:#fff"⟩]

/-- The shape of the nodes of a kind, square when nothing is known of it. -/
def shapeOf (kind : Json) : Except Fault Shape := do
  discard kind.atom
  return ((kindStyles.find? fun k => kind == .text k.kind).map (·.shape)).getD ⟨"[", "]"⟩

/-- A label in quotes. -/
def label (name : Json) : Except Fault String := do
  return "\"" ++ replaceQuotes "#quot;".toList (← name.asText .lacksOperation) ++ "\""

def nodeLine (c : Component) : Except Fault String := do
  let shape ← shapeOf c.kind
  return "    " ++ (← identifierOf c.id) ++ shape.opening ++ (← label c.name) ++ shape.closing

def edgeLine (c : Component) (target : Json) : Except Fault String := do
  return "    " ++ (← identifierOf c.id) ++ " --> " ++ (← identifierOf target)

def styleLine (k : KindStyle) : String := "    classDef " ++ k.kind ++ " " ++ k.style

def classLine (c : Component) : Except Fault String := do
  return "    class " ++ (← identifierOf c.id) ++ " " ++ c.kind.display

end Diagram

namespace Design

open Diagram

def mermaidEdges (d : Design) : Except Fault (List String) :=
  (d.components.flatMap fun c => c.connections.map fun a => (c, a)).mapM fun e => edgeLine e.1 e.2

def mermaidLines (d : Design) : Except Fault (List String) := do
  let nodes ← d.components.mapM nodeLine
  let edges ← d.mermaidEdges
  let classes ← d.components.mapM classLine
  return ["\x60\x60\x60mermaid", "graph TD"] ++ nodes ++ edges ++ [""] ++ kindStyles.map styleLine
    ++ [""] ++ classes ++ ["\x60\x60\x60"]

def mermaid (d : Design) : Except Fault String := d.mermaidLines.map Text.joinLines

end Design

end MoveWorkbench
