import MoveWorkbench.Design.Basic
import MoveWorkbench.Graph.Search
import MoveWorkbench.Json.Display

/-!
Validation of designs: names that several components share, connections to ids that
nothing has, and cycles. All problems are reported, in this order.
-/

namespace MoveWorkbench

inductive Problem where
  | designNotFound
  | duplicateNames (names : List String)
  | unknownTarget (source target : Json)
  | circular

namespace Problem

def message : Problem → String
  | designNotFound => "Design not found"
  | duplicateNames names => "Duplicate component names: " ++ ", ".intercalate names
  | unknownTarget source target =>
    "Invalid connection from " ++ source.display ++ " to unknown component " ++ target.display
  | circular => "Circular dependencies detected"

/-- The answer to a validation: the messages, and whether there are none. -/
def report (problems : List Problem) : Json :=
  .object [("valid", .bool problems.isEmpty),
    ("errors", .list (problems.map fun p => .text p.message))]

end Problem

namespace Design

/-- The elements that come for the second time, each once. -/
def repeatedFrom (seen repeated : List Key) : List Atom → List Atom
  | [] => []
  | a :: as =>
    if a.key ∈ seen ∧ a.key ∉ repeated then a :: repeatedFrom seen (a.key :: repeated) as
    else repeatedFrom (a.key :: seen) repeated as

def repeated (as : List Atom) : List Atom := repeatedFrom [] [] as

/-- The text of an atom to be joined with others. -/
def joinable : Atom → Except Fault String
  | .text s => .ok s
  | _ => .error .notText

/-- The names that several components share. -/
def sharedNames (d : Design) : Except Fault (List String) := do
  (repeated (← d.components.mapM (·.name.atom))).mapM joinable

/-- The graph of components by the keys of their ids. -/
def graph (d : Design) : Except Fault (Graph Key) :=
  d.components.mapM fun c => do return (← c.id.key, ← c.connections.mapM Json.key)

/-- The graph of ids and of what stands for their connections, be it a list or not. -/
def graphOf (entries : List (Json × Json)) : Except Fault (HiddenGraph Fault Key) :=
  entries.mapM fun e => do return (← e.1.key, e.2.items.map (·.map Json.key))

/-- The connections to ids that are not among those of the components. -/
def dangling (d : Design) (ids : List Key) : List Problem :=
  d.components.flatMap fun c =>
    (c.connections.filter fun v => !ids.any v.hasKey).map fun v => .unknownTarget c.name v

/-- The problems of a design. -/
def problems (d : Design) : Except Fault (List Problem) := do
  let shared ← d.sharedNames
  let graph ← d.graph
  return (if shared = [] then [] else [.duplicateNames shared])
    ++ d.dangling (graph.map (·.1))
    ++ (if graph.hasCycle then [.circular] else [])

end Design

end MoveWorkbench
