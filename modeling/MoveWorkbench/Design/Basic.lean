import MoveWorkbench.Json.Equality
import MoveWorkbench.Json.Writer

/-!
Designs: a named and ordered list of components, each of which lists the ids that it
connects to. A component is made from the fields of an object. Its text fields and its
coordinates are kept as they come, its connections are a list without repetitions, and
ids that nothing has are allowed among them.
-/

namespace MoveWorkbench

structure Component where
  id : Json
  kind : Json
  name : Json
  x : Json
  y : Json
  connections : List Json
  properties : List (Atom × Json)

namespace Json

/-- The ids in a value, none when it is absent in the everyday sense. -/
def connectionIds (v : Json) : Except Fault (List Json) :=
  (v.orElse (list [])).uniqueIds.map (·.map (·.toJson))

/-- The members of a value, none when it is absent in the everyday sense. -/
def propertyMembers (v : Json) : Except Fault (List (Atom × Json)) :=
  (v.orElse (object [])).members

/-- The value of a field that is absent only if it is not there at all. -/
def fieldOr (fs : Fields) (name : String) (other : Json) : Json :=
  (Ordered.get? name fs).getD other

end Json

namespace Component

/-- A coordinate, zero when it is absent in the everyday sense. -/
def coordinate (v : Json) : Json := v.orElse (.float .zero)

/-- The component with the plain fields among `fs` and the given properties. -/
def ofMembers (fs : Fields) (properties : Except Fault (List (Atom × Json))) :
    Except Fault Component := do
  return {
    id := Json.fieldOr fs "id" (.text "")
    kind := Json.fieldOr fs "kind" (.text "")
    name := Json.fieldOr fs "name" (.text "")
    x := coordinate (Json.field fs "x")
    y := coordinate (Json.field fs "y")
    connections := ← (Json.field fs "connections").connectionIds
    properties := ← properties }

def ofFields (fs : Fields) : Except Fault Component :=
  ofMembers fs (Json.field fs "properties").propertyMembers

def ofJson : Json → Except Fault Component
  | .object fs => ofFields fs
  | _ => .error .lacksOperation

def toJson (c : Component) : Json :=
  .object [("id", c.id), ("kind", c.kind), ("name", c.name), ("x", c.x), ("y", c.y),
    ("connections", .list c.connections),
    ("properties", .object (c.properties.map fun p => (p.1.fieldName, p.2)))]

/-- What a component is taken apart into without being written: its properties may stand under
keys that are no texts. -/
structure Parts where
  plain : Fields
  properties : List (Atom × Json)

def parts (c : Component) : Parts where
  plain := [("id", c.id), ("kind", c.kind), ("name", c.name), ("x", c.x), ("y", c.y),
    ("connections", .list c.connections)]
  properties := c.properties

def ofParts (p : Parts) : Except Fault Component := ofMembers p.plain (.ok p.properties)

end Component

structure Design where
  name : Json
  description : Json
  components : List Component

namespace Design

/-- The first component with an id. -/
def find? (d : Design) (id : Json) : Option Component := d.components.find? (·.id == id)

def ofKind (d : Design) (kind : Json) : List Component := d.components.filter (·.kind == kind)

/-- Whether all keys of properties are finite. -/
def hasFiniteKeys (d : Design) : Bool :=
  d.components.all fun c => c.properties.all fun p => p.1.isFinite

/-- The components that `c` connects to, in the order of its connections. -/
def targets (d : Design) (c : Component) : List Component := c.connections.filterMap d.find?

/-- Those of a kind among the components that `c` connects to. -/
def targetsOfKind (d : Design) (c : Component) (kind : Json) : List Component :=
  (d.targets c).filter (·.kind == kind)

end Design

end MoveWorkbench
