import MoveWorkbench.Design.Basic
import MoveWorkbench.Text.Leading

/-!
Edits of designs. An edit may find that the component it is about is missing, and then
it changes nothing. Values that cannot be taken over stop an edit on the way, and the
fields that come before them stay changed.
-/

namespace MoveWorkbench

/-- What an edit makes of a design. -/
inductive Edited where
  | missing
  | done (design : Design)
  | stopped (fault : Fault) (design : Design)

namespace Component

/-- A component as far as an update went, and what stopped it. -/
structure Progress where
  component : Component
  fault : Option Fault

/-- Takes over a field that null leaves as it is. -/
def keep (old : Json) (updates : Fields) (name : String) : Json :=
  match Json.field updates name with
  | .null => old
  | v => v

/-- Takes over the fields that need no conversion. -/
def updatePlain (c : Component) (updates : Fields) : Component :=
  { c with
    kind := keep c.kind updates "kind"
    name := keep c.name updates "name"
    x := keep c.x updates "x"
    y := keep c.y updates "y" }

/-- The value of a field after conversion, or `old` when the field is not there. -/
def convert {α : Type} (old : α) (updates : Fields) (name : String)
    (f : Json → Except Fault α) : Except Fault α :=
  match Ordered.get? name updates with
  | some v => f v
  | none => .ok old

/-- Takes over the fields of an update. Null stands for no connections and for no
properties. -/
def update (c : Component) (updates : Fields) : Progress :=
  let c := c.updatePlain updates
  match convert c.connections updates "connections" Json.connectionIds with
  | .error f => ⟨c, some f⟩
  | .ok connections =>
    let c := { c with connections }
    match convert c.properties updates "properties" Json.propertyMembers with
    | .error f => ⟨c, some f⟩
    | .ok properties => ⟨{ c with properties }, none⟩

/-- The fields of an update that are taken over. -/
def updatable : List String := ["kind", "name", "x", "y", "connections", "properties"]

/-- Whether a value other than an object names a field that would be taken over: a list
by an item of it, a text by a part. -/
def namesField : Json → Except Fault Bool
  | .list vs => .ok (updatable.any fun name => (Json.text name).isAmong vs)
  | .text s => .ok (updatable.any fun name => Text.occursIn name.toList s.toList)
  | _ => .error .notIterable

/-- Takes over what a value has to offer. One other than an object does no harm as long
as it names no field. -/
def updateBy (c : Component) : Json → Progress
  | .object fs => c.update fs
  | v =>
    match namesField v with
    | .ok named => ⟨c, if named then some .noFields else none⟩
    | .error f => ⟨c, some f⟩

/-- What an update lists as a component: a value of which one is made, or a component that is there
and is taken over as it is, whatever its connections are. -/
inductive Supply where
  | value (v : Json)
  | ready (c : Component)

def Supply.component : Supply → Except Fault Component
  | value v => ofJson v
  | ready c => .ok c

/-- Connects to an id once. -/
def connect (c : Component) (id : Json) : Component :=
  if id.isAmong c.connections then c else { c with connections := c.connections ++ [id] }

def disconnect (c : Component) (id : Json) : Component :=
  { c with connections := c.connections.filter fun v => !v == id }

end Component

namespace Design

/-- Applies a function to the first component with an id. -/
def modifyFirst (id : Json) (f : Component → Component) : List Component → List Component
  | [] => []
  | c :: cs => if c.id == id then f c :: cs else c :: modifyFirst id f cs

def mapFirst (d : Design) (id : Json) (f : Component → Component) : Design :=
  { d with components := modifyFirst id f d.components }

/-- Takes over name and description. A null name leaves the old one, a null description clears
it. -/
def takeOver (d : Design) (updates : Fields) : Design :=
  { d with
    name := Component.keep d.name updates "name"
    description := Json.fieldOr updates "description" d.description }

/-- Takes over name and description, and then the components if there are any to be had. -/
def refill (d : Design) (updates : Fields) : Except Fault (List Component) → Edited
  | .ok components => .done { d.takeOver updates with components }
  | .error f => .stopped f (d.takeOver updates)

/-- The components that are made of the items of a value. -/
def newComponents (v : Json) : Except Fault (List Component) :=
  v.items.bind fun vs => vs.mapM Component.ofJson

/-- Takes over name, description and components. A null list of components leaves the old one. -/
def update (d : Design) (updates : Fields) : Edited :=
  match Json.field updates "components" with
  | .null => .done (d.takeOver updates)
  | v => d.refill updates (newComponents v)

/-- Takes over name and description, and components of which some may be there already. -/
def updateWith (d : Design) (updates : Fields) (supplies : List Component.Supply) : Edited :=
  d.refill updates (supplies.mapM (·.component))

/-- Takes over what a value has to offer, which has to be an object. -/
def updateBy (d : Design) : Json → Edited
  | .object fs => d.update fs
  | _ => .stopped .lacksOperation d

/-- What a new component is made of besides its id. -/
structure NewComponent where
  kind : Json
  name : Json
  x : Json
  y : Json
  connections : Json
  properties : Json

/-- Appends a component. -/
def add (d : Design) (id : String) (new : NewComponent) : Edited :=
  match new.connections.connectionIds, new.properties.propertyMembers with
  | .ok connections, .ok properties =>
    .done { d with components := d.components ++
      [⟨.text id, new.kind, new.name, new.x, new.y, connections, properties⟩] }
  | .error f, _ => .stopped f d
  | _, .error f => .stopped f d

/-- Updates the first component with an id. -/
def updateComponent (d : Design) (id updates : Json) : Edited :=
  match d.find? id with
  | none => .missing
  | some c =>
    let d := d.mapFirst id fun c => (c.updateBy updates).component
    match (c.updateBy updates).fault with
    | some f => .stopped f d
    | none => .done d

/-- Removes the components with an id, and the id from all connections. -/
def remove (d : Design) (id : Json) : Edited :=
  .done { d with components := (d.components.filter fun c => !c.id == id).map (·.disconnect id) }

/-- Connects the first component with the id `source`. -/
def connect (d : Design) (source target : Json) : Edited :=
  match d.find? source with
  | none => .missing
  | some _ => .done (d.mapFirst source (·.connect target))

/-- Removes a connection of the first component with the id `source`. -/
def disconnect (d : Design) (source target : Json) : Edited :=
  match d.find? source with
  | none => .missing
  | some _ => .done (d.mapFirst source (·.disconnect target))

end Design

end MoveWorkbench
