import MoveWorkbench.Workspace.Call

/-!
Studios. In a studio components are objects that are kept at addresses: a design lists addresses,
and an edit changes the objects where they are. Objects are also made outside of designs, and an
update of a design may hand over objects that are there already, which are then listed as they
are. By value a studio is a workspace.
-/

namespace MoveWorkbench

/-- Components that are kept as objects. An address is the number with which one was made. -/
abbrev Heap := List Component

/-- What an update lists as a component: a value of which one is made, or an object. -/
inductive Handed where
  | value (v : Json)
  | object (address : Nat)

namespace Heap

def make (heap : Heap) (cs : List Component) : Heap × List Nat :=
  (heap ++ cs, List.range' heap.length cs.length)

/-- Whether the object at an address has an id. -/
def hasId (heap : Heap) (id : Json) (address : Nat) : Bool := (heap[address]?).any (·.id == id)

/-- Makes objects of the values that are handed over, one after the other. -/
def place (heap : Heap) : List Handed → Except Fault (Heap × List Nat)
  | [] => .ok (heap, [])
  | .object address :: handed => do
    let placed ← place heap handed
    return (placed.1, address :: placed.2)
  | .value v :: handed => do
    let c ← Component.ofJson v
    let placed ← place (heap ++ [c]) handed
    return (placed.1, heap.length :: placed.2)

end Heap

/-- The content of a design whose components are objects. -/
structure Outline where
  name : Json
  description : Json
  components : List Nat

/-- What an edit makes of the content of a design, and of the objects. -/
inductive Redrawn where
  | missing
  | done (heap : Heap) (outline : Outline)
  | stopped (fault : Fault) (heap : Heap) (outline : Outline)

namespace Outline

/-- The content by value. -/
def seen (o : Outline) (heap : Heap) : Design :=
  ⟨o.name, o.description, o.components.filterMap (heap[·]?)⟩

def takeOver (o : Outline) (updates : Fields) : Outline :=
  { o with
    name := Component.keep o.name updates "name"
    description := Json.fieldOr updates "description" o.description }

def refill (o : Outline) (heap : Heap) (updates : Fields) :
    Except Fault (Heap × List Nat) → Redrawn
  | .ok (heap, components) => .done heap { o.takeOver updates with components }
  | .error f => .stopped f heap (o.takeOver updates)

/-- Takes over name and description, and what is handed over for components. -/
def updateWith (o : Outline) (heap : Heap) (updates : Fields) (handed : List Handed) : Redrawn :=
  o.refill heap updates (heap.place handed)

def updateBy (o : Outline) (heap : Heap) : Json → Redrawn
  | .object fs =>
    match Json.field fs "components" with
    | .null => .done heap (o.takeOver fs)
    | v => o.refill heap fs (v.items.bind fun vs => heap.place (vs.map .value))
  | _ => .stopped .lacksOperation heap o

def add (o : Outline) (heap : Heap) (id : String) (new : Design.NewComponent) : Redrawn :=
  match new.connections.connectionIds, new.properties.propertyMembers with
  | .ok connections, .ok properties =>
    .done (heap ++ [⟨.text id, new.kind, new.name, new.x, new.y, connections, properties⟩])
      { o with components := o.components ++ [heap.length] }
  | .error f, _ => .stopped f heap o
  | _, .error f => .stopped f heap o

/-- The address of the first component with an id. -/
def find? (o : Outline) (heap : Heap) (id : Json) : Option Nat := o.components.find? (heap.hasId id)

/-- Changes the object that is the first component with an id. -/
def revise (o : Outline) (heap : Heap) (id : Json) (f : Component → Component) : Redrawn :=
  match o.find? heap id with
  | none => .missing
  | some address => .done (heap.modify address f) o

/-- Updates the object that is the first component with an id, as far as the update goes. -/
def updateComponent (o : Outline) (heap : Heap) (id updates : Json) : Redrawn :=
  match o.find? heap id with
  | none => .missing
  | some address =>
    let left := heap.modify address fun c => (c.updateBy updates).component
    match (heap[address]?).bind fun c => (c.updateBy updates).fault with
    | some f => .stopped f left o
    | none => .done left o

/-- Drops the objects with an id, and takes the id out of the connections of the others. -/
def remove (o : Outline) (heap : Heap) (id : Json) : Redrawn :=
  let rest := o.components.filter fun address => !heap.hasId id address
  .done (rest.foldl (fun left address => left.modify address (·.disconnect id)) heap)
    { o with components := rest }

def connect (o : Outline) (heap : Heap) (source target : Json) : Redrawn :=
  o.revise heap source (·.connect target)

def disconnect (o : Outline) (heap : Heap) (source target : Json) : Redrawn :=
  o.revise heap source (·.disconnect target)

end Outline

/-- A stored design whose components are objects. -/
structure HeldDesign where
  id : String
  outline : Outline
  createdAt : Instant
  updatedAt : Instant

def HeldDesign.seen (r : HeldDesign) (heap : Heap) : StoredDesign :=
  ⟨r.id, r.outline.seen heap, r.createdAt, r.updatedAt⟩

structure Studio where
  heap : Heap
  analyses : Store Analysis
  designs : Store HeldDesign
  clock : Int
  drawn : Nat

namespace Studio

/-- A studio by value. -/
def seen (s : Studio) : Workspace where
  analyses := s.analyses
  designs := ⟨s.designs.entries.map fun e => (e.1, e.2.seen s.heap)⟩
  clock := s.clock
  drawn := s.drawn

/-- Makes objects of the components of designs. -/
def hold (heap : Heap) : List (Atom × StoredDesign) → Heap × List (Atom × HeldDesign)
  | [] => (heap, [])
  | (key, r) :: entries =>
    let (after, components) := heap.make r.design.components
    let (left, held) := hold after entries
    (left, (key, ⟨r.id, ⟨r.design.name, r.design.description, components⟩, r.createdAt,
      r.updatedAt⟩) :: held)

/-- The studio in which each component of a workspace is an object of its own. -/
def of (w : Workspace) : Studio where
  heap := (hold [] w.designs.entries).1
  analyses := w.analyses
  designs := ⟨(hold [] w.designs.entries).2⟩
  clock := w.clock
  drawn := w.drawn

/-- Makes an object that is in no design yet. -/
def construct (s : Studio) (c : Component) : Studio := { s with heap := s.heap ++ [c] }

def draw (s : Studio) : Studio := { s with drawn := s.drawn + 1 }

def put (s : Studio) (heap : Heap) (r : HeldDesign) : Studio :=
  { s with heap, designs := s.designs.put (.text r.id) r }

/-- An answer, by value, and the studio that is left. -/
abbrev Answer := Except Failure (Option StoredDesign) × Studio

def store (s : Studio) (d : Design) : Answer :=
  match s.seen.now, s.seen.nextId "design" with
  | .ok t, .ok id =>
    let (heap, components) := s.heap.make d.components
    let r : HeldDesign := ⟨id, ⟨d.name, d.description, components⟩, t, t⟩
    (.ok (some (r.seen heap)), s.draw.put heap r)
  | .error f, _ => (.error (.fault f), s)
  | _, .error f => (.error (.fault f), s.draw)

def settle (s : Studio) (r : HeldDesign) : Redrawn → Answer
  | .missing => (.ok none, s)
  | .stopped f heap outline => (.error (.fault f), s.put heap { r with outline })
  | .done heap outline =>
    match s.seen.now with
    | .error f => (.error (.fault f), s.put heap { r with outline })
    | .ok t =>
      let r := { r with outline, updatedAt := t }
      (.ok (some (r.seen heap)), s.put heap r)

def edit (s : Studio) (id : Atom) (f : Outline → Heap → Redrawn) : Answer :=
  match s.designs.get? id with
  | none => (.ok none, s)
  | some r => s.settle r (f r.outline s.heap)

def addComponent (s : Studio) (id : Atom) (new : Design.NewComponent) : Answer :=
  match s.designs.get? id with
  | none => (.ok none, s)
  | some r =>
    match s.seen.nextId "comp" with
    | .error f => (.error (.fault f), s.draw)
    | .ok component => s.draw.settle r (r.outline.add s.heap component new)

def importDesign (s : Studio) (text : String) : Answer :=
  match Design.ofText text with
  | .error problem => (.error (.ofImport problem), s)
  | .ok d => s.store d

def withId (s : Studio) (id : Json) (f : Atom → Answer) : Answer :=
  match id.atom with
  | .ok a => f a
  | .error e => (.error (.fault e), s)

def call (s : Studio) : Call → Answer
  | .createDesign name description => s.store ⟨name, description, []⟩
  | .updateDesign id updates => s.withId id fun a => s.edit a (·.updateBy · updates)
  | .addComponent id new => s.withId id fun a => s.addComponent a new
  | .updateComponent id component updates =>
    s.withId id fun a => s.edit a (·.updateComponent · component updates)
  | .removeComponent id component => s.withId id fun a => s.edit a (·.remove · component)
  | .addConnection id source target =>
    s.withId id fun a => s.edit a (·.connect · source target)
  | .removeConnection id source target =>
    s.withId id fun a => s.edit a (·.disconnect · source target)
  | .importDesign (.text t) => s.importDesign t
  | .importDesign _ => (.error (.fault .notText), s)

def perform (s : Studio) : Order Handed → Answer
  | .call c => s.call c
  | .updateWith id updates handed =>
    s.withId id fun a => s.edit a (·.updateWith · updates handed)

/-- Updates a design with components that are made beforehand and handed over as objects. If one
of them cannot be made, the update is not begun. -/
def updateMade (s : Studio) (id : Json) (updates : Fields) : Answer :=
  match Json.field updates "components" with
  | .null => s.perform (.call (.updateDesign id (.object updates)))
  | v =>
    match Design.newComponents v with
    | .error f => (.error (.fault f), s)
    | .ok cs =>
      let (heap, addresses) := s.heap.make cs
      { s with heap }.perform (.updateWith id updates (addresses.map .object))

end Studio

end MoveWorkbench
