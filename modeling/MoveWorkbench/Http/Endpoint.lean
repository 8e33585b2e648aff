import MoveWorkbench.Workspace.Analyses
import MoveWorkbench.Workspace.Designs

/-!
Endpoints: what requests can come down to, with arguments of the declared types. An endpoint looks
something up, or does one piece of work on a workspace. What comes of it is data, a refusal in
words or a failure.
-/

namespace MoveWorkbench

inductive ComponentKind where
  | module
  | object
  | resource
  | capability
  | function
  deriving DecidableEq

namespace ComponentKind

def all : List ComponentKind := [module, object, resource, capability, function]

def name : ComponentKind → String
  | module => "module"
  | object => "object"
  | resource => "resource"
  | capability => "capability"
  | function => "function"

def ofName? (s : String) : Option ComponentKind := all.find? (·.name == s)

end ComponentKind

namespace Http

/-- What a body says about a field that need not be there. -/
inductive Given (α : Type) where
  | unset
  | null
  | value (a : α)

def Given.fields {α : Type} (name : String) (toJson : α → Json) : Given α → Fields
  | unset => []
  | null => [(name, .null)]
  | value a => [(name, toJson a)]

def texts (ss : List String) : Json := .list (ss.map .text)

def optional {α : Type} (toJson : α → Json) (a : Option α) : Json := (a.map toJson).getD .null

structure DesignUpdate where
  name : Given String
  description : Given String
  components : Given (List Fields)

def DesignUpdate.fields (u : DesignUpdate) : Fields :=
  u.name.fields "name" .text ++ u.description.fields "description" .text ++
    u.components.fields "components" fun cs => .list (cs.map .object)

structure ComponentUpdate where
  kind : Given ComponentKind
  name : Given String
  x : Given Binary64
  y : Given Binary64
  connections : Given (List String)
  properties : Given Fields

def ComponentUpdate.fields (u : ComponentUpdate) : Fields :=
  u.kind.fields "kind" (fun kind => .text kind.name) ++ u.name.fields "name" .text ++
    u.x.fields "x" .float ++ u.y.fields "y" .float ++ u.connections.fields "connections" texts ++
    u.properties.fields "properties" .object

structure NewComponent where
  kind : ComponentKind
  name : String
  x : Binary64
  y : Binary64
  connections : List String
  properties : Option Fields

def NewComponent.parts (new : NewComponent) : Design.NewComponent :=
  ⟨.text new.kind.name, .text new.name, .float new.x, .float new.y, texts new.connections,
    optional .object new.properties⟩

/-- What is asked for without any change. -/
inductive Lookup where
  | health
  | analysis (id : String)
  | report (id : String)
  | design (id : String)
  | mermaid (id : String)
  | plantUml (id : String)
  | validation (id : String)
  | document (id : String)
  deriving DecidableEq

inductive Endpoint where
  | look (l : Lookup)
  | analyze (code : String)
  | compare (before after : String)
  | transactionEstimate (transaction : Transaction)
  | createDesign (name : String) (description : Option String)
  | updateDesign (id : String) (updates : DesignUpdate)
  | addComponent (id : String) (new : NewComponent)
  | updateComponent (id component : String) (updates : ComponentUpdate)
  | removeComponent (id component : String)
  | addConnection (id source target : String)
  | removeConnection (id source target : String)
  | moveCode (id : String) (moduleName : Option String) (comments tests : Bool)
  | importDesign (text : String)

/-- What an endpoint comes to. -/
inductive Result where
  | data (v : Json)
  /-- A design as the data of a success. Its properties may stand under keys that are no texts. -/
  | design (r : StoredDesign)
  | refused (status : Nat) (detail : String)
  /-- A failure that is the server's, and is told as such. -/
  | failed
  | raised (fault : Fault)

namespace Result

def success (v : Json) : Json := .object [("success", .bool true), ("data", v)]

def ok (v : Json) : Result := data (success v)

/-- The data, if there are any, without regard to the keys of properties. -/
def value? : Result → Option Json
  | data v => some v
  | design r => some (success r.toJson)
  | refused _ _ | failed | raised _ => none

/-- A result that may be missing. -/
def found {α : Type} (result : α → Result) (missing : String) :
    Except Failure (Option α) → Result
  | .ok (some a) => result a
  | .ok none => refused 404 missing
  | .error (.fault f) => raised f
  | .error failure => refused 404 (failure.message?.getD missing)

def of {α : Type} (result : α → Result) : Except Failure α → Result
  | .ok a => result a
  | .error (.importRefused problem) => refused 400 problem.message
  | .error (.fault f) => raised f
  | .error failure => refused 404 (failure.message?.getD "")

/-- A text under a name. -/
def named (name : String) (s : String) : Result := ok (.object [(name, .text s)])

def analysis (a : Analysis) : Result := ok a.toJson

def report (s : String) : Result :=
  ok (.object [("report", .text s), ("format", .text "markdown")])

/-- Whatever keeps code from being generated is the server's failure. -/
def code : Except Failure String → Result
  | .error (.fault _) => failed
  | r => of (named "code") r

def transaction (t : Transaction) : Result :=
  let b := (Transaction.ofJson (.text t.name)).breakdown
  ok (.object [("transaction_type", .text t.name), ("total_gas", .int b.total),
    ("breakdown", b.toJson)])

def ofDesign (missing : String) : Except Failure (Option StoredDesign) → Result :=
  found design missing

end Result

def designNotFound : String := "Design not found"

def componentNotFound : String := "Design or component not found"

def sourceNotFound : String := "Design or source component not found"

namespace Lookup

/-- The id that a path has a place for. -/
def id? : Lookup → Option String
  | health => none
  | analysis id | report id | design id | mermaid id | plantUml id | validation id
  | document id => some id

def path : Lookup → String
  | health => "/api/health"
  | analysis id => "/api/gas/analysis/" ++ id
  | report id => "/api/gas/analysis/" ++ id ++ "/report"
  | design id => "/api/designer/design/" ++ id
  | mermaid id => "/api/designer/design/" ++ id ++ "/mermaid"
  | plantUml id => "/api/designer/design/" ++ id ++ "/plantuml"
  | validation id => "/api/designer/design/" ++ id ++ "/validate"
  | document id => "/api/designer/design/" ++ id ++ "/export"

def answer (w : Workspace) : Lookup → Result
  | health => .data (.object [("status", .text "ok"), ("version", .text "0.1.0")])
  | analysis id => .found .analysis "Analysis not found" (.ok (w.analysis? (.text id)))
  | report id => .of .report (w.report (.text id))
  | design id => .ofDesign designNotFound (.ok (w.design? (.text id)))
  | mermaid id => .of (.named "diagram") (w.mermaid (.text id))
  | plantUml id => .of (.named "diagram") (w.plantUml (.text id))
  | validation id =>
    .of (fun problems => .ok (Problem.report problems)) (Failure.lift (w.validate (.text id)))
  | document id => .of (.named "design_json") (w.exportDesign (.text id))

end Lookup

namespace Endpoint

def method : Endpoint → String
  | look _ => "GET"
  | updateDesign _ _ | updateComponent _ _ _ => "PUT"
  | removeComponent _ _ | removeConnection _ _ _ => "DELETE"
  | _ => "POST"

/-- The ids that stand in the path. -/
def segments : Endpoint → List String
  | look l => l.id?.toList
  | updateDesign id _ | addComponent id _ | addConnection id _ _ | removeConnection id _ _
  | moveCode id _ _ _ => [id]
  | updateComponent id component _ | removeComponent id component => [id, component]
  | _ => []

/-- The tag of the ids that an endpoint draws. -/
def tag? : Endpoint → Option String
  | analyze _ => some "gas"
  | createDesign _ _ | importDesign _ => some "design"
  | addComponent _ _ => some "comp"
  | _ => none

/-- Turns an answer of the workspace into a result, and keeps what is left of the workspace. -/
def outcome {α : Type} (result : Except Failure α → Result) (a : Answer α) : Result × Workspace :=
  (result a.1, a.2)

def run (w : Workspace) : Endpoint → Result × Workspace
  | look l => (l.answer w, w)
  | analyze code => outcome (.of .analysis) (w.analyze code)
  | compare before after =>
    (.found (fun c => .ok c.toJson) "One or both analyses not found"
      (Failure.lift (w.compare (.text before) (.text after))), w)
  | transactionEstimate t => (.transaction t, w)
  | createDesign name description =>
    outcome (.of .design) (w.createDesign (.text name) (optional .text description))
  | updateDesign id updates =>
    outcome (.ofDesign designNotFound) (w.updateDesign (.text id) (.object updates.fields))
  | addComponent id new =>
    outcome (.ofDesign designNotFound) (w.addComponent (.text id) new.parts)
  | updateComponent id component updates =>
    outcome (.ofDesign componentNotFound)
      (w.updateComponent (.text id) (.text component) (.object updates.fields))
  | removeComponent id component =>
    outcome (.ofDesign designNotFound) (w.removeComponent (.text id) (.text component))
  | addConnection id source target =>
    outcome (.ofDesign sourceNotFound) (w.addConnection (.text id) (.text source) (.text target))
  | removeConnection id source target =>
    outcome (.ofDesign sourceNotFound)
      (w.removeConnection (.text id) (.text source) (.text target))
  | moveCode id moduleName comments tests =>
    (.code (w.moveCode (.text id) ⟨moduleName.filter (· ≠ ""), comments, tests⟩), w)
  | importDesign text => outcome (.of .design) (w.importDesign text)

end Endpoint

end Http

end MoveWorkbench
