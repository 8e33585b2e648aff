import MoveWorkbench.Http.Body
import MoveWorkbench.Http.Route

/-!
The framework that the program runs in. A path that leads nowhere, a method that a route does not
know and a body that does not fit are answered before an endpoint is called. What comes of an
endpoint is shown as JSON, which has no way to write infinities, nor integers of thousands of
digits.
-/

namespace MoveWorkbench.Http

mutual

/-- A value as it is shown, without the fields that are kept to oneself by their names. -/
def shown : Json → Json
  | .list vs => .list (shownItems vs)
  | .object fs => .object (shownFields fs)
  | v => v

def shownItems : List Json → List Json
  | [] => []
  | v :: vs => shown v :: shownItems vs

def shownFields : List (String × Json) → List (String × Json)
  | [] => []
  | (name, v) :: fs =>
    if (Text.after? "_sa".toList name.toList).isSome then shownFields fs
    else (name, shown v) :: shownFields fs

end

/-- Whether an integer has no more digits than are written. The first test spares most
integers the second. -/
def isShort (n : Int) : Bool :=
  n.natAbs.log2 < 3 * Json.maxDigits || n.natAbs < Nat.pow 10 Json.maxDigits

mutual

/-- Whether all numbers in a value can be written. -/
def isWritable : Json → Bool
  | .int n => isShort n
  | .float x => x.isFinite
  | .list vs => areWritable vs
  | .object fs => fieldsWritable fs
  | _ => true

def areWritable : List Json → Bool
  | [] => true
  | v :: vs => isWritable v && areWritable vs

def fieldsWritable : List (String × Json) → Bool
  | [] => true
  | (_, v) :: fs => isWritable v && fieldsWritable fs

end

namespace Reply

/-- Answers with a value as it is shown. -/
def present (status : Nat) (v : Json) : Reply :=
  if isWritable (shown v) then answer status (shown v) else crashed .unwritable

/-- Refuses a request in words. -/
def refuse (status : Nat) (detail : String) : Reply :=
  answer status (.object [("detail", .text detail)])

def notFound : Reply := refuse 404 "Not Found"

def methodNotAllowed : Reply := refuse 405 "Method Not Allowed"

/-- Reports faults of a body, if what was met there can be written. -/
def reject (errors : List BodyError) : Reply :=
  if errors.all fun e => isWritable (shown e.input) then
    answer 422 (.object [("detail", .list (errors.map fun e =>
      .object [("type", .text e.fault.code), ("loc", .list e.place)]))])
  else crashed .unwritable

end Reply

namespace Form

def analyze : Form := [⟨"code", .text, true⟩]

def compare : Form := [⟨"before_id", .text, true⟩, ⟨"after_id", .text, true⟩]

def transactionEstimate : Form :=
  [⟨"transaction_type", .choice (Transaction.all.map (·.name)), true⟩]

def createDesign : Form := [⟨"name", .text, true⟩, ⟨"description", .nullable .text, false⟩]

def updateDesign : Form := [⟨"name", .nullable .text, false⟩,
  ⟨"description", .nullable .text, false⟩, ⟨"components", .nullable .dictionaryList, false⟩]

def kind : Check := .choice (ComponentKind.all.map (·.name))

def addComponent : Form := [⟨"kind", kind, true⟩, ⟨"name", .text, true⟩,
  ⟨"x", .number, true⟩, ⟨"y", .number, true⟩, ⟨"connections", .textList, false⟩,
  ⟨"properties", .nullable .dictionary, false⟩]

def updateComponent : Form := [⟨"kind", .nullable kind, false⟩,
  ⟨"name", .nullable .text, false⟩, ⟨"x", .nullable .number, false⟩,
  ⟨"y", .nullable .number, false⟩, ⟨"connections", .nullable .textList, false⟩,
  ⟨"properties", .nullable .dictionary, false⟩]

def connection : Form := [⟨"from_id", .text, true⟩, ⟨"to_id", .text, true⟩]

def moveCode : Form := [⟨"module_name", .nullable .text, false⟩,
  ⟨"include_comments", .flag, false⟩, ⟨"include_tests", .flag, false⟩]

def imports : Form := [⟨"design_json", .text, true⟩]

end Form

/-! What a check has let through, in its proper type. -/

def asText : Json → String
  | .text s => s
  | _ => ""

def asNumber : Json → Binary64
  | .float x => x
  | _ => .zero

def asFields : Json → Fields
  | .object fs => fs
  | _ => []

def asList {α : Type} (read : Json → α) : Json → List α
  | .list vs => vs.map read
  | _ => []

def asKind (v : Json) : ComponentKind := (ComponentKind.ofName? (asText v)).getD .object

/-- The text under a name. -/
def textOf (fs : Fields) (name : String) : String := asText (Json.field fs name)

/-- What may stand under a name, and may be null. -/
def givenOf {α : Type} (read : Json → α) (fs : Fields) (name : String) : Given α :=
  match Ordered.get? name fs with
  | none => .unset
  | some .null => .null
  | some v => .value (read v)

def optionOf {α : Type} (read : Json → α) (fs : Fields) (name : String) : Option α :=
  match Json.field fs name with
  | .null => none
  | v => some (read v)

def newComponent (fs : Fields) : NewComponent where
  kind := asKind (Json.field fs "kind")
  name := textOf fs "name"
  x := asNumber (Json.field fs "x")
  y := asNumber (Json.field fs "y")
  connections := asList asText (Json.field fs "connections")
  properties := optionOf asFields fs "properties"

def designUpdate (fs : Fields) : DesignUpdate where
  name := givenOf asText fs "name"
  description := givenOf asText fs "description"
  components := givenOf (asList asFields) fs "components"

def componentUpdate (fs : Fields) : ComponentUpdate where
  kind := givenOf asKind fs "kind"
  name := givenOf asText fs "name"
  x := givenOf asNumber fs "x"
  y := givenOf asNumber fs "y"
  connections := givenOf (asList asText) fs "connections"
  properties := givenOf asFields fs "properties"

/-- What a route has for a method: an endpoint as it is, or one for the fields of a body. -/
inductive Entry where
  | plain (e : Endpoint)
  | form (form : Form) (endpoint : Fields → Endpoint)

namespace Route

def get? : Route → Option Lookup
  | health => some .health
  | analysis id => some (.analysis id)
  | analysisReport id => some (.report id)
  | design id => some (.design id)
  | mermaid id => some (.mermaid id)
  | plantUml id => some (.plantUml id)
  | validation id => some (.validation id)
  | document id => some (.document id)
  | _ => none

def post? : Route → Option Entry
  | analyze => some (.form .analyze fun fs => .analyze (textOf fs "code"))
  | compare => some (.form .compare fun fs =>
    .compare (textOf fs "before_id") (textOf fs "after_id"))
  | transactionEstimate => some (.form .transactionEstimate fun fs =>
    .transactionEstimate (.ofJson (Json.field fs "transaction_type")))
  | designs => some (.form .createDesign fun fs =>
    .createDesign (textOf fs "name") (optionOf asText fs "description"))
  | components id => some (.form .addComponent fun fs => .addComponent id (newComponent fs))
  | connections id => some (.form .connection fun fs =>
    .addConnection id (textOf fs "from_id") (textOf fs "to_id"))
  | moveCode id => some (.form .moveCode fun fs =>
    .moveCode id (optionOf asText fs "module_name")
      (Json.fieldOr fs "include_comments" (.bool true)).isTruthy
      (Json.fieldOr fs "include_tests" (.bool false)).isTruthy)
  | imports => some (.form .imports fun fs => .importDesign (textOf fs "design_json"))
  | _ => none

def put? : Route → Option Entry
  | design id => some (.form .updateDesign fun fs => .updateDesign id (designUpdate fs))
  | component id c => some (.form .updateComponent fun fs =>
    .updateComponent id c (componentUpdate fs))
  | _ => none

def delete? : Route → Option Entry
  | component id c => some (.plain (.removeComponent id c))
  | connections id => some (.form .connection fun fs =>
    .removeConnection id (textOf fs "from_id") (textOf fs "to_id"))
  | _ => none

def entry? (route : Route) (method : String) : Option Entry :=
  if method = "GET" then route.get?.map fun l => .plain (.look l)
  else if method = "POST" then route.post?
  else if method = "PUT" then route.put?
  else if method = "DELETE" then route.delete?
  else none

end Route

/-- Calls an endpoint with the fields of a body, if they fill a form. -/
def Form.call (form : Form) (endpoint : Fields → Endpoint) : Payload → Dispatch
  | .absent => .reply (.reject absentErrors)
  | .misread place => .reply (.reject (misreadErrors place))
  | .unreadable => .reply (.refuse 400 "There was an error parsing the body")
  | .value v =>
    match form.fill v with
    | .ok fs => .call (endpoint fs)
    | .error errors => .reply (.reject errors)

/-- A path that leads nowhere with slashes at its end may lead somewhere without them. -/
def lost (path : String) : Reply :=
  let rest := path.toList.reverse.dropWhile (· = '/')
  if rest.length < path.length ∧ (Route.ofPath? (String.ofList rest.reverse)).isSome then .bare 307
  else .notFound

def dispatch (r : Request) : Dispatch :=
  match Route.ofPath? r.path with
  | none => .reply (lost r.path)
  | some .page =>
    .reply (if r.method = "GET" ∨ r.method = "HEAD" then .bare 200 else .methodNotAllowed)
  | some route =>
    match route.entry? r.method with
    | none => .reply .methodNotAllowed
    | some (.plain e) => .call e
    | some (.form form endpoint) => form.call endpoint (.ofBody r.body)

def render : Result → Reply
  | .data v => .present 200 v
  | .design r =>
    if r.design.hasFiniteKeys then .present 200 (Result.success r.toJson) else .crashed .unwritable
  | .refused status detail => .refuse status detail
  | .failed => .bare 500
  | .raised f => .crashed f

def server : Framework := ⟨dispatch, render⟩

end MoveWorkbench.Http
