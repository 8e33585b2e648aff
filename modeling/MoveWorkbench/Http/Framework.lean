import MoveWorkbench.Http.Endpoint

/-!
The framework around the endpoints. For each request it calls at most one endpoint, with arguments
of the declared types; where it calls none it answers by itself. And it shows what an endpoint comes
to. Which paths and bodies fit, and how data are written, is the framework's own concern: what the
endpoints rely on is told by `Framework.Lawful`, and nothing else is known of it. Texts are
sequences of characters, among which there are no halves of surrogate pairs: no text is too odd to
be written.
-/

namespace MoveWorkbench

namespace Json

/-- What stands in a value under the names of a path, each of which occurs once where it is
looked for. -/
def at? : List String → Json → Option Json
  | [], v => some v
  | name :: path, object fs =>
    match fs.filter (·.1 = name) with
    | [f] => f.2.at? path
    | _ => none
  | _ :: _, _ => none

/-- Names of fields with an underscore in front may be kept back. -/
def isPublic (name : String) : Bool := name.toList.head? != some '_'

mutual

/-- Whether a value is made up of texts and flags under different names. -/
def isPlain : Json → Bool
  | null | bool _ | text _ => true
  | int _ | float _ => false
  | list vs => arePlain vs
  | object fs => fieldsPlain fs

def arePlain : List Json → Bool
  | [] => true
  | v :: vs => isPlain v && arePlain vs

def fieldsPlain : List (String × Json) → Bool
  | [] => true
  | (name, v) :: fs => isPublic name && fs.all (·.1 ≠ name) && isPlain v && fieldsPlain fs

end

end Json

namespace Http

/-- A body as it comes. -/
inductive Body where
  | empty
  | json (value : Json)
  | raw (text : String)

structure Request where
  method : String
  path : String
  headers : List (String × String)
  body : Body

inductive Reply where
  | answer (status : Nat) (body : Json)
  /-- A page for people, or no content at all. -/
  | bare (status : Nat)
  /-- The request was broken off. -/
  | crashed (fault : Fault)

def Reply.status : Reply → Nat
  | answer status _ | bare status => status
  | crashed _ => 500

/-- What becomes of a request. -/
inductive Dispatch where
  | reply (r : Reply)
  | call (e : Endpoint)

structure Framework where
  dispatch : Request → Dispatch
  render : Result → Reply

namespace Framework

/-- Answers a request. -/
def handle (F : Framework) (w : Workspace) (r : Request) : Reply × Workspace :=
  match F.dispatch r with
  | .reply reply => (reply, w)
  | .call e => (F.render (e.run w).1, (e.run w).2)

end Framework

/-- Whether an id can stand between the slashes of a path. -/
structure IsSegment (id : String) : Prop where
  nonempty : id ≠ ""
  noSlash : '/' ∉ id.toList

/-- The request that looks something up. -/
def Lookup.request (l : Lookup) (headers : List (String × String)) (body : Body) : Request :=
  ⟨"GET", l.path, headers, body⟩

/-- What the endpoints rely on. -/
structure Framework.Lawful (F : Framework) : Prop where
  /-- An endpoint is called for requests with its own method. -/
  method : ∀ {r : Request} {e : Endpoint}, F.dispatch r = .call e → r.method = e.method
  /-- Ids in a path are what stands between two slashes. -/
  segment : ∀ {r : Request} {e : Endpoint}, F.dispatch r = .call e →
    ∀ id ∈ e.segments, IsSegment id
  /-- A path that is made up of an id leads to where the id is looked up. -/
  lookup : ∀ l : Lookup, (∀ id ∈ l.id?, IsSegment id) → ∀ headers body,
    F.dispatch (l.request headers body) = .call (.look l)
  /-- Where no endpoint is called nothing has been created, changed or deleted, and the status
  says so. -/
  own : ∀ {r : Request} {reply : Reply}, F.dispatch r = .reply reply →
    r.method ∈ ["POST", "PUT", "DELETE"] → reply.status ≠ 200
  refused : ∀ status detail,
    F.render (.refused status detail) = .answer status (.object [("detail", .text detail)])
  failed : (F.render .failed).status = 500
  raised : ∀ f, (F.render (.raised f)).status = 500
  /-- Data are answered with their texts where they stand, or they cannot be written. -/
  data : ∀ {result : Result} {v : Json}, result.value? = some v →
    (∃ body, F.render result = .answer 200 body ∧ ∀ path s, (∀ name ∈ path, Json.isPublic name) →
      v.at? path = some (.text s) → body.at? path = some (.text s)) ∨
    (F.render result).status = 500
  /-- Texts and flags can always be written. -/
  plain : ∀ v : Json, v.isPlain = true → F.render (.data v) = .answer 200 v

end Http

end MoveWorkbench
