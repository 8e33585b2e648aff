import MoveWorkbench.Text.Lines

/-!
Routes: what a path addresses. Ids in a path are whatever stands between two slashes, and
a line break at the very end of a path that ends in a fixed word does not count. Besides
the routes that answer with data there are pages about them for people to read.
-/

namespace MoveWorkbench.Http

inductive Route where
  | page
  | health
  | analyze
  | analysis (id : String)
  | analysisReport (id : String)
  | compare
  | transactionEstimate
  | designs
  | design (id : String)
  | components (id : String)
  | component (id component : String)
  | connections (id : String)
  | moveCode (id : String)
  | mermaid (id : String)
  | plantUml (id : String)
  | validation (id : String)
  | document (id : String)
  | imports
  deriving DecidableEq

namespace Route

/-- The route of a path, given by the parts between its slashes. -/
def ofParts? : List String → Option Route
  | ["", "docs"] | ["", "docs", "oauth2-redirect"] | ["", "redoc"] | ["", "openapi.json"] =>
    some page
  | ["", "api", "health"] => some health
  | ["", "api", "gas", "analyze"] => some analyze
  | ["", "api", "gas", "compare"] => some compare
  | ["", "api", "gas", "transaction-estimate"] => some transactionEstimate
  | ["", "api", "gas", "analysis", id] => if id = "" then none else some (analysis id)
  | ["", "api", "gas", "analysis", id, "report"] =>
    if id = "" then none else some (analysisReport id)
  | ["", "api", "designer", "design"] => some designs
  | ["", "api", "designer", "import"] => some imports
  | ["", "api", "designer", "design", id] => if id = "" then none else some (design id)
  | ["", "api", "designer", "design", id, "component", c] =>
    if id = "" ∨ c = "" then none else some (component id c)
  | ["", "api", "designer", "design", id, word] =>
    if id = "" then none
    else if word = "component" then some (components id)
    else if word = "connection" then some (connections id)
    else if word = "generate-code" then some (moveCode id)
    else if word = "mermaid" then some (mermaid id)
    else if word = "plantuml" then some (plantUml id)
    else if word = "validate" then some (validation id)
    else if word = "export" then some (document id)
    else none
  | _ => none

def parts (path : List Char) : List String := (Text.split '/' path).map String.ofList

/-- The text without a line break at its end. -/
def withoutFinalBreak (path : List Char) : List Char :=
  if path.getLast? = some '\n' then path.dropLast else path

def ofPath? (path : String) : Option Route :=
  match ofParts? (parts path.toList) with
  | some route => some route
  | none => ofParts? (parts (withoutFinalBreak path.toList))

end Route

end MoveWorkbench.Http
