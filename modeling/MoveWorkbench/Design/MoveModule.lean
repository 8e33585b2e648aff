import MoveWorkbench.Design.Basic
import MoveWorkbench.Json.Display
import MoveWorkbench.Text.Blank
import MoveWorkbench.Text.Case

/-!
Move modules made from designs. Objects become structs with a field for each resource
that they connect to, and resources become structs with a value. A design with function
components has an entry function for each of them, any other one a constructor for each
object. A module is a list of items; its text is a list of lines, and a comment goes
before each item unless comments are left out.
-/

namespace MoveWorkbench

namespace MoveModule

structure Field where
  name : String
  type : String
  deriving DecidableEq

inductive Item where
  | object (name : String) (fields : List Field)
  | resource (name : String)
  | constructor (name : String) (function : String) (fields : List Field)
  | entry (name : String) (function : String)
  deriving DecidableEq

namespace Item

def comment : Item → String
  | object name _ => name ++ " object"
  | resource name => name ++ " resource"
  | constructor name _ _ => "Create a new " ++ name
  | entry name _ => name ++ " function"

def lines : Item → List String
  | object name fields =>
    ["    public struct " ++ name ++ " has key \x7b", "        id: UID,"]
      ++ (fields.map fun f => "        " ++ f.name ++ ": " ++ f.type ++ ",") ++ ["    \x7d", ""]
  | resource name =>
    ["    public struct " ++ name ++ " has store \x7b", "        value: u64,", "    \x7d", ""]
  | constructor name function fields =>
    ["    public fun create_" ++ function ++ "(ctx: &mut TxContext): " ++ name ++ " \x7b",
      "        " ++ name ++ " \x7b", "            id: object::new(ctx),"]
      ++ (fields.map fun f =>
        "            " ++ f.name ++ ": " ++ f.type ++ " \x7b value: 0 \x7d,")
      ++ ["        \x7d", "    \x7d", ""]
  | entry _ function =>
    ["    public entry fun " ++ function ++ "(ctx: &mut TxContext) \x7b",
      "        // TODO: Implement function logic", "    \x7d", ""]

/-- The lines of an item, behind a comment if there are to be any. -/
def commentedLines (comments : Bool) (i : Item) : List String :=
  (if comments then ["    /// " ++ i.comment] else []) ++ i.lines

end Item

end MoveModule

structure MoveModule where
  name : String
  summary : String
  items : List MoveModule.Item
  deriving DecidableEq

/-- What is written besides the items, and under which name. -/
structure CodeOptions where
  moduleName : Option String
  comments : Bool
  tests : Bool
  deriving DecidableEq

namespace CodeOptions

def default : CodeOptions := ⟨none, true, false⟩

/-- The options in the fields of an object. Comments are on and tests off unless a field
says otherwise. -/
def ofFields (fs : Fields) : CodeOptions :=
  let name := Json.field fs "module_name"
  ⟨if name.isTruthy then some name.display else none,
    (Json.fieldOr fs "include_comments" (.bool default.comments)).isTruthy,
    (Json.fieldOr fs "include_tests" (.bool default.tests)).isTruthy⟩

end CodeOptions

namespace MoveModule

def summaryLines (m : MoveModule) : List String :=
  ["/// " ++ m.summary, "/// Auto-generated from System Designer"]

def headLines (m : MoveModule) : List String :=
  ["module " ++ m.name ++ "::" ++ m.name ++ " \x7b", "    use sui::object::\x7bSelf, UID\x7d;",
    "    use sui::tx_context::TxContext;", "    use sui::transfer;", ""]

def testLines (m : MoveModule) : List String :=
  ["", "#[test_only]", "module " ++ m.name ++ "::" ++ m.name ++ "_tests \x7b",
    "    use " ++ m.name ++ "::" ++ m.name ++ ";", "    use sui::test_scenario;", "",
    "    #[test]", "    fun test_basic() \x7b", "        let user = @0xA;",
    "        let scenario = test_scenario::begin(user);", "        // TODO: Add test logic",
    "        test_scenario::end(scenario);", "    \x7d", "\x7d"]

def lines (m : MoveModule) (comments tests : Bool) : List String :=
  (if comments then m.summaryLines else []) ++ m.headLines
    ++ m.items.flatMap (·.commentedLines comments) ++ ["\x7d"]
    ++ (if tests then m.testLines else [])

/-- The text of a module. Every line ends with a line break. -/
def text (m : MoveModule) (comments tests : Bool) : String :=
  String.join ((m.lines comments tests).map (· ++ "\n"))

end MoveModule

namespace Design

open MoveModule

/-- A name in lower case, which only text has. -/
def lowerName (name : Json) : Except Fault String := (name.asText .lacksOperation).map Text.lower

/-- The name in lower case with an underscore for each run of blanks. -/
def defaultModuleName (name : String) : String :=
  String.ofList (Text.joinBlanks (Text.lower name).toList)

/-- The same for a value, which has to be text. -/
def defaultModuleNameOf (name : Json) : Except Fault String :=
  (name.asText .lacksOperation).map defaultModuleName

/-- The name under which a module is written. An empty name counts as none. -/
def moduleName (d : Design) (given : Option String) : Except Fault String :=
  match given.filter (· ≠ "") with
  | some name => .ok name
  | none => defaultModuleNameOf d.name

/-- A field for each resource that a component connects to. -/
def resourceFields (d : Design) (c : Component) : Except Fault (List Field) :=
  (d.targetsOfKind c (.text "resource")).mapM fun r => do
    return ⟨← lowerName r.name, r.name.display⟩

def objectItem (d : Design) (c : Component) : Except Fault Item := do
  return .object c.name.display (← d.resourceFields c)

def constructorItem (d : Design) (c : Component) : Except Fault Item := do
  return .constructor c.name.display (← lowerName c.name) (← d.resourceFields c)

def entryItem (c : Component) : Except Fault Item := do
  return .entry c.name.display (← lowerName c.name)

/-- The functions of a design: its own, or constructors where it has none. -/
def functionItems (d : Design) : Except Fault (List Item) :=
  match d.ofKind (.text "function") with
  | [] => (d.ofKind (.text "object")).mapM d.constructorItem
  | functions => functions.mapM entryItem

/-- The module that a design stands for. -/
def moveModule (d : Design) (given : Option String) : Except Fault MoveModule := do
  let name ← d.moduleName given
  let objects ← (d.ofKind (.text "object")).mapM d.objectItem
  let resources := (d.ofKind (.text "resource")).map fun r => Item.resource r.name.display
  return ⟨name, (d.description.orElse d.name).display, objects ++ resources ++ (← d.functionItems)⟩

/-- The Move code of a design. -/
def moveCode (d : Design) (options : CodeOptions) : Except Fault String := do
  return (← d.moveModule options.moduleName).text options.comments options.tests

end Design

end MoveWorkbench
