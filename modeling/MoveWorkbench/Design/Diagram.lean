import MoveWorkbench.Design.Basic
import MoveWorkbench.Json.Display
import MoveWorkbench.Text.Lines
import MoveWorkbench.Text.Word

/-!
Names in diagrams. Ids and names become identifiers by an underscore in place of each
character that no word has.
-/

namespace MoveWorkbench

namespace Diagram

/-- An identifier of the same length. -/
def identifier (s : String) : String :=
  String.ofList (s.toList.map fun c => if Text.isWord c then c else '_')

/-- The identifier of a value, which has to be text. -/
def identifierOf (v : Json) : Except Fault String := (v.asText .notText).map identifier

/-- Puts a text in place of each double quote. -/
def replaceQuotes (new : List Char) (s : String) : String :=
  String.ofList (s.toList.flatMap fun c => if c == '"' then new else [c])

end Diagram

end MoveWorkbench
