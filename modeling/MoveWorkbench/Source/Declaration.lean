import MoveWorkbench.Source.Bracket
import MoveWorkbench.Text.Blank
import MoveWorkbench.Text.Leading
import MoveWorkbench.Text.Word

/-!
Function declarations in source text. A declaration is a head, its parameters in
parentheses, and then a body in braces or a semicolon. The functions of a text are the
declarations with a body, from left to right; what stands inside a body is not looked at
again. All belong to the module that is declared first.
-/

namespace MoveWorkbench.Source

/-- The text after one blank or more. -/
def afterBlanks? : List Char → Option (List Char)
  | [] => none
  | c :: cs => if Text.isBlank c then some (Text.skipBlanks cs) else none

/-- A word of at least one character and the text after it. -/
def word? (cs : List Char) : Option (List Char × List Char) :=
  match cs.takeWhile Text.isWord with
  | [] => none
  | w => some (w, cs.dropWhile Text.isWord)

/-- The text after a visibility, which follows the word public: blanks, behind a word in
parentheses if there is one. -/
def afterVisibility? (cs : List Char) : Option (List Char) :=
  match Text.skipBlanks cs with
  | '(' :: cs => do
    let (_, cs) ← word? (Text.skipBlanks cs)
    match Text.skipBlanks cs with
    | ')' :: cs => afterBlanks? cs
    | _ => none
  | _ => afterBlanks? cs

/-- The text after type parameters, or `cs` itself where there are none. -/
def afterTypeParameters? (cs : List Char) : Option (List Char) :=
  match cs with
  | '<' :: cs =>
    match cs.dropWhile (· != '>') with
    | _ :: cs => some (Text.skipBlanks cs)
    | [] => none
  | _ => some cs

/-- The name of a function and the text after its opening parenthesis, from the word fun
on. -/
def afterKeyword? (cs : List Char) : Option (List Char × List Char) := do
  let (name, cs) ← word? (← afterBlanks? (← Text.after? "fun".toList cs))
  match ← afterTypeParameters? (Text.skipBlanks cs) with
  | '(' :: cs => some (name, cs)
  | _ => none

/-- The same from an entry modifier on, if there is one. -/
def afterModifier? (cs : List Char) : Option (List Char × List Char) :=
  match Text.after? "entry".toList cs with
  | some cs => (afterBlanks? cs).bind afterKeyword?
  | none => afterKeyword? cs

/-- The name declared by a head at the beginning of `cs`, and the text after the opening
parenthesis. A head begins a word. -/
def head? (before : Option Char) (cs : List Char) : Option (List Char × List Char) :=
  if before.any Text.isWord then none
  else match Text.after? "public".toList cs with
    | some cs => (afterVisibility? cs).bind afterModifier?
    | none => afterModifier? cs

/-- What a head turns out to declare, with the text that is left. -/
inductive Declaration where
  | function (name body rest : List Char)
  /-- Ended by a semicolon, or by no brace at all. Reading goes on after its parameters. -/
  | bodyless (rest : List Char)
  /-- With a body that goes on to the end of the text. -/
  | unclosed (name body : List Char)
  /-- With parameters that go on to the end of the text. -/
  | unfinished
  deriving DecidableEq

/-- The declaration at the beginning of `cs`. -/
def declaration? (before : Option Char) (cs : List Char) : Option Declaration := do
  let (name, cs) ← head? before cs
  match enclosed? '(' ')' cs with
  | none => some .unfinished
  | some (_, rest) =>
    match rest.dropWhile fun c => c != '\x7b' && c != ';' with
    | '\x7b' :: inner =>
      match enclosed? '\x7b' '\x7d' inner with
      | some (body, rest) => some (.function name body rest)
      | none => some (.unclosed name inner)
    | _ => some (.bodyless rest)

/-- The functions declared in `cs`, of which the first `skip` characters belong to the
last declaration. -/
def functionsFrom : Option Char → Nat → List Char → List (List Char × List Char)
  | _, _, [] => []
  | _, skip + 1, c :: cs => functionsFrom (some c) skip cs
  | before, 0, c :: cs =>
    match declaration? before (c :: cs) with
    | none => functionsFrom (some c) 0 cs
    | some (.function name body rest) =>
      (name, body) :: functionsFrom (some c) (cs.length - rest.length) cs
    | some (.bodyless rest) => functionsFrom (some c) (cs.length - rest.length) cs
    | some (.unclosed name body) => [(name, body)]
    | some .unfinished => []

/-- The address and the name of a module declared at the beginning of `cs`. -/
def moduleHead? (before : Option Char) (cs : List Char) : Option (List Char × List Char) :=
  if before.any Text.isWord then none
  else do
    let (address, cs) ← word? (← afterBlanks? (← Text.after? "module".toList cs))
    let (name, _) ← word? (← Text.after? "::".toList cs)
    return (address, name)

/-- The address and the name of the first module declared in `cs`. -/
def firstModule? : Option Char → List Char → Option (List Char × List Char)
  | _, [] => none
  | before, c :: cs =>
    match moduleHead? before (c :: cs) with
    | some m => some m
    | none => firstModule? (some c) cs

/-- A function found in source text. -/
structure FunctionSource where
  name : String
  module : String
  body : String
  deriving DecidableEq

/-- What is not known by name. -/
def unknown : String := "unknown"

/-- The label of the module that the functions of a text belong to. -/
def moduleLabel (code : String) : String :=
  match firstModule? none code.toList with
  | some (address, name) => String.ofList address ++ "::" ++ String.ofList name
  | none => unknown

/-- The functions looked at in place of those of a text that has none. -/
def placeholders : List FunctionSource := [
  ⟨"transfer", "example::token", "transfer::public_transfer(coin, recipient);"⟩,
  ⟨"mint", "example::token", "let coin = coin::mint(&mut treasury, amount, ctx);"⟩]

/-- The functions declared in a text. -/
def declaredFunctions (code : String) : List FunctionSource :=
  let label := moduleLabel code
  (functionsFrom none 0 code.toList).map fun f => ⟨String.ofList f.1, label, String.ofList f.2⟩

/-- The functions declared in a text, or the placeholders where there are none. -/
def functions (code : String) : List FunctionSource :=
  match declaredFunctions code with
  | [] => placeholders
  | fs => fs

theorem functions_ne_nil (code : String) : functions code ≠ [] := by
  unfold functions
  split
  · simp [placeholders]
  · assumption

theorem functions_eq {code : String} (h : declaredFunctions code ≠ []) :
    functions code = declaredFunctions code := by
  unfold functions
  split
  · rename_i hnil
    exact absurd hnil h
  · rfl

end MoveWorkbench.Source
