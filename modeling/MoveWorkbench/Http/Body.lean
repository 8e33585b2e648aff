import MoveWorkbench.Http.Framework
import MoveWorkbench.Json.Reader
import MoveWorkbench.Text.Blank
import MoveWorkbench.Text.Encoding

/-!
Bodies of requests. A body is read as JSON and then checked against a form: fields with
a type each, some of which have to be there. Every field that fits is taken over in its
proper type, numbers and flags also from texts that stand for them; otherwise all faults
are reported in the order of the form.
-/

namespace MoveWorkbench.Http

/-- A body once it is read. -/
inductive Payload where
  | absent
  | value (v : Json)
  | misread (place : Json.Place)
  /-- In a broken encoding, or with an integer too long to be read. -/
  | unreadable

namespace Payload

def ofBody : Body → Payload
  | .empty => absent
  | .json v => value v
  | .raw s =>
    if s = "" then absent
    else match Text.meant? s with
      | none => unreadable
      | some text =>
        match Json.ofText text with
        | .ok v => value v
        | .error (.unexpected _ place) => misread place
        | .error .tooManyDigits => unreadable

end Payload

inductive BodyFault where
  | missing
  | misread
  | noObject
  | notText
  | notList
  | notDictionary
  | notAmongChoices
  | notNumber
  | unreadableNumber
  | notFlag
  | unreadableFlag
  deriving DecidableEq

/-- The name by which a fault is reported. -/
def BodyFault.code : BodyFault → String
  | missing => "missing"
  | misread => "json_invalid"
  | noObject => "model_attributes_type"
  | notText => "string_type"
  | notList => "list_type"
  | notDictionary => "dict_type"
  | notAmongChoices => "literal_error"
  | notNumber => "float_type"
  | unreadableNumber => "float_parsing"
  | notFlag => "bool_type"
  | unreadableFlag => "bool_parsing"

/-- A fault, the way to it inside the body, and what was met there. -/
structure BodyError where
  fault : BodyFault
  place : List Json
  input : Json

/-- The type of a field. -/
inductive Check where
  | text
  | choice (names : List String)
  | number
  | flag
  | textList
  | dictionaryList
  | dictionary
  | nullable (check : Check)

/-- A number in a text, without a sign: digits with a point and an exponent, or a name. -/
def unsignedNumber? (cs : List Char) : Option Binary64 :=
  let word := String.ofList (cs.map Char.toLower)
  if word = "nan" then some .nan
  else if word = "inf" ∨ word = "infinity" then some (.infinite false)
  else
    let (whole, rest) := Json.spanDigits cs
    let (fraction, rest) := match rest with
      | '.' :: rest => Json.spanDigits rest
      | rest => ([], rest)
    let (exponent, rest) := Json.exponentPart rest
    if rest = [] ∧ (whole ≠ [] ∨ fraction ≠ []) then
      some (.ofDecimal (Json.digitsOf (whole ++ fraction)) (exponent.getD 0 - fraction.length))
    else none

def signedNumber? : List Char → Option Binary64
  | '-' :: cs => (unsignedNumber? cs).map (·.neg)
  | '+' :: cs => unsignedNumber? cs
  | cs => unsignedNumber? cs

/-- Whether two underscores stand side by side. -/
def hasDoubleUnderscore : List Char → Bool
  | '_' :: '_' :: _ => true
  | _ :: cs => hasDoubleUnderscore cs
  | [] => false

/-- The text without its underscores, if they are all single and inside of it. -/
def withoutUnderscores? (cs : List Char) : Option (List Char) :=
  if cs.head? = some '_' ∨ cs.getLast? = some '_' ∨ hasDoubleUnderscore cs then none
  else some (cs.filter (· ≠ '_'))

/-- The number that a text stands for, with blanks around it or underscores inside. -/
def numberOfText? (s : String) : Option Binary64 :=
  match signedNumber? (Text.trimBoth Text.isWhite s.toList) with
  | some x => some x
  | none => (withoutUnderscores? s.toList).bind signedNumber?

def checkNumber : Json → Except BodyFault Binary64
  | .float x => .ok x
  | .bool b => .ok (.ofRat (if b then 1 else 0))
  | .int n =>
    match Binary64.ofInt? n with
    | .ok x => .ok x
    | .error _ => .error .notNumber
  | .text s =>
    match numberOfText? s with
    | some x => .ok x
    | none => .error .unreadableNumber
  | _ => .error .notNumber

def yesWords : List String := ["1", "t", "y", "true", "yes", "on"]

def noWords : List String := ["0", "f", "n", "false", "no", "off"]

/-- Two to the power of 63: how far the numbers of 64 bits reach. -/
def wordLimit : Int := 9223372036854775808

/-- The flag that a number stands for. Numbers of 64 bits and more are no flags at all,
smaller ones have to be one or zero. -/
def checkFlagNumber (n : Int) : Except BodyFault Bool :=
  if n = 1 then .ok true
  else if n = 0 then .ok false
  else if -wordLimit ≤ n ∧ n < wordLimit then .error .unreadableFlag
  else .error .notFlag

def checkFlag : Json → Except BodyFault Bool
  | .bool b => .ok b
  | .text s =>
    let word := String.ofList (s.toList.map Char.toLower)
    if word ∈ yesWords then .ok true
    else if word ∈ noWords then .ok false
    else .error .unreadableFlag
  | .int n => checkFlagNumber n
  | .float x =>
    match x.value? with
    | some r => if r.den = 1 ∧ r.num ≠ -wordLimit then checkFlagNumber r.num else .error .notFlag
    | none => .error .notFlag
  | _ => .error .notFlag

/-- Reports a fault at a place, or takes over a value. -/
def atPlace (place : List Json) (input : Json) (r : Except BodyFault Json) :
    Except (List BodyError) Json :=
  r.mapError fun fault => [⟨fault, place, input⟩]

def isTextValue (v : Json) : Except BodyFault Json :=
  match v with
  | .text _ => .ok v
  | _ => .error .notText

def isDictionary (v : Json) : Except BodyFault Json :=
  match v with
  | .object _ => .ok v
  | _ => .error .notDictionary

/-- The faults of the items of a list, of which the first one has number `n`. -/
def itemErrors (place : List Json) (check : Json → Except BodyFault Json) :
    Nat → List Json → List BodyError
  | _, [] => []
  | n, v :: vs =>
    (match check v with
      | .ok _ => []
      | .error fault => [⟨fault, place ++ [.int n], v⟩])
    ++ itemErrors place check (n + 1) vs

def checkList (place : List Json) (check : Json → Except BodyFault Json) (v : Json) :
    Except (List BodyError) Json :=
  match v with
  | .list vs =>
    match itemErrors place check 0 vs with
    | [] => .ok v
    | errors => .error errors
  | _ => .error [⟨.notList, place, v⟩]

def Check.run (place : List Json) (v : Json) : Check → Except (List BodyError) Json
  | text => atPlace place v (isTextValue v)
  | choice names =>
    match v with
    | .text s => if s ∈ names then .ok v else .error [⟨.notAmongChoices, place, v⟩]
    | _ => .error [⟨.notAmongChoices, place, v⟩]
  | number => atPlace place v ((checkNumber v).map .float)
  | flag => atPlace place v ((checkFlag v).map .bool)
  | textList => checkList place isTextValue v
  | dictionaryList => checkList place isDictionary v
  | dictionary => atPlace place v (isDictionary v)
  | nullable check =>
    match v with
    | .null => .ok .null
    | _ => check.run place v

/-- A field of a form. -/
structure FormField where
  name : String
  check : Check
  required : Bool

abbrev Form := List FormField

/-- The fields of a form that are there, and the faults. -/
def Form.collect (body : Fields) : Form → Fields × List BodyError
  | [] => ([], [])
  | f :: form =>
    let (taken, errors) := Form.collect body form
    let place := [Json.text "body", .text f.name]
    match Ordered.get? f.name body with
    | some v =>
      match f.check.run place v with
      | .ok w => ((f.name, w) :: taken, errors)
      | .error found => (taken, found ++ errors)
    | none =>
      if f.required then (taken, ⟨.missing, place, .object body⟩ :: errors) else (taken, errors)

/-- The fields of a body in the types of a form. -/
def Form.fill (form : Form) (v : Json) : Except (List BodyError) Fields :=
  match v with
  | .object fs =>
    match form.collect fs with
    | (taken, []) => .ok taken
    | (_, errors) => .error errors
  | _ => .error [⟨.noObject, [.text "body"], v⟩]

/-- The faults of a body that is no JSON. -/
def misreadErrors (place : Json.Place) : List BodyError :=
  [⟨.misread, [.text "body", .int place.offset], .object []⟩]

/-- The faults of a body that is not there. -/
def absentErrors : List BodyError := [⟨.missing, [.text "body"], .null⟩]

end MoveWorkbench.Http
