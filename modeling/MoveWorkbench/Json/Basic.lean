import MoveWorkbench.Number.Binary64
import MoveWorkbench.Ordered

/-!
JSON values. Integers are kept apart from doubles, and the fields of an object stand in
the order in which they came.

A value without parts is an atom. Atoms serve as ids and as keys, and two atoms are the
same id when their keys are equal: true, the integer one and the double one are one id,
and so are the two zeros.
-/

namespace MoveWorkbench

inductive Json where
  | null
  | bool (value : Bool)
  | int (value : Int)
  | float (value : Binary64)
  | text (value : String)
  | list (items : List Json)
  | object (fields : List (String × Json))

instance : Inhabited Json := ⟨.null⟩

abbrev Fields := List (String × Json)

/-- A value without parts. -/
inductive Atom where
  | null
  | bool (value : Bool)
  | int (value : Int)
  | float (value : Binary64)
  | text (value : String)

/-- What a number is, however it is written. -/
inductive Quantity where
  | nan
  | infinite (negative : Bool)
  | exact (value : Rat)
  deriving DecidableEq

instance : Hashable Quantity where
  hash
    | .nan => 1
    | .infinite negative => if negative then 2 else 3
    | .exact x => mixHash (hash x.num) (hash x.den)

/-- What an atom stands for as an id. -/
inductive Key where
  | null
  | number (quantity : Quantity)
  | text (value : String)
  deriving DecidableEq, Hashable

namespace Quantity

def ofDouble : Binary64 → Quantity
  | .nan => nan
  | .infinite negative => infinite negative
  | .negativeZero => exact 0
  | .real x _ => exact x

end Quantity

namespace Atom

instance : Inhabited Atom := ⟨null⟩

def key : Atom → Key
  | null => .null
  | bool b => .number (.exact (if b then 1 else 0))
  | int n => .number (.exact n)
  | float x => .number (.ofDouble x)
  | text s => .text s

/-- Atoms are compared as ids. -/
instance : BEq Atom := ⟨fun a b => a.key == b.key⟩

theorem beq_iff {a b : Atom} : (a == b) = true ↔ a.key = b.key := by
  change (a.key == b.key) = true ↔ _
  exact beq_iff_eq

instance : EquivBEq Atom where
  rfl := beq_iff.mpr rfl
  symm h := beq_iff.mpr (beq_iff.mp h).symm
  trans h h' := beq_iff.mpr ((beq_iff.mp h).trans (beq_iff.mp h'))

theorem eq_text_of_beq {a : Atom} {s : String} (h : (a == .text s) = true) : a = .text s := by
  have hkey := beq_iff.mp h
  cases a with
  | text t =>
    injection hkey with hkey
    rw [hkey]
  | _ => cases hkey

def toJson : Atom → Json
  | null => .null
  | bool b => .bool b
  | int n => .int n
  | float x => .float x
  | text s => .text s

/-- Whether an atom is no double without a finite value. -/
def isFinite : Atom → Bool
  | float x => x.isFinite
  | _ => true

/-- The atoms of `as` without those whose id came before. -/
def unique (as : List Atom) : List Atom := Ordered.distinctBy key [] as

@[simp] theorem key_text (s : String) : (text s).key = .text s := rfl

/-- No id is left twice. -/
theorem nodup_map_key_unique (as : List Atom) : ((unique as).map key).Nodup :=
  Ordered.nodup_map_distinctBy key [] as

end Atom

namespace Json

def atom? : Json → Option Atom
  | null => some .null
  | bool b => some (.bool b)
  | int n => some (.int n)
  | float x => some (.float x)
  | text s => some (.text s)
  | list _ | object _ => none

/-- The value as an id. -/
def atom (v : Json) : Except Fault Atom :=
  match v.atom? with
  | some a => .ok a
  | none => .error .unhashable

/-- The value as an id to be looked up among other ids. -/
def key (v : Json) : Except Fault Key := v.atom.map (·.key)

/-- Whether the value is an id with the given key. -/
def hasKey (v : Json) (k : Key) : Bool := v.atom?.any (·.key = k)

@[simp] theorem atom?_toJson (a : Atom) : a.toJson.atom? = some a := by cases a <;> rfl

/-- Whether a value is present in the everyday sense: neither null, false, zero nor
empty. -/
def isTruthy : Json → Bool
  | null => false
  | bool b => b
  | int n => n ≠ 0
  | float x => !x.isZero
  | text s => s ≠ ""
  | list xs => !xs.isEmpty
  | object fs => !fs.isEmpty

/-- The text that a value has to be, lest there be a fault. -/
def asText (v : Json) (f : Fault) : Except Fault String :=
  match v with
  | text s => .ok s
  | _ => .error f

/-- The value, or `other` when it is absent in the everyday sense. -/
def orElse (v other : Json) : Json := if v.isTruthy then v else other

/-- The items met when the value is gone through: those of a list, the characters of a
text, the names of an object's fields. -/
def items : Json → Except Fault (List Json)
  | list xs => .ok xs
  | text s => .ok (s.toList.map fun c => .text c.toString)
  | object fs => .ok (fs.map fun f => .text f.1)
  | null | bool _ | int _ | float _ => .error .notIterable

/-- The ids met when the value is gone through, each once. -/
def uniqueIds (v : Json) : Except Fault (List Atom) := do
  return Atom.unique (← (← v.items).mapM Json.atom)

/-- A key and its value from an item that holds just these two. -/
def pair (v : Json) : Except Fault (Atom × Json) := do
  match ← v.items with
  | [k, w] => return (← k.atom, w)
  | _ => throw .notAPair

/-- The members of a value: the fields of an object, or the pairs met when another value
is gone through. A later pair replaces the value of an earlier one with the same key. -/
def members : Json → Except Fault (List (Atom × Json))
  | object fs => .ok (fs.map fun f => (.text f.1, f.2))
  | v => do return Ordered.ofList (← (← v.items).mapM pair)

/-- The value of a field, null when it is absent. -/
def field (fs : Fields) (name : String) : Json := (Ordered.get? name fs).getD .null

def hasField (fs : Fields) (name : String) : Bool := (Ordered.get? name fs).isSome

end Json

end MoveWorkbench
