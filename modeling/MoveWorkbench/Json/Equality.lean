import MoveWorkbench.Json.Basic

/-!
Equality of values. Numbers are equal when they have the same exact value, where true and
false are one and zero. Lists are compared item by item, objects field by field in any
order. A double that is not a number is found among other values and agrees with itself
there, but by itself it is equal to nothing.
-/

namespace MoveWorkbench.Json

mutual

/-- Whether two values agree in all their parts. -/
def agrees : Json → Json → Bool
  | list vs, list ws => agreeItems vs ws
  | object fs, object gs => fs.length == gs.length && agreeFields fs gs
  | v, w => v.atom?.any fun a => w.atom?.any (a == ·)

def agreeItems : List Json → List Json → Bool
  | [], [] => true
  | v :: vs, w :: ws => agrees v w && agreeItems vs ws
  | _, _ => false

/-- Whether all fields of one object agree with fields of another one. -/
def agreeFields : List (String × Json) → List (String × Json) → Bool
  | [], _ => true
  | (name, v) :: fs, gs =>
    (match Ordered.get? name gs with
      | some w => agrees v w
      | none => false)
    && agreeFields fs gs

end

/-- Whether a value is a double that is not a number. -/
def isNan : Json → Bool
  | float .nan => true
  | _ => false

instance : BEq Json := ⟨fun v w => agrees v w && !isNan v⟩

/-- Whether a value is found in a list. -/
def isAmong (v : Json) (vs : List Json) : Bool := vs.any fun w => w.agrees v

theorem beq_def (v w : Json) : (v == w) = (agrees v w && !isNan v) := rfl

@[simp] theorem agrees_text {v : Json} {s : String} : v.agrees (text s) = true ↔ v = text s := by
  cases v with
  | list vs => simp [agrees, atom?]
  | object fs => simp [agrees, atom?]
  | _ => simp [agrees, atom?, Atom.beq_iff, Atom.key]

@[simp] theorem beq_text {v : Json} {s : String} : (v == text s) = true ↔ v = text s := by
  rw [beq_def, Bool.and_eq_true, agrees_text]
  constructor
  · exact And.left
  · rintro rfl
    exact ⟨rfl, rfl⟩

end MoveWorkbench.Json
