import MoveWorkbench.Fault

/-!
Brackets. Going forward over a text, the depth is the number of opening brackets met
less the closing ones. The partner of an opening bracket is the first closing one at
which the depth is back to nothing. Text is taken as a list of whatever can be compared.
-/

namespace MoveWorkbench.Source

variable {α : Type} [BEq α]

/-- The place of the first closing bracket that brings the depth to zero. -/
def closing? (opener closer : α) : Int → List α → Option Nat
  | _, [] => none
  | depth, c :: cs =>
    if c == opener then (closing? opener closer (depth + 1) cs).map (· + 1)
    else if c == closer then
      if depth = 1 then some 0 else (closing? opener closer (depth - 1) cs).map (· + 1)
    else (closing? opener closer depth cs).map (· + 1)

/-- The place of the partner of the bracket at place `start`. -/
def partner? (opener closer : α) (start : Nat) (code : List α) : Option Nat :=
  (closing? opener closer 0 (code.drop start)).map (· + start)

/-- The same for a place that may be negative. It then counts from the end of the text,
and reading goes on at the beginning. -/
def partnerFrom (opener closer : α) (start : Int) (code : List α) :
    Except Fault (Option Int) :=
  if 0 ≤ start then .ok ((partner? opener closer start.toNat code).map Int.ofNat)
  else if start < -code.length then .error .outsideText
  else
    let turned := code.drop (code.length + start).toNat ++ code
    .ok ((closing? opener closer 0 turned).map (· + start))

/-- What stands between a bracket that was just opened and its partner, and what comes
after that one. -/
def enclosed? (opener closer : α) (cs : List α) : Option (List α × List α) :=
  (closing? opener closer 1 cs).map fun n => (cs.take n, cs.drop (n + 1))

theorem closing?_lt_length {opener closer : α} {depth : Int} {cs : List α} {n : Nat}
    (h : closing? opener closer depth cs = some n) : n < cs.length := by
  induction cs generalizing depth n with
  | nil => simp [closing?] at h
  | cons c cs ih =>
    simp only [closing?] at h
    split at h
    · obtain ⟨m, hm, rfl⟩ := Option.map_eq_some_iff.mp h
      simpa using ih hm
    · split at h
      · split at h
        · simp only [Option.some.injEq] at h
          simp [← h]
        · obtain ⟨m, hm, rfl⟩ := Option.map_eq_some_iff.mp h
          simpa using ih hm
      · obtain ⟨m, hm, rfl⟩ := Option.map_eq_some_iff.mp h
        simpa using ih hm

end MoveWorkbench.Source
