import MoveWorkbench.Gas.Breakdown
import MoveWorkbench.Source.Declaration
import MoveWorkbench.Source.Phrase
import MoveWorkbench.Text.Case

/-!
Gas estimates. The operations in the body of a function have fixed weights, and a word
in its name may scale the sum. The scaled estimate is rounded down, and computation takes
up the difference, so that the categories still add up to it.
-/

namespace MoveWorkbench

inductive Level where
  | low
  | medium
  | high
  deriving DecidableEq

namespace Level

def all : List Level := [low, medium, high]

def name : Level → String
  | low => "low"
  | medium => "medium"
  | high => "high"

def ofName? (s : String) : Option Level := all.find? (·.name == s)

/-- The level that a value names. -/
def ofJson : Json → Except Fault Level
  | .text s => (ofName? s).elim (.error .unknownName) .ok
  | _ => .error .unknownName

end Level

/-- How often each kind of operation stands in a body. -/
structure Operations where
  storage : Nat
  creations : Nat
  events : Nat
  loops : Nat
  vectors : Nat
  transfers : Nat
  deriving DecidableEq

namespace Operations

def ofBody (body : List Char) : Operations where
  storage := Source.Family.storage.count body
  creations := Source.Family.creation.count body
  events := Source.Family.event.count body
  loops := Source.Family.loop.count body
  vectors := Source.Family.vector.count body
  transfers := Source.Family.transfer.count body

/-- What a function costs before anything is counted. -/
def baseCost : Nat := 1000

def storageCost (o : Operations) : Nat := 300 * o.storage

def creationCost (o : Operations) : Nat := 2000 * o.creations

def eventCost (o : Operations) : Nat := 200 * o.events

def computationCost (o : Operations) : Nat :=
  baseCost + 1500 * o.loops + 100 * o.vectors + 500 * o.transfers

/-- The sum of all weights. -/
def cost (o : Operations) : Nat :=
  o.computationCost + o.storageCost + o.creationCost + o.eventCost

/-- How far the weights can be trusted. -/
def confidence (o : Operations) : Level :=
  if 0 < o.loops ∨ 2 < o.creations ∨ 5 < o.storage then .low
  else if 0 < o.storage ∨ 0 < o.creations ∨ 0 < o.events then .medium
  else .high

end Operations

/-- The words that scale an estimate. The first one in this order that stands in the
lower-cased name counts, and no other. -/
def multipliers : List (String × Rat) := [
  ("create", 3 / 2), ("mint", 2), ("burn", 9 / 5), ("swap", 5 / 2), ("deposit", 13 / 10),
  ("withdraw", 7 / 5), ("transfer", 1), ("update", 6 / 5), ("delete", 11 / 10)]

/-- The factor by which a name scales the estimate. -/
def multiplier? (name : String) : Option Rat :=
  (multipliers.find? fun m => Text.occursIn m.1.toList (Text.lowerChars name.toList)).map (·.2)

structure Estimate where
  function : String
  module : String
  gas : Int
  confidence : Level
  breakdown : Breakdown
  deriving DecidableEq

namespace Estimate

/-- An estimate whose categories besides computation are those of the operations. -/
def ofOperations (f : Source.FunctionSource) (o : Operations) (gas : Int) : Estimate where
  function := f.name
  module := f.module
  gas := gas
  confidence := o.confidence
  breakdown := {
    computation := gas - (o.storageCost + o.creationCost + o.eventCost)
    storage := o.storageCost
    objectCreation := o.creationCost
    eventEmission := o.eventCost
    packagePublishing := none }

/-- A cost as scaled by the name of a function. -/
def scaledCost (name : String) (cost : Nat) : Except Fault Int :=
  match multiplier? name with
  | some factor => Binary64.floorScaled cost (.ofRat factor)
  | none => .ok cost

def ofFunction (f : Source.FunctionSource) : Except Fault Estimate := do
  let o := Operations.ofBody f.body.toList
  return ofOperations f o (← scaledCost f.name o.cost)

def toJson (e : Estimate) : Json :=
  .object [("function", .text e.function), ("module", .text e.module),
    ("estimated_gas", .int e.gas), ("confidence", .text e.confidence.name),
    ("breakdown", e.breakdown.toJson)]

/-- The categories of an estimate add up to it. -/
theorem total_ofOperations (f : Source.FunctionSource) (o : Operations) (gas : Int) :
    (ofOperations f o gas).breakdown.total = gas := by
  simp only [ofOperations, Breakdown.total, Option.getD_none]
  omega

end Estimate

end MoveWorkbench
