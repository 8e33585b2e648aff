import MoveWorkbench.Json.Basic

/-!
Gas by category of cost, and the fixed breakdowns of common transactions. The cost of
publishing a package is a category that most breakdowns do not have.
-/

namespace MoveWorkbench

structure Breakdown where
  computation : Int
  storage : Int
  objectCreation : Int
  eventEmission : Int
  packagePublishing : Option Int
  deriving DecidableEq

namespace Breakdown

def zero : Breakdown := ⟨0, 0, 0, 0, none⟩

def total (b : Breakdown) : Int :=
  b.computation + b.storage + b.objectCreation + b.eventEmission + b.packagePublishing.getD 0

def toJson (b : Breakdown) : Json :=
  .object <| [("computation", .int b.computation), ("storage", .int b.storage),
    ("object_creation", .int b.objectCreation), ("event_emission", .int b.eventEmission)]
    ++ (b.packagePublishing.map fun n => ("package_publishing", Json.int n)).toList

end Breakdown

/-- Transactions whose cost is known beforehand. -/
inductive Transaction where
  | simpleTransfer
  | nftMint
  | defiSwap
  | packagePublish
  deriving DecidableEq

namespace Transaction

def all : List Transaction := [simpleTransfer, nftMint, defiSwap, packagePublish]

def name : Transaction → String
  | simpleTransfer => "simple_transfer"
  | nftMint => "nft_mint"
  | defiSwap => "defi_swap"
  | packagePublish => "package_publish"

def ofName? (s : String) : Option Transaction := all.find? (·.name == s)

/-- The transaction that a value names, a simple transfer when it names none. -/
def ofJson : Json → Transaction
  | .text s => (ofName? s).getD simpleTransfer
  | _ => simpleTransfer

def breakdown : Transaction → Breakdown
  | simpleTransfer => ⟨1000, 500, 0, 200, none⟩
  | nftMint => ⟨2500, 1500, 2000, 300, none⟩
  | defiSwap => ⟨3500, 1000, 500, 400, none⟩
  | packagePublish => ⟨5000, 3000, 0, 500, some 10000⟩

end Transaction

end MoveWorkbench
