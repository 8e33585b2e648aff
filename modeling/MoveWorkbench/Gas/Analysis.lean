import MoveWorkbench.Calendar
import MoveWorkbench.Gas.Finding

/-!
Analyses: the estimates and findings for one source text, with a summary, and the
comparison of two analyses. A comparison says how much the second one saves, in total as a
percentage with two decimals, and which functions have become cheaper.
-/

namespace MoveWorkbench

structure Summary where
  functions : Int
  averageGas : Int
  mostExpensive : String
  savings : Int
  deriving DecidableEq

structure Analysis where
  id : Atom
  code : String
  totalGas : Int
  estimates : List Estimate
  findings : List Finding
  summary : Summary
  createdAt : Instant

namespace Summary

def toJson (s : Summary) : Json :=
  .object [("total_functions", .int s.functions), ("average_gas_per_function", .int s.averageGas),
    ("most_expensive_function", .text s.mostExpensive),
    ("total_optimization_potential", .int s.savings)]

/-- The function of the first estimate that no other one exceeds. -/
def costliest : List Estimate → Option Estimate
  | [] => none
  | e :: es =>
    match costliest es with
    | some f => if e.gas < f.gas then some f else some e
    | none => some e

/-- The sum of the estimates. -/
def total (estimates : List Estimate) : Int := (estimates.map (·.gas)).foldr (· + ·) 0

/-- Sums up estimates and findings. The average is rounded to an integer, a half going
up. -/
def of (estimates : List Estimate) (findings : List Finding) : Except Fault Summary := do
  let average ← Binary64.quotient? (total estimates) estimates.length
  return {
    functions := estimates.length
    averageGas := ← average.roundHalfUp
    mostExpensive := ((costliest estimates).map (·.function)).getD ""
    savings := (findings.map (·.savings)).foldr (· + ·) 0 }

end Summary

namespace Analysis

def toJson (a : Analysis) : Json :=
  .object [("id", a.id.toJson), ("code", .text a.code), ("total_estimated_gas", .int a.totalGas),
    ("function_estimates", .list (a.estimates.map (·.toJson))),
    ("optimizations", .list (a.findings.map (·.toJson))), ("summary", a.summary.toJson),
    ("created_at", .text a.createdAt.text)]

/-- Estimates, findings and summary for a source text. -/
def examine (code : String) : Except Fault (List Estimate × List Finding × Summary) := do
  let estimates ← (Source.functions code).mapM Estimate.ofFunction
  let findings ← Finding.find code estimates
  return (estimates, findings, ← Summary.of estimates findings)

end Analysis

structure Comparison where
  before : Analysis
  after : Analysis
  gasSaved : Int
  percentage : Binary64
  improved : List String

namespace Comparison

/-- The part of `total` that `saved` is, in percent with two decimals. -/
def percent (saved total : Int) : Except Fault Binary64 := do
  if total = 0 then return .zero
  let part ← Binary64.quotient? saved total
  let hundredths ← ((part.mul (.ofRat 100)).mul (.ofRat 100)).roundHalfUp
  Binary64.quotient? hundredths 100

/-- The functions for which the first estimate among `after` is lower than theirs. -/
def improvedFunctions (before after : List Estimate) : List String :=
  (before.filter fun e =>
    (after.find? (·.function == e.function)).any (·.gas < e.gas)).map (·.function)

def of (before after : Analysis) : Except Fault Comparison := do
  let saved := before.totalGas - after.totalGas
  return {
    before := before
    after := after
    gasSaved := saved
    percentage := ← percent saved before.totalGas
    improved := improvedFunctions before.estimates after.estimates }

def toJson (c : Comparison) : Json :=
  .object [("before", c.before.toJson), ("after", c.after.toJson),
    ("improvements", .object [("total_gas_saved", .int c.gasSaved),
      ("percentage_improvement", .float c.percentage),
      ("functions_improved", .list (c.improved.map .text))])]

end Comparison

end MoveWorkbench
