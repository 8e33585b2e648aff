import MoveWorkbench.Gas.Analysis
import MoveWorkbench.Json.Display

/-!
The report of an analysis: headings and lists in markdown, with amounts in the smallest
unit of gas. Costs of publishing and line numbers are shown when there are any.
-/

namespace MoveWorkbench.Analysis

/-- An amount of gas with its unit. -/
def amount (n : Int) : String := toString n ++ " MIST"

def reportSummary (a : Analysis) : List String := [
  "# Gas Analysis Report", "",
  "**Analysis ID:** " ++ a.id.toJson.display,
  "**Date:** " ++ a.createdAt.text,
  "**Total Estimated Gas:** " ++ amount a.totalGas,
  "",
  "## Summary",
  "- **Total Functions:** " ++ toString a.summary.functions,
  "- **Average Gas per Function:** " ++ amount a.summary.averageGas,
  "- **Most Expensive Function:** " ++ a.summary.mostExpensive,
  "- **Total Optimization Potential:** " ++ amount a.summary.savings,
  "",
  "## Function Gas Estimates", ""]

def reportPublishing : Option Int → List String
  | none => []
  | some n => if n = 0 then [] else ["  - Package Publishing: " ++ amount n]

def reportEstimate (e : Estimate) : List String :=
  ["### " ++ e.function ++ " (" ++ e.module ++ ")",
    "- **Estimated Gas:** " ++ amount e.gas ++ " (" ++ e.confidence.name ++ " confidence)",
    "- **Breakdown:**",
    "  - Computation: " ++ amount e.breakdown.computation,
    "  - Storage: " ++ amount e.breakdown.storage,
    "  - Object Creation: " ++ amount e.breakdown.objectCreation,
    "  - Event Emission: " ++ amount e.breakdown.eventEmission]
  ++ reportPublishing e.breakdown.packagePublishing ++ [""]

def reportLine : Option Int → List String
  | none => []
  | some n => if n = 0 then [] else ["- **Line:** " ++ toString n]

/-- The finding with number `n`. -/
def reportFinding (n : Nat) (f : Finding) : List String :=
  ["### " ++ toString n ++ ". " ++ f.issue,
    "- **Function:** " ++ f.function,
    "- **Severity:** " ++ f.severity.name,
    "- **Potential Savings:** " ++ amount f.savings,
    "- **Suggestion:** " ++ f.suggestion]
  ++ reportLine f.line ++ [""]

/-- Findings numbered from `n` on. -/
def reportFindings : Nat → List Finding → List String
  | _, [] => []
  | n, f :: fs => reportFinding n f ++ reportFindings (n + 1) fs

def reportLines (a : Analysis) : List String :=
  reportSummary a ++ a.estimates.flatMap reportEstimate
    ++ (if a.findings = [] then [] else ["## Optimization Opportunities", ""])
    ++ reportFindings 1 a.findings

def report (a : Analysis) : String := Text.joinLines (reportLines a)

end MoveWorkbench.Analysis
