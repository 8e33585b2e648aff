import MoveWorkbench.Proofs.Gas.Findings
import MoveWorkbench.Proofs.Gas.Growth
import MoveWorkbench.Proofs.Number.Average
import MoveWorkbench.Proofs.Workspace.Creation

/-!
Summaries. Every text has a function or is taken to have some, and each of them is estimated at
the base cost at least. So while the total is below two to the fiftieth, no single estimate is
too large for the findings, and doubles are fine enough for the average.
-/

namespace MoveWorkbench

namespace Estimate

variable {f : Source.FunctionSource} {e : Estimate}

theorem base_le_gas (h : ofFunction f = .ok e) : 1000 ≤ e.gas := by
  obtain ⟨g, hg, rfl⟩ := ofFunction_eq_ok.mp h
  exact le_scaledCost (by norm_num) (Operations.base_le_cost _) hg

/-- A function with an estimate of moderate size has no part that is too large. -/
theorem moderate_of_gas_lt (h : ofFunction f = .ok e) (hgas : e.gas < 2 ^ 50) : e.Moderate := by
  obtain ⟨g, hg, rfl⟩ := ofFunction_eq_ok.mp h
  have hgas' : g < 2 ^ 50 := hgas
  have hcost : (Operations.ofBody f.body.toList).cost < 2 ^ 50 := by
    by_contra hlarge
    have hreach := le_scaledCost (by norm_num) (not_lt.mp hlarge) hg
    push_cast at hreach
    exact absurd hgas' (not_lt.mpr hreach)
  have hlimit : (2 ^ 50 : ℤ) < Binary64.leastTooLarge := by decide +kernel
  unfold Operations.cost at hcost
  constructor <;> simp only [ofOperations] <;> omega

end Estimate

namespace Summary

structure FirstHighest (estimates : List Estimate) (i : ℕ) (e : Estimate) : Prop where
  here : estimates[i]? = some e
  highest : ∀ other ∈ estimates, other.gas ≤ e.gas
  first : ∀ j < i, ∀ other, estimates[j]? = some other → other.gas < e.gas

variable {estimates : List Estimate}

theorem exists_firstHighest (h : estimates ≠ []) :
    ∃ i e, costliest estimates = some e ∧ FirstHighest estimates i e := by
  induction estimates with
  | nil => exact absurd rfl h
  | cons e es ih =>
    cases es with
    | nil =>
      refine ⟨0, e, rfl, rfl, ?_, fun j hj => absurd hj j.not_lt_zero⟩
      exact List.forall_mem_singleton.mpr le_rfl
    | cons e' es =>
      obtain ⟨i, f, hcostliest, hf⟩ := ih (List.cons_ne_nil _ _)
      rw [costliest, hcostliest]
      dsimp only
      split
      · rename_i hless
        refine ⟨i + 1, f, rfl, hf.here, List.forall_mem_cons.mpr ⟨hless.le, hf.highest⟩, ?_⟩
        rintro (_ | j) hj other hother
        · cases hother
          exact hless
        · exact hf.first j (Nat.lt_of_succ_lt_succ hj) other hother
      · rename_i hle
        refine ⟨0, e, rfl, rfl, List.forall_mem_cons.mpr ⟨le_rfl, fun other hother => ?_⟩,
          fun j hj => absurd hj j.not_lt_zero⟩
        exact (hf.highest other hother).trans (not_lt.mp hle)

/-- A summary says of estimates and findings what they say exactly. -/
structure Exact (estimates : List Estimate) (findings : List Finding) (s : Summary) : Prop where
  functions : s.functions = estimates.length
  average : NearestHalfUp ((estimates.map (·.gas)).sum / estimates.length) s.averageGas
  mostExpensive : ∃ i e, FirstHighest estimates i e ∧ s.mostExpensive = e.function
  savings : s.savings = (findings.map (·.savings)).sum

/-- Estimates of at least one each that are not too large together are summed up exactly. -/
theorem exists_exact (findings : List Finding) (hne : estimates ≠ [])
    (hpos : ∀ e ∈ estimates, 1 ≤ e.gas) (hsmall : (estimates.map (·.gas)).sum < 2 ^ 50) :
    ∃ s, Summary.of estimates findings = .ok s ∧ s.Exact estimates findings := by
  have hle := mul_length_le_total hpos
  rw [one_mul] at hle
  obtain ⟨d, g, hd, hg, hnearest⟩ :=
    Binary64.exists_average (List.length_pos_iff.mpr hne) hle hsmall
  obtain ⟨i, e, hcostliest, he⟩ := exists_firstHighest hne
  refine ⟨_, Partial.bind_eq_ok.mpr ⟨d, hd, Partial.bind_eq_ok.mpr ⟨g, hg, rfl⟩⟩, ?_⟩
  exact ⟨rfl, hnearest, ⟨i, e, he, by rw [hcostliest]; rfl⟩, rfl⟩

end Summary

namespace Analysis

structure Exact (a : Analysis) : Prop where
  nonempty : a.estimates ≠ []
  totalGas : a.totalGas = (a.estimates.map (·.gas)).sum
  findings : Finding.find a.code a.estimates = .ok a.findings
  summary : a.summary.Exact a.estimates a.findings

variable {code : String} {estimates : List Estimate}

/-- A text whose estimates are not too large together can be examined. -/
theorem exists_examine (h : (Source.functions code).mapM Estimate.ofFunction = .ok estimates)
    (hsmall : (estimates.map (·.gas)).sum < 2 ^ 50) :
    ∃ findings summary, examine code = .ok (estimates, findings, summary) ∧ estimates ≠ [] ∧
      Finding.find code estimates = .ok findings ∧ summary.Exact estimates findings := by
  have hfound {e} (he : e ∈ estimates) := Partial.exists_of_mem_mapM h he
  have hbase : ∀ e ∈ estimates, 1000 ≤ e.gas := by
    intro e he
    obtain ⟨f, -, hf⟩ := hfound he
    exact Estimate.base_le_gas hf
  have hmoderate : ∀ e ∈ estimates, e.Moderate := by
    intro e he
    obtain ⟨f, -, hf⟩ := hfound he
    -- no estimate is below zero, so each is at most the sum of all
    have hle : e.gas ≤ (estimates.map (·.gas)).sum := by
      refine List.single_le_sum ?_ _ (List.mem_map_of_mem he)
      rw [List.forall_mem_map]
      exact fun e he => by linarith [hbase e he]
    exact Estimate.moderate_of_gas_lt hf (hle.trans_lt hsmall)
  have hne : estimates ≠ [] := by
    rintro rfl
    cases hfunctions : Source.functions code with
    | nil => exact Source.functions_ne_nil code hfunctions
    | cons f fs =>
      rw [hfunctions] at h
      cases Partial.mapM_eq_ok.mp h
  obtain ⟨findings, hfindings⟩ := Finding.exists_find_iff.mpr hmoderate
  obtain ⟨s, hs, hexact⟩ := Summary.exists_exact findings hne
    (fun e he => by linarith [hbase e he]) hsmall
  refine ⟨findings, s, ?_, hne, hfindings, hexact⟩
  exact Partial.bind_eq_ok.mpr ⟨estimates, h, Partial.bind_eq_ok.mpr ⟨findings, hfindings,
    Partial.bind_eq_ok.mpr ⟨s, hs, rfl⟩⟩⟩

end Analysis

namespace Workspace

variable {w : Workspace} {code : String} {estimates : List Estimate}

/-- At an instant of the calendar a text that can be examined has its analysis stored. -/
theorem analyze_eq_ok {found : List Estimate × List Finding × Summary}
    (hfound : Analysis.examine code = .ok found) (h : w.InCalendar) :
    ∃ id t, w.analyze code = (.ok (analysisRecord (.text id) code found t),
      w.draw.putAnalysis (analysisRecord (.text id) code found t)) := by
  obtain ⟨t, ht⟩ := h
  obtain ⟨millis, hid⟩ := exists_nextId ht "gas"
  unfold analyze
  rw [now_eq ht, hid, hfound]
  exact ⟨_, t, rfl⟩

/-- A text whose estimates are not too large together has its analysis stored at every instant of
the calendar, and what it says of the estimates and findings is exact. -/
theorem analyze_exact (h : (Source.functions code).mapM Estimate.ofFunction = .ok estimates)
    (hsmall : (estimates.map (·.gas)).sum < 2 ^ 50) :
    ((∃ a, (w.analyze code).1 = .ok a) ↔ w.InCalendar) ∧
    ∀ a, (w.analyze code).1 = .ok a → (w.analyze code).2.analysis? a.id = some a ∧
      a.code = code ∧ a.estimates = estimates ∧ a.Exact := by
  obtain ⟨findings, summary, hexamine, hne, hfindings, hexact⟩ := Analysis.exists_examine h hsmall
  by_cases hcalendar : w.InCalendar
  · obtain ⟨id, t, hanalyze⟩ := analyze_eq_ok hexamine hcalendar
    rw [hanalyze]
    refine ⟨iff_of_true ⟨_, rfl⟩ hcalendar, fun a ha => ?_⟩
    cases ha
    exact ⟨Store.get?_put_self _ _ _, rfl, rfl, hne, rfl, hfindings, hexact⟩
  · obtain ⟨f, n, hanalyze⟩ := exists_analyze_eq_error hcalendar code
    rw [hanalyze]
    exact ⟨iff_of_false (fun ⟨a, ha⟩ => nomatch ha) hcalendar, fun a ha => nomatch ha⟩

def idleAndWithdraw : String := "fun idle() \x7b \x7d fun withdraw() \x7b x.borrow(); \x7d"

/-- An average of 1409 and a half is told as 1410. -/
theorem analyze_exact_idleAndWithdraw : ∃ a, ((fresh 0).analyze idleAndWithdraw).1 = .ok a ∧
    ((fresh 0).analyze idleAndWithdraw).2.analysis? a.id = some a ∧ a.Exact ∧
    a.totalGas = 2819 ∧ a.summary.averageGas = 1410 := by
  have hestimates : ((Source.functions idleAndWithdraw).mapM Estimate.ofFunction).map
      (fun es => es.map (·.gas)) = .ok [1000, 1819] := by decide +kernel
  have hcalendar : (fresh 0).InCalendar := ⟨⟨0, by decide⟩, rfl⟩
  have haverage : ((fresh 0).analyze idleAndWithdraw).1.toOption.map (·.summary.averageGas) =
      some 1410 := by decide +kernel
  obtain ⟨estimates, h, hgas⟩ := Partial.map_eq_ok.mp hestimates
  have hsmall : (estimates.map (·.gas)).sum < 2 ^ 50 := by
    rw [hgas]
    decide
  obtain ⟨hstored, hexact⟩ := analyze_exact (w := fresh 0) h hsmall
  obtain ⟨a, ha⟩ := hstored.mpr hcalendar
  obtain ⟨hhere, -, rfl, ha'⟩ := hexact a ha
  rw [ha] at haverage
  refine ⟨a, ha, hhere, ha', ?_, Option.some.inj haverage⟩
  rw [ha'.totalGas, hgas]
  rfl

end Workspace

end MoveWorkbench
