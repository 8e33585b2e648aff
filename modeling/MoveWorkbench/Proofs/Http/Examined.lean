import MoveWorkbench.Proofs.Gas.Breakdown
import MoveWorkbench.Proofs.Http.Creation

/-!
Stored analyses. An analysis is stored only as what was examined, and it is never changed after
that; so what is true of every examined text is true of every stored analysis, whatever has
happened in the workspace.
-/

namespace MoveWorkbench

namespace Workspace

def Examined (w : Workspace) : Prop := ∀ e ∈ w.analyses.entries, e.2.Examined

variable {w : Workspace}

/-- What is left when analyses are taken away is what was examined still. -/
theorem Examined.subset {v : Workspace} (h : w.Examined)
    (hsubset : v.analyses.entries ⊆ w.analyses.entries) : v.Examined :=
  fun e he => h e (hsubset he)

theorem Examined.perform (h : w.Examined) (c : Call) : (w.perform c).2.Examined := by
  unfold Examined
  rw [analyses_perform]
  exact h

theorem Examined.analyze (h : w.Examined) (code : String) : (w.analyze code).2.Examined := by
  unfold Workspace.analyze
  split
  · exact h
  · rename_i found hfound
    dsimp only
    split
    · exact Ordered.forall_mem_put h _ ⟨hfound, rfl⟩
    · exact h
    · exact h

theorem Examined.act (h : w.Examined) (action : Action) : (w.act action).2.Examined := by
  cases action with
  | call c => exact h.perform c
  | analyze code => exact h.analyze code
  | ask q => exact h
  | setClock t => exact h
  | sweepDesigns maxAge at? =>
    rcases w.act_sweepDesigns maxAge at? with ⟨n, cutoff, hact⟩ | ⟨f, hact⟩ <;>
      (rw [hact]; exact h)
  | sweepAnalyses maxAge at? =>
    rcases w.act_sweepAnalyses maxAge at? with ⟨n, cutoff, hact⟩ | ⟨f, hact⟩ <;> rw [hact]
    · exact h.subset (List.filter_subset_self _)
    · exact h

end Workspace

namespace Http

open Workspace

variable {w : Workspace}

theorem Task.examined {v : Workspace} {tag? : Option String} (h : Task w tag? v)
    (hw : w.Examined) : v.Examined := by
  cases h with
  | none => exact hw
  | call => exact hw.perform _
  | analyze code => exact hw.analyze code

theorem Turn.examined_leave (h : w.Examined) (turn : Turn) : (turn.leave w).Examined := by
  cases turn with
  | act action => exact h.act action
  | request F r => exact (task_handle F w r).examined h
  | reimport id => exact (task_reimport w id).examined h
  | deleteAnalysis id => exact h.subset (List.filter_subset_self _)
  | keepAnalyses interval maxAge rounds =>
    exact h.subset (Store.entries_runSweeper_subset _ _ _ _ _ _)
  | _ => exact h

namespace Ledger

theorem examined_run (clock : ℤ) (turns : List Turn) : (run clock turns).workspace.Examined :=
  run_induction (P := fun l => l.workspace.Examined) clock (fun _ he => absurd he List.not_mem_nil)
    (fun _ turn hexamined => turn.examined_leave hexamined) turns

/-- Every function whose cost is small enough has a sound estimate; so after any run a stored
analysis of such functions has a total of at least the base cost for each of them. -/
theorem run_estimates_sound (clock : ℤ) (turns : List Turn) :
    (∀ f : Source.FunctionSource, (Operations.ofBody f.body.toList).cost < 2 ^ 50 →
      ∃ e, Estimate.ofFunction f = .ok e ∧ e.Sound f.body.toList) ∧
    ∀ e ∈ (run clock turns).workspace.analyses.entries,
      (∀ f ∈ Source.functions e.2.code, (Operations.ofBody f.body.toList).cost < 2 ^ 50) →
        1000 * ((Source.functions e.2.code).length : ℤ) ≤ e.2.totalGas :=
  ⟨Estimate.exists_sound, fun e he => (examined_run clock turns e he).base_le_totalGas⟩

def payAndWithdraw : String := "fun pay() \x7b \x7d fun withdraw() \x7b x.borrow(); \x7d"

/-- One of the functions has an estimate, and both are counted in the stored analysis. -/
theorem run_estimates_sound_payAndWithdraw :
    (∃ e, Estimate.ofFunction ⟨"withdraw", "m", "x.borrow();"⟩ = .ok e ∧
      e.Sound "x.borrow();".toList) ∧
    ∃ e ∈ (run 0 [.act (.analyze payAndWithdraw)]).workspace.analyses.entries,
      e.2.code = payAndWithdraw ∧ 2000 ≤ e.2.totalGas := by
  have hcodes : (run 0 [.act (.analyze payAndWithdraw)]).workspace.analyses.entries.map
      (·.2.code) = [payAndWithdraw] := by decide +kernel
  have hsmall : ∀ f ∈ Source.functions payAndWithdraw,
      (Operations.ofBody f.body.toList).cost < 2 ^ 50 := by decide +kernel
  have hlength : (Source.functions payAndWithdraw).length = 2 := by decide +kernel
  obtain ⟨hestimates, htotals⟩ := run_estimates_sound 0 [.act (.analyze payAndWithdraw)]
  obtain ⟨e, he, hcode⟩ := List.mem_map.mp (hcodes ▸ List.mem_singleton_self payAndWithdraw)
  have htotal := htotals e he (hcode ▸ hsmall)
  rw [hcode, hlength] at htotal
  exact ⟨hestimates ⟨"withdraw", "m", "x.borrow();"⟩ (by decide +kernel), e, he, hcode, htotal⟩

end Ledger

end Http

end MoveWorkbench
