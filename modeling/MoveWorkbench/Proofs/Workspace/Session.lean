import MoveWorkbench.Proofs.Workspace.Run
import MoveWorkbench.Workspace.Session

/-!
What actions do in sessions. A sweep leaves the records from an instant on, or fails, and whatever
a session does to its workspace is reached by calls; so what holds at the beginning and is kept by
each action holds after any run.
-/

namespace MoveWorkbench

namespace Workspace

/-- What a sweep at some time leaves is from an instant on. -/
theorem exists_cutoff_of_sweep {α : Type} {s swept : Store α} {stamp : α → Instant}
    {maxAge : Span} {time : Except Fault Instant}
    (h : time.bind (s.sweep stamp maxAge) = .ok swept) : ∃ cutoff, swept = s.since stamp cutoff := by
  obtain ⟨t, -, hsweep⟩ := Partial.bind_eq_ok.mp h
  obtain ⟨cutoff, -, rfl⟩ := Partial.map_eq_ok.mp hsweep
  exact ⟨cutoff, rfl⟩

variable (w : Workspace) (maxAge : Span) (at? : Option Instant)

/-- Designs from before an instant are swept, or the sweep fails. -/
theorem act_sweepDesigns :
    (∃ n cutoff, w.act (.sweepDesigns maxAge at?) =
        (.swept (.ok n), { w with designs := w.designs.since (·.updatedAt) cutoff })) ∨
      ∃ f, w.act (.sweepDesigns maxAge at?) = (.swept (.error f), w) := by
  unfold act
  dsimp only
  split
  · rename_i swept hswept
    obtain ⟨cutoff, rfl⟩ := exists_cutoff_of_sweep hswept
    exact .inl ⟨_, cutoff, rfl⟩
  · exact .inr ⟨_, rfl⟩

/-- Analyses from before an instant are swept, or the sweep fails. -/
theorem act_sweepAnalyses :
    (∃ n cutoff, w.act (.sweepAnalyses maxAge at?) =
        (.swept (.ok n), { w with analyses := w.analyses.since (·.createdAt) cutoff })) ∨
      ∃ f, w.act (.sweepAnalyses maxAge at?) = (.swept (.error f), w) := by
  unfold act
  dsimp only
  split
  · rename_i swept hswept
    obtain ⟨cutoff, rfl⟩ := exists_cutoff_of_sweep hswept
    exact .inl ⟨_, cutoff, rfl⟩
  · exact .inr ⟨_, rfl⟩

end Workspace

namespace Session

variable {s : Session} {action : Action}

/-- What holds at the beginning and is kept by each action holds after any run. -/
theorem run_induction {P : Session → Prop} (t : Instant) (hopened : P (opened t))
    (hafter : ∀ s action, P s → P (s.after action)) (actions : List Action) :
    P (run t actions) := by
  have hfold (s : Session) (hs : P s) : P (actions.foldl after s) := by
    induction actions generalizing s with
    | nil => exact hs
    | cons action actions ih => exact ih (s.after action) (hafter s action hs)
  exact hfold (opened t) hopened

theorem lastTime_after (p : Event → Bool) : (s.after action).lastTime p =
    if p ⟨s.workspace.clock, (s.workspace.act action).1⟩ then some s.workspace.clock
    else s.lastTime p := by
  unfold after lastTime
  rw [List.find?_cons]
  cases p ⟨s.workspace.clock, (s.workspace.act action).1⟩ <;> rfl

/-- The workspace of a session is reached by calls. -/
theorem reached_after (h : s.workspace.Reached fun _ => True) (action : Action) :
    (s.after action).workspace.Reached fun _ => True := by
  unfold after
  cases action with
  | call c => exact h.call trivial
  | analyze code =>
    obtain ⟨analyses, n, hleft⟩ := Workspace.exists_analyze_eq s.workspace code
    simp only [Workspace.act, hleft]
    exact h.aside analyses n
  | ask q => exact h
  | setClock t => exact h.tick t
  | sweepDesigns maxAge at? =>
    rcases s.workspace.act_sweepDesigns maxAge at? with ⟨n, cutoff, hact⟩ | ⟨f, hact⟩
    · rw [hact]
      exact h.sweep cutoff
    · rw [hact]
      exact h
  | sweepAnalyses maxAge at? =>
    rcases s.workspace.act_sweepAnalyses maxAge at? with ⟨n, cutoff, hact⟩ | ⟨f, hact⟩
    · rw [hact]
      exact h.aside _ 0
    · rw [hact]
      exact h

end Session

end MoveWorkbench
