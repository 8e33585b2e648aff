import MoveWorkbench.Graph
import MoveWorkbench.Proofs.Ordered

/-!
Cycles in graphs. A node on a cycle leads to a node on a cycle, and a graph with fewer edges has
no more cycles.
-/

namespace MoveWorkbench.Graph

variable {α : Type} [DecidableEq α] {g g' : Graph α}

/-- Cycles stay where edges are added. -/
theorem Cyclic.mono (h : g'.Cyclic) (hedge : ∀ a b, g'.Edge a b → g.Edge a b) : g.Cyclic := by
  have hpath : ∀ a b, g'.Path a b → g.Path a b := by
    intro a b hab
    induction hab with
    | edge e => exact .edge (hedge _ _ e)
    | step e _ ih => exact .step (hedge _ _ e) ih
  obtain ⟨a, ha⟩ := h
  exact ⟨a, hpath a a ha⟩

/-- Edges are those of the whole graph when entries are left out by their nodes. -/
theorem Edge.of_filter {p : α → Bool} {a b : α} (h : Edge (g.filter fun e => p e.1) a b) :
    g.Edge a b := by
  unfold Edge targets at *
  rw [Ordered.get?_filter_key] at h
  split at h
  · exact h
  · exact absurd h List.not_mem_nil

/-- Edges are among those of the other graph when its entries lead to more nodes. -/
theorem Edge.of_forall₂ (hentries : List.Forall₂ (fun e e' => e'.1 = e.1 ∧ e'.2 ⊆ e.2) g g')
    {a b : α} (h : g'.Edge a b) : g.Edge a b := by
  unfold Edge targets at *
  induction hentries with
  | nil => exact h
  | @cons e e' g g' he _ ih =>
    obtain ⟨l, ts⟩ := e
    obtain ⟨l', ts'⟩ := e'
    obtain ⟨rfl, hts⟩ := he
    rw [Ordered.get?_cons] at h ⊢
    split at h
    · rename_i heq
      rw [if_pos heq]
      exact hts h
    · rename_i hne
      rw [if_neg hne]
      exact ih h

/-- A node on a cycle leads to a node on a cycle. -/
theorem exists_edge_of_path_self {a : α} (h : g.Path a a) : ∃ b, g.Edge a b ∧ g.Path b b := by
  cases h with
  | edge e => exact ⟨a, e, .edge e⟩
  | step e h => exact ⟨_, e, h.trans (.edge e)⟩

/-- Whether every edge leads to a node that leads nowhere. -/
def Flat (g : Graph α) : Prop := ∀ e ∈ g, ∀ b ∈ e.2, g.targets b = []

instance (g : Graph α) : Decidable g.Flat :=
  inferInstanceAs (Decidable (∀ e ∈ g, ∀ b ∈ e.2, g.targets b = []))

theorem Flat.not_cyclic (h : g.Flat) : ¬ g.Cyclic := by
  rintro ⟨a, ha⟩
  obtain ⟨b, hab, hb⟩ := exists_edge_of_path_self ha
  obtain ⟨c, hbc, -⟩ := exists_edge_of_path_self hb
  unfold Edge at hab hbc
  have hnone : g.targets b = [] := by
    unfold targets at hab
    cases hget : Ordered.get? a g with
    | none =>
      rw [hget] at hab
      cases hab
    | some ts =>
      rw [hget] at hab
      obtain ⟨l, hl, -⟩ := Ordered.exists_mem_of_get? hget
      exact h _ hl b hab
  rw [hnone] at hbc
  cases hbc

end MoveWorkbench.Graph
