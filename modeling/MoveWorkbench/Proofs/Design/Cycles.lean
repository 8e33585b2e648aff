import Mathlib.Logic.Relation
import MoveWorkbench.Proofs.Design.Problems
import MoveWorkbench.Proofs.Graph.Search

/-!
Cycles of connections. The entries of a graph are ids with the ids that they connect to, in any
order, with repetitions and with connections to ids that have no entry. The search through them
ends with the truth about cycles, where a cycle is a way of one connection or more from an id
back to itself. The search of a validation is the same one.
-/

namespace MoveWorkbench

theorem Graph.path_iff_transGen {α : Type} [DecidableEq α] {g : Graph α} {a b : α} :
    g.Path a b ↔ Relation.TransGen g.Edge a b := by
  constructor
  · intro h
    induction h with
    | edge e => exact .single e
    | step e _ ih => exact .head e ih
  · intro h
    induction h with
    | single e => exact .edge e
    | tail _ e ih => exact ih.trans (.edge e)

/-- In a graph that is made from a list the first item for a node leads further. -/
theorem Graph.edge_map_iff {α β : Type} [DecidableEq α] {items : List β} {key : β → α}
    {targets : β → List α} {a b : α} :
    Graph.Edge (items.map fun e => (key e, targets e)) a b ↔
      ∃ e, items.find? (key · = a) = some e ∧ b ∈ targets e := by
  have hget : Ordered.get? a (items.map fun e => (key e, targets e)) =
      (items.find? (key · = a)).map targets := by
    unfold Ordered.get?
    rw [List.find?_map, Option.map_map]
    rfl
  unfold Graph.Edge Graph.targets
  rw [hget]
  cases items.find? (key · = a) <;> simp

abbrev Connections := List (Atom × List Atom)

namespace Connections

/-- An id leads to the ids that the first entry for it connects to, and nowhere without one. -/
def Leads (entries : Connections) (a b : Key) : Prop :=
  ∃ e, entries.find? (·.1.key = a) = some e ∧ b ∈ e.2.map (·.key)

def Circular (entries : Connections) : Prop := ∃ a, Relation.TransGen entries.Leads a a

def graph (entries : Connections) : Graph Key :=
  entries.map fun e => (e.1.key, e.2.map (·.key))

def values (entries : Connections) : List (Json × Json) :=
  entries.map fun e => (e.1.toJson, .list (e.2.map (·.toJson)))

variable (entries : Connections)

theorem graphOf_values : Design.graphOf entries.values = .ok entries.graph.hidden := by
  have hkey (a : Atom) : a.toJson.key = .ok a.key :=
    Partial.map_eq_ok.mpr ⟨a, Json.atom_eq_ok.mpr rfl, rfl⟩
  unfold Design.graphOf values Graph.hidden graph
  rw [Partial.mapM_eq_ok, List.forall₂_map_left_iff, List.map_map, List.forall₂_map_right_iff,
    List.forall₂_same]
  intro e _
  refine Partial.bind_eq_ok.mpr ⟨e.1.key, hkey e.1, ?_⟩
  simp [Json.items, Except.map, hkey, pure, Except.pure, Function.comp_def]

theorem edge_graph_iff {a b : Key} : entries.graph.Edge a b ↔ entries.Leads a b :=
  Graph.edge_map_iff

/-- The search for a cycle among connections ends without a fault and finds one exactly if there
is one, and so does the search in the graph of a design. -/
theorem hasCycle_values :
    (Design.graphOf entries.values).bind HiddenGraph.hasCycle = .ok entries.graph.hasCycle ∧
      (entries.graph.hasCycle = true ↔ entries.Circular) := by
  obtain ⟨hsearch, hiff⟩ := entries.graph.hasCycle_hidden Fault
  refine ⟨?_, ?_⟩
  · rw [graphOf_values]
    exact hsearch
  · rw [hiff]
    have hedges : entries.graph.Edge = entries.Leads :=
      funext₂ fun _ _ => propext entries.edge_graph_iff
    exact exists_congr fun a => by rw [Graph.path_iff_transGen, hedges]

end Connections

end MoveWorkbench
