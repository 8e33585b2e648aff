import MoveWorkbench.Ordered

/-!
Directed graphs as lists of nodes with the nodes that they lead to. Where a node is listed
more than once the first entry counts, and a node that is not listed leads nowhere.
-/

namespace MoveWorkbench

abbrev Graph (α : Type) := List (α × List α)

namespace Graph

variable {α : Type} [DecidableEq α]

/-- The nodes that a node leads to. -/
def targets (g : Graph α) (a : α) : List α := (Ordered.get? a g).getD []

def Edge (g : Graph α) (a b : α) : Prop := b ∈ g.targets a

/-- A way of one edge or more. -/
inductive Path (g : Graph α) : α → α → Prop where
  | edge {a b : α} : g.Edge a b → Path g a b
  | step {a b c : α} : g.Edge a b → Path g b c → Path g a c

/-- Whether some node can be reached from itself. -/
def Cyclic (g : Graph α) : Prop := ∃ a, g.Path a a

theorem Path.trans {g : Graph α} {a b c : α} (h : g.Path a b) (h' : g.Path b c) :
    g.Path a c := by
  induction h with
  | edge e => exact .step e h'
  | step e _ ih => exact .step e (ih h')

end Graph

end MoveWorkbench
