import MoveWorkbench.Fault
import MoveWorkbench.Graph
import Std.Data.HashSet

/-!
Search for a cycle, depth first and without recursion. A path is followed from each node in
turn. A target that is on the path closes a cycle; any other one that has been met before is
passed over; a new one is entered and becomes the end of the path. When nothing is left to be
followed from the end of the path, the path is shortened.

A graph may show its entries only when they are come upon. What a node leads to may then turn
out to be nothing that can be gone through, or no node at all. Such a fault ends the search,
but a cycle that is met before it is found all the same.
-/

namespace MoveWorkbench

/-- A graph whose entries may turn out to be at fault. -/
abbrev HiddenGraph (ε α : Type) := List (α × Except ε (List (Except ε α)))

/-- A node on a path, with the targets that are still to be followed from it. -/
structure Frame (ε α : Type) where
  node : α
  targets : List (Except ε α)

/-- A search under way. The path stands with its end first. -/
structure Search (ε α : Type) [BEq α] [Hashable α] where
  starts : List α
  visited : Std.HashSet α
  onPath : Std.HashSet α
  path : List (Frame ε α)

/-- What a step of a search comes to. -/
inductive Progress (ε α : Type) [BEq α] [Hashable α] where
  | cycle
  | exhausted
  | under (s : Search ε α)

variable {ε α : Type} [DecidableEq α] [Hashable α]

/-- A measure of what is left to be followed. -/
def Search.pending (s : Search ε α) : Nat :=
  2 * s.starts.length + (s.path.map fun f => 2 * f.targets.length + 1).foldr (· + ·) 0

namespace HiddenGraph

/-- Nothing has been visited yet, and every node is to be started from. -/
def begin (g : HiddenGraph ε α) : Search ε α := ⟨Ordered.keys g, ∅, ∅, []⟩

/-- Makes a node the end of the path. -/
def enter (g : HiddenGraph ε α) (a : α) (s : Search ε α) : Except ε (Search ε α) := do
  let targets ← (Ordered.get? a g).getD (.ok [])
  return { s with
    visited := s.visited.insert a
    onPath := s.onPath.insert a
    path := ⟨a, targets⟩ :: s.path }

def step (g : HiddenGraph ε α) (s : Search ε α) : Except ε (Progress ε α) :=
  match s.path with
  | [] =>
    match s.starts with
    | [] => .ok .exhausted
    | a :: starts =>
      if a ∈ s.visited then .ok (.under { s with starts })
      else (g.enter a { s with starts }).map .under
  | ⟨a, []⟩ :: path => .ok (.under { s with onPath := s.onPath.erase a, path })
  | ⟨a, target :: targets⟩ :: path =>
    match target with
    | .error f => .error f
    | .ok b =>
      if b ∈ s.onPath then .ok .cycle
      else if b ∈ s.visited then .ok (.under { s with path := ⟨a, targets⟩ :: path })
      else (g.enter b { s with path := ⟨a, targets⟩ :: path }).map .under

/-- How many entries are those of nodes that have not been visited. -/
def unvisited (g : HiddenGraph ε α) (visited : Std.HashSet α) : Nat :=
  ((Ordered.keys g).filter fun a => !visited.contains a).length

variable {g : HiddenGraph ε α} {s s' : Search ε α} {a : α}

theorem enter_eq_ok : g.enter a s = .ok s' ↔
    ∃ targets, (Ordered.get? a g).getD (.ok []) = .ok targets ∧
      s' = { s with
        visited := s.visited.insert a
        onPath := s.onPath.insert a
        path := ⟨a, targets⟩ :: s.path } := by
  unfold enter
  cases (Ordered.get? a g).getD (.ok []) with
  | error f => simp [bind, Except.bind]
  | ok targets => simp [bind, Except.bind, pure, Except.pure, eq_comm]

theorem unvisited_insert (g : HiddenGraph ε α) (visited : Std.HashSet α) (a : α) :
    g.unvisited (visited.insert a) =
      (((Ordered.keys g).filter fun b => !visited.contains b).filter fun b => !a == b).length := by
  unfold unvisited
  rw [List.filter_filter]
  simp

theorem unvisited_insert_le (g : HiddenGraph ε α) (visited : Std.HashSet α) (a : α) :
    g.unvisited (visited.insert a) ≤ g.unvisited visited := by
  rw [unvisited_insert]
  exact List.length_filter_le _ _

theorem unvisited_insert_lt {visited : Std.HashSet α} (ha : a ∈ Ordered.keys g)
    (hnew : a ∉ visited) : g.unvisited (visited.insert a) < g.unvisited visited := by
  rw [unvisited_insert]
  refine List.length_filter_lt_length_iff_exists.mpr ⟨a, ?_, by simp⟩
  simpa [ha] using hnew

/-- What is left to be done: nodes with an entry to be visited, and then nodes to be followed. -/
def remaining (g : HiddenGraph ε α) (s : Search ε α) : Nat × Nat :=
  (g.unvisited s.visited, s.pending)

/-- Entering leaves fewer nodes with an entry to be visited. A node without an entry leads
nowhere, so that entering it leaves as many and one thing more to be followed. -/
theorem enter_decreases (h : g.enter a s = .ok s') (hnew : a ∉ s.visited) (n : Nat)
    (hless : s.pending + 1 < n) :
    Prod.Lex (· < ·) (· < ·) (g.remaining s') (g.unvisited s.visited, n) := by
  obtain ⟨targets, htargets, rfl⟩ := enter_eq_ok.mp h
  rw [Prod.lex_def]
  by_cases ha : a ∈ Ordered.keys g
  · exact .inl (unvisited_insert_lt ha hnew)
  · refine (Nat.lt_or_eq_of_le (unvisited_insert_le g s.visited a)).imp_right fun heq => ⟨heq, ?_⟩
    rw [Ordered.mem_keys_iff, Option.not_isSome_iff_eq_none] at ha
    rw [ha] at htargets
    cases htargets
    simp only [Search.pending, List.map_cons, List.foldr_cons, List.length_nil,
      remaining] at hless ⊢
    omega

theorem map_enter_eq_ok :
    (g.enter a s).map Progress.under = .ok (.under s') ↔ g.enter a s = .ok s' := by
  cases g.enter a s <;> simp [Except.map]

/-- Every step leaves less to be done. -/
theorem step_decreases (h : g.step s = .ok (.under s')) :
    Prod.Lex (· < ·) (· < ·) (g.remaining s') (g.remaining s) := by
  obtain ⟨starts, visited, onPath, path⟩ := s
  match path, starts with
  | [], [] => cases h
  | [], b :: starts =>
    simp only [step] at h
    split at h
    · cases h
      exact .right _ (by simp [Search.pending])
    · rename_i hnew
      have hdecreases := enter_decreases (map_enter_eq_ok.mp h) hnew
      refine hdecreases _ ?_
      simp only [Search.pending, List.length_cons]
      omega
  | ⟨b, []⟩ :: path, _ =>
    cases h
    exact .right _ (by simp [Search.pending])
  | ⟨b, .error f :: targets⟩ :: path, _ => cases h
  | ⟨b, .ok c :: targets⟩ :: path, _ =>
    simp only [step] at h
    split at h
    · cases h
    · split at h
      · cases h
        exact .right _ (by simp [Search.pending])
      · rename_i hnew
        have hdecreases := enter_decreases (map_enter_eq_ok.mp h) hnew
        refine hdecreases _ ?_
        simp only [Search.pending, List.map_cons, List.foldr_cons, List.length_cons]
        omega

/-- Takes steps until a cycle is met or nothing is left. -/
def run (g : HiddenGraph ε α) (s : Search ε α) : Except ε Bool :=
  match _h : g.step s with
  | .error f => .error f
  | .ok .cycle => .ok true
  | .ok .exhausted => .ok false
  | .ok (.under s') => run g s'
  termination_by g.remaining s
  decreasing_by exact step_decreases _h

/-- Whether there is a cycle to be found. -/
def hasCycle (g : HiddenGraph ε α) : Except ε Bool := g.run g.begin

end HiddenGraph

namespace Graph

/-- The graph as one of which no entry is at fault. -/
def hidden (g : Graph α) : HiddenGraph ε α := g.map fun e => (e.1, .ok (e.2.map .ok))

def hasCycle (g : Graph α) : Bool :=
  match HiddenGraph.hasCycle (g.hidden : HiddenGraph Empty α) with
  | .ok found => found

end Graph

end MoveWorkbench
