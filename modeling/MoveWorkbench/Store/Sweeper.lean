import MoveWorkbench.Store

/-!
The sweeper: sleeps for an interval, sweeps, and begins again. A round in which the sweep
fails leaves the store as it is.
-/

namespace MoveWorkbench.Store

variable {α : Type}

/-- The store after a round that ends at the given time. -/
def sweptAt (s : Store α) (stamp : α → Instant) (maxAge : Span) (clock : Int) : Store α :=
  match (Instant.ofMicros clock).bind (s.sweep stamp maxAge) with
  | .ok swept => swept
  | .error _ => s

/-- What a run of the sweeper shows and leaves. -/
structure SweeperRun (α : Type) where
  /-- The ids that are there each time it goes to sleep. -/
  seen : List (List Atom)
  clock : Int
  store : Store α

/-- Runs the sweeper for a number of rounds, up to its next sleep. -/
def runSweeper (stamp : α → Instant) (interval : Int) (maxAge : Span) :
    Nat → Int → Store α → SweeperRun α
  | 0, clock, s => ⟨[s.ids], clock, s⟩
  | n + 1, clock, s =>
    let clock := clock + interval * microsPerSecond
    let run := runSweeper stamp interval maxAge n clock (s.sweptAt stamp maxAge clock)
    { run with seen := s.ids :: run.seen }

end MoveWorkbench.Store
