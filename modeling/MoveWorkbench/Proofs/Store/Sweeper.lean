import MoveWorkbench.Proofs.Store.Sweeps
import MoveWorkbench.Store.Sweeper

/-!
The sweeper round by round. The clock only goes on between the rounds, so each round has a later
bound than the rounds before it, and what these evicted would go now at the latest. So the last
round that has a bound decides what is left, whatever came of the earlier ones. A round without a
bound is passed over.
-/

namespace MoveWorkbench.Store

open Instant

variable {α : Type} {stamp : α → Instant} {interval : ℤ} {maxAge : Span} {clock : ℤ}

def afterRounds (s : Store α) (stamp : α → Instant) (interval : ℤ) (maxAge : Span) (clock : ℤ)
    (k : ℕ) : Store α := (runSweeper stamp interval maxAge k clock s).store

def roundEnd (interval clock : ℤ) (k : ℕ) : ℤ := clock + k * (interval * microsPerSecond)

/-- Whether the sweep of a round has a bound: the calendar has its time and its cutoff. -/
def Bounded (interval : ℤ) (maxAge : Span) (clock : ℤ) (k : ℕ) : Prop :=
  InCalendar (roundEnd interval clock k) ∧ InCalendar (roundEnd interval clock k - maxAge.micros)

theorem sweptAt_of_inCalendar (s : Store α) (hclock : InCalendar clock)
    (hcutoff : InCalendar (clock - maxAge.micros)) :
    s.sweptAt stamp maxAge clock = s.keepFrom stamp (clock - maxAge.micros) := by
  obtain ⟨now, rfl⟩ := hclock
  obtain ⟨cutoff, hcutoff⟩ := inCalendar_iff.mp hcutoff
  rw [← ofMicros_eq_ok.mp hcutoff, ← since_eq_keepFrom]
  simp only [sweptAt, ofMicros_micros, Except.bind, sweep, before, hcutoff, Except.map]

theorem sweptAt_of_not_inCalendar (s : Store α)
    (h : ¬ (InCalendar clock ∧ InCalendar (clock - maxAge.micros))) :
    s.sweptAt stamp maxAge clock = s := by
  unfold sweptAt
  cases hnow : ofMicros clock with
  | error f => rfl
  | ok now =>
    have hclock := ofMicros_eq_ok.mp hnow
    have hcutoff : ofMicros (clock - maxAge.micros) = .error .outOfRange :=
      ofMicros_of_not_inCalendar fun hcutoff => h ⟨⟨now, hclock⟩, hcutoff⟩
    simp only [Except.bind, sweep, before, hclock, hcutoff, Except.map]

/-- A round evicts nothing that a later bound leaves. -/
theorem keepFrom_sweptAt (s : Store α) {bound : ℤ} (h : clock - maxAge.micros ≤ bound) :
    (s.sweptAt stamp maxAge clock).keepFrom stamp bound = s.keepFrom stamp bound := by
  by_cases hdates : InCalendar clock ∧ InCalendar (clock - maxAge.micros)
  · rw [sweptAt_of_inCalendar s hdates.1 hdates.2, keepFrom_keepFrom, max_eq_right h]
  · rw [sweptAt_of_not_inCalendar s hdates]

theorem roundEnd_succ (interval clock : ℤ) (k : ℕ) :
    roundEnd interval clock (k + 1) = roundEnd interval clock k + interval * microsPerSecond := by
  unfold roundEnd
  rw [Int.natCast_succ, Int.add_mul, Int.one_mul, Int.add_assoc]

theorem roundEnd_add (interval clock : ℤ) (k : ℕ) :
    roundEnd interval (clock + interval * microsPerSecond) k = roundEnd interval clock (k + 1) := by
  rw [roundEnd_succ]
  unfold roundEnd
  omega

/-- No round ends before the first one. -/
theorem clock_le_roundEnd (hinterval : 0 ≤ interval) (clock : ℤ) (k : ℕ) :
    clock ≤ roundEnd interval clock k := by
  have hrounds : 0 ≤ k * (interval * microsPerSecond) :=
    Int.mul_nonneg (Int.natCast_nonneg k) (Int.mul_nonneg hinterval (by decide))
  unfold roundEnd
  omega

/-- The first round of several, and what becomes of its store. -/
theorem afterRounds_succ (s : Store α) (clock : ℤ) (k : ℕ) :
    s.afterRounds stamp interval maxAge clock (k + 1) =
      (s.sweptAt stamp maxAge (clock + interval * microsPerSecond)).afterRounds stamp interval
        maxAge (clock + interval * microsPerSecond) k := rfl

/-- The last round of several. -/
theorem afterRounds_succ_last (s : Store α) (clock : ℤ) (k : ℕ) :
    s.afterRounds stamp interval maxAge clock (k + 1) =
      (s.afterRounds stamp interval maxAge clock k).sweptAt stamp maxAge
        (roundEnd interval clock (k + 1)) := by
  induction k generalizing s clock with
  | zero => rw [roundEnd_succ]; simp [afterRounds, runSweeper, roundEnd]
  | succ k ih =>
    rw [afterRounds_succ, ih, roundEnd_add]
    rfl

/-- Rounds evict nothing that a bound leaves which is no earlier than theirs. -/
theorem keepFrom_afterRounds (hinterval : 0 ≤ interval) {bound : ℤ} (k : ℕ) (s : Store α)
    (h : roundEnd interval clock k - maxAge.micros ≤ bound) :
    (s.afterRounds stamp interval maxAge clock k).keepFrom stamp bound =
      s.keepFrom stamp bound := by
  induction k generalizing clock s with
  | zero => rfl
  | succ k ih =>
    have hfirst := clock_le_roundEnd hinterval (clock + interval * microsPerSecond) k
    rw [roundEnd_add] at hfirst
    rw [afterRounds_succ, ih _ (by rwa [roundEnd_add])]
    exact keepFrom_sweptAt s (by omega)

/-- Whenever the sweeper goes to sleep, the ids of what its rounds have left are there. -/
theorem seen_runSweeper (s : Store α) (clock : ℤ) {k n : ℕ} (h : k ≤ n) :
    (runSweeper stamp interval maxAge n clock s).seen[k]? =
      some (s.afterRounds stamp interval maxAge clock k).ids := by
  induction n generalizing s clock k with
  | zero =>
    obtain rfl : k = 0 := Nat.le_zero.mp h
    rfl
  | succ n ih =>
    cases k with
    | zero => rfl
    | succ k => exact ih _ _ (Nat.le_of_succ_le_succ h)

theorem length_seen_runSweeper (s : Store α) (clock : ℤ) (n : ℕ) :
    (runSweeper stamp interval maxAge n clock s).seen.length = n + 1 := by
  induction n generalizing s clock with
  | zero => rfl
  | succ n ih => exact congrArg (· + 1) (ih _ _)

/-- The sweeper goes to sleep before its first round and after each one, and what is there when it
does is what its rounds have left: at first all records; after a round with a bound just the
records from the bound on, in their order, whatever came of the rounds before it; and after a
round without a bound what was there before that round. -/
theorem runSweeper_closed (stamp : α → Instant) {interval : ℤ} (hinterval : 0 ≤ interval)
    (maxAge : Span) (n : ℕ) (clock : ℤ) (s : Store α) :
    let run := runSweeper stamp interval maxAge n clock s
    let after := s.afterRounds stamp interval maxAge clock
    run.seen.length = n + 1 ∧
    (∀ k ≤ n, run.seen[k]? = some (after k).ids) ∧
    after 0 = s ∧
    (∀ k, 1 ≤ k → Bounded interval maxAge clock k →
      after k = s.keepFrom stamp (clock + k * (interval * microsPerSecond) - maxAge.micros)) ∧
    ∀ k, ¬ Bounded interval maxAge clock (k + 1) → after (k + 1) = after k := by
  refine ⟨length_seen_runSweeper s clock n, fun k hk => seen_runSweeper s clock hk, rfl,
    fun k hk hbounded => ?_, fun k hbounded => ?_⟩
  · obtain ⟨k, rfl⟩ := Nat.exists_eq_add_of_le' hk
    have hearlier : roundEnd interval clock k ≤ roundEnd interval clock (k + 1) := by
      have hstep : 0 ≤ interval * microsPerSecond := Int.mul_nonneg hinterval (by decide)
      rw [roundEnd_succ]
      omega
    rw [afterRounds_succ_last, sweptAt_of_inCalendar _ hbounded.1 hbounded.2]
    exact keepFrom_afterRounds hinterval k s (by omega)
  · rw [afterRounds_succ_last]
    exact sweptAt_of_not_inCalendar _ hbounded

def firstInstant : Instant := ⟨-62135596800000000, by decide⟩

def firstSeconds : Store Instant := ⟨[
  (.text "shop", ⟨firstInstant.micros + 4000000, by decide⟩),
  (.text "bank", ⟨firstInstant.micros + 500000, by decide⟩),
  (.text "inn", ⟨firstInstant.micros + 1000000, by decide⟩)]⟩

/-- The cutoff of the first round lies two seconds before the calendar, and all records stay. Those
of the next two rounds are the times of the inn and of the shop. -/
theorem runSweeper_closed_firstSeconds :
    let run := runSweeper id 3 ⟨5000000, by decide⟩ 3 firstInstant.micros firstSeconds
    (0 : ℤ) ≤ 3 ∧ ¬ Bounded 3 ⟨5000000, by decide⟩ firstInstant.micros 1 ∧
      Bounded 3 ⟨5000000, by decide⟩ firstInstant.micros 2 ∧
      Bounded 3 ⟨5000000, by decide⟩ firstInstant.micros 3 ∧ run.seen.length = 4 ∧
      run.seen[1]? = some [.text "shop", .text "bank", .text "inn"] ∧
      run.seen[2]? = some [.text "shop", .text "inn"] ∧
      run.seen[3]? = some [.text "shop"] := by
  intro run
  obtain ⟨hlength, hseen, hzero, hbounded, hunbounded⟩ :=
    runSweeper_closed id (show (0 : ℤ) ≤ 3 by decide) ⟨5000000, by decide⟩ 3
      firstInstant.micros firstSeconds
  have hfirst : ¬ Bounded 3 ⟨5000000, by decide⟩ firstInstant.micros 1 := by
    rintro ⟨-, t, ht⟩
    have hrange := t.inRange.1
    rw [ht] at hrange
    exact absurd hrange (by decide)
  have hsecond : Bounded 3 ⟨5000000, by decide⟩ firstInstant.micros 2 :=
    ⟨⟨⟨firstInstant.micros + 6000000, by decide⟩, rfl⟩,
      ⟨⟨firstInstant.micros + 1000000, by decide⟩, rfl⟩⟩
  have hthird : Bounded 3 ⟨5000000, by decide⟩ firstInstant.micros 3 :=
    ⟨⟨⟨firstInstant.micros + 9000000, by decide⟩, rfl⟩,
      ⟨⟨firstInstant.micros + 4000000, by decide⟩, rfl⟩⟩
  refine ⟨by decide, hfirst, hsecond, hthird, hlength, ?_, ?_, ?_⟩
  · rw [hseen 1 (by decide), hunbounded 0 hfirst, hzero]
    rfl
  · rw [hseen 2 (by decide), hbounded 2 (by decide) hsecond]
    rfl
  · rw [hseen 3 (by decide), hbounded 3 (by decide) hthird]
    rfl

end MoveWorkbench.Store
