import Mathlib.Order.MinMax
import MoveWorkbench.Proofs.Store.History

/-!
Sweeps one after the other. A sweep leaves the records that are stamped from its bound on, in
their order, and tells how many came before it. So a sweep after another one finds only what lies
between the two bounds, and both together do what the sweep with the smaller age does alone. A
bound that the calendar does not have leaves all records where they are.
-/

namespace MoveWorkbench

theorem Span.micros_injective : Function.Injective Span.micros := by
  rintro ⟨m, hm⟩ ⟨n, hn⟩ rfl
  rfl

/-- Spans are ordered by their length; those that lie in the other direction are the smallest. -/
instance : LinearOrder Span := LinearOrder.lift' Span.micros Span.micros_injective

namespace Instant

def InCalendar (micros : ℤ) : Prop := ∃ t : Instant, t.micros = micros

theorem inCalendar_iff {n : ℤ} : InCalendar n ↔ ∃ t, ofMicros n = .ok t :=
  exists_congr fun _ => ofMicros_eq_ok.symm

theorem ofMicros_of_not_inCalendar {n : ℤ} (h : ¬ InCalendar n) :
    ofMicros n = .error .outOfRange := by
  unfold ofMicros
  split
  · rename_i hrange
    exact absurd ⟨⟨n, hrange⟩, rfl⟩ h
  · rfl

end Instant

namespace Store

open Instant

variable {α : Type} {stamp : α → Instant} {now : Instant} {maxAge : Span}

def keepFrom (s : Store α) (stamp : α → Instant) (bound : ℤ) : Store α :=
  ⟨s.entries.filter fun e => bound ≤ (stamp e.2).micros⟩

def countBefore (s : Store α) (stamp : α → Instant) (bound : ℤ) : ℕ :=
  s.entries.countP fun e => (stamp e.2).micros < bound

theorem since_eq_keepFrom (s : Store α) (cutoff : Instant) :
    s.since stamp cutoff = s.keepFrom stamp cutoff.micros := by
  simp only [since, keepFrom, Instant.lt_iff, not_lt]

theorem evicted_keepFrom (s : Store α) (bound : ℤ) :
    s.evicted (s.keepFrom stamp bound) = s.countBefore stamp bound := by
  refine (s.evicted_filter _).trans (List.countP_congr fun e _ => ?_)
  simp

theorem keepFrom_keepFrom (s : Store α) (a b : ℤ) :
    (s.keepFrom stamp a).keepFrom stamp b = s.keepFrom stamp (max a b) := by
  simp only [keepFrom, List.filter_filter, max_le_iff, Bool.decide_and, Bool.and_comm]

/-- The records before a bound and those that are left are all of them. -/
theorem countBefore_add_size (s : Store α) (stamp : α → Instant) (bound : ℤ) :
    s.countBefore stamp bound + (s.keepFrom stamp bound).size = s.size := by
  have hle : (s.keepFrom stamp bound).size ≤ s.size := List.length_filter_le _ _
  rw [← evicted_keepFrom, evicted]
  omega

/-- What comes before the later one of two bounds comes before the first one, or is left by that
and comes before the second one. -/
theorem countBefore_add_countBefore (s : Store α) (a b : ℤ) :
    s.countBefore stamp a + (s.keepFrom stamp a).countBefore stamp b =
      s.countBefore stamp (max a b) := by
  -- each sweep parts what it finds, so the numbers follow from the sizes
  have hfirst := s.countBefore_add_size stamp a
  have hsecond := (s.keepFrom stamp a).countBefore_add_size stamp b
  have hboth := s.countBefore_add_size stamp (max a b)
  rw [keepFrom_keepFrom] at hsecond
  omega

theorem change_sweep_of_inCalendar (s : Store α)
    (h : InCalendar (now.micros - maxAge.micros)) :
    s.change stamp (.sweep maxAge now) =
      (.swept (.ok (s.countBefore stamp (now.micros - maxAge.micros))),
        s.keepFrom stamp (now.micros - maxAge.micros)) := by
  obtain ⟨cutoff, hcutoff⟩ := inCalendar_iff.mp h
  rw [change_sweep, before, hcutoff]
  dsimp only
  rw [since_eq_keepFrom, ofMicros_eq_ok.mp hcutoff, evicted_keepFrom]

theorem change_sweep_of_not_inCalendar (s : Store α)
    (h : ¬ InCalendar (now.micros - maxAge.micros)) :
    s.change stamp (.sweep maxAge now) = (.swept (.error .outOfRange), s) := by
  rw [change_sweep, before, ofMicros_of_not_inCalendar h]

/-- The smaller one of two ages has the later bound. -/
theorem sub_min (now : ℤ) (m₁ m₂ : Span) :
    now - (min m₁ m₂).micros = max (now - m₁.micros) (now - m₂.micros) := by
  rcases le_total m₁ m₂ with h | h
  · rw [min_eq_left h, max_eq_left (Int.sub_le_sub_left h now)]
  · rw [min_eq_right h, max_eq_right (Int.sub_le_sub_left h now)]

/-- Of two sweeps at one time, whichever comes first, the second one leaves what a single sweep
with the smaller age leaves, and their numbers add up to its number. A sweep evicts the records
from before its bound, and leaves those at the bound and after it in their order; without a bound
in the calendar it fails and evicts none. -/
theorem sweep_after_sweep (stamp : α → Instant) (s : Store α) (now : Instant) :
    (∀ m₁ m₂ : Span, InCalendar (now.micros - m₁.micros) → InCalendar (now.micros - m₂.micros) →
      ∃ n₁ n₂ first second,
        s.change stamp (.sweep m₁ now) = (.swept (.ok n₁), first) ∧
        first.change stamp (.sweep m₂ now) = (.swept (.ok n₂), second) ∧
        s.change stamp (.sweep (min m₁ m₂) now) = (.swept (.ok (n₁ + n₂)), second)) ∧
    (∀ m : Span, InCalendar (now.micros - m.micros) →
      s.change stamp (.sweep m now) =
        (.swept (.ok (s.countBefore stamp (now.micros - m.micros))),
          s.keepFrom stamp (now.micros - m.micros))) ∧
    ∀ m : Span, ¬ InCalendar (now.micros - m.micros) →
      s.change stamp (.sweep m now) = (.swept (.error .outOfRange), s) := by
  refine ⟨fun m₁ m₂ h₁ h₂ => ?_, fun m h => change_sweep_of_inCalendar s h,
    fun m h => change_sweep_of_not_inCalendar s h⟩
  have hmin : InCalendar (now.micros - (min m₁ m₂).micros) := by
    rcases min_choice m₁ m₂ with h | h <;> rw [h] <;> assumption
  refine ⟨_, _, _, _, change_sweep_of_inCalendar s h₁, change_sweep_of_inCalendar _ h₂, ?_⟩
  rw [change_sweep_of_inCalendar s hmin, sub_min, countBefore_add_countBefore, keepFrom_keepFrom]

def fourStamps : Store Instant := ⟨[(.text "shop", ⟨60, by decide⟩),
  (.text "bank", ⟨20, by decide⟩), (.text "inn", ⟨100, by decide⟩),
  (.text "mill", ⟨30, by decide⟩)]⟩

/-- At the time 100 a sweep with the age 70 evicts one record, and one with the age 40 another one.
An age of -30 evicts those from before the time 130, and one of 999999999 days has no bound. -/
theorem sweep_after_sweep_fourStamps :
    (∃ first second,
      fourStamps.change id (.sweep ⟨70, by decide⟩ ⟨100, by decide⟩) = (.swept (.ok 1), first) ∧
      first.change id (.sweep ⟨40, by decide⟩ ⟨100, by decide⟩) = (.swept (.ok 1), second) ∧
      fourStamps.change id (.sweep (min ⟨70, by decide⟩ ⟨40, by decide⟩) ⟨100, by decide⟩) =
        (.swept (.ok 2), second) ∧
      second.ids = [.text "shop", .text "inn"]) ∧
    fourStamps.change id (.sweep ⟨-30, by decide⟩ ⟨100, by decide⟩) =
      (.swept (.ok (fourStamps.countBefore id 130)), fourStamps.keepFrom id 130) ∧
    fourStamps.change id (.sweep ⟨999999999 * microsPerDay, by decide⟩ ⟨100, by decide⟩) =
      (.swept (.error .outOfRange), fourStamps) := by
  obtain ⟨htwo, hone, hnone⟩ := sweep_after_sweep id fourStamps ⟨100, by decide⟩
  refine ⟨?_, hone ⟨-30, by decide⟩ ⟨⟨130, by decide⟩, rfl⟩, hnone _ ?_⟩
  · obtain ⟨n₁, n₂, first, second, hfirst, hsecond, hmin⟩ :=
      htwo ⟨70, by decide⟩ ⟨40, by decide⟩ ⟨⟨30, by decide⟩, rfl⟩ ⟨⟨60, by decide⟩, rfl⟩
    cases hfirst
    cases hsecond
    exact ⟨_, _, rfl, rfl, hmin, rfl⟩
  · rintro ⟨t, ht⟩
    have hrange := t.inRange.1
    rw [ht] at hrange
    exact absurd hrange (by decide)

end Store

end MoveWorkbench
