import MoveWorkbench.Proofs.Number.HalfUp

/-!
Averages. A quotient of integers, a half added to it and the floor of the sum are what a double
makes of an average. Halves are doubles, so that an average that is one is not moved; and any other
one is farther from all halves than it is moved, as long as the total is below two to the fiftieth.
-/

namespace MoveWorkbench.Binary64

/-- The average of at least one for each of some numbers, rounded by doubles, is the exact one
rounded. -/
theorem exists_average {t : ℤ} {n : ℕ} (hn : 0 < n) (hle : n ≤ t) (hsmall : t < 2 ^ 50) :
    ∃ d g, quotient? t n = .ok d ∧ d.roundHalfUp = .ok g ∧ NearestHalfUp (t / n) g := by
  have hn' : (1 : ℚ) ≤ n := by exact_mod_cast hn
  have hle' : (n : ℚ) ≤ t := by exact_mod_cast hle
  have ht : (t : ℚ) < 2 ^ 50 := by exact_mod_cast hsmall
  have hone : 1 ≤ (t : ℚ) / n := (one_le_div (by linarith)).mpr hle'
  have hx : (t : ℚ) / n < 2 ^ 50 := (div_le_self (by linarith) hn').trans_lt ht
  have hsize : |(t : ℚ) / n| = t / n := abs_of_nonneg (by linarith)
  have hmove := (normal_of_one_le (hone.trans_eq hsize.symm)).abs_sub_nearestOnGrid_le
  rw [hsize, abs_sub_comm] at hmove
  have hreach := le_nearestOnGrid_of_representable (by decide +kernel) zero_le_one hone
  have hmoved := nearestOnGrid_le_add hone
  have hquotient : Representable (nearestOnGrid ((t : ℚ) / n)) :=
    representable_of_le (by linarith) hx.le (by decide +kernel)
  have hround : |nearestOnGrid ((t : ℚ) / n)| < 2 ^ 51 := by
    rw [abs_of_nonneg (by linarith)]
    norm_num at hx hmoved ⊢
    linarith
  have hsum : Representable (nearestOnGrid (nearestOnGrid ((t : ℚ) / n) + 1 / 2)) := by
    refine representable_nearestOnGrid_of_lt (k := 52) (by norm_num) ?_
    rw [abs_of_nonneg (by linarith)]
    rw [abs_of_nonneg (by linarith)] at hround
    norm_num at hround ⊢
    linarith
  obtain ⟨g, hg⟩ : ∃ g, NearestHalfUp ((t : ℚ) / (n : ℤ)) g := ⟨_, nearestHalfUp_iff.mpr rfl⟩
  have hkept : NearestHalfUp (nearestOnGrid ((t : ℚ) / n)) g := by
    refine hg.of_close (by exact_mod_cast hn) ?_ fun hhalf => ?_
    · rw [Int.cast_natCast]
      refine hmove.trans_lt ?_
      rw [div_div, div_lt_div_iff₀ (by positivity) (by positivity)]
      norm_num at ht ⊢
      nlinarith
    · have hodd : (t : ℚ) / n = ((2 * g - 1 : ℤ) : ℚ) / 2 := by
        rw [Int.cast_natCast] at hhalf
        push_cast
        linarith
      have hdouble : Representable ((t : ℚ) / n) := by
        rw [hodd]
        refine representable_half ?_
        rw [← hodd, hsize]
        exact hx.le.trans (by norm_num)
      rw [Int.cast_natCast, nearestOnGrid_of_representable hdouble]
  rw [Int.cast_natCast] at hg
  refine ⟨real _ hquotient, g, ?_, ?_, hg⟩
  · unfold quotient? ofRat?
    rw [Int.cast_natCast, ofRat_eq_real hquotient rfl]
  · rw [roundHalfUp_of_value? rfl hsum, floor_add_half hquotient hround (.inr (by linarith)),
      nearestHalfUp_iff.mp hkept]

end MoveWorkbench.Binary64
