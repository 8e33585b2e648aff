import MoveWorkbench.Proofs.Number.Monotone

/-!
Parts of amounts. A part with a small denominator is a double only nearly, and so its product with
an amount is moved twice. An integer product is moved back to the integer, and any other one is
farther from the integers around it than it is moved; so in both cases the floor is that of the
exact product.
-/

namespace MoveWorkbench

variable {x y : ℚ} {n : ℤ}

/-- What lies above an integer, and below the next one by more than a rounding moves it, is rounded
to something between them. -/
theorem floor_nearestOnGrid (hone : 1 ≤ x) (hsmall : x < 2 ^ 53) (hlow : (n : ℚ) ≤ x)
    (hhigh : x + x / 2 ^ 53 < n + 1) : (nearestOnGrid x).floor = n := by
  have hpos : 0 < x := zero_lt_one.trans_le hone
  refine floor_eq (le_nearestOnGrid hpos.ne' ?_ hlow) ((nearestOnGrid_le_add hone).trans_lt hhigh)
  rwa [abs_of_pos hpos]

section Denominator

variable {q : ℕ} (hq : 0 < q) (hn : q * x = n)

include hq hn

/-- A value with a denominator lies by one part of it at least below the next integer. -/
theorem add_le_floor_add_one : x + 1 / q ≤ x.floor + 1 := by
  have hq' : (0 : ℚ) < q := by exact_mod_cast hq
  have hless : x < x.floor + 1 := by exact_mod_cast Rat.lt_floor_add_one x
  have hnext : n < q * (x.floor + 1) := by
    have : (n : ℚ) < q * (x.floor + 1) := by
      rw [← hn]
      exact mul_lt_mul_of_pos_left hless hq'
    exact_mod_cast this
  have hgap : (q * x + 1 : ℚ) ≤ q * (x.floor + 1) := by
    rw [hn]
    exact_mod_cast hnext
  rw [← mul_le_mul_iff_right₀ hq', mul_add, mul_one_div_cancel hq'.ne']
  exact hgap

/-- A value with a denominator is an integer, or lies by one part of it at least above one. -/
theorem eq_floor_or_floor_add_le : x = x.floor ∨ (x.floor : ℚ) + 1 / q ≤ x := by
  have hq' : (0 : ℚ) < q := by exact_mod_cast hq
  rcases (Rat.floor_le x).eq_or_lt with heq | hless
  · exact .inl heq.symm
  have hnext : (q * x.floor : ℤ) < n := by
    have : (q * x.floor : ℚ) < n := by
      rw [← hn]
      exact mul_lt_mul_of_pos_left hless hq'
    exact_mod_cast this
  have hgap : (q * x.floor + 1 : ℚ) ≤ q * x := by
    rw [hn]
    exact_mod_cast hnext
  refine .inr ?_
  rw [← mul_le_mul_iff_right₀ hq', mul_add, mul_one_div_cancel hq'.ne']
  exact hgap

/-- The floor of a value with a small denominator is found also from a value that is close. -/
theorem floor_nearestOnGrid_of_close (hsmall : q ≤ 10) (htwo : 2 ≤ x) (hx : x < 2 ^ 49)
    (hlow : x - x / (2 * 10 ^ 16) ≤ y) (hhigh : y ≤ x + x / 2 ^ 54) :
    (nearestOnGrid y).floor = x.floor := by
  have hpart : (1 : ℚ) / 10 ≤ 1 / q := by
    apply one_div_le_one_div_of_le
    · exact_mod_cast hq
    · exact_mod_cast hsmall
  have hbehind := add_le_floor_add_one hq hn
  by_cases hexact : x = x.floor ∧ y ≤ x
  · have hrep : Representable x := by
      rw [hexact.1]
      refine representable_intCast ?_
      rw [← hexact.1, abs_of_pos (by linarith)]
      linarith
    have hclose : |y - x| ≤ x / (2 * 10 ^ 16) := by
      rw [abs_sub_comm, abs_of_nonneg (by linarith [hexact.2])]
      linarith
    rw [nearestOnGrid_of_close hrep (by linarith) hclose]
  · have hreach : (x.floor : ℚ) ≤ y := by
      rcases eq_floor_or_floor_add_le hq hn with heq | hfront
      · have hless : x < y := not_le.mp fun hle => hexact ⟨heq, hle⟩
        rw [← heq]
        exact hless.le
      · norm_num at hlow hx ⊢
        linarith
    norm_num at hlow hhigh hx
    refine floor_nearestOnGrid ?_ ?_ hreach ?_ <;> norm_num <;> linarith

end Denominator

namespace Binary64

structure Part (m : ℚ) : Prop where
  pos : 1 / 4 ≤ m
  le : m ≤ 2 / 5
  decimal : ∃ q : ℕ, 0 < q ∧ q ≤ 10 ∧ (q * m).den = 1
  low : m - m / (2 * 10 ^ 16) ≤ nearestOnGrid m
  high : nearestOnGrid m ≤ m + m / 2 ^ 54

/-- Such a part of an amount is rounded down exactly. -/
theorem Part.floorScaled {m : ℚ} (h : Part m) {n : ℤ} (hlow : 8 ≤ n) (hhigh : n < 2 ^ 50) :
    floorScaled n (ofRat m) = .ok (n * m).floor := by
  obtain ⟨hpos, hle, ⟨q, hq, hsmall, hden⟩, hclose, hclose'⟩ := h
  obtain ⟨k, hk⟩ := den_eq_one_iff.mp hden
  have hlow' : (8 : ℚ) ≤ n := by exact_mod_cast hlow
  have hhigh' : (n : ℚ) < 2 ^ 50 := by exact_mod_cast hhigh
  have hone : Representable (nearestOnGrid 1) := by decide +kernel
  have hpart : Representable (nearestOnGrid m) :=
    representable_of_le (by linarith) (hle.trans (by norm_num)) hone
  have hn : Representable n := representable_intCast (by
    rw [abs_of_nonneg (by linarith)]
    linarith)
  obtain ⟨g, hg⟩ := (exists_floorScaled_iff (n := n) (m := m) (by omega) (by linarith)
    (hle.trans (by norm_num))).mpr (hhigh.trans (by decide +kernel))
  have hfloor : (nearestOnGrid (n * nearestOnGrid m)).floor = (n * m : ℚ).floor := by
    refine floor_nearestOnGrid_of_close (n := n * k) hq ?_ hsmall ?_ ?_ ?_ ?_
    · rw [Int.cast_mul, ← hk]
      ring
    · nlinarith
    · nlinarith
    · rw [mul_div_assoc, ← mul_sub]
      exact mul_le_mul_of_nonneg_left hclose (by linarith)
    · rw [mul_div_assoc, ← mul_add]
      exact mul_le_mul_of_nonneg_left hclose' (by linarith)
  have hvalue := ((floorScaled_eq_ok hpart).mp hg).2.2
  rw [nearestOnGrid_of_representable hn, hfloor] at hvalue
  rw [hg, hvalue]

end Binary64

end MoveWorkbench
