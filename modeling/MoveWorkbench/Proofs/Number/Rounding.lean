import Mathlib.Algebra.Order.Field.Power
import Mathlib.Algebra.Order.Field.Rat
import Mathlib.Tactic.FieldSimp
import Mathlib.Tactic.Linarith
import Mathlib.Tactic.NormNum
import Mathlib.Tactic.Positivity
import Mathlib.Tactic.Ring
import MoveWorkbench.Number.Binary64

/-!
Rounding to the grid of doubles. The binary exponent of a value brackets its size between
two powers of two, and the spacing around it is a power of two that divides both. A value
on the grid is its own nearest point, and so is any value that differs from it by less
than one part in twice ten to the sixteenth.
-/

namespace MoveWorkbench

theorem abs_eq (x : ℚ) : x.abs = |x| := by
  unfold Rat.abs
  split
  · exact (abs_of_nonneg (by assumption)).symm
  · exact (abs_of_nonpos (by linarith)).symm

theorem one_le_abs_intCast {n : ℤ} (h : n ≠ 0) : 1 ≤ |(n : ℚ)| := by
  rw [← Int.cast_abs]
  exact_mod_cast Int.one_le_abs h

/-- The size of a value lies within a factor of two of the quotient of the powers of two
below its numerator and its denominator. -/
private theorem size_bracket {x : ℚ} (hx : x ≠ 0) :
    (2 : ℚ) ^ ((x.num.natAbs.log2 : ℤ) - x.den.log2 - 1) < |x| ∧
      |x| < (2 : ℚ) ^ ((x.num.natAbs.log2 : ℤ) - x.den.log2 + 1) := by
  have hnum : x.num.natAbs ≠ 0 := by simpa using hx
  have hden : x.den ≠ 0 := x.den_ne_zero
  have hsize : |x| = (x.num.natAbs : ℚ) / x.den := by
    rw [Nat.cast_natAbs, Int.cast_abs]
    nth_rewrite 1 [← Rat.num_div_den x]
    rw [abs_div, Nat.abs_cast]
  have hdenPos : (0 : ℚ) < x.den := by exact_mod_cast x.den_pos
  have hnumLow : (2 : ℚ) ^ x.num.natAbs.log2 ≤ x.num.natAbs := by
    exact_mod_cast Nat.log2_self_le hnum
  have hnumHigh : (x.num.natAbs : ℚ) < 2 ^ (x.num.natAbs.log2 + 1) := by
    exact_mod_cast Nat.lt_log2_self
  have hdenLow : (2 : ℚ) ^ x.den.log2 ≤ x.den := by
    exact_mod_cast Nat.log2_self_le hden
  have hdenHigh : (x.den : ℚ) < 2 ^ (x.den.log2 + 1) := by
    exact_mod_cast Nat.lt_log2_self
  rw [hsize]
  constructor
  · rw [lt_div_iff₀ hdenPos]
    calc (2 : ℚ) ^ ((x.num.natAbs.log2 : ℤ) - x.den.log2 - 1) * x.den
        < 2 ^ ((x.num.natAbs.log2 : ℤ) - x.den.log2 - 1) * 2 ^ (x.den.log2 + 1) := by
          gcongr
      _ = 2 ^ x.num.natAbs.log2 := by
          rw [← zpow_natCast, ← zpow_natCast, ← zpow_add₀ (by norm_num)]
          congr 1
          push_cast
          ring
      _ ≤ x.num.natAbs := hnumLow
  · rw [div_lt_iff₀ hdenPos]
    calc (x.num.natAbs : ℚ) < 2 ^ (x.num.natAbs.log2 + 1) := hnumHigh
      _ = 2 ^ ((x.num.natAbs.log2 : ℤ) - x.den.log2 + 1) * 2 ^ x.den.log2 := by
          rw [← zpow_natCast, ← zpow_natCast, ← zpow_add₀ (by norm_num)]
          congr 1
          push_cast
          ring
      _ ≤ 2 ^ ((x.num.natAbs.log2 : ℤ) - x.den.log2 + 1) * x.den := by
          gcongr

theorem two_zpow_le_abs {x : ℚ} (hx : x ≠ 0) : (2 : ℚ) ^ binaryExponent x ≤ |x| := by
  obtain ⟨hlow, -⟩ := size_bracket hx
  simp only [binaryExponent, abs_eq]
  split
  · exact hlow.le
  · linarith

theorem abs_lt_two_zpow {x : ℚ} (hx : x ≠ 0) : |x| < (2 : ℚ) ^ (binaryExponent x + 1) := by
  obtain ⟨-, hhigh⟩ := size_bracket hx
  simp only [binaryExponent, abs_eq]
  split
  · simpa only [sub_add_cancel]
  · exact hhigh

theorem binaryExponent_lt {x : ℚ} {k : ℤ} (hx : x ≠ 0) (h : |x| < 2 ^ k) : binaryExponent x < k :=
  (zpow_lt_zpow_iff_right₀ (by norm_num : (1 : ℚ) < 2)).mp ((two_zpow_le_abs hx).trans_lt h)

theorem le_binaryExponent {x : ℚ} {k : ℤ} (h : 2 ^ k ≤ |x|) : k ≤ binaryExponent x := by
  have hx : x ≠ 0 := abs_pos.mp ((zpow_pos (by norm_num) k).trans_le h)
  have hlt := (zpow_lt_zpow_iff_right₀ (by norm_num : (1 : ℚ) < 2)).mp
    (h.trans_lt (abs_lt_two_zpow hx))
  omega

/-- Powers of two bracket a size in one way only. -/
theorem binaryExponent_eq {x : ℚ} {e : ℤ} (hlow : (2 : ℚ) ^ e ≤ |x|)
    (hhigh : |x| < 2 ^ (e + 1)) : binaryExponent x = e := by
  have hx : x ≠ 0 := abs_pos.mp ((zpow_pos (by norm_num) e).trans_le hlow)
  have hbelow := binaryExponent_lt hx hhigh
  have habove := le_binaryExponent hlow
  omega

def spacingExponent (x : ℚ) : ℤ := max (binaryExponent x - 52) (-1074)

theorem spacing_eq (x : ℚ) : spacing x = 2 ^ spacingExponent x := rfl

theorem spacing_pos (x : ℚ) : 0 < spacing x := by
  rw [spacing_eq]
  positivity

theorem binaryExponent_neg (x : ℚ) : binaryExponent (-x) = binaryExponent x := by
  simp only [binaryExponent, abs_eq, Rat.num_neg_eq_neg_num, Int.natAbs_neg,
    Rat.den_neg_eq_den, abs_neg]

theorem spacing_neg (x : ℚ) : spacing (-x) = spacing x := by
  simp only [spacing, binaryExponent_neg]

theorem den_eq_one_iff {x : ℚ} : x.den = 1 ↔ ∃ n : ℤ, x = n := by
  constructor
  · intro h
    exact ⟨x.num, ((Rat.den_eq_one_iff x).mp h).symm⟩
  · intro hparts
    obtain ⟨n, rfl⟩ := hparts
    exact Rat.den_intCast n

/-- A finite double is a multiple of the spacing around it. -/
theorem representable_iff {x : ℚ} :
    Representable x ↔ |x| < 2 ^ (1024 : ℕ) ∧ ∃ n : ℤ, x = n * spacing x := by
  unfold Representable
  rw [abs_eq, den_eq_one_iff]
  simp only [div_eq_iff (spacing_pos x).ne']

theorem Representable.neg {x : ℚ} (h : Representable x) : Representable (-x) := by
  obtain ⟨hsize, n, hn⟩ := representable_iff.mp h
  refine representable_iff.mpr ⟨by rwa [abs_neg], -n, ?_⟩
  rw [spacing_neg, Int.cast_neg, neg_mul, ← hn]

theorem representable_zero : Representable 0 :=
  representable_iff.mpr ⟨by norm_num, 0, by simp⟩

theorem nearestEven_eq {x : ℚ} {n : ℤ} (h : |x - n| < 1 / 2) : nearestEven x = n := by
  rw [abs_lt] at h
  have hfloorLe := Rat.floor_le x
  have hltFloor := Rat.lt_floor_add_one x
  push_cast at hltFloor
  have hlow : n ≤ x.floor + 1 := by
    have : (n : ℚ) < x.floor + 2 := by linarith
    have : n < x.floor + 2 := by exact_mod_cast this
    omega
  have hhigh : x.floor ≤ n := by
    have : (x.floor : ℚ) < n + 1 := by linarith
    have : x.floor < n + 1 := by exact_mod_cast this
    omega
  simp only [nearestEven]
  rcases (by omega : n = x.floor ∨ n = x.floor + 1) with rfl | rfl
  · rw [if_pos (by linarith)]
  · push_cast at h
    rw [if_neg (by linarith), if_pos (by linarith)]

/-- Rounding moves a value by at most one half. -/
theorem abs_sub_nearestEven_le (x : ℚ) : |x - nearestEven x| ≤ 1 / 2 := by
  have hfloorLe := Rat.floor_le x
  have hltFloor := Rat.lt_floor_add_one x
  push_cast at hltFloor
  simp only [nearestEven]
  rw [abs_le]
  split
  · constructor <;> linarith
  · split
    · push_cast
      constructor <;> linarith
    · split
      · constructor <;> linarith
      · push_cast
        constructor <;> linarith

theorem nearestOnGrid_of_representable {x : ℚ} (h : Representable x) : nearestOnGrid x = x := by
  obtain ⟨-, n, hn⟩ := representable_iff.mp h
  have hquot : x / spacing x = n := by
    rw [div_eq_iff (spacing_pos x).ne']
    exact hn
  unfold nearestOnGrid
  rw [hquot, nearestEven_eq (n := n) (by simp), ← hn]

/-- A multiple of the spacing around `y` that is less than half a spacing away is the
point of the grid nearest to `y`. -/
theorem nearestOnGrid_eq {x y : ℚ} (hx : ∃ n : ℤ, x = n * spacing y)
    (hnear : |y - x| < spacing y / 2) : nearestOnGrid y = x := by
  obtain ⟨n, hn⟩ := hx
  have hs := spacing_pos y
  have hround : nearestEven (y / spacing y) = n := by
    apply nearestEven_eq
    have hdiff : y / spacing y - n = (y - x) / spacing y := by
      rw [hn]
      field_simp
    rw [hdiff, abs_div, abs_of_pos hs, div_lt_iff₀ hs]
    linarith
  unfold nearestOnGrid
  rw [hround, ← hn]

/-- A greater power of two is a multiple of a smaller one. -/
theorem two_zpow_eq_mul {g e : ℤ} (h : g ≤ e) :
    ∃ n : ℕ, (2 : ℚ) ^ e = n * 2 ^ g ∧ (n : ℚ) = 2 ^ (e - g) := by
  refine ⟨2 ^ (e - g).toNat, ?_, ?_⟩
  · rw [Nat.cast_pow, Nat.cast_ofNat, ← zpow_natCast, ← zpow_add₀ (by norm_num)]
    congr 1
    omega
  · rw [Nat.cast_pow, Nat.cast_ofNat, ← zpow_natCast]
    congr 1
    omega

/-- Powers of two from one on are integers. -/
theorem exists_two_zpow_eq_intCast {e : ℤ} (h : 0 ≤ e) : ∃ n : ℤ, (2 : ℚ) ^ e = n := by
  obtain ⟨n, hn, -⟩ := two_zpow_eq_mul h
  rw [zpow_zero, mul_one] at hn
  exact ⟨n, by rw [hn, Int.cast_natCast]⟩

/-- A finite double is a multiple of each power of two up to the spacing around it. -/
theorem Representable.exists_eq_mul {x : ℚ} (h : Representable x) {k : ℤ}
    (hk : k ≤ spacingExponent x) : ∃ n : ℤ, x = n * 2 ^ k := by
  obtain ⟨-, n, hn⟩ := representable_iff.mp h
  obtain ⟨m, hm, -⟩ := two_zpow_eq_mul hk
  refine ⟨n * m, ?_⟩
  rw [Int.cast_mul, Int.cast_natCast, mul_assoc, ← hm, ← spacing_eq]
  exact hn

theorem overflow_limit : (2 : ℚ) ^ (1024 : ℕ) = 2 ^ (1024 : ℤ) := (zpow_natCast 2 1024).symm

/-- The exponents of finite doubles other than zero. -/
theorem Representable.exponent_bounds {x : ℚ} (h : Representable x) (hx : x ≠ 0) :
    -1074 ≤ binaryExponent x ∧ binaryExponent x ≤ 1023 := by
  obtain ⟨hsize, n, hn⟩ := representable_iff.mp h
  constructor
  · have hn0 : n ≠ 0 := by
      rintro rfl
      simp at hn
      exact hx hn
    have hone := one_le_abs_intCast hn0
    have hmin : (2 : ℚ) ^ (-1074 : ℤ) ≤ spacing x :=
      zpow_le_zpow_right₀ (by norm_num) (le_max_right _ _)
    have habs : |x| = |(n : ℚ)| * spacing x := by
      nth_rewrite 1 [hn]
      rw [abs_mul, abs_of_pos (spacing_pos x)]
    have hlow : (2 : ℚ) ^ (-1074 : ℤ) ≤ |x| := by
      rw [habs]
      nlinarith [spacing_pos x]
    exact le_binaryExponent hlow
  · rw [overflow_limit] at hsize
    have hlt := binaryExponent_lt hx hsize
    omega

section Closeness

variable {x y : ℚ}

/-- The largest finite double below a power of two is a spacing away from it. -/
private theorem le_sub_spacing (h : Representable x) (hx : 0 < x) :
    x ≤ 2 ^ (binaryExponent x + 1) - spacing x := by
  obtain ⟨-, n, hn⟩ := representable_iff.mp h
  have hbounds := h.exponent_bounds hx.ne'
  obtain ⟨m, hm, -⟩ := two_zpow_eq_mul
    (show spacingExponent x ≤ binaryExponent x + 1 by unfold spacingExponent; omega)
  have hlt := abs_lt_two_zpow hx.ne'
  rw [abs_of_pos hx, hm, ← spacing_eq] at hlt
  have hnm : n < m := by
    have : (n : ℚ) * spacing x < m * spacing x := by rwa [← hn]
    exact_mod_cast lt_of_mul_lt_mul_right this (spacing_pos x).le
  have hsucc : (n : ℚ) + 1 ≤ m := by exact_mod_cast hnm
  rw [hm, ← spacing_eq]
  nlinarith [spacing_pos x]

/-- A finite double that is not a power of two is a spacing above the last one. -/
private theorem add_spacing_le (h : Representable x) (hx : 0 < x)
    (hlt : (2 : ℚ) ^ binaryExponent x < x) : 2 ^ binaryExponent x + spacing x ≤ x := by
  obtain ⟨-, n, hn⟩ := representable_iff.mp h
  have hbounds := h.exponent_bounds hx.ne'
  obtain ⟨m, hm, -⟩ := two_zpow_eq_mul
    (show spacingExponent x ≤ binaryExponent x by unfold spacingExponent; omega)
  rw [← spacing_eq] at hm
  have hmn : (m : ℤ) < n := by
    have : (m : ℚ) * spacing x < n * spacing x := by rwa [← hm, ← hn]
    exact_mod_cast lt_of_mul_lt_mul_right this (spacing_pos x).le
  have hsucc : (m : ℚ) + 1 ≤ n := by exact_mod_cast hmn
  rw [hm]
  nth_rewrite 3 [hn]
  nlinarith [spacing_pos x]

/-- One part in twice ten to the sixteenth is less than half a spacing. -/
private theorem part_lt_half_spacing (hx : 0 < x) : x / (2 * 10 ^ 16) < spacing x / 2 := by
  have hhigh := abs_lt_two_zpow hx.ne'
  rw [abs_of_pos hx] at hhigh
  have hspacing : (2 : ℚ) ^ (binaryExponent x + 1) ≤ 2 ^ (53 : ℤ) * spacing x := by
    rw [spacing_eq, ← zpow_add₀ (by norm_num)]
    exact zpow_le_zpow_right₀ (by norm_num) (by unfold spacingExponent; omega)
  norm_num at hspacing ⊢
  have hs := spacing_pos x
  linarith

/-- Below a power of two the spacing may be half as wide, and that is still enough. -/
private theorem nearestOnGrid_below_power (hx : 0 < x) (hbounds : -1074 ≤ binaryExponent x)
    (hpow : x = 2 ^ binaryExponent x) (hlt : y < x) (hclose : x - y ≤ x / (2 * 10 ^ 16)) :
    nearestOnGrid y = x := by
  have hy : 0 < y := by
    have : x / (2 * 10 ^ 16) < x := by
      apply div_lt_self hx
      norm_num
    linarith
  have hhalf : (2 : ℚ) ^ (binaryExponent x - 1) = x / 2 := by
    rw [zpow_sub_one₀ (by norm_num), ← hpow]
    ring
  have hexp : binaryExponent y = binaryExponent x - 1 := by
    apply binaryExponent_eq
    · rw [abs_of_pos hy, hhalf]
      norm_num at hclose
      linarith
    · rw [abs_of_pos hy, sub_add_cancel, ← hpow]
      exact hlt
  apply nearestOnGrid_eq
  · obtain ⟨m, hm, -⟩ := two_zpow_eq_mul
      (show spacingExponent y ≤ binaryExponent x by unfold spacingExponent; omega)
    refine ⟨m, ?_⟩
    rw [spacing_eq]
    exact_mod_cast hpow.trans hm
  · have hspacing : x ≤ 2 ^ (53 : ℤ) * spacing y := by
      nth_rewrite 1 [hpow]
      rw [spacing_eq, ← zpow_add₀ (by norm_num)]
      exact zpow_le_zpow_right₀ (by norm_num) (by unfold spacingExponent; omega)
    rw [abs_of_neg (by linarith)]
    norm_num at hspacing hclose ⊢
    linarith [spacing_pos y]

/-- A finite double is the point of the grid nearest to every value that differs from it by
at most one part in twice ten to the sixteenth. -/
theorem nearestOnGrid_of_close (h : Representable x) (hx : 0 < x)
    (hclose : |y - x| ≤ x / (2 * 10 ^ 16)) : nearestOnGrid y = x := by
  have hpart := part_lt_half_spacing hx
  have hbounds := h.exponent_bounds hx.ne'
  have hlow := two_zpow_le_abs hx.ne'
  rw [abs_of_pos hx] at hlow
  obtain ⟨hbelow, habove⟩ := abs_le.mp hclose
  by_cases hy : 2 ^ binaryExponent x ≤ y
  · -- `y` lies between the same powers of two as `x`, so it has the same spacing.
    have hypos : 0 < y := lt_of_lt_of_le (by positivity) hy
    have hexp : binaryExponent y = binaryExponent x := by
      apply binaryExponent_eq
      · rwa [abs_of_pos hypos]
      · rw [abs_of_pos hypos]
        have := le_sub_spacing h hx
        linarith [spacing_pos x]
    have hspacing : spacing y = spacing x := by simp only [spacing, hexp]
    apply nearestOnGrid_eq
    · rw [hspacing]
      exact (representable_iff.mp h).2
    · rw [hspacing]
      linarith
  · rw [not_le] at hy
    have hpow : x = 2 ^ binaryExponent x := by
      by_contra hne
      have := add_spacing_le h hx (lt_of_le_of_ne hlow (Ne.symm hne))
      linarith [spacing_pos x]
    exact nearestOnGrid_below_power hx hbounds.1 hpow (by linarith) (by linarith)

end Closeness

section Range

/-- What rounds to a multiple other than zero is at least half of the least spacing. -/
private theorem exponent_of_nearestEven_ne_zero {x : ℚ} (hx : x ≠ 0)
    (hn : nearestEven (x / spacing x) ≠ 0) : -1075 ≤ binaryExponent x := by
  by_contra hsmall
  apply hn
  apply nearestEven_eq
  have hspacing : spacing x = 2 ^ (-1074 : ℤ) := by
    rw [spacing_eq]
    congr 1
    unfold spacingExponent
    omega
  have hle : (2 : ℚ) ^ (binaryExponent x + 1) ≤ 2 ^ (-1075 : ℤ) :=
    zpow_le_zpow_right₀ (by norm_num) (by omega)
  have hhalf : (2 : ℚ) ^ (-1075 : ℤ) = 2 ^ (-1074 : ℤ) / 2 := by
    rw [show (-1075 : ℤ) = -1074 - 1 by norm_num, zpow_sub_one₀ (by norm_num)]
    ring
  rw [Int.cast_zero, sub_zero, abs_div, abs_of_pos (spacing_pos x), div_lt_iff₀ (spacing_pos x),
    hspacing]
  linarith [abs_lt_two_zpow hx]

/-- The nearest point of the grid is at most the next power of two. -/
private theorem abs_nearestOnGrid_le {x : ℚ} (hx : x ≠ 0)
    (hn : nearestEven (x / spacing x) ≠ 0) :
    |nearestOnGrid x| ≤ 2 ^ (binaryExponent x + 1) := by
  have hexp := exponent_of_nearestEven_ne_zero hx hn
  obtain ⟨m, hm, -⟩ := two_zpow_eq_mul
    (show spacingExponent x ≤ binaryExponent x + 1 by unfold spacingExponent; omega)
  have hs := spacing_pos x
  have hlt := abs_lt_two_zpow hx
  rw [hm, ← spacing_eq] at hlt ⊢
  have hquot : |x / spacing x| < m := by
    rwa [abs_div, abs_of_pos hs, div_lt_iff₀ hs]
  have hmove := abs_sub_nearestEven_le (x / spacing x)
  have hround : |(nearestEven (x / spacing x) : ℚ)| < m + 1 := by
    rw [abs_lt] at hquot ⊢
    rw [abs_le] at hmove
    constructor <;> linarith
  have hint : |nearestEven (x / spacing x)| ≤ (m : ℤ) := by
    have : |nearestEven (x / spacing x)| < (m : ℤ) + 1 := by exact_mod_cast hround
    omega
  unfold nearestOnGrid
  rw [abs_mul, abs_of_pos hs]
  apply mul_le_mul_of_nonneg_right _ hs.le
  exact_mod_cast hint

/-- Rounding stays below every power of two that the exact value stays below. -/
theorem abs_nearestOnGrid_le_of_lt {x : ℚ} {k : ℤ} (h : |x| < 2 ^ k) :
    |nearestOnGrid x| ≤ 2 ^ k := by
  by_cases hn : nearestEven (x / spacing x) = 0
  · unfold nearestOnGrid
    rw [hn, Int.cast_zero, zero_mul, abs_zero]
    positivity
  · have hx : x ≠ 0 := by
      rintro rfl
      rw [zero_div] at hn
      exact hn (nearestEven_eq (n := 0) (by simp))
    have hexp := binaryExponent_lt hx h
    exact (abs_nearestOnGrid_le hx hn).trans (zpow_le_zpow_right₀ (by norm_num) (by omega))

/-- What rounding leads to is on the grid around itself, also where it reaches the next
power of two. -/
theorem representable_nearestOnGrid {x : ℚ} (h : |nearestOnGrid x| < 2 ^ (1024 : ℕ)) :
    Representable (nearestOnGrid x) := by
  by_cases hn : nearestEven (x / spacing x) = 0
  · unfold nearestOnGrid
    rw [hn, Int.cast_zero, zero_mul]
    exact representable_zero
  · have hx : x ≠ 0 := by
      rintro rfl
      rw [zero_div] at hn
      exact hn (nearestEven_eq (n := 0) (by simp))
    refine representable_iff.mpr ⟨h, ?_⟩
    have hne : nearestOnGrid x ≠ 0 := by
      unfold nearestOnGrid
      exact mul_ne_zero (by exact_mod_cast hn) (spacing_pos x).ne'
    have hsmall := exponent_of_nearestEven_ne_zero hx hn
    have hle := abs_nearestOnGrid_le hx hn
    have hexp : binaryExponent (nearestOnGrid x) ≤ binaryExponent x + 1 := by
      have hlt := binaryExponent_lt hne (hle.trans_lt
        (zpow_lt_zpow_right₀ (by norm_num : (1 : ℚ) < 2)
          (show binaryExponent x + 1 < binaryExponent x + 2 by omega)))
      omega
    rcases (by omega : binaryExponent (nearestOnGrid x) = binaryExponent x + 1 ∨
      binaryExponent (nearestOnGrid x) ≤ binaryExponent x) with heq | hlt
    · -- The next power of two is reached, and it is a multiple of its own spacing.
      have hpow : |nearestOnGrid x| = 2 ^ (binaryExponent x + 1) := by
        apply le_antisymm hle
        rw [← heq]
        exact two_zpow_le_abs hne
      obtain ⟨m, hm, -⟩ := two_zpow_eq_mul
        (show spacingExponent (nearestOnGrid x) ≤ binaryExponent x + 1 by
          unfold spacingExponent; omega)
      rw [hm, ← spacing_eq] at hpow
      have hnonneg := mul_nonneg (Nat.cast_nonneg m) (spacing_pos (nearestOnGrid x)).le
      rcases abs_eq_abs.mp (hpow.trans (abs_of_nonneg hnonneg).symm) with hpos | hneg
      · exact ⟨m, by exact_mod_cast hpos⟩
      · exact ⟨-m, by push_cast; linarith⟩
    · obtain ⟨m, hm, -⟩ := two_zpow_eq_mul
        (show spacingExponent (nearestOnGrid x) ≤ spacingExponent x by
          unfold spacingExponent; omega)
      refine ⟨nearestEven (x / spacing x) * m, ?_⟩
      rw [← spacing_eq, ← spacing_eq] at hm
      push_cast
      rw [mul_assoc, ← hm]
      rfl

/-- What stays below a power of two is not too large for a double. -/
theorem representable_nearestOnGrid_of_lt {x : ℚ} {k : ℤ} (hk : k ≤ 1023) (h : |x| < 2 ^ k) :
    Representable (nearestOnGrid x) := by
  refine representable_nearestOnGrid ((abs_nearestOnGrid_le_of_lt h).trans_lt ?_)
  rw [overflow_limit]
  exact zpow_lt_zpow_right₀ (by norm_num) (by omega)

/-- Rounding does not fall below the power of two that a value has reached. -/
theorem two_zpow_le_abs_nearestOnGrid {x : ℚ} (hx : x ≠ 0) (hexp : -1074 ≤ binaryExponent x) :
    2 ^ binaryExponent x ≤ |nearestOnGrid x| := by
  obtain ⟨m, hm, -⟩ := two_zpow_eq_mul
    (show spacingExponent x ≤ binaryExponent x by unfold spacingExponent; omega)
  have hs := spacing_pos x
  have hle := two_zpow_le_abs hx
  rw [hm, ← spacing_eq] at hle ⊢
  have hquot : (m : ℚ) ≤ |x / spacing x| := by
    rwa [abs_div, abs_of_pos hs, le_div_iff₀ hs]
  have hmove := abs_sub_nearestEven_le (x / spacing x)
  have hround : (m : ℚ) - 1 < |(nearestEven (x / spacing x) : ℚ)| := by
    have := abs_sub_abs_le_abs_sub (x / spacing x) (nearestEven (x / spacing x))
    linarith
  have hint : (m : ℤ) ≤ |nearestEven (x / spacing x)| := by
    have : (m : ℤ) - 1 < |nearestEven (x / spacing x)| := by exact_mod_cast hround
    omega
  unfold nearestOnGrid
  rw [abs_mul, abs_of_pos hs]
  apply mul_le_mul_of_nonneg_right _ hs.le
  exact_mod_cast hint

end Range

namespace Binary64

/-- The double nearest to a finite double is that double. -/
theorem ofRat_eq_real {x y : ℚ} (hx : Representable x) (h : nearestOnGrid y = x) :
    ofRat y = real x hx := by
  subst h
  unfold ofRat
  rw [dif_pos hx]

theorem ofRat_of_representable {x : ℚ} (hx : Representable x) : ofRat x = real x hx :=
  ofRat_eq_real hx (nearestOnGrid_of_representable hx)

theorem zero_eq : zero = real 0 representable_zero := ofRat_of_representable representable_zero

/-- What stays below a power of two is rounded to a finite double. -/
theorem exists_ofRat_eq_real {x : ℚ} {k : ℤ} (hk : k ≤ 1023) (h : |x| < 2 ^ k) :
    ∃ y hy, ofRat x = real y hy ∧ |y| ≤ 2 ^ k := by
  have hrep := representable_nearestOnGrid_of_lt hk h
  exact ⟨_, hrep, ofRat_eq_real hrep rfl, abs_nearestOnGrid_le_of_lt h⟩

/-- Only values below the overflow limit are rounded to a finite double. -/
theorem abs_lt_of_ofRat_eq_real {x y : ℚ} {hy : Representable y} (h : ofRat x = real y hy) :
    |x| < 2 ^ (1024 : ℕ) := by
  have hround : nearestOnGrid x = y := by
    unfold ofRat at h
    split at h
    · injection h
    · cases h
  have hlt := (representable_iff.mp hy).1
  rw [← hround, overflow_limit] at hlt
  rw [overflow_limit]
  by_contra hge
  rw [not_lt] at hge
  have hx : x ≠ 0 := by
    rintro rfl
    have : (0 : ℚ) < 2 ^ (1024 : ℤ) := zpow_pos (by norm_num) _
    rw [abs_zero] at hge
    exact absurd hge (not_le.mpr this)
  have hexp := le_binaryExponent hge
  have hpow : (2 : ℚ) ^ (1024 : ℤ) ≤ 2 ^ binaryExponent x :=
    zpow_le_zpow_right₀ (by norm_num) (by omega)
  have hreach := two_zpow_le_abs_nearestOnGrid hx (by omega)
  exact absurd hlt (not_lt.mpr (hpow.trans hreach))

end Binary64

end MoveWorkbench
