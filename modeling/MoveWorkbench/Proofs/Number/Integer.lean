import MoveWorkbench.Proofs.Number.Rounding

/-!
Integers among doubles. Below two to the fifty-third every integer is a multiple of the spacing
around each value, so that a value that is rounded does not leave the integers between which it
lies. What lies below an integer by less than half a spacing is rounded to it, and what lies
below it by more is rounded to a value that is less.
-/

namespace MoveWorkbench

variable {x : ℚ} {n : ℤ}

theorem floor_eq (hlow : (n : ℚ) ≤ x) (hhigh : x < n + 1) : x.floor = n := by
  have hle : n ≤ x.floor := Rat.le_floor_iff.mpr hlow
  have hlt : x.floor < n + 1 := by
    have : (x.floor : ℚ) < n + 1 := (Rat.floor_le x).trans_lt hhigh
    exact_mod_cast this
  omega

theorem le_nearestEven (h : (n : ℚ) ≤ x) : n ≤ nearestEven x := by
  have hfloor : n ≤ x.floor := Rat.le_floor_iff.mpr h
  simp only [nearestEven]
  split
  · exact hfloor
  · split
    · omega
    · split <;> omega

/-- The spacing below a power of two. -/
theorem spacingExponent_le {k : ℤ} (hx : x ≠ 0) (h : |x| < 2 ^ k) (hk : -1021 ≤ k) :
    spacingExponent x ≤ k - 53 := by
  have hexp := binaryExponent_lt hx h
  unfold spacingExponent
  omega

/-- The spacing from a power of two on. -/
theorem le_spacingExponent {k : ℤ} (h : 2 ^ k ≤ |x|) : k - 52 ≤ spacingExponent x := by
  have hexp := le_binaryExponent h
  unfold spacingExponent
  omega

/-- The spacing is at most one below two to the fifty-third. -/
theorem spacingExponent_nonpos (hx : x ≠ 0) (h : |x| < 2 ^ 53) : spacingExponent x ≤ 0 :=
  spacingExponent_le (k := 53) hx (by exact_mod_cast h) (by norm_num)

/-- The spacing is at most a half below two to the fifty-second. -/
theorem spacingExponent_le_neg_one (hx : x ≠ 0) (h : |x| < 2 ^ 52) : spacingExponent x ≤ -1 :=
  spacingExponent_le (k := 52) hx (by exact_mod_cast h) (by norm_num)

theorem exists_eq_mul_spacing (hx : x ≠ 0) (h : |x| < 2 ^ 53) (n : ℤ) :
    ∃ k : ℤ, (n : ℚ) = k * spacing x := by
  obtain ⟨m, hm, -⟩ := two_zpow_eq_mul (spacingExponent_nonpos hx h)
  rw [zpow_zero, ← spacing_eq] at hm
  refine ⟨n * m, ?_⟩
  push_cast
  rw [mul_assoc, ← hm, mul_one]

theorem spacing_le_half (hx : x ≠ 0) (h : |x| < 2 ^ 52) : spacing x ≤ 1 / 2 := by
  have hpow : (2 : ℚ) ^ spacingExponent x ≤ 2 ^ (-1 : ℤ) :=
    zpow_le_zpow_right₀ (by norm_num) (spacingExponent_le_neg_one hx h)
  rw [spacing_eq]
  norm_num at hpow ⊢
  exact hpow

/-- Integers below two to the fifty-third are finite doubles. -/
theorem representable_intCast (h : |(n : ℚ)| < 2 ^ 53) : Representable n := by
  by_cases hn : (n : ℚ) = 0
  · rw [hn]
    exact representable_zero
  · have hlimit : (2 : ℚ) ^ 53 < 2 ^ 1024 := pow_lt_pow_right₀ (by norm_num) (by norm_num)
    exact representable_iff.mpr ⟨h.trans hlimit, exists_eq_mul_spacing hn h n⟩

theorem le_nearestOnGrid (hx : x ≠ 0) (h : |x| < 2 ^ 53) (hn : (n : ℚ) ≤ x) :
    (n : ℚ) ≤ nearestOnGrid x := by
  have hs := spacing_pos x
  obtain ⟨k, hk⟩ := exists_eq_mul_spacing hx h n
  have hround : k ≤ nearestEven (x / spacing x) :=
    le_nearestEven (by rwa [le_div_iff₀ hs, ← hk])
  unfold nearestOnGrid
  rw [hk]
  exact mul_le_mul_of_nonneg_right (by exact_mod_cast hround) hs.le

/-- What lies little above an integer is rounded to something that does so, too. -/
theorem floor_nearestOnGrid_of_le (hx : x ≠ 0) (h : |x| < 2 ^ 52) (hlow : (n : ℚ) ≤ x)
    (hhigh : x < n + 3 / 4) : (nearestOnGrid x).floor = n := by
  have hs := spacing_pos x
  refine floor_eq (le_nearestOnGrid hx (h.trans (by norm_num)) hlow) ?_
  have hmove := abs_le.mp (abs_sub_nearestEven_le (x / spacing x))
  have hround : nearestOnGrid x ≤ x + spacing x / 2 := by
    have hdiv : x / spacing x * spacing x = x := div_mul_cancel₀ x hs.ne'
    unfold nearestOnGrid
    nlinarith
  linarith [spacing_le_half hx h]

/-- What lies below an integer by less than half a spacing is rounded to it. -/
theorem nearestOnGrid_eq_intCast (hx : x ≠ 0) (h : |x| < 2 ^ 53)
    (hnear : |x - n| < spacing x / 2) : nearestOnGrid x = n :=
  nearestOnGrid_eq (exists_eq_mul_spacing hx h n) hnear

/-- What lies below an integer by more than half a spacing, and by less than three halves, is
rounded to the value one spacing below it. -/
theorem nearestOnGrid_eq_sub_spacing (hx : x ≠ 0) (h : |x| < 2 ^ 53)
    (hbelow : spacing x / 2 < n - x) (hclose : n - x < 3 / 2 * spacing x) :
    nearestOnGrid x = n - spacing x := by
  obtain ⟨k, hk⟩ := exists_eq_mul_spacing hx h n
  refine nearestOnGrid_eq ⟨k - 1, ?_⟩ ?_
  · push_cast
    rw [hk]
    ring
  · rw [abs_lt]
    constructor <;> linarith

namespace Binary64

/-- The integer part of a rounded value. -/
theorem floor_ofRat (h : |x| < 2 ^ 53) : (ofRat x).floor = .ok (nearestOnGrid x).floor := by
  have hrep : Representable (nearestOnGrid x) :=
    representable_nearestOnGrid_of_lt (k := 53) (by norm_num) (by exact_mod_cast h)
  rw [ofRat_eq_real hrep rfl]
  rfl

end Binary64

end MoveWorkbench
