import MoveWorkbench.Proofs.Number.Monotone
import MoveWorkbench.Proofs.Number.Size

/-!
Halves going up. A product of rounded factors is away from the exact product by a small part of
it. The sum of a double with a half is rounded so that its floor is the exact one, unless the double
is the last one in front of a half. A quotient of integers is farther from every half that it does
not hit than a few roundings move it, so that just a half that is hit may be lost.
-/

namespace MoveWorkbench

variable {x y : ℚ}

/-- Halves of integers up to two to the fifty-second are finite doubles. -/
theorem representable_half {n : ℤ} (h : |(n : ℚ) / 2| ≤ 2 ^ 52) : Representable ((n : ℚ) / 2) := by
  rcases h.lt_or_eq with hless | hpower
  · by_cases hn : (n : ℚ) / 2 = 0
    · rw [hn]
      exact representable_zero
    obtain ⟨k, hk, -⟩ := two_zpow_eq_mul (spacingExponent_le_neg_one hn hless)
    have hlimit : (2 : ℚ) ^ 52 < 2 ^ 1024 := pow_lt_pow_right₀ (by norm_num) (by norm_num)
    refine representable_iff.mpr ⟨hless.trans hlimit, n * k, ?_⟩
    rw [spacing_eq, Int.cast_mul, Int.cast_natCast, mul_assoc, ← hk, zpow_neg_one, div_eq_mul_inv]
  · have hdouble : Representable (2 ^ 52) := by decide +kernel
    rcases eq_or_eq_neg_of_abs_eq hpower with hpos | hneg
    · rw [hpos]
      exact hdouble
    · rw [hneg]
      exact hdouble.neg

/-- A quotient other than a half is away from it by half a part of the divisor at least. -/
theorem le_abs_sub_half {t g n : ℤ} (hn : 0 < n) (h : (t : ℚ) / n ≠ g + 1 / 2) :
    1 / (2 * n) ≤ |(t : ℚ) / n - (g + 1 / 2)| := by
  have hn' : (0 : ℚ) < n := by exact_mod_cast hn
  have hdiff : (t : ℚ) / n - (g + 1 / 2) = ((2 * t - (2 * g + 1) * n : ℤ) : ℚ) / (2 * n) := by
    push_cast
    field_simp
  have hne : 2 * t - (2 * g + 1) * n ≠ 0 := by
    intro hzero
    rw [hzero, Int.cast_zero, zero_div] at hdiff
    exact h (sub_eq_zero.mp hdiff)
  have hone := one_le_abs_intCast hne
  rw [hdiff, abs_div, abs_of_pos (by linarith : (0 : ℚ) < 2 * n)]
  gcongr

/-- A quotient below a half is below it by half a part of the divisor at least. -/
theorem add_le_of_lt_half {t g n : ℤ} (hn : 0 < n) (h : (t : ℚ) / n < g + 1 / 2) :
    (t : ℚ) / n + 1 / (2 * n) ≤ g + 1 / 2 := by
  have hgap := le_abs_sub_half hn h.ne
  rw [abs_of_neg (sub_neg.mpr h)] at hgap
  linarith

/-- What is close to a value that is far from too small is not too small itself. -/
theorem normal_mul {c ε : ℚ} (hx : x = 0 ∨ 2 ^ (-1021 : ℤ) ≤ |x|) (hε : ε ≤ 1 / 2) (hc : 1 ≤ |c|)
    (h : |y - x| ≤ ε * |x|) : Normal (y * c) := by
  rcases hx with rfl | hx
  · rw [abs_zero, mul_zero, sub_zero] at h
    rw [abs_nonpos_iff.mp h, zero_mul]
    exact .inl rfl
  · have hhalf : (2 : ℚ) ^ (-1021 : ℤ) = 2 ^ (-1022 : ℤ) * 2 := by
      rw [← zpow_add_one₀ (by norm_num)]
      norm_num
    have hback : |x| - |y| ≤ |y - x| := by
      rw [abs_sub_comm]
      exact abs_sub_abs_le_abs_sub x y
    have hsize : 2 ^ (-1022 : ℤ) ≤ |y| := by nlinarith [abs_nonneg x]
    refine .inr (hsize.trans ?_)
    rw [abs_mul]
    exact le_mul_of_one_le_right (abs_nonneg y) hc

/-- One factor more, and one rounding more. -/
theorem abs_nearestOnGrid_mul_sub_le {c ε : ℚ} (hx : x = 0 ∨ 2 ^ (-1021 : ℤ) ≤ |x|)
    (hε : ε ≤ 1 / 2) (hc : 1 ≤ |c|) (h : |y - x| ≤ ε * |x|) :
    |nearestOnGrid (y * c) - x * c| ≤ (ε + (1 + ε) / 2 ^ 53) * |x * c| := by
  have hmove := (normal_mul hx hε hc h).abs_sub_nearestOnGrid_le
  have hsize : |y| ≤ (1 + ε) * |x| := by linarith [abs_sub_abs_le_abs_sub y x]
  have hsplit : nearestOnGrid (y * c) - x * c = (y - x) * c - (y * c - nearestOnGrid (y * c)) := by
    ring
  calc |nearestOnGrid (y * c) - x * c| ≤ |(y - x) * c| + |y * c - nearestOnGrid (y * c)| := by
        rw [hsplit]
        exact abs_sub _ _
    _ ≤ ε * |x| * |c| + (1 + ε) * |x| * |c| / 2 ^ 53 := by
        rw [abs_mul] at hmove ⊢
        gcongr
        exact hmove.trans (by gcongr)
    _ = (ε + (1 + ε) / 2 ^ 53) * |x * c| := by
        rw [abs_mul]
        ring

/-- A sum with a half is a double where the spacing does not grow. -/
theorem nearestOnGrid_add_half (hy : Representable y) (hlow : 1 / 2 ≤ |y|) (hhigh : |y| < 2 ^ 52)
    (h : spacingExponent (y + 1 / 2) ≤ spacingExponent y) :
    nearestOnGrid (y + 1 / 2) = y + 1 / 2 := by
  have hne : y ≠ 0 := abs_pos.mp (lt_of_lt_of_le (by norm_num) hlow)
  obtain ⟨n, hn⟩ := hy.exists_eq_mul h
  obtain ⟨m, hm, -⟩ := two_zpow_eq_mul (h.trans (spacingExponent_le_neg_one hne hhigh))
  refine nearestOnGrid_eq ⟨n + m, ?_⟩ ?_
  · rw [spacing_eq, Int.cast_add, Int.cast_natCast, add_mul, ← hn, ← hm, zpow_neg_one, one_div]
  · rw [sub_self, abs_zero]
    exact half_pos (spacing_pos _)

/-- The floor of a sum with a half that has passed a power of two. -/
theorem floor_add_half_of_lt (hlow : 1 / 2 ≤ y) (hhigh : y < 2 ^ 51)
    (h : spacingExponent y < spacingExponent (y + 1 / 2)) :
    (nearestOnGrid (y + 1 / 2)).floor = (y + 1 / 2).floor := by
  have hpos : 0 < y := lt_of_lt_of_le (by norm_num) hlow
  have hsum : 0 < y + 1 / 2 := by linarith
  have hexp : binaryExponent y < binaryExponent (y + 1 / 2) := by
    unfold spacingExponent at h
    omega
  have hone : 0 ≤ binaryExponent (y + 1 / 2) := by
    refine le_binaryExponent ?_
    rw [zpow_zero, abs_of_pos hsum]
    linarith
  -- the power is an integer that the value stays below and the sum reaches
  obtain ⟨p, hp⟩ := exists_two_zpow_eq_intCast hone
  have hbelow : y < p := by
    have hlt := (abs_lt_two_zpow hpos.ne').trans_le
      (zpow_le_zpow_right₀ (by norm_num : (1 : ℚ) ≤ 2) hexp)
    rwa [abs_of_pos hpos, hp] at hlt
  have hreach : (p : ℚ) ≤ y + 1 / 2 := by
    have hle := two_zpow_le_abs hsum.ne'
    rwa [abs_of_pos hsum, hp] at hle
  have hhalf : Representable ((p : ℚ) + 1 / 2) := by
    have hmiddle : (p : ℚ) + 1 / 2 = ((2 * p + 1 : ℤ) : ℚ) / 2 := by
      push_cast
      ring
    rw [hmiddle]
    refine representable_half ?_
    rw [← hmiddle, abs_of_pos (by linarith)]
    norm_num at hhigh ⊢
    linarith
  have hround := nearestOnGrid_mono hsum.le (by linarith : y + 1 / 2 ≤ p + 1 / 2)
  rw [nearestOnGrid_of_representable hhalf] at hround
  have hround' : (p : ℚ) ≤ nearestOnGrid (y + 1 / 2) := by
    refine le_nearestOnGrid hsum.ne' ?_ hreach
    rw [abs_of_pos hsum]
    norm_num at hhigh ⊢
    linarith
  rw [floor_eq hround' (by linarith), floor_eq hreach (by linarith)]

/-- The floor of a double with a half added is the exact one, but for the last double in front of
a half itself. -/
theorem floor_add_half (hy : Representable y) (hsmall : |y| < 2 ^ 51)
    (hgap : y ≤ 1 / 2 - 1 / 2 ^ 53 ∨ 1 / 2 ≤ y) :
    (nearestOnGrid (y + 1 / 2)).floor = (y + 1 / 2).floor := by
  have hsmall' : |y| < 2 ^ 52 := hsmall.trans (by norm_num)
  rcases lt_or_ge y (-(1 / 2)) with hneg | hlow
  · rw [nearestOnGrid_add_half hy _ hsmall']
    · have hne : y + 1 / 2 ≠ 0 := by linarith
      have hexp := binaryExponent_mono (y := y) hne (by
        rw [abs_of_neg (by linarith), abs_of_neg (by linarith)]
        linarith)
      unfold spacingExponent
      omega
    · rw [abs_of_neg (by linarith)]
      linarith
  rcases hgap with hbelow | habove
  · have hlast : nearestOnGrid (1 - 1 / 2 ^ 53) = 1 - 1 / 2 ^ 53 := by decide +kernel
    have hround := nearestOnGrid_mono (by linarith : 0 ≤ y + 1 / 2)
      (by linarith : y + 1 / 2 ≤ 1 - 1 / 2 ^ 53)
    rw [hlast] at hround
    have hround' := nearestOnGrid_nonneg (by linarith : 0 ≤ y + 1 / 2)
    norm_num at hbelow hround
    rw [floor_eq (n := 0) (by exact_mod_cast hround') (by norm_num; linarith),
      floor_eq (n := 0) (by norm_num; linarith) (by norm_num; linarith)]
  · have hsize : |y| = y := abs_of_pos (lt_of_lt_of_le (by norm_num) habove)
    rcases le_or_gt (spacingExponent (y + 1 / 2)) (spacingExponent y) with hsame | hmore
    · rw [nearestOnGrid_add_half hy (by rwa [hsize]) hsmall' hsame]
    · exact floor_add_half_of_lt habove (by rwa [hsize] at hsmall) hmore

/-- The integer that is nearest to a value, a half going up. -/
def NearestHalfUp (x : ℚ) (g : ℤ) : Prop := (g : ℚ) - 1 / 2 ≤ x ∧ x < g + 1 / 2

theorem nearestHalfUp_iff {g : ℤ} : NearestHalfUp x g ↔ (x + 1 / 2).floor = g := by
  constructor
  · rintro ⟨hlow, hhigh⟩
    exact floor_eq (by linarith) (by linarith)
  · rintro rfl
    have hlow := Rat.floor_le (x + 1 / 2)
    have hhigh := Rat.lt_floor_add_one (x + 1 / 2)
    push_cast at hhigh
    exact ⟨by linarith, by linarith⟩

theorem NearestHalfUp.abs_cast_le {g : ℤ} (h : NearestHalfUp x g) : |(g : ℚ)| ≤ |x| + 1 / 2 := by
  obtain ⟨hlow, hhigh⟩ := h
  refine abs_le'.mpr ⟨?_, ?_⟩ <;> linarith [le_abs_self x, neg_abs_le x]

/-- However great a double is, with a half added it goes to an integer that is close to it. -/
theorem abs_floor_add_half_sub_le (hy : Representable y)
    (hgap : y ≤ 1 / 2 - 1 / 2 ^ 53 ∨ 1 / 2 ≤ y) :
    |((nearestOnGrid (y + 1 / 2)).floor : ℚ) - y| ≤ 1 / 2 + |y| / 2 ^ 52 := by
  have hlow := Rat.floor_le (nearestOnGrid (y + 1 / 2))
  have hhigh := Rat.lt_floor_add_one (nearestOnGrid (y + 1 / 2))
  push_cast at hhigh
  rcases lt_or_ge |y| (2 ^ 51) with hsmall | hlarge
  · obtain ⟨hfront, hback⟩ := nearestHalfUp_iff.mpr (floor_add_half hy hsmall hgap).symm
    have hpart : 0 ≤ |y| / 2 ^ 52 := by positivity
    rw [abs_le]
    constructor <;> linarith
  · have hsize : |y + 1 / 2| ≤ |y| + 1 / 2 := (abs_add_le _ _).trans (by norm_num)
    have hnormal : Normal (y + 1 / 2) := by
      refine normal_of_one_le ?_
      have hback := abs_sub_abs_le_abs_add y (1 / 2)
      norm_num at hback hlarge ⊢
      linarith
    have hmove := abs_le.mp hnormal.abs_sub_nearestOnGrid_le
    rw [abs_le]
    norm_num at hlarge hmove hsize ⊢
    constructor <;> linarith

/-- What is close to a quotient has its integer, unless the quotient is a half that is not reached. -/
theorem NearestHalfUp.of_close {t g n : ℤ} (hn : 0 < n) (h : NearestHalfUp (t / n) g)
    (hclose : |y - t / n| < 1 / (2 * n)) (hhalf : (t / n : ℚ) = g - 1 / 2 → t / n ≤ y) :
    NearestHalfUp y g := by
  obtain ⟨hlow, hhigh⟩ := h
  obtain ⟨hbelow, habove⟩ := abs_lt.mp hclose
  have hback := add_le_of_lt_half hn hhigh
  rcases hlow.eq_or_lt with heq | hless
  · have hreach := hhalf heq.symm
    exact ⟨by linarith, by linarith⟩
  · have hfront := le_abs_sub_half (g := g - 1) hn (t := t) (by push_cast; linarith)
    push_cast at hfront
    rw [abs_of_pos (by linarith)] at hfront
    exact ⟨by linarith, by linarith⟩

/-- Parts of integers are different doubles. -/
theorem eq_of_nearestOnGrid_div_eq {k h : ℤ} (hk : |(k : ℚ)| ≤ 2 ^ 51) (hh : |(h : ℚ)| ≤ 2 ^ 51)
    (heq : nearestOnGrid ((k : ℚ) / 100) = nearestOnGrid ((h : ℚ) / 100)) : k = h := by
  have hmove {n : ℤ} (hn : |(n : ℚ)| ≤ 2 ^ 51) :
      |(n : ℚ) / 100 - nearestOnGrid ((n : ℚ) / 100)| ≤ 1 / 400 := by
    have hsize : |(n : ℚ) / 100| = |(n : ℚ)| / 100 := by
      rw [abs_div, abs_of_pos (by norm_num : (0 : ℚ) < 100)]
    have hnormal : Normal ((n : ℚ) / 100) := by
      by_cases hzero : n = 0
      · left
        rw [hzero, Int.cast_zero, zero_div]
      · right
        have hone := one_le_abs_intCast hzero
        have hpower : (2 : ℚ) ^ (-1022 : ℤ) ≤ 2 ^ (-7 : ℤ) :=
          zpow_le_zpow_right₀ (by norm_num) (by norm_num)
        rw [hsize]
        exact hpower.trans ((by norm_num : (2 : ℚ) ^ (-7 : ℤ) ≤ 1 / 100).trans (by linarith))
    have hpart := hnormal.abs_sub_nearestOnGrid_le
    rw [hsize] at hpart
    norm_num at hn hpart ⊢
    linarith
  have hleft := abs_le.mp (hmove hk)
  have hright := abs_le.mp (hmove hh)
  rw [heq] at hleft
  have hless : |(k : ℚ) - h| < 1 := by
    rw [abs_lt]
    constructor <;> linarith
  have hless' : |k - h| < 1 := by exact_mod_cast hless
  exact sub_eq_zero.mp (Int.abs_lt_one_iff.mp hless')

namespace Binary64

variable {d e : Binary64}

/-- Hundredths that are not huge are told by different doubles. -/
theorem ofRat_div_inj {k h : ℤ} (hk : |(k : ℚ)| ≤ 2 ^ 51) (hh : |(h : ℚ)| ≤ 2 ^ 51) :
    ofRat (k / 100) = ofRat (h / 100) ↔ k = h := by
  have hsize {n : ℤ} (hn : |(n : ℚ)| ≤ 2 ^ 51) : Representable (nearestOnGrid ((n : ℚ) / 100)) := by
    refine representable_nearestOnGrid_of_lt (k := 51) (by norm_num) ?_
    rw [abs_div, abs_of_pos (by norm_num : (0 : ℚ) < 100)]
    norm_num at hn ⊢
    linarith
  constructor
  · intro heq
    rw [ofRat_eq_real (hsize hk) rfl, ofRat_eq_real (hsize hh) rfl] at heq
    exact eq_of_nearestOnGrid_div_eq hk hh (real.inj heq)
  · rintro rfl
    rfl

theorem ofRat?_eq_ok (h : Representable (nearestOnGrid x)) : ofRat? x = .ok (ofRat x) := by
  unfold ofRat?
  rw [ofRat_eq_real h rfl]

/-- The value of a product is the rounded product of the values. -/
theorem value?_mul (hd : d.value? = some x) (he : e.value? = some y)
    (h : Representable (nearestOnGrid (x * y))) :
    (d.mul e).value? = some (nearestOnGrid (x * y)) := by
  unfold Binary64.mul
  simp only [hd, he]
  split
  · rename_i hzero
    rw [hzero, nearestOnGrid_zero]
    exact value?_signedZero _
  · rw [ofRat_eq_real h rfl]
    rfl

theorem roundHalfUp_real (hx : Representable x) :
    (real x hx).roundHalfUp = (ofRat (x + 1 / 2)).floor := by
  have hhalf : ofRat (1 / 2) = real (1 / 2) (by decide +kernel) := ofRat_of_representable _
  unfold roundHalfUp
  rw [hhalf]
  rfl

theorem roundHalfUp_of_value? (hd : d.value? = some x)
    (h : Representable (nearestOnGrid (x + 1 / 2))) :
    d.roundHalfUp = .ok (nearestOnGrid (x + 1 / 2)).floor := by
  have hround : (ofRat (x + 1 / 2)).floor = .ok (nearestOnGrid (x + 1 / 2)).floor := by
    rw [ofRat_eq_real h rfl]
    rfl
  cases d with
  | nan => cases hd
  | infinite negative => cases hd
  | negativeZero =>
    cases hd
    have hhalf : ofRat (1 / 2) = real (1 / 2) (by decide +kernel) := ofRat_of_representable _
    rw [zero_add] at hround ⊢
    unfold roundHalfUp
    rw [hhalf]
    exact hround
  | real z hz =>
    cases hd
    rw [roundHalfUp_real, hround]

end Binary64

end MoveWorkbench
