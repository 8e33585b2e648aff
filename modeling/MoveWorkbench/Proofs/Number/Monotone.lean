import MoveWorkbench.Proofs.Number.Integer
import MoveWorkbench.Proofs.Partial

/-!
Rounding keeps the order of values that are not below zero: among values with one spacing it
does so as rounding to integers does, and otherwise a power of two lies between the two results.
So a floor of rounded products keeps order, too, and an integer is a finite double up to the
middle between the largest double and the power of two behind it.
-/

namespace MoveWorkbench

variable {x y : ℚ}

theorem floor_le_nearestEven (x : ℚ) : x.floor ≤ nearestEven x := by
  simp only [nearestEven]
  split
  · exact le_rfl
  · split
    · omega
    · split <;> omega

theorem nearestEven_le_floor_add_one (x : ℚ) : nearestEven x ≤ x.floor + 1 := by
  simp only [nearestEven]
  split
  · omega
  · split
    · exact le_rfl
    · split <;> omega

theorem nearestEven_mono (h : x ≤ y) : nearestEven x ≤ nearestEven y := by
  have hfloor : x.floor ≤ y.floor := Rat.le_floor_iff.mpr ((Rat.floor_le x).trans h)
  rcases hfloor.lt_or_eq with hless | heq
  · have hlow := floor_le_nearestEven y
    have hhigh := nearestEven_le_floor_add_one x
    omega
  · have hpart : x - x.floor ≤ y - x.floor := by linarith
    simp only [nearestEven]
    rw [← heq]
    rcases lt_trichotomy (x - x.floor) (1 / 2) with hlow | hhalf | hhigh
    · rw [if_pos hlow, heq]
      exact floor_le_nearestEven y
    · rw [if_neg (not_lt.mpr hhalf.ge), if_neg (not_lt.mpr hhalf.le),
        if_neg (not_lt.mpr (hhalf.ge.trans hpart))]
      split <;> split <;> omega
    · rw [if_neg (not_lt.mpr hhigh.le), if_pos hhigh,
        if_neg (not_lt.mpr (hhigh.le.trans hpart)), if_pos (hhigh.trans_le hpart)]

theorem binaryExponent_mono (hx : x ≠ 0) (h : |x| ≤ |y|) : binaryExponent x ≤ binaryExponent y :=
  le_binaryExponent ((two_zpow_le_abs hx).trans h)

theorem nearestOnGrid_nonneg (hx : 0 ≤ x) : 0 ≤ nearestOnGrid x := by
  have hs := spacing_pos x
  have hround : 0 ≤ nearestEven (x / spacing x) :=
    le_nearestEven (by rw [Int.cast_zero]; exact div_nonneg hx hs.le)
  exact mul_nonneg (by exact_mod_cast hround) hs.le

theorem nearestOnGrid_zero : nearestOnGrid 0 = 0 :=
  nearestOnGrid_of_representable representable_zero

theorem nearestOnGrid_mono (hx : 0 ≤ x) (h : x ≤ y) : nearestOnGrid x ≤ nearestOnGrid y := by
  rcases hx.eq_or_lt with rfl | hpos
  · rw [nearestOnGrid_zero]
    exact nearestOnGrid_nonneg h
  have hy : 0 < y := hpos.trans_le h
  have hexp := binaryExponent_mono hpos.ne' (abs_le_abs_of_nonneg hx h)
  by_cases hsame : spacingExponent x = spacingExponent y
  · have hspacing : spacing x = spacing y := by rw [spacing_eq, spacing_eq, hsame]
    have hs := spacing_pos y
    unfold nearestOnGrid
    rw [hspacing]
    have hround := nearestEven_mono ((div_le_div_iff_of_pos_right hs).mpr h)
    exact mul_le_mul_of_nonneg_right (by exact_mod_cast hround) hs.le
  · -- the greater value has reached a power of two that the smaller one stays below
    have hbounds : binaryExponent x < binaryExponent y ∧ -1074 ≤ binaryExponent y := by
      unfold spacingExponent at hsame
      omega
    have hless : |x| < 2 ^ binaryExponent y :=
      (abs_lt_two_zpow hpos.ne').trans_le (zpow_le_zpow_right₀ (by norm_num) (by omega))
    have hlow := abs_nearestOnGrid_le_of_lt hless
    have hreach := two_zpow_le_abs_nearestOnGrid hy.ne' hbounds.2
    rw [abs_of_nonneg (nearestOnGrid_nonneg hx)] at hlow
    rw [abs_of_nonneg (nearestOnGrid_nonneg hy.le)] at hreach
    exact hlow.trans hreach

/-- What a double reaches is still reached when it is rounded. -/
theorem le_nearestOnGrid_of_representable (hx : Representable x) (hpos : 0 ≤ x) (h : x ≤ y) :
    x ≤ nearestOnGrid y := by
  rw [← nearestOnGrid_of_representable hx]
  exact nearestOnGrid_mono hpos h

/-- What is nearer to zero than a value that is not too large is not too large either. -/
theorem representable_of_le (hx : 0 ≤ x) (h : x ≤ y) (hy : Representable (nearestOnGrid y)) :
    Representable (nearestOnGrid x) := by
  refine representable_nearestOnGrid (lt_of_le_of_lt ?_ (representable_iff.mp hy).1)
  rw [abs_of_nonneg (nearestOnGrid_nonneg hx), abs_of_nonneg (nearestOnGrid_nonneg (hx.trans h))]
  exact nearestOnGrid_mono hx h

/-- A value is moved by at most half the spacing around it. -/
theorem abs_sub_nearestOnGrid_le (x : ℚ) : |x - nearestOnGrid x| ≤ spacing x / 2 := by
  have hs := spacing_pos x
  have hdiff : x - nearestOnGrid x = (x / spacing x - nearestEven (x / spacing x)) * spacing x := by
    unfold nearestOnGrid
    field_simp
  rw [hdiff, abs_mul, abs_of_pos hs]
  linarith [mul_le_mul_of_nonneg_right (abs_sub_nearestEven_le (x / spacing x)) hs.le]

/-- The spacing around a value is a small part of it, down to the least normal double. -/
theorem spacing_le_div (hx : 2 ^ (-1022 : ℤ) ≤ |x|) : spacing x ≤ |x| / 2 ^ 52 := by
  have hne : x ≠ 0 := abs_pos.mp (lt_of_lt_of_le (by positivity) hx)
  have hexp := le_binaryExponent hx
  have hmax : spacingExponent x = binaryExponent x - 52 := by
    unfold spacingExponent
    omega
  rw [spacing_eq, hmax, zpow_sub₀ (by norm_num), le_div_iff₀ (by positivity)]
  calc (2 : ℚ) ^ binaryExponent x / 2 ^ (52 : ℤ) * 2 ^ 52 = 2 ^ binaryExponent x := by
        norm_num
    _ ≤ |x| := two_zpow_le_abs hne

/-- Neither too small for a normal double, nor anything but zero. -/
def Normal (x : ℚ) : Prop := x = 0 ∨ 2 ^ (-1022 : ℤ) ≤ |x|

theorem normal_of_one_le (h : 1 ≤ |x|) : Normal x :=
  .inr ((zpow_le_one_of_nonpos₀ (by norm_num) (by norm_num)).trans h)

/-- A value is moved by a small part of it at most. -/
theorem Normal.abs_sub_nearestOnGrid_le (h : Normal x) : |x - nearestOnGrid x| ≤ |x| / 2 ^ 53 := by
  rcases h with rfl | h
  · rw [nearestOnGrid_zero, sub_zero, abs_zero, zero_div]
  · have hmove := MoveWorkbench.abs_sub_nearestOnGrid_le x
    have hspacing := spacing_le_div h
    linarith

/-- A rounding adds at most a small part. -/
theorem nearestOnGrid_le_add (hx : 1 ≤ x) : nearestOnGrid x ≤ x + x / 2 ^ 53 := by
  have hsize : |x| = x := abs_of_nonneg (zero_le_one.trans hx)
  have hmove := (normal_of_one_le (hx.trans_eq hsize.symm)).abs_sub_nearestOnGrid_le
  rw [hsize] at hmove
  linarith [(abs_le.mp hmove).1]

namespace Binary64

/-- A value is rounded to the nearest point of the grid around it, or is too large. -/
theorem ofRat_cases (x : ℚ) :
    (∃ h, ofRat x = real (nearestOnGrid x) h) ∨
      ¬ Representable (nearestOnGrid x) ∧ ∃ negative, ofRat x = infinite negative := by
  unfold ofRat
  split
  · rename_i h
    exact .inl ⟨h, rfl⟩
  · rename_i hlarge
    exact .inr ⟨hlarge, _, rfl⟩

theorem floor_ofRat_eq_ok {g : ℤ} :
    (ofRat x).floor = .ok g ↔ Representable (nearestOnGrid x) ∧ g = (nearestOnGrid x).floor := by
  rcases ofRat_cases x with ⟨h, hround⟩ | ⟨h, negative, hround⟩ <;> rw [hround]
  · exact ⟨fun hg => ⟨h, (Except.ok.inj hg).symm⟩, fun hg => congrArg Except.ok hg.2.symm⟩
  · exact ⟨fun hg => (nomatch hg), fun hg => absurd hg.1 h⟩

theorem ofInt?_eq_ok {n : ℤ} {d : Binary64} :
    ofInt? n = .ok d ↔ ∃ h : Representable (nearestOnGrid n), d = real (nearestOnGrid n) h := by
  unfold ofInt? ofRat?
  rcases ofRat_cases n with ⟨h, hround⟩ | ⟨h, negative, hround⟩ <;> rw [hround]
  · exact ⟨fun hd => ⟨h, (Except.ok.inj hd).symm⟩, fun ⟨_, hd⟩ => congrArg Except.ok hd.symm⟩
  · exact ⟨fun hd => (nomatch hd), fun ⟨hd, _⟩ => absurd hd h⟩

theorem floor_mul_eq_ok {a b : ℚ} (ha : Representable a) (hb : Representable b) {g : ℤ} :
    ((real a ha).mul (real b hb)).floor = .ok g ↔
      Representable (nearestOnGrid (a * b)) ∧ g = (nearestOnGrid (a * b)).floor := by
  simp only [Binary64.mul, value?]
  by_cases hzero : a * b = 0
  · have hfloor (negative : Bool) : (signedZero negative).floor = .ok 0 := by
      cases negative with
      | false =>
        change zero.floor = _
        rw [zero_eq]
        rfl
      | true => rfl
    rw [if_pos hzero, hfloor, hzero, nearestOnGrid_zero]
    exact ⟨fun hg => ⟨representable_zero, (Except.ok.inj hg).symm⟩,
      fun hg => congrArg Except.ok hg.2.symm⟩
  · rw [if_neg hzero]
    exact floor_ofRat_eq_ok

/-- An integer times a double: what is rounded is the integer, the factor and their product. -/
theorem floorScaled_eq_ok {n g : ℤ} {m : ℚ} (hm : Representable (nearestOnGrid m)) :
    floorScaled n (ofRat m) = .ok g ↔ Representable (nearestOnGrid n) ∧
      Representable (nearestOnGrid (nearestOnGrid n * nearestOnGrid m)) ∧
      g = (nearestOnGrid (nearestOnGrid n * nearestOnGrid m)).floor := by
  unfold floorScaled
  rw [Partial.bind_eq_ok, ofRat_eq_real hm rfl]
  constructor
  · rintro ⟨d, hd, hg⟩
    obtain ⟨hn, rfl⟩ := ofInt?_eq_ok.mp hd
    exact ⟨hn, (floor_mul_eq_ok hn hm).mp hg⟩
  · rintro ⟨hn, hg⟩
    exact ⟨_, ofInt?_eq_ok.mpr ⟨hn, rfl⟩, (floor_mul_eq_ok hn hm).mpr hg⟩

/-- The floor of a rounded product keeps order. -/
theorem floorScaled_mono {a b g h : ℤ} {m : ℚ} (hm : Representable (nearestOnGrid m))
    (hpos : 0 ≤ m) (ha : 0 ≤ a) (hab : a ≤ b) (hg : floorScaled a (ofRat m) = .ok g)
    (hh : floorScaled b (ofRat m) = .ok h) : g ≤ h := by
  have hfactor := nearestOnGrid_nonneg hpos
  have ha' : (0 : ℚ) ≤ a := by exact_mod_cast ha
  have hcast : nearestOnGrid a ≤ nearestOnGrid b :=
    nearestOnGrid_mono ha' (by exact_mod_cast hab)
  have hround := nearestOnGrid_mono (mul_nonneg (nearestOnGrid_nonneg ha') hfactor)
    (mul_le_mul_of_nonneg_right hcast hfactor)
  rw [((floorScaled_eq_ok hm).mp hg).2.2, ((floorScaled_eq_ok hm).mp hh).2.2, Rat.le_floor_iff]
  exact (Rat.floor_le _).trans hround

/-- What an integer reaches is reached by the floor of its product with a factor from one on. -/
theorem le_of_floorScaled {n g k : ℤ} {m : ℚ} (hm : Representable (nearestOnGrid m)) (hone : 1 ≤ m)
    (hk : Representable k) (hpos : 0 ≤ k) (hkn : k ≤ n) (h : floorScaled n (ofRat m) = .ok g) :
    k ≤ g := by
  have hpos' : (0 : ℚ) ≤ k := by exact_mod_cast hpos
  have hround := le_nearestOnGrid_of_representable hk hpos' (y := n) (by exact_mod_cast hkn)
  have hfactor := le_nearestOnGrid_of_representable (by decide +kernel) zero_le_one hone
  rw [((floorScaled_eq_ok hm).mp h).2.2, Rat.le_floor_iff]
  refine le_nearestOnGrid_of_representable hk hpos' (hround.trans ?_)
  exact le_mul_of_one_le_right (hpos'.trans hround) hfactor

/-- The least integer that is too large for a double: it lies in the middle between the largest
double and the power of two behind it. -/
def leastTooLarge : ℤ := 2 ^ 1024 - 2 ^ 970

theorem representable_nearestOnGrid_iff {n : ℤ} (hn : 0 ≤ n) :
    Representable (nearestOnGrid n) ↔ n < leastTooLarge := by
  have hn' : (0 : ℚ) ≤ n := by exact_mod_cast hn
  have hlargest : Representable (nearestOnGrid ((leastTooLarge - 1 : ℤ) : ℚ)) := by
    decide +kernel
  have hmiddle : nearestOnGrid (leastTooLarge : ℚ) = 2 ^ 1024 := by decide +kernel
  constructor
  · intro h
    by_contra hle
    have hround := nearestOnGrid_mono (x := leastTooLarge) (y := n) (by decide +kernel)
      (by exact_mod_cast not_lt.mp hle)
    rw [hmiddle] at hround
    have hless := (representable_iff.mp h).1
    rw [abs_of_nonneg (nearestOnGrid_nonneg hn')] at hless
    exact absurd hless (not_lt.mpr hround)
  · intro h
    exact representable_of_le hn' (by exact_mod_cast Int.le_sub_one_of_lt h) hlargest

/-- A part of an amount can be rounded down just when the amount is not too large for a double. -/
theorem exists_floorScaled_iff {n : ℤ} {m : ℚ} (hn : 0 ≤ n) (hm : 0 ≤ m) (hm' : m ≤ 1) :
    (∃ g, floorScaled n (ofRat m) = .ok g) ↔ n < leastTooLarge := by
  have hone : nearestOnGrid 1 = 1 := by decide +kernel
  have hone' : Representable (nearestOnGrid 1) := by decide +kernel
  have hpart : Representable (nearestOnGrid m) := representable_of_le hm hm' hone'
  have hn' : (0 : ℚ) ≤ n := by exact_mod_cast hn
  rw [← representable_nearestOnGrid_iff hn]
  constructor
  · rintro ⟨g, hg⟩
    exact ((floorScaled_eq_ok hpart).mp hg).1
  · intro h
    have hround := nearestOnGrid_nonneg hn'
    have hle : nearestOnGrid n * nearestOnGrid m ≤ nearestOnGrid n := by
      refine mul_le_of_le_one_right hround ?_
      exact (nearestOnGrid_mono hm hm').trans_eq hone
    have hproduct : Representable (nearestOnGrid (nearestOnGrid n * nearestOnGrid m)) := by
      refine representable_of_le (mul_nonneg hround (nearestOnGrid_nonneg hm)) hle ?_
      rwa [nearestOnGrid_of_representable h]
    exact ⟨_, (floorScaled_eq_ok hpart).mpr ⟨h, hproduct, rfl⟩⟩

end Binary64

end MoveWorkbench
