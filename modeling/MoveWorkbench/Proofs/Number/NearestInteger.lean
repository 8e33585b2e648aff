import MoveWorkbench.Proofs.Number.HalfUp

/-!
Nearest integers of doubles. A half is added in doubles and the floor is taken. That gives the
nearest integer, of two the greater one, unless the sum lies in the middle between two doubles of
which the even one is an integer that is not reached. So it is for the last double in front of a
half, and for odd integers where doubles are one apart, between two to the fifty-second and two to
the fifty-third. Beyond, a half is too little to be noticed.
-/

namespace MoveWorkbench

variable {x y : ℚ}

/-- No integer is nearer to a value, and none that is as near is greater. -/
structure IsNearest (x : ℚ) (g : ℤ) : Prop where
  nearest : ∀ k : ℤ, |x - g| ≤ |x - k|
  greatest : ∀ k : ℤ, |x - k| = |x - g| → k ≤ g

/-- The integer with a value in the half-open interval around it is the nearest one. -/
theorem NearestHalfUp.isNearest {g : ℤ} (h : NearestHalfUp x g) : IsNearest x g := by
  obtain ⟨hlow, hhigh⟩ := h
  have hsize : |x - g| ≤ 1 / 2 := abs_le.mpr ⟨by linarith, by linarith⟩
  have hless {k : ℤ} (hk : k < g) : |x - g| ≤ x - k := by
    have hk' : (k : ℚ) + 1 ≤ g := by exact_mod_cast hk
    exact hsize.trans (by linarith)
  have hmore {k : ℤ} (hk : g < k) : |x - g| < k - x := by
    have hk' : (g : ℚ) + 1 ≤ k := by exact_mod_cast hk
    exact abs_lt.mpr ⟨by linarith, by linarith⟩
  constructor
  · intro k
    rcases lt_trichotomy k g with hk | rfl | hk
    · exact (hless hk).trans (le_abs_self _)
    · exact le_rfl
    · rw [abs_sub_comm x k]
      exact (hmore hk).le.trans (le_abs_self _)
  · intro k hequal
    by_contra hk
    have hfar := (hmore (not_le.mp hk)).trans_le (le_abs_self _)
    rw [← hequal, abs_sub_comm] at hfar
    exact lt_irrefl _ hfar

/-- The doubles for which adding a half goes too far. -/
def Overshoots (y : ℚ) : Prop :=
  y = 1 / 2 - 1 / 2 ^ 54 ∨ ∃ n : ℤ, y = 2 * n + 1 ∧ 2 ^ 52 < |y| ∧ |y| < 2 ^ 53

/-- From two to the fifty-second on doubles are integers. -/
theorem Representable.exists_intCast (hy : Representable y) (h : 2 ^ 52 ≤ |y|) :
    ∃ n : ℤ, y = n := by
  obtain ⟨n, hn⟩ := hy.exists_eq_mul (le_spacingExponent (k := 52) (by exact_mod_cast h))
  rw [sub_self, zpow_zero, mul_one] at hn
  exact ⟨n, hn⟩

/-- From two to the fifty-first on doubles are halves of integers. -/
theorem Representable.exists_half (hy : Representable y) (h : 2 ^ 51 ≤ |y|) :
    ∃ n : ℤ, y = n / 2 := by
  obtain ⟨n, hn⟩ := hy.exists_eq_mul (le_spacingExponent (k := 51) (by exact_mod_cast h))
  refine ⟨n, ?_⟩
  rw [hn, (by norm_num : (51 : ℤ) - 52 = -1), zpow_neg_one, div_eq_mul_inv]

/-- In front of a half only the last double is less than two to the minus fifty-third away. -/
theorem Representable.le_or_le (hy : Representable y) (h : y ≠ 1 / 2 - 1 / 2 ^ 54) :
    y ≤ 1 / 2 - 1 / 2 ^ 53 ∨ 1 / 2 ≤ y := by
  by_contra hbetween
  push Not at hbetween
  obtain ⟨hlow, hhigh⟩ := hbetween
  have hsize : (2 : ℚ) ^ (-2 : ℤ) ≤ |y| := by
    rw [abs_of_pos (lt_trans (by norm_num) hlow)]
    norm_num at hlow ⊢
    linarith
  obtain ⟨n, hn⟩ := hy.exists_eq_mul (le_spacingExponent hsize)
  have hpower : (2 : ℚ) ^ ((-2 : ℤ) - 52) = 1 / 2 ^ 54 := by norm_num
  rw [hpower] at hn
  have hless : n < 2 ^ 53 := by
    have : (n : ℚ) < 2 ^ 53 := by
      norm_num at hn hhigh ⊢
      linarith
    exact_mod_cast this
  have hmore : 2 ^ 53 - 2 < n := by
    have : (2 : ℚ) ^ 53 - 2 < n := by
      norm_num at hn hlow ⊢
      linarith
    exact_mod_cast this
  obtain rfl : n = 2 ^ 53 - 1 := by omega
  refine h ?_
  rw [hn]
  norm_num

/-- Sums of halves with a half are doubles up to two to the fifty-second. -/
theorem nearestOnGrid_half_add_half {n : ℤ} (h : |(n : ℚ) / 2 + 1 / 2| ≤ 2 ^ 52) :
    nearestOnGrid ((n : ℚ) / 2 + 1 / 2) = (n : ℚ) / 2 + 1 / 2 := by
  have hsum : (n : ℚ) / 2 + 1 / 2 = ((n + 1 : ℤ) : ℚ) / 2 := by
    push_cast
    ring
  rw [hsum] at h ⊢
  exact nearestOnGrid_of_representable (representable_half h)

theorem floor_intCast_add_half (n : ℤ) : ((n : ℚ) + 1 / 2).floor = n :=
  floor_eq (by linarith) (by linarith)

/-- The middle between two integers goes to the even one. -/
theorem nearestEven_add_half (n : ℤ) :
    nearestEven ((n : ℚ) + 1 / 2) = if n % 2 = 0 then n else n + 1 := by
  simp only [nearestEven, floor_intCast_add_half]
  rw [if_neg (by linarith), if_neg (by linarith)]

/-- Where doubles are one apart, the sum of an integer with a half goes to the even neighbour. -/
theorem nearestOnGrid_intCast_add_half {n : ℤ} (hlow : 2 ^ 52 ≤ |(n : ℚ) + 1 / 2|)
    (hhigh : |(n : ℚ) + 1 / 2| < 2 ^ 53) :
    nearestOnGrid ((n : ℚ) + 1 / 2) = ((if n % 2 = 0 then n else n + 1 : ℤ) : ℚ) := by
  have hexp : binaryExponent ((n : ℚ) + 1 / 2) = 52 :=
    binaryExponent_eq (by exact_mod_cast hlow) (by exact_mod_cast hhigh)
  have hspacing : spacing ((n : ℚ) + 1 / 2) = 1 := by
    rw [spacing_eq, spacingExponent, hexp]
    norm_num
  unfold nearestOnGrid
  rw [hspacing, div_one, mul_one, nearestEven_add_half]

/-- The spacing around an integer does not grow when a half is added. -/
theorem spacingExponent_add_half_le {n : ℤ} (hn : n ≠ 0) :
    spacingExponent ((n : ℚ) + 1 / 2) ≤ spacingExponent n := by
  have hn' : (n : ℚ) ≠ 0 := by exact_mod_cast hn
  have hhigh := abs_lt_two_zpow hn'
  have hnonneg : 0 ≤ binaryExponent (n : ℚ) :=
    le_binaryExponent (by simpa using one_le_abs_intCast hn)
  -- the next power of two is an integer, too, so that a half does not lead to it
  obtain ⟨p, hp⟩ := exists_two_zpow_eq_intCast (e := binaryExponent (n : ℚ) + 1) (by omega)
  have hstay : |(n : ℚ) + 1 / 2| < 2 ^ (binaryExponent (n : ℚ) + 1) := by
    rw [hp] at hhigh ⊢
    have hless : |n| + 1 ≤ p := by exact_mod_cast hhigh
    have hless' : |(n : ℚ)| + 1 ≤ p := by exact_mod_cast hless
    have hsum : |(n : ℚ) + 1 / 2| ≤ |(n : ℚ)| + 1 / 2 := (abs_add_le _ _).trans (by norm_num)
    linarith
  have hne : (n : ℚ) + 1 / 2 ≠ 0 := by
    intro hzero
    have hodd : ((2 * n + 1 : ℤ) : ℚ) = 0 := by
      push_cast
      linarith
    have : (2 * n + 1 : ℤ) = 0 := by exact_mod_cast hodd
    omega
  have hexp := binaryExponent_lt hne hstay
  unfold spacingExponent
  omega

/-- A half is too little to be noticed from two to the fifty-third on. -/
theorem nearestOnGrid_add_half_of_le (hy : Representable y) (h : 2 ^ 53 ≤ |y + 1 / 2|) :
    nearestOnGrid (y + 1 / 2) = y := by
  have hlarge : 2 ^ 52 ≤ |y| := by
    have hsum : |y + 1 / 2| ≤ |y| + 1 / 2 := (abs_add_le _ _).trans (by norm_num)
    linarith
  obtain ⟨n, rfl⟩ := hy.exists_intCast hlarge
  have hn : n ≠ 0 := by
    rintro rfl
    norm_num at hlarge
  have hwide : 1 ≤ spacingExponent ((n : ℚ) + 1 / 2) :=
    le_spacingExponent (k := 53) (by exact_mod_cast h)
  have hspacing : (2 : ℚ) ^ (1 : ℤ) ≤ spacing ((n : ℚ) + 1 / 2) :=
    zpow_le_zpow_right₀ (by norm_num) hwide
  refine nearestOnGrid_eq (hy.exists_eq_mul (spacingExponent_add_half_le hn)) ?_
  rw [add_sub_cancel_left, abs_of_pos (by norm_num : (0 : ℚ) < 1 / 2)]
  norm_num at hspacing ⊢
  linarith

/-- Odd integers overshoot where their sums with a half lie in the middle between two doubles. -/
theorem overshoots_intCast_iff {n : ℤ} : Overshoots n ↔
    n % 2 = 1 ∧ 2 ^ 52 ≤ |(n : ℚ) + 1 / 2| ∧ |(n : ℚ) + 1 / 2| < 2 ^ 53 := by
  have hsum : |(n : ℚ) + 1 / 2| = (|2 * n + 1| : ℤ) / 2 := by
    rw [Int.cast_abs, ← abs_of_pos (by norm_num : (0 : ℚ) < 2), ← abs_div]
    push_cast
    congr 1
    rw [abs_of_pos (by norm_num : (0 : ℚ) < 2)]
    ring
  have hlow : (2 : ℚ) ^ 52 ≤ (|2 * n + 1| : ℤ) / 2 ↔ 2 ^ 53 ≤ |2 * n + 1| := by
    rw [le_div_iff₀ (by norm_num), ← pow_succ]
    exact_mod_cast Iff.rfl
  have hhigh : ((|2 * n + 1| : ℤ) : ℚ) / 2 < 2 ^ 53 ↔ |2 * n + 1| < 2 ^ 54 := by
    rw [div_lt_iff₀ (by norm_num), ← pow_succ]
    exact_mod_cast Iff.rfl
  rw [hsum, hlow, hhigh, le_abs, abs_lt]
  constructor
  · rintro (hlast | ⟨m, hm, hfrom, hto⟩)
    · have hpart : ((2 ^ 54 * n : ℤ) : ℚ) = (2 ^ 53 - 1 : ℤ) := by
        push_cast
        rw [hlast]
        norm_num
      have hpart' : 2 ^ 54 * n = 2 ^ 53 - 1 := by exact_mod_cast hpart
      omega
    · have hm' : n = 2 * m + 1 := by exact_mod_cast hm
      have hfrom' : 2 ^ 52 < |n| := by exact_mod_cast hfrom
      have hto' : |n| < 2 ^ 53 := by exact_mod_cast hto
      rw [lt_abs] at hfrom'
      rw [abs_lt] at hto'
      omega
  · rintro ⟨hodd, hfrom, hto⟩
    have hfrom' : 2 ^ 52 < |n| := by
      rw [lt_abs]
      omega
    have hto' : |n| < 2 ^ 53 := by
      rw [abs_lt]
      omega
    have hm : n = 2 * (n / 2) + 1 := by omega
    exact .inr ⟨n / 2, by exact_mod_cast hm, by exact_mod_cast hfrom', by exact_mod_cast hto'⟩

/-- Where doubles are integers, the floor is right but for odd integers that are one apart. -/
theorem floor_add_half_of_intCast {n : ℤ} (hn : Representable n) (h : ¬ Overshoots n) :
    (nearestOnGrid ((n : ℚ) + 1 / 2)).floor = n := by
  rcases lt_or_ge |(n : ℚ) + 1 / 2| (2 ^ 52) with hsmall | hlow
  · have hhalf : (n : ℚ) = ((2 * n : ℤ) : ℚ) / 2 := by
      push_cast
      ring
    rw [hhalf] at hsmall ⊢
    rw [nearestOnGrid_half_add_half hsmall.le, ← hhalf, floor_intCast_add_half]
  rcases lt_or_ge |(n : ℚ) + 1 / 2| (2 ^ 53) with hmiddle | hhigh
  · have heven : n % 2 = 0 := by
      by_contra hodd
      exact h (overshoots_intCast_iff.mpr ⟨by omega, hlow, hmiddle⟩)
    rw [nearestOnGrid_intCast_add_half hlow hmiddle, if_pos heven, Rat.floor_intCast]
  · rw [nearestOnGrid_add_half_of_le hn hhigh, Rat.floor_intCast]

/-- Adding a half and taking the floor gives the right integer, but where it overshoots. -/
theorem floor_add_half_eq (hy : Representable y) (h : ¬ Overshoots y) :
    (nearestOnGrid (y + 1 / 2)).floor = (y + 1 / 2).floor := by
  rcases lt_or_ge |y| (2 ^ 51) with hsmall | hlow
  · exact floor_add_half hy hsmall (hy.le_or_le fun heq => h (.inl heq))
  rcases lt_or_ge |y| (2 ^ 52) with hmiddle | hhigh
  · obtain ⟨n, rfl⟩ := hy.exists_half hlow
    obtain ⟨hbelow, habove⟩ := abs_lt.mp hmiddle
    have hless : n < 2 ^ 53 := by
      have : (n : ℚ) < 2 ^ 53 := by linarith
      exact_mod_cast this
    have hnext : (n : ℚ) + 1 ≤ 2 ^ 53 := by exact_mod_cast hless
    rw [nearestOnGrid_half_add_half (abs_le.mpr ⟨by linarith, by linarith⟩)]
  · obtain ⟨n, rfl⟩ := hy.exists_intCast hhigh
    rw [floor_add_half_of_intCast hy h, floor_intCast_add_half]

/-- Where it overshoots, it gives the integer behind the right one. -/
theorem Overshoots.floor_add_half (h : Overshoots y) :
    (nearestOnGrid (y + 1 / 2)).floor = (y + 1 / 2).floor + 1 := by
  rcases id h with rfl | ⟨n, hn, -, -⟩
  · decide +kernel
  · obtain rfl : y = (2 * n + 1 : ℤ) := by
      rw [hn]
      push_cast
      rfl
    obtain ⟨hodd, hlow, hhigh⟩ := overshoots_intCast_iff.mp h
    rw [nearestOnGrid_intCast_add_half hlow hhigh, if_neg (by omega), Rat.floor_intCast,
      floor_intCast_add_half]

/-- Adding a half to a double gives no infinity. -/
theorem representable_nearestOnGrid_add_half (hy : Representable y) :
    Representable (nearestOnGrid (y + 1 / 2)) := by
  rcases lt_or_ge |y + 1 / 2| (2 ^ 53) with hsmall | hlarge
  · exact representable_nearestOnGrid_of_lt (k := 53) (by norm_num) (by exact_mod_cast hsmall)
  · rw [nearestOnGrid_add_half_of_le hy hlarge]
    exact hy

namespace Binary64

theorem representable_of_value? {d : Binary64} (hd : d.value? = some x) : Representable x := by
  cases d with
  | nan => cases hd
  | infinite negative => cases hd
  | negativeZero =>
    cases hd
    exact representable_zero
  | real z hz =>
    cases hd
    exact hz

/-- A finite double is rounded to the integer nearest to its value, of two the greater one, but
for the last double in front of a half and the odd integers from two to the fifty-second to two to
the fifty-third. These are rounded to the integer behind it. -/
theorem roundHalfUp_isNearest {d : Binary64} (hd : d.value? = some x) :
    ∃ g : ℤ, IsNearest x g ∧ (¬ Overshoots x → d.roundHalfUp = .ok g) ∧
      (Overshoots x → d.roundHalfUp = .ok (g + 1)) := by
  have hx := representable_of_value? hd
  have hround := roundHalfUp_of_value? hd (representable_nearestOnGrid_add_half hx)
  have hnearest : IsNearest x (x + 1 / 2).floor := (nearestHalfUp_iff.mpr rfl).isNearest
  refine ⟨_, hnearest, fun hexact => ?_, fun hover => ?_⟩
  · rw [hround, floor_add_half_eq hx hexact]
  · rw [hround, hover.floor_add_half]

/-- The greatest half among doubles goes up as it should. -/
theorem roundHalfUp_isNearest_largestHalf :
    (ofRat (2 ^ 52 - 1 / 2)).value? = some (2 ^ 52 - 1 / 2) ∧
      IsNearest (2 ^ 52 - 1 / 2) (2 ^ 52) ∧
      (ofRat (2 ^ 52 - 1 / 2)).roundHalfUp = .ok (2 ^ 52) := by
  have hvalue : (ofRat (2 ^ 52 - 1 / 2)).value? = some (2 ^ 52 - 1 / 2) := by decide +kernel
  obtain ⟨g, hg, hexact, -⟩ := roundHalfUp_isNearest hvalue
  have hover : ¬ Overshoots (2 ^ 52 - 1 / 2) := by
    rintro (hlast | ⟨n, -, hfrom, -⟩)
    · norm_num at hlast
    · norm_num [abs_of_pos] at hfrom
  have hround : (ofRat (2 ^ 52 - 1 / 2)).roundHalfUp = .ok (2 ^ 52) := by decide +kernel
  obtain rfl : g = 2 ^ 52 := Except.ok.inj ((hexact hover).symm.trans hround)
  exact ⟨hvalue, hg, hround⟩

/-- The last double in front of a half goes to one, although zero is nearer, and an odd integer
goes to the next one. -/
theorem roundHalfUp_not_isNearest :
    (ofRat (1 / 2 - 1 / 2 ^ 54)).value? = some (1 / 2 - 1 / 2 ^ 54) ∧
      (ofRat (1 / 2 - 1 / 2 ^ 54)).roundHalfUp = .ok 1 ∧ ¬ IsNearest (1 / 2 - 1 / 2 ^ 54) 1 ∧
      (ofRat (2 ^ 52 + 1)).value? = some (2 ^ 52 + 1) ∧
      (ofRat (2 ^ 52 + 1)).roundHalfUp = .ok (2 ^ 52 + 2) ∧
      ¬ IsNearest (2 ^ 52 + 1) (2 ^ 52 + 2) := by
  refine ⟨by decide +kernel, by decide +kernel, fun hone => ?_, by decide +kernel,
    by decide +kernel, fun hnext => ?_⟩
  · have hzero := hone.nearest 0
    norm_num [abs_of_pos, abs_of_neg] at hzero
  · have hself := hnext.nearest (2 ^ 52 + 1)
    norm_num at hself

end Binary64

end MoveWorkbench
