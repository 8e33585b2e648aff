import MoveWorkbench.Number.Decimal
import MoveWorkbench.Proofs.Number.Rounding

/-!
The shortest decimal of a double reads back. Seventeen digits always suffice: on the
decimal grid seventeen places below the leading digit, one neighbour of the value differs
from it by at most one part in twice ten to the sixteenth. So the search for a grid ends,
and whatever it ends with rounds to the double it was made for.
-/

namespace MoveWorkbench.Binary64

/-- A power of ten lies below a power of two as soon as the exponents say so by one of two
close fractions for the logarithm of two. -/
private theorem ten_zpow_le_two_zpow {b e : ℤ} (hpos : 0 ≤ b → 196 * e ≤ 59 * b)
    (hneg : b < 0 → 93 * e ≤ 28 * b) : (10 : ℚ) ^ e ≤ 2 ^ b := by
  rcases le_or_gt 0 b with hb | hb
  · have hpow : ((10 : ℚ) ^ e) ^ 196 ≤ ((2 : ℚ) ^ b) ^ 196 := by
      calc ((10 : ℚ) ^ e) ^ 196 = 10 ^ (196 * e) := by
            rw [← zpow_natCast, ← zpow_mul, mul_comm]
            norm_num
        _ ≤ 10 ^ (59 * b) := zpow_le_zpow_right₀ (by norm_num) (hpos hb)
        _ = ((10 : ℚ) ^ 59) ^ b := by
            rw [zpow_mul]
            norm_num
        _ ≤ ((2 : ℚ) ^ 196) ^ b := zpow_le_zpow_left₀ hb (by norm_num) (by norm_num)
        _ = ((2 : ℚ) ^ b) ^ 196 := by
            rw [← zpow_natCast, ← zpow_natCast, ← zpow_mul, ← zpow_mul, mul_comm]
    exact le_of_pow_le_pow_left₀ (by norm_num) (by positivity) hpow
  · have hpow : ((10 : ℚ) ^ e) ^ 93 ≤ ((2 : ℚ) ^ b) ^ 93 := by
      calc ((10 : ℚ) ^ e) ^ 93 = 10 ^ (93 * e) := by
            rw [← zpow_natCast, ← zpow_mul, mul_comm]
            norm_num
        _ ≤ 10 ^ (28 * b) := zpow_le_zpow_right₀ (by norm_num) (hneg hb)
        _ = (((10 : ℚ) ^ 28) ^ (-b))⁻¹ := by
            rw [zpow_neg, inv_inv, zpow_mul]
            norm_num
        _ ≤ (((2 : ℚ) ^ 93) ^ (-b))⁻¹ := by
            apply inv_anti₀ (by positivity)
            exact zpow_le_zpow_left₀ (by omega) (by norm_num) (by norm_num)
        _ = ((2 : ℚ) ^ b) ^ 93 := by
            rw [zpow_neg, inv_inv, ← zpow_natCast, ← zpow_natCast, ← zpow_mul, ← zpow_mul,
              mul_comm]
    exact le_of_pow_le_pow_left₀ (by norm_num) (by positivity) hpow

variable {x : ℚ}

/-- The decimal exponent of a double does not overshoot. -/
theorem ten_zpow_decimalExponent_le (h : Representable x) (hx : 0 < x) :
    (10 : ℚ) ^ decimalExponent x ≤ x := by
  obtain ⟨hlow, hhigh⟩ := h.exponent_bounds hx.ne'
  have htwo := two_zpow_le_abs hx.ne'
  rw [abs_of_pos hx] at htwo
  simp only [decimalExponent, abs_eq, abs_of_pos hx]
  split
  · refine le_trans ?_ htwo
    apply ten_zpow_le_two_zpow <;> intro <;> omega
  · split
    · assumption
    · linarith

theorem decimalExponent_bounds (h : Representable x) (hx : x ≠ 0) :
    -330 ≤ decimalExponent x ∧ decimalExponent x ≤ 330 := by
  obtain ⟨hlow, hhigh⟩ := h.exponent_bounds hx
  simp only [decimalExponent]
  split
  · constructor <;> omega
  · split <;> constructor <;> omega

theorem ofRat_of_readsBack? {unit : ℚ} {digits : ℕ} (h : readsBack? x unit = some digits) :
    ofRat (digits * unit) = ofRat x := by
  simp only [readsBack?] at h
  split at h
  · rename_i hboth
    split at h
    · cases h
      exact hboth.1
    · split at h
      · cases h
        exact_mod_cast hboth.2
      · split at h
        · cases h
          exact hboth.1
        · cases h
          exact_mod_cast hboth.2
  · split at h
    · cases h
      assumption
    · split at h
      · cases h
        push_cast
        assumption
      · cases h

/-- A neighbour on the grid reads back when either of the two does. -/
theorem readsBack?_isSome {unit : ℚ}
    (h : ofRat ((x / unit).floor.toNat * unit) = ofRat x ∨
      ofRat (((x / unit).floor.toNat + 1) * unit) = ofRat x) :
    (readsBack? x unit).isSome := by
  simp only [readsBack?]
  split
  · split
    · rfl
    · split
      · rfl
      · split <;> rfl
  · split
    · rfl
    · split
      · rfl
      · rename_i hlow hhigh
        exact (h.elim hlow hhigh).elim

/-- Seventeen digits always read back. -/
theorem readsBack?_seventeen (h : Representable x) (hx : 0 < x) :
    (readsBack? x ((10 : ℚ) ^ (decimalExponent x - 16))).isSome := by
  apply readsBack?_isSome
  have hten := ten_zpow_decimalExponent_le h hx
  have hsplit : (10 : ℚ) ^ (decimalExponent x - 16) = 10 ^ decimalExponent x / 10 ^ 16 := by
    rw [zpow_sub₀ (by norm_num)]
    norm_num
  have hunit : (0 : ℚ) < 10 ^ (decimalExponent x - 16) := by positivity
  have hhalf : (10 : ℚ) ^ (decimalExponent x - 16) / 2 ≤ x / (2 * 10 ^ 16) := by
    rw [hsplit]
    linarith
  generalize (10 : ℚ) ^ (decimalExponent x - 16) = unit at hunit hhalf ⊢
  have hquot : 0 ≤ (x / unit).floor := Rat.le_floor_iff.mpr (by positivity)
  have hnat : (((x / unit).floor.toNat : ℕ) : ℚ) = (x / unit).floor := by
    exact_mod_cast Int.toNat_of_nonneg hquot
  have hlow := Rat.floor_le (x / unit)
  have hhigh := Rat.lt_floor_add_one (x / unit)
  push_cast at hhigh
  rw [le_div_iff₀ hunit] at hlow
  rw [div_lt_iff₀ hunit] at hhigh
  rw [hnat, ofRat_of_representable h]
  rcases le_or_gt (x - (x / unit).floor * unit) (unit / 2) with hnear | hfar
  · left
    apply ofRat_eq_real
    apply nearestOnGrid_of_close h hx
    rw [abs_le]
    constructor <;> linarith
  · right
    apply ofRat_eq_real
    apply nearestOnGrid_of_close h hx
    rw [abs_le]
    constructor <;> linarith

/-- The shortest decimal of a double rounds to that double, and its exponent is moderate. -/
theorem shortest_spec (h : Representable x) (hx : 0 < x) :
    ofRat ((shortest x).1 * (10 : ℚ) ^ (shortest x).2) = ofRat x ∧
      -350 ≤ (shortest x).2 ∧ (shortest x).2 ≤ 350 := by
  obtain ⟨hmin, hmax⟩ := decimalExponent_bounds h hx.ne'
  simp only [shortest]
  generalize hsearch : (List.range 17).findSome? _ = found
  cases found with
  | none =>
    have hnone := List.findSome?_eq_none_iff.mp hsearch 16 (by simp)
    rw [Option.map_eq_none_iff] at hnone
    have hsome := readsBack?_seventeen h hx
    rw [show (decimalExponent x - (16 : ℕ) : ℤ) = decimalExponent x - 16 by norm_num] at hnone
    rw [hnone] at hsome
    cases hsome
  | some found =>
    obtain ⟨n, hn, hfound⟩ := List.exists_of_findSome?_eq_some hsearch
    obtain ⟨digits, hdigits, rfl⟩ := Option.map_eq_some_iff.mp hfound
    rw [List.mem_range] at hn
    refine ⟨ofRat_of_readsBack? hdigits, ?_, ?_⟩ <;> simp only [Option.getD_some] <;> omega

/-- No digits would read back as zero. -/
theorem shortest_digits_ne_zero (h : Representable x) (hx : 0 < x) : (shortest x).1 ≠ 0 := by
  intro hzero
  obtain ⟨hback, -⟩ := shortest_spec h hx
  rw [hzero, Nat.cast_zero, zero_mul, ofRat_of_representable representable_zero,
    ofRat_of_representable h] at hback
  injection hback with hvalue
  exact hx.ne hvalue

end MoveWorkbench.Binary64
