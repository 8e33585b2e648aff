import MoveWorkbench.Proofs.Number.Rounding

/-!
Sizes through rounded operations. Each operation on finite doubles of moderate size gives a
finite double, of which a power of two bounds the size, so that a chain of operations has an
integer part at its end when the powers add up to less than the overflow limit.
-/

namespace MoveWorkbench.Binary64

/-- A finite double of which the size is at most a power of two. -/
def Within (k : ℤ) (d : Binary64) : Prop := ∃ x, d.value? = some x ∧ |x| ≤ 2 ^ k

variable {a b : Binary64} {x : ℚ} {j k : ℤ}

theorem within_ofRat (hk : k ≤ 1023) (h : |x| < 2 ^ k) : (ofRat x).Within k := by
  obtain ⟨y, hy, hround, hle⟩ := exists_ofRat_eq_real hk h
  exact ⟨y, by rw [hround]; rfl, hle⟩

theorem value?_signedZero (negative : Bool) : (signedZero negative).value? = some 0 := by
  cases negative with
  | false =>
    change zero.value? = _
    rw [zero_eq]
    rfl
  | true => rfl

theorem within_signedZero (negative : Bool) (k : ℤ) : (signedZero negative).Within k :=
  ⟨0, value?_signedZero negative, by rw [abs_zero]; exact zpow_nonneg (by norm_num) k⟩

theorem Within.mul (ha : a.Within j) (hb : b.Within k) (hjk : j + k ≤ 1022) :
    (a.mul b).Within (j + k + 1) := by
  obtain ⟨x, hx, hxj⟩ := ha
  obtain ⟨y, hy, hyk⟩ := hb
  have hprod : |x * y| ≤ 2 ^ (j + k) := by
    rw [abs_mul, zpow_add₀ (by norm_num)]
    exact mul_le_mul hxj hyk (abs_nonneg y) (zpow_nonneg (by norm_num) j)
  unfold Binary64.mul
  simp only [hx, hy]
  split
  · exact within_signedZero _ _
  · exact within_ofRat (by omega)
      (hprod.trans_lt (zpow_lt_zpow_right₀ (by norm_num) (by omega)))

theorem Within.add (ha : a.Within k) (hb : b.Within k) (hk : k ≤ 1021) :
    (a.add b).Within (k + 2) := by
  obtain ⟨x, hx, hxk⟩ := ha
  obtain ⟨y, hy, hyk⟩ := hb
  have hsum : |x + y| < 2 ^ (k + 2) := by
    have hpos : (0 : ℚ) < 2 ^ k := zpow_pos (by norm_num) k
    have hle := abs_add_le x y
    rw [zpow_add₀ (by norm_num)]
    linarith
  cases a <;> cases b <;> cases hx <;> cases hy
  · exact within_signedZero true _
  all_goals
    simpa [Binary64.add] using within_ofRat (by omega) hsum

theorem Within.exists_floor (h : a.Within k) : ∃ n, a.floor = .ok n ∧ |(n : ℚ)| ≤ 2 ^ k + 1 := by
  obtain ⟨x, hx, hle⟩ := h
  have hpos : (0 : ℚ) < 2 ^ k := zpow_pos (by norm_num) k
  cases a <;> cases hx
  · refine ⟨0, rfl, ?_⟩
    rw [Int.cast_zero, abs_zero]
    linarith
  · refine ⟨x.floor, rfl, ?_⟩
    obtain ⟨hlow, hhigh⟩ := abs_le.mp hle
    have hfloor : (x.floor : ℚ) ≤ x := Rat.floor_le x
    have hsucc : x < x.floor + 1 := by exact_mod_cast Rat.lt_floor_add_one x
    rw [abs_le]
    constructor <;> linarith

theorem Within.exists_truncate (h : a.Within k) : ∃ n, a.truncate = .ok n := by
  obtain ⟨x, hx, -⟩ := h
  cases a <;> cases hx
  · exact ⟨0, rfl⟩
  · exact ⟨_, rfl⟩

/-- A value of moderate size is not too large for a double. -/
theorem exists_ofRat? (hk : k ≤ 1023) (h : |x| < 2 ^ k) : ∃ d, ofRat? x = .ok d ∧ d.Within k := by
  obtain ⟨y, hy, hround, hle⟩ := exists_ofRat_eq_real hk h
  refine ⟨real y hy, ?_, y, rfl, hle⟩
  unfold ofRat?
  rw [hround]

end MoveWorkbench.Binary64
