import MoveWorkbench.Proofs.Gas.Comparison
import MoveWorkbench.Proofs.Number.HalfUp

/-!
Percentages of comparisons. The hundredths of a percent are a quotient that is rounded three times
before it goes to an integer, a half going up. The integer is the right one unless these roundings
pass a half, or leave one that is exact; all that comes after them does no harm. A quotient of
totals that are not huge is far from every half that it does not hit.
-/

namespace MoveWorkbench

namespace Comparison

open Binary64

def hundredths (saved total : ℤ) : ℚ := saved * 10000 / total

/-- What doubles make of them: the quotient and its two products with a hundred are rounded. -/
def roundedHundredths (saved total : ℤ) : ℚ :=
  nearestOnGrid (nearestOnGrid (nearestOnGrid (saved / total) * 100) * 100)

variable {saved total : ℤ}

theorem hundredths_eq (saved total : ℤ) : hundredths saved total = saved / total * 100 * 100 := by
  unfold hundredths
  ring

theorem hundredths_eq_intCast_div (saved total : ℤ) :
    hundredths saved total = ((saved * 10000 : ℤ) : ℚ) / total := by
  unfold hundredths
  push_cast
  rfl

theorem abs_hundredths (saved : ℤ) (hpos : 0 < total) :
    |hundredths saved total| = |(saved : ℚ)| * 10000 / total := by
  have hpos' : (0 : ℚ) < total := by exact_mod_cast hpos
  unfold hundredths
  rw [abs_div, abs_mul, abs_of_pos hpos', abs_of_pos (by norm_num : (0 : ℚ) < 10000)]

/-- A part of a total is far from too small for a normal double, if it is not nothing. -/
theorem quotient_eq_zero_or_le (saved : ℤ) (hpos : 0 < total) (htotal : total < 2 ^ 50) :
    (saved : ℚ) / total = 0 ∨ 2 ^ (-50 : ℤ) ≤ |(saved : ℚ) / total| := by
  have hpos' : (0 : ℚ) < total := by exact_mod_cast hpos
  have htotal' : (total : ℚ) < 2 ^ 50 := by exact_mod_cast htotal
  by_cases hzero : saved = 0
  · left
    rw [hzero, Int.cast_zero, zero_div]
  · right
    have hone := one_le_abs_intCast hzero
    rw [abs_div, abs_of_pos hpos', le_div_iff₀ hpos']
    norm_num at htotal' ⊢
    linarith

/-- The roundings add up to less than four. -/
theorem abs_roundedHundredths_sub_le (saved : ℤ) (hpos : 0 < total) (htotal : total < 2 ^ 50) :
    |roundedHundredths saved total - hundredths saved total| ≤
      |hundredths saved total| / 2 ^ 51 := by
  have hquotient := quotient_eq_zero_or_le saved hpos htotal
  have hpower (k : ℤ) (hk : k ≤ -50) : (2 : ℚ) ^ k ≤ 2 ^ (-50 : ℤ) :=
    zpow_le_zpow_right₀ (by norm_num) hk
  have hfirst : |nearestOnGrid ((saved : ℚ) / total) - saved / total| ≤
      1 / 2 ^ 53 * |(saved : ℚ) / total| := by
    rw [abs_sub_comm, one_div_mul_eq_div]
    exact Normal.abs_sub_nearestOnGrid_le
      (hquotient.imp_right (hpower _ (by norm_num)).trans)
  have hhundred : (1 : ℚ) ≤ |100| := by norm_num
  have hsecond := abs_nearestOnGrid_mul_sub_le (hquotient.imp_right (hpower _ (by norm_num)).trans)
    (by norm_num) hhundred hfirst
  have hproduct : (saved : ℚ) / total * 100 = 0 ∨
      2 ^ (-1021 : ℤ) ≤ |(saved : ℚ) / total * 100| := by
    refine hquotient.imp (fun hzero => by rw [hzero, zero_mul]) fun hsize => ?_
    rw [abs_mul]
    exact ((hpower _ (by norm_num)).trans hsize).trans
      (le_mul_of_one_le_right (abs_nonneg _) hhundred)
  have hthird := abs_nearestOnGrid_mul_sub_le hproduct (by norm_num) hhundred hsecond
  rw [← hundredths_eq] at hthird
  rw [← one_div_mul_eq_div]
  exact hthird.trans (mul_le_mul_of_nonneg_right (by norm_num) (abs_nonneg _))

/-- The rounded hundredths are not between a half and the double in front of it. -/
theorem roundedHundredths_le_or_le (saved : ℤ) (hpos : 0 < total) (htotal : total < 2 ^ 50) :
    roundedHundredths saved total ≤ 1 / 2 - 1 / 2 ^ 53 ∨ 1 / 2 ≤ roundedHundredths saved total := by
  have hpos' : (0 : ℚ) < total := by exact_mod_cast hpos
  have htotal' : (total : ℚ) < 2 ^ 50 := by exact_mod_cast htotal
  by_cases hhalf : hundredths saved total = 1 / 2
  · right
    have hquotient : (saved : ℚ) / total = 1 / 20000 := by
      rw [hundredths_eq] at hhalf
      linarith
    have hround : nearestOnGrid (nearestOnGrid (nearestOnGrid (1 / 20000) * 100) * 100) =
        1 / 2 := by decide +kernel
    unfold roundedHundredths
    rw [hquotient, hround]
  · have hgap := le_abs_sub_half (t := saved * 10000) (g := 0) hpos (by
      push_cast
      rwa [zero_add])
    have hpart : (1 : ℚ) / 2 ^ 51 ≤ 1 / (2 * total) :=
      one_div_le_one_div_of_le (by linarith) (by norm_num at htotal' ⊢; linarith)
    have hclose := abs_le.mp (abs_roundedHundredths_sub_le saved hpos htotal)
    have hfar : 1 / 2 ^ 51 ≤ |hundredths saved total - 1 / 2| := by
      push_cast at hgap
      rw [zero_add] at hgap
      exact hpart.trans hgap
    rcases le_abs.mp hfar with habove | hbelow
    · right
      rw [abs_of_nonneg (by norm_num at habove; linarith)] at hclose
      norm_num at habove hclose ⊢
      linarith
    · left
      rcases abs_cases (hundredths saved total) with ⟨hsize, -⟩ | ⟨hsize, -⟩
      · rw [hsize] at hclose
        norm_num at hbelow hclose ⊢
        linarith
      · rw [hsize] at hclose
        norm_num at hbelow hclose ⊢
        linarith

def percentHundredths (saved total : ℤ) : ℤ :=
  (nearestOnGrid (roundedHundredths saved total + 1 / 2)).floor

theorem abs_mul_hundred_lt {x : ℚ} {k : ℤ} (h : |x| ≤ 2 ^ k) : |x * 100| < 2 ^ (k + 7) := by
  have hpower : (0 : ℚ) < 2 ^ k := zpow_pos (by norm_num) k
  rw [abs_mul, abs_of_pos (by norm_num : (0 : ℚ) < 100), zpow_add₀ (by norm_num)]
  norm_num
  linarith

/-- The percentage is the double nearest to these hundredths. -/
theorem percent_eq_ok (hpos : 0 < total) (hsaved : |saved| < 2 ^ 50) :
    Representable (roundedHundredths saved total) ∧
      percent saved total = .ok (ofRat ((percentHundredths saved total : ℚ) / 100)) := by
  have hpos' : (1 : ℚ) ≤ total := by exact_mod_cast hpos
  have hquotient : |(saved : ℚ) / total| < 2 ^ (50 : ℤ) := by
    have hsaved' : |(saved : ℚ)| < 2 ^ 50 := by exact_mod_cast hsaved
    rw [abs_div, abs_of_pos (by linarith : (0 : ℚ) < total), div_lt_iff₀ (by linarith)]
    norm_num at hsaved' ⊢
    linarith
  have hfirst := representable_nearestOnGrid_of_lt (by norm_num) hquotient
  have hsize := abs_mul_hundred_lt (abs_nearestOnGrid_le_of_lt hquotient)
  have hsecond := representable_nearestOnGrid_of_lt (by norm_num) hsize
  have hsize' := abs_mul_hundred_lt (abs_nearestOnGrid_le_of_lt hsize)
  have hthird := representable_nearestOnGrid_of_lt (by norm_num) hsize'
  have hlast := abs_nearestOnGrid_le_of_lt hsize'
  have hsum : |roundedHundredths saved total + 1 / 2| < 2 ^ (65 : ℤ) := by
    unfold roundedHundredths
    rw [abs_le] at hlast
    rw [abs_lt]
    norm_num at hlast ⊢
    constructor <;> linarith
  have hhalf := representable_nearestOnGrid_of_lt (by norm_num) hsum
  have hfloor : |(percentHundredths saved total : ℚ) / 100| < 2 ^ (65 : ℤ) := by
    have hround := abs_le.mp (abs_nearestOnGrid_le_of_lt hsum)
    have hlow := Rat.floor_le (nearestOnGrid (roundedHundredths saved total + 1 / 2))
    have hhigh := Rat.lt_floor_add_one (nearestOnGrid (roundedHundredths saved total + 1 / 2))
    push_cast at hhigh
    unfold percentHundredths
    rw [abs_lt]
    norm_num at hround ⊢
    constructor <;> linarith
  have hhundredths := representable_nearestOnGrid_of_lt (by norm_num) hfloor
  have hhundred : ofRat 100 = real 100 (by decide +kernel) := ofRat_of_representable _
  refine ⟨hthird, ?_⟩
  unfold percent
  rw [if_neg hpos.ne']
  refine Partial.bind_eq_ok.mpr ⟨_, ofRat?_eq_ok hfirst, Partial.bind_eq_ok.mpr
    ⟨_, roundHalfUp_of_value? ?_ hhalf, ofRat?_eq_ok hhundredths⟩⟩
  rw [hhundred, ofRat_eq_real hfirst rfl]
  exact value?_mul (value?_mul rfl rfl hsecond) rfl hthird

/-- The integer is that of the rounded hundredths, as long as they are not huge. -/
theorem nearestHalfUp_percentHundredths (hpos : 0 < total) (htotal : total < 2 ^ 50)
    (hsaved : |saved| < 2 ^ 50) (hsmall : |roundedHundredths saved total| < 2 ^ 51) :
    NearestHalfUp (roundedHundredths saved total) (percentHundredths saved total) :=
  nearestHalfUp_iff.mpr (floor_add_half (percent_eq_ok hpos hsaved).1 hsmall
    (roundedHundredths_le_or_le saved hpos htotal)).symm

/-- Whatever the totals are, the integer is close to the exact hundredths. -/
theorem abs_percentHundredths_sub_le (hpos : 0 < total) (htotal : total < 2 ^ 50)
    (hsaved : |saved| < 2 ^ 50) :
    |percentHundredths saved total - hundredths saved total| ≤
      1 / 2 + |hundredths saved total| / 2 ^ 50 := by
  have hclose := abs_roundedHundredths_sub_le saved hpos htotal
  have hfloor := abs_floor_add_half_sub_le (percent_eq_ok hpos hsaved).1
    (roundedHundredths_le_or_le saved hpos htotal)
  have hsize := abs_sub_abs_le_abs_sub (roundedHundredths saved total) (hundredths saved total)
  have hboth := abs_sub_le (percentHundredths saved total : ℚ) (roundedHundredths saved total)
    (hundredths saved total)
  unfold percentHundredths at hboth ⊢
  norm_num at hclose hfloor ⊢
  linarith [abs_nonneg (hundredths saved total)]

/-- Hundredths that are not huge are told right just when the rounded ones have their integer. -/
theorem ofRat_percentHundredths_iff {g : ℤ} (hpos : 0 < total) (htotal : total < 2 ^ 50)
    (hsaved : |saved| < 2 ^ 50) (hg : NearestHalfUp (hundredths saved total) g)
    (hsmall : |hundredths saved total| < 2 ^ 50) :
    ofRat ((percentHundredths saved total : ℚ) / 100) = ofRat (g / 100) ↔
      NearestHalfUp (roundedHundredths saved total) g := by
  have hclose := abs_roundedHundredths_sub_le saved hpos htotal
  have hsize := abs_sub_abs_le_abs_sub (roundedHundredths saved total) (hundredths saved total)
  have hrounded : |roundedHundredths saved total| < 2 ^ 50 + 1 := by
    norm_num at hclose hsmall ⊢
    linarith
  have hk := nearestHalfUp_percentHundredths hpos htotal hsaved
    (hrounded.trans (by norm_num))
  have hgsize := hg.abs_cast_le
  have hksize := hk.abs_cast_le
  rw [ofRat_div_inj (by norm_num at hrounded hksize ⊢; linarith)
    (by norm_num at hsmall hgsize ⊢; linarith)]
  rw [nearestHalfUp_iff] at hk ⊢
  rw [hk]

/-- Where little is saved, only a half that is exact may be left. -/
theorem nearestHalfUp_roundedHundredths_iff {g : ℤ} (hpos : 0 < total) (htotal : total < 2 ^ 50)
    (hsaved : |saved| < 2 ^ 36) (hg : NearestHalfUp (hundredths saved total) g) :
    NearestHalfUp (roundedHundredths saved total) g ↔
      (hundredths saved total = g - 1 / 2 →
        hundredths saved total ≤ roundedHundredths saved total) := by
  have hpos' : (1 : ℚ) ≤ total := by exact_mod_cast hpos
  have hsaved' : |(saved : ℚ)| < 2 ^ 36 := by exact_mod_cast hsaved
  have hclose := abs_roundedHundredths_sub_le saved hpos htotal
  have hpart : |hundredths saved total| / 2 ^ 51 < 1 / (2 * total) := by
    rw [abs_hundredths saved hpos, div_div, div_lt_div_iff₀ (by positivity) (by positivity)]
    norm_num at hsaved' ⊢
    nlinarith
  constructor
  · intro hy hhalf
    rw [hhalf]
    exact hy.1
  · intro hhalf
    have hquotient := hundredths_eq_intCast_div saved total
    rw [hquotient] at hg hclose hpart hhalf
    exact hg.of_close hpos (hclose.trans_lt hpart) hhalf

/-- The percentage of a comparison. -/
theorem exists_of_percent {before after : Analysis} {p : Binary64}
    (h : percent (before.totalGas - after.totalGas) before.totalGas = .ok p) :
    ∃ c, of before after = .ok c ∧ c.percentage = p :=
  ⟨_, Partial.bind_eq_ok.mpr ⟨p, h, rfl⟩, rfl⟩

end Comparison

namespace Workspace

open Comparison

variable {w : Workspace} {i j : Atom} {a b : Analysis}

/-- The percentage that is saved between two stored analyses, in hundredths: `x` exactly, `y` by
three roundings, and `g` as an integer. It is the double nearest to that integer of hundredths just
when `y` has the same integer as `x`. Where little is saved, it fails to be just where `x` is a half
and `y` is less. Huge percentages are still close to the exact ones. -/
theorem compare_percentage (ha : w.analysis? i = some a) (hb : w.analysis? j = some b)
    (hpos : 0 < a.totalGas) (hlt : a.totalGas < 2 ^ 50) (hpos' : 0 ≤ b.totalGas)
    (hlt' : b.totalGas < 2 ^ 50) :
    let saved := a.totalGas - b.totalGas
    let x := hundredths saved a.totalGas
    let y := roundedHundredths saved a.totalGas
    ∃ c g, w.compare i j = .ok (some c) ∧ NearestHalfUp x g ∧
      (|x| < 2 ^ 50 → (c.percentage = .ofRat (g / 100) ↔ NearestHalfUp y g)) ∧
      (|saved| < 2 ^ 36 → (c.percentage = .ofRat (g / 100) ↔ (x = g - 1 / 2 → x ≤ y))) ∧
      |y - x| ≤ |x| / 2 ^ 51 ∧
      ∃ k : ℤ, c.percentage = .ofRat (k / 100) ∧ |k - x| ≤ 1 / 2 + |x| / 2 ^ 50 := by
  intro saved x y
  have hsaved : |saved| < 2 ^ 50 := abs_sub_lt_of_nonneg_of_lt hpos.le hlt hpos' hlt'
  obtain ⟨c, hc, hpercentage⟩ := exists_of_percent (percent_eq_ok hpos hsaved).2
  have hg : NearestHalfUp x (x + 1 / 2).floor := nearestHalfUp_iff.mpr rfl
  have hiff (hsmall : |x| < 2 ^ 50) : c.percentage = .ofRat ((x + 1 / 2).floor / 100) ↔
      NearestHalfUp y (x + 1 / 2).floor := by
    rw [hpercentage]
    exact ofRat_percentHundredths_iff hpos hlt hsaved hg hsmall
  refine ⟨c, _, (compare_eq_ok ha hb).mpr hc, hg, hiff, fun hlittle => ?_,
    abs_roundedHundredths_sub_le saved hpos hlt, _, hpercentage,
    abs_percentHundredths_sub_le hpos hlt hsaved⟩
  have hsmall : |x| < 2 ^ 50 := by
    have hone : (1 : ℚ) ≤ a.totalGas := by exact_mod_cast hpos
    have hlittle' : |(saved : ℚ)| < 2 ^ 36 := by exact_mod_cast hlittle
    rw [abs_hundredths saved hpos, div_lt_iff₀ (by linarith)]
    norm_num at hlittle' ⊢
    linarith
  rw [hiff hsmall]
  exact nearestHalfUp_roundedHundredths_iff hpos hlt hlittle hg

def ofTotal (id : String) (totalGas : ℤ) : Analysis where
  id := .text id
  code := ""
  totalGas := totalGas
  estimates := []
  findings := []
  summary := ⟨0, 0, "", 0⟩
  createdAt := ⟨0, by decide⟩

def withTotals (before after : ℤ) : Workspace :=
  ((fresh 0).putAnalysis (ofTotal "b" before)).putAnalysis (ofTotal "a" after)

theorem analysis?_withTotals (before after : ℤ) :
    (withTotals before after).analysis? (.text "b") = some (ofTotal "b" before) ∧
      (withTotals before after).analysis? (.text "a") = some (ofTotal "a" after) := ⟨rfl, rfl⟩

/-- A half that goes up as it should. -/
theorem compare_percentage_half :
    (withTotals 160 159).analysis? (.text "b") = some (ofTotal "b" 160) ∧
      (withTotals 160 159).analysis? (.text "a") = some (ofTotal "a" 159) ∧
      0 < (ofTotal "b" 160).totalGas ∧ (ofTotal "b" 160).totalGas < 2 ^ 50 ∧
      0 ≤ (ofTotal "a" 159).totalGas ∧ (ofTotal "a" 159).totalGas < 2 ^ 50 ∧
      hundredths 1 160 = 62 + 1 / 2 ∧
      ∃ c, (withTotals 160 159).compare (.text "b") (.text "a") = .ok (some c) ∧
        c.percentage = .ofRat (63 / 100) := by
  obtain ⟨hbefore, hafter⟩ := analysis?_withTotals 160 159
  have hpos : 0 < (ofTotal "b" 160).totalGas := by decide
  have hlt : (ofTotal "b" 160).totalGas < 2 ^ 50 := by decide
  have hpos' : 0 ≤ (ofTotal "a" 159).totalGas := by decide
  have hlt' : (ofTotal "a" 159).totalGas < 2 ^ 50 := by decide
  obtain ⟨c, g, hc, hg, -, hlittle, -⟩ := compare_percentage hbefore hafter hpos hlt hpos' hlt'
  have hfloor : (hundredths 1 160 + 1 / 2).floor = 63 := by decide +kernel
  obtain rfl : (63 : ℤ) = g := hfloor.symm.trans (nearestHalfUp_iff.mp hg)
  have hreach : hundredths 1 160 ≤ roundedHundredths 1 160 := by decide +kernel
  exact ⟨hbefore, hafter, hpos, hlt, hpos', hlt', by decide +kernel, c, hc,
    (hlittle (by decide)).mpr fun _ => hreach⟩

/-- A half that goes down: of 160 units 23 are saved, and the rounded hundredths are less than
1437.5. -/
theorem compare_percentage_lost : ∃ c,
    (withTotals 160 137).compare (.text "b") (.text "a") = .ok (some c) ∧
      hundredths 23 160 = 1437 + 1 / 2 ∧ NearestHalfUp (hundredths 23 160) 1438 ∧
      c.percentage = .ofRat (1437 / 100) ∧ c.percentage ≠ .ofRat (1438 / 100) := by
  obtain ⟨hbefore, hafter⟩ := analysis?_withTotals 160 137
  have hfloor : percentHundredths 23 160 = 1437 := by decide +kernel
  have hpercent : percent 23 160 = .ok (.ofRat (1437 / 100)) := by
    have hok := (percent_eq_ok (by decide : (0 : ℤ) < 160) (by decide : |(23 : ℤ)| < 2 ^ 50)).2
    rwa [hfloor] at hok
  obtain ⟨c, hc, hpercentage⟩ : ∃ c, Comparison.of (ofTotal "b" 160) (ofTotal "a" 137) = .ok c ∧
      c.percentage = .ofRat (1437 / 100) := exists_of_percent hpercent
  refine ⟨c, (compare_eq_ok hbefore hafter).mpr hc, by decide +kernel,
    nearestHalfUp_iff.mpr (by decide +kernel), hpercentage, ?_⟩
  rw [hpercentage]
  decide +kernel

end Workspace

end MoveWorkbench
