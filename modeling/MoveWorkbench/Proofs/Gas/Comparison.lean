import Mathlib.Data.List.Nodup
import MoveWorkbench.Proofs.Number.Size
import MoveWorkbench.Proofs.Partial
import MoveWorkbench.Workspace.Analyses

/-!
Comparisons both ways. Every estimate of the first analysis is held against the first estimate
of the same name in the second one. Where no estimate of a name exceeds the first one of it, a
function that has become cheaper has a cheaper first estimate, and none is cheaper both ways.
An estimate that exceeds the first one of its name is cheaper in the analysis it comes from.
-/

namespace MoveWorkbench

namespace Comparison

/-- What is saved is not beyond what can be told in percent of the first total. -/
def Measurable (before after : Analysis) : Prop :=
  before.totalGas = 0 ∨ |before.totalGas - after.totalGas| < 2 ^ 1000 * |before.totalGas|

theorem measurable_self (a : Analysis) : Measurable a a := by
  unfold Measurable
  rw [sub_self, abs_zero, or_iff_not_imp_left]
  exact fun h => mul_pos (by positivity) (abs_pos.mpr h)

/-- Only a second total of astronomic size is beyond it. -/
theorem measurable_of_lt {before after : Analysis} (h : |after.totalGas| < 2 ^ 999) :
    Measurable before after := by
  unfold Measurable
  rw [or_iff_not_imp_left, pow_succ]
  intro hzero
  have hone : 1 ≤ |before.totalGas| := Int.one_le_abs hzero
  have hpower : (1 : ℤ) ≤ 2 ^ 999 := one_le_pow₀ (by norm_num)
  generalize (2 : ℤ) ^ 999 = power at *
  have hdifference : |before.totalGas - after.totalGas| ≤ |before.totalGas| + |after.totalGas| :=
    abs_sub _ _
  nlinarith

section Percent

open Binary64

variable {n saved total k : ℤ}

theorem exists_hundredth (hlow : 0 ≤ k) (hhigh : k ≤ 1023) (h : |(n : ℚ)| ≤ 2 ^ k + 1) :
    ∃ p, quotient? n 100 = .ok p := by
  have hpower : (1 : ℚ) ≤ 2 ^ k := one_le_zpow₀ (by norm_num) hlow
  have hhundred : |((100 : ℤ) : ℚ)| = 100 := by norm_num
  have hpart : |(n : ℚ) / (100 : ℤ)| < 2 ^ k := by
    rw [abs_div, hhundred, div_lt_iff₀ (by norm_num)]
    linarith
  obtain ⟨p, hp, -⟩ := exists_ofRat? hhigh hpart
  exact ⟨p, hp⟩

/-- A part that is below two to the thousandth can be told in percent. -/
theorem exists_percent (h : total = 0 ∨ |saved| < 2 ^ 1000 * |total|) :
    ∃ p, percent saved total = .ok p := by
  unfold percent
  by_cases hzero : total = 0
  · rw [if_pos hzero]
    exact ⟨_, rfl⟩
  have hpos : (0 : ℚ) < |(total : ℚ)| := abs_pos.mpr (by exact_mod_cast hzero)
  have hpart : |(saved : ℚ) / total| < 2 ^ (1000 : ℤ) := by
    have hless := (Int.cast_lt (R := ℚ)).mpr (h.resolve_left hzero)
    rw [Int.cast_mul, Int.cast_pow, Int.cast_abs, Int.cast_abs] at hless
    rw [abs_div, div_lt_iff₀ hpos]
    exact hless
  have hhundred : |(100 : ℚ)| < 2 ^ (7 : ℤ) := by
    rw [abs_of_pos (by norm_num)]
    norm_num
  have hhalf : |(1 / 2 : ℚ)| < 2 ^ (1016 : ℤ) := by
    rw [abs_of_pos (by norm_num)]
    exact (by norm_num : (1 / 2 : ℚ) < 1).trans_le (one_le_zpow₀ (by norm_num) (by norm_num))
  obtain ⟨part, hround, hsize⟩ := exists_ofRat? (by omega) hpart
  have hfactor := within_ofRat (by omega) hhundred
  have hproduct := (hsize.mul hfactor (by omega)).mul hfactor (by omega)
  have hsum := hproduct.add (within_ofRat (by omega) hhalf) (by omega)
  obtain ⟨n, hfloor, hn⟩ := hsum.exists_floor
  obtain ⟨p, hp⟩ := exists_hundredth (by omega) (by omega) hn
  rw [if_neg hzero]
  exact ⟨p, Partial.bind_eq_ok.mpr ⟨part, hround, Partial.bind_eq_ok.mpr ⟨n, hfloor, hp⟩⟩⟩

end Percent

/-- A comparison that is measurable is given. -/
theorem exists_of {before after : Analysis} (h : Measurable before after) :
    ∃ c, of before after = .ok c := by
  obtain ⟨p, hp⟩ := exists_percent h
  exact ⟨_, Partial.bind_eq_ok.mpr ⟨p, hp, rfl⟩⟩

/-- What a comparison says about totals and about functions. -/
theorem parts_of_eq_ok {before after : Analysis} {c : Comparison} (h : of before after = .ok c) :
    c.gasSaved = before.totalGas - after.totalGas ∧
      c.improved = improvedFunctions before.estimates after.estimates := by
  obtain ⟨p, -, hc⟩ := Partial.bind_eq_ok.mp h
  cases hc
  exact ⟨rfl, rfl⟩

def FirstIsHighest (f : String) (estimates : List Estimate) : Prop :=
  ∀ first, estimates.find? (·.function == f) = some first →
    ∀ e ∈ estimates, e.function = f → e.gas ≤ first.gas

variable {f : String} {estimates before after : List Estimate}

theorem firstIsHighest_of_nodup (h : (estimates.map (·.function)).Nodup) (f : String) :
    FirstIsHighest f estimates := by
  intro first hfirst e he hname
  have hfound := List.find?_some hfirst
  have heq : e = first := by
    refine List.inj_on_of_nodup_map h he (List.mem_of_find?_eq_some hfirst) ?_
    rw [hname]
    exact (beq_iff_eq.mp hfound).symm
  rw [heq]

theorem mem_improvedFunctions : f ∈ improvedFunctions before after ↔ ∃ e ∈ before,
    e.function = f ∧ ∃ first, after.find? (·.function == f) = some first ∧ first.gas < e.gas := by
  unfold improvedFunctions
  rw [List.mem_map]
  constructor
  · rintro ⟨e, he, rfl⟩
    rw [List.mem_filter, Option.any_eq_true] at he
    obtain ⟨hmem, first, hfirst, hless⟩ := he
    exact ⟨e, hmem, rfl, first, hfirst, of_decide_eq_true hless⟩
  · rintro ⟨e, hmem, rfl, first, hfirst, hless⟩
    refine ⟨e, List.mem_filter.mpr ⟨hmem, ?_⟩, rfl⟩
    exact (Option.any_eq_true ..).mpr ⟨first, hfirst, decide_eq_true hless⟩

/-- The first estimate of a function has become cheaper when one of them has and the first one
is the highest. -/
theorem FirstIsHighest.first_lt (h : FirstIsHighest f before)
    (himproved : f ∈ improvedFunctions before after) :
    ∃ first first', before.find? (·.function == f) = some first ∧
      after.find? (·.function == f) = some first' ∧ first'.gas < first.gas := by
  obtain ⟨e, he, hname, first', hfirst', hless⟩ := mem_improvedFunctions.mp himproved
  have hsome : (before.find? (·.function == f)).isSome = true :=
    List.find?_isSome.mpr ⟨e, he, beq_iff_eq.mpr hname⟩
  obtain ⟨first, hfirst⟩ := Option.isSome_iff_exists.mp hsome
  exact ⟨first, first', hfirst, hfirst', hless.trans_le (h first hfirst e he hname)⟩

/-- No function has become cheaper both ways when its first estimates are the highest. -/
theorem FirstIsHighest.not_improved_back (hbefore : FirstIsHighest f before)
    (hafter : FirstIsHighest f after) (h : f ∈ improvedFunctions before after) :
    f ∉ improvedFunctions after before := by
  intro hback
  obtain ⟨first, first', hfirst, hfirst', hless⟩ := hbefore.first_lt h
  obtain ⟨second', second, hsecond', hsecond, hmore⟩ := hafter.first_lt hback
  cases hfirst.symm.trans hsecond
  cases hfirst'.symm.trans hsecond'
  exact lt_asymm hless hmore

/-- Held against the estimates it comes from, a function has become cheaper just when one of its
estimates exceeds the first. -/
theorem mem_improvedFunctions_self :
    f ∈ improvedFunctions estimates estimates ↔ ¬ FirstIsHighest f estimates := by
  rw [mem_improvedFunctions]
  unfold FirstIsHighest
  push Not
  constructor
  · rintro ⟨e, he, hname, first, hfirst, hless⟩
    exact ⟨first, hfirst, e, he, hname, hless⟩
  · rintro ⟨first, hfirst, e, he, hname, hless⟩
    exact ⟨e, he, hname, first, hfirst, hless⟩

end Comparison

namespace Workspace

open Comparison

variable {w : Workspace} {i j : Atom} {a b : Analysis}

/-- Stored analyses are compared as they are. -/
theorem compare_eq_ok {c : Comparison} (ha : w.analysis? i = some a) (hb : w.analysis? j = some b) :
    w.compare i j = .ok (some c) ↔ Comparison.of a b = .ok c := by
  unfold compare
  rw [ha, hb]
  change (Comparison.of a b).map some = _ ↔ _
  simp [Partial.map_eq_ok]

/-- Two stored analyses save opposite amounts of gas. A function has become cheaper both ways
only where one of its estimates exceeds the first, and in an analysis held against itself just
there. -/
theorem compare_swap (ha : w.analysis? i = some a) (hb : w.analysis? j = some b) :
    (Measurable a b → ∃ c, w.compare i j = .ok (some c)) ∧
      ∀ c c', w.compare i j = .ok (some c) → w.compare j i = .ok (some c') →
        c.gasSaved = -c'.gasSaved ∧
        (∀ f ∈ c.improved, f ∈ c'.improved →
          ¬ (FirstIsHighest f a.estimates ∧ FirstIsHighest f b.estimates)) ∧
        (i = j → ∀ f, f ∈ c.improved ↔ ¬ FirstIsHighest f a.estimates) := by
  refine ⟨fun h => ?_, fun c c' hc hc' => ?_⟩
  · obtain ⟨c, hc⟩ := exists_of h
    exact ⟨c, (compare_eq_ok ha hb).mpr hc⟩
  · rw [compare_eq_ok ha hb] at hc
    rw [compare_eq_ok hb ha] at hc'
    obtain ⟨hsaved, himproved⟩ := parts_of_eq_ok hc
    obtain ⟨hsaved', himproved'⟩ := parts_of_eq_ok hc'
    rw [himproved, himproved']
    refine ⟨by omega, fun f hf hf' hhighest => ?_, fun hij f => ?_⟩
    · exact hhighest.1.not_improved_back hhighest.2 hf hf'
    · subst hij
      cases ha.symm.trans hb
      exact mem_improvedFunctions_self

def exchanged : Workspace :=
  (((fresh 0).analyze "fun f() { x.borrow(); } fun g() { }").2.analyze
    "fun f() { } fun g() { x.borrow(); }").2

/-- One function has become cheaper one way and the other one the other way. -/
theorem compare_swap_exchanged : ∃ a b c c',
    exchanged.analysis? (.text "gas-0-000000000") = some a ∧
      exchanged.analysis? (.text "gas-0-000000001") = some b ∧
      Measurable a b ∧ Measurable b a ∧
      exchanged.compare (.text "gas-0-000000000") (.text "gas-0-000000001") = .ok (some c) ∧
      exchanged.compare (.text "gas-0-000000001") (.text "gas-0-000000000") = .ok (some c') ∧
      c.gasSaved = -c'.gasSaved ∧ c.improved = ["f"] ∧ c'.improved = ["g"] ∧
      ∀ f ∈ c.improved, f ∉ c'.improved := by
  have hfirst : (exchanged.analysis? (.text "gas-0-000000000")).any (fun a =>
      decide (a.totalGas = 2300 ∧ a.estimates.map (·.function) = ["f", "g"])) = true := by
    decide +kernel
  have hsecond : (exchanged.analysis? (.text "gas-0-000000001")).any (fun b =>
      decide (b.totalGas = 2300 ∧ b.estimates.map (·.function) = ["f", "g"])) = true := by
    decide +kernel
  have hf : (exchanged.compare (.text "gas-0-000000000") (.text "gas-0-000000001")).map
      (·.map (·.improved)) = .ok (some ["f"]) := by decide +kernel
  have hg : (exchanged.compare (.text "gas-0-000000001") (.text "gas-0-000000000")).map
      (·.map (·.improved)) = .ok (some ["g"]) := by decide +kernel
  obtain ⟨a, ha, htesta⟩ := (Option.any_eq_true _ _).mp hfirst
  obtain ⟨b, hb, htestb⟩ := (Option.any_eq_true _ _).mp hsecond
  obtain ⟨htotala, hnamesa⟩ := of_decide_eq_true htesta
  obtain ⟨htotalb, hnamesb⟩ := of_decide_eq_true htestb
  have hsmall : |(2300 : ℤ)| < 2 ^ 999 := by decide +kernel
  have hab : Measurable a b := measurable_of_lt (htotalb ▸ hsmall)
  have hba : Measurable b a := measurable_of_lt (htotala ▸ hsmall)
  obtain ⟨c, hc⟩ := (compare_swap ha hb).1 hab
  obtain ⟨c', hc'⟩ := (compare_swap hb ha).1 hba
  obtain ⟨hsaved, hboth, -⟩ := (compare_swap ha hb).2 c c' hc hc'
  have hhighesta (f : String) : FirstIsHighest f a.estimates :=
    firstIsHighest_of_nodup (by rw [hnamesa]; decide) f
  have hhighestb (f : String) : FirstIsHighest f b.estimates :=
    firstIsHighest_of_nodup (by rw [hnamesb]; decide) f
  rw [hc] at hf
  rw [hc'] at hg
  exact ⟨a, b, c, c', ha, hb, hab, hba, hc, hc', hsaved, Option.some.inj (Except.ok.inj hf),
    Option.some.inj (Except.ok.inj hg),
    fun f hf hf' => hboth f hf hf' ⟨hhighesta f, hhighestb f⟩⟩

def repeated : Workspace := ((fresh 0).analyze "fun f() { } fun f() { x.borrow(); }").2

/-- A function is said to have become cheaper in an analysis held against itself. -/
theorem compare_repeated : ∃ a c, repeated.analysis? (.text "gas-0-000000000") = some a ∧
    a.estimates.map (fun e => (e.function, e.gas)) = [("f", 1000), ("f", 1300)] ∧
    repeated.compare (.text "gas-0-000000000") (.text "gas-0-000000000") = .ok (some c) ∧
      c.gasSaved = 0 ∧ c.improved = ["f"] := by
  have hstored : (repeated.analysis? (.text "gas-0-000000000")).any (fun a => decide
      (a.estimates.map (fun e => (e.function, e.gas)) = [("f", 1000), ("f", 1300)])) = true := by
    decide +kernel
  obtain ⟨a, ha, htest⟩ := (Option.any_eq_true _ _).mp hstored
  obtain ⟨c, hc⟩ := exists_of (measurable_self a)
  have hmade := (compare_eq_ok ha ha).mpr hc
  have himproved : (repeated.compare (.text "gas-0-000000000") (.text "gas-0-000000000")).map
      (·.map (·.improved)) = .ok (some ["f"]) := by decide +kernel
  rw [hmade] at himproved
  exact ⟨a, c, ha, of_decide_eq_true htest, hmade, by rw [(parts_of_eq_ok hc).1, sub_self],
    Option.some.inj (Except.ok.inj himproved)⟩

end Workspace

end MoveWorkbench
