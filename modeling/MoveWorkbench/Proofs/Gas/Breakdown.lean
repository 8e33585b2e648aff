import Mathlib.Algebra.Order.BigOperators.Group.List
import MoveWorkbench.Gas.Analysis
import MoveWorkbench.Proofs.Gas.Scaling

/-!
Breakdowns. No factor of a name is below one, and where a scaled cost falls short, it does so by
one and the factor is 7/5, so an estimate is never below the cost that it scales. Storage, new
objects and events are as they were counted, whatever the factor. Computation takes up what the
factor adds, so it is not below what it was before.
-/

namespace MoveWorkbench

namespace Breakdown

structure Nonneg (b : Breakdown) : Prop where
  computation : 0 ≤ b.computation
  storage : 0 ≤ b.storage
  objectCreation : 0 ≤ b.objectCreation
  eventEmission : 0 ≤ b.eventEmission

end Breakdown

namespace Operations

theorem baseCost_le_computationCost (o : Operations) : baseCost ≤ o.computationCost := by
  unfold computationCost
  omega

end Operations

namespace Estimate

variable {name : String} {m : ℚ} {cost : ℕ}

theorem one_le_multiplier (h : multiplier? name = some m) : 1 ≤ m := by
  have htable : ∀ e ∈ multipliers, 1 ≤ e.2 := by decide +kernel
  obtain ⟨e, he, rfl⟩ := Option.map_eq_some_iff.mp h
  exact htable e (List.mem_of_find?_eq_some he)

theorem le_exactCost (name : String) (cost : ℕ) : (cost : ℤ) ≤ exactCost name cost := by
  unfold exactCost
  split
  · rename_i factor hfactor
    rw [Rat.le_floor_iff, Int.cast_natCast]
    exact le_mul_of_one_le_right (Nat.cast_nonneg cost) (one_le_multiplier hfactor)
  · exact le_rfl

/-- What falls short is more than the cost by two fifths of it. -/
theorem FallsShort.lt_exactCost (h : FallsShort name cost) (hcost : 3 ≤ cost) :
    (cost : ℤ) < exactCost name cost := by
  have hthree : (3 : ℚ) ≤ cost := by exact_mod_cast hcost
  simp only [exactCost, h.1]
  rw [← Int.add_one_le_iff, Rat.le_floor_iff]
  push_cast
  linarith

/-- A cost is not below what it was before it was scaled. -/
theorem le_of_scaledCost {gas : ℤ} {k : ℕ} (hk : 0 < k) (hsmall : 100 * k < 2 ^ 50)
    (h : scaledCost name (100 * k) = .ok gas) : ((100 * k : ℕ) : ℤ) ≤ gas := by
  rw [scaledCost_eq hk hsmall] at h
  cases h
  have hexact := le_exactCost name (100 * k)
  split
  · rename_i hshort
    have hless := hshort.lt_exactCost (by omega)
    omega
  · omega

/-- What the estimate for a body says: its categories are those that were counted, they add up to
it, and it is not below the cost of the body. -/
structure Sound (body : List Char) (e : Estimate) : Prop where
  nonneg : e.breakdown.Nonneg
  computation : 1000 ≤ e.breakdown.computation
  storage : e.breakdown.storage = 300 * Source.Family.storage.count body
  objectCreation : e.breakdown.objectCreation = 2000 * Source.Family.creation.count body
  eventEmission : e.breakdown.eventEmission = 200 * Source.Family.event.count body
  total : e.breakdown.total = e.gas
  cost_le : (Operations.ofBody body).cost ≤ e.gas

/-- An estimate that is not below the cost is sound. -/
theorem sound_ofOperations (f : Source.FunctionSource) {gas : ℤ}
    (h : (Operations.ofBody f.body.toList).cost ≤ gas) :
    (ofOperations f (Operations.ofBody f.body.toList) gas).Sound f.body.toList := by
  have hcomputation := (Operations.ofBody f.body.toList).baseCost_le_computationCost
  have hrest : (1000 : ℤ) ≤ (ofOperations f (Operations.ofBody f.body.toList) gas
      ).breakdown.computation := by
    unfold Operations.cost Operations.baseCost at *
    unfold ofOperations
    dsimp only
    omega
  exact {
    nonneg := ⟨by omega, Int.natCast_nonneg _, Int.natCast_nonneg _, Int.natCast_nonneg _⟩
    computation := hrest
    storage := Int.natCast_mul _ _
    objectCreation := Int.natCast_mul _ _
    eventEmission := Int.natCast_mul _ _
    total := total_ofOperations f _ gas
    cost_le := h }

/-- Every function whose cost is small enough has an estimate, and that is sound. -/
theorem exists_sound (f : Source.FunctionSource)
    (hsmall : (Operations.ofBody f.body.toList).cost < 2 ^ 50) :
    ∃ e, ofFunction f = .ok e ∧ e.Sound f.body.toList := by
  obtain ⟨k, hk, hcost⟩ := (Operations.ofBody f.body.toList).exists_cost_eq_mul
  rw [hcost] at hsmall
  obtain ⟨gas, hscaled⟩ : ∃ gas, scaledCost f.name (100 * k) = .ok gas :=
    ⟨_, scaledCost_eq hk hsmall⟩
  have hle := le_of_scaledCost hk hsmall hscaled
  rw [← hcost] at hscaled hle
  exact ⟨_, Partial.bind_eq_ok.mpr ⟨gas, hscaled, rfl⟩, sound_ofOperations f hle⟩

theorem Sound.base_le_gas {body : List Char} {e : Estimate} (h : e.Sound body) : 1000 ≤ e.gas := by
  have hcost := h.cost_le
  rw [Operations.cost_eq] at hcost
  omega

end Estimate

namespace Summary

/-- A total is not below what each estimate is at least. -/
theorem mul_length_le_total {n : ℤ} {estimates : List Estimate}
    (h : ∀ e ∈ estimates, n ≤ e.gas) : n * estimates.length ≤ total estimates := by
  have hsum := List.card_nsmul_le_sum (estimates.map (·.gas)) n (List.forall_mem_map.mpr h)
  rw [List.length_map, nsmul_eq_mul, mul_comm] at hsum
  exact hsum

end Summary

namespace Analysis

structure Examined (a : Analysis) : Prop where
  examine : examine a.code = .ok (a.estimates, a.findings, a.summary)
  totalGas : a.totalGas = Summary.total a.estimates

/-- The estimates of an analysis are those for the functions of its text, one by one. -/
theorem Examined.estimates {a : Analysis} (h : a.Examined) :
    List.Forall₂ (fun f e => Estimate.ofFunction f = .ok e) (Source.functions a.code)
      a.estimates := by
  obtain ⟨estimates, hestimates, hrest⟩ := Partial.bind_eq_ok.mp h.examine
  obtain ⟨findings, -, hrest⟩ := Partial.bind_eq_ok.mp hrest
  obtain ⟨summary, -, hresult⟩ := Partial.bind_eq_ok.mp hrest
  cases hresult
  exact Partial.mapM_eq_ok.mp hestimates

/-- An analysis of functions whose costs are small enough counts each of them with the base cost
at least. -/
theorem Examined.base_le_totalGas {a : Analysis} (h : a.Examined)
    (hsmall : ∀ f ∈ Source.functions a.code, (Operations.ofBody f.body.toList).cost < 2 ^ 50) :
    1000 * ((Source.functions a.code).length : ℤ) ≤ a.totalGas := by
  have hgas : ∀ e ∈ a.estimates, 1000 ≤ e.gas := by
    intro e he
    obtain ⟨f, hf, hfound⟩ := Partial.exists_of_mem_forall₂ h.estimates he
    obtain ⟨e', hfound', hsound⟩ := Estimate.exists_sound f (hsmall f hf)
    cases hfound.symm.trans hfound'
    exact hsound.base_le_gas
  rw [h.totalGas, h.estimates.length_eq]
  exact Summary.mul_length_le_total hgas

end Analysis

end MoveWorkbench
