import MoveWorkbench.Proofs.Gas.Breakdown
import MoveWorkbench.Proofs.Number.Monotone
import MoveWorkbench.Proofs.Source.PhraseCount

/-!
Bodies that grow. No phrase reaches across a semicolon, so what is counted in two texts with a
semicolon between them is what is counted in both, and their costs add up but for the base cost,
which is counted once. Rounding keeps order, so what a name scales does not fall when the cost
rises, even where the estimate falls short of the exact product.
-/

namespace MoveWorkbench

namespace Operations

def add (o p : Operations) : Operations where
  storage := o.storage + p.storage
  creations := o.creations + p.creations
  events := o.events + p.events
  loops := o.loops + p.loops
  vectors := o.vectors + p.vectors
  transfers := o.transfers + p.transfers

theorem ofBody_append (as bs : List Char) :
    ofBody (as ++ ';' :: bs) = (ofBody as).add (ofBody bs) := by
  simp only [ofBody, add, Source.Family.count_append (Source.Family.partedBy_semicolon _)]

/-- The base cost is counted once. -/
theorem cost_add (o p : Operations) : (o.add p).cost + 1000 = o.cost + p.cost := by
  simp only [cost_eq, add]
  omega

theorem base_le_cost (o : Operations) : 1000 ≤ o.cost := by
  rw [cost_eq]
  omega

end Operations

namespace Estimate

section Scaled

variable {name : String} {m : ℚ} {c d : ℕ} {g h : ℤ}

theorem representable_multiplier (hm : multiplier? name = some m) :
    Representable (nearestOnGrid m) := by
  have htable : ∀ e ∈ multipliers, Representable (nearestOnGrid e.2) := by decide +kernel
  obtain ⟨e, he, rfl⟩ := Option.map_eq_some_iff.mp hm
  exact htable e (List.mem_of_find?_eq_some he)

/-- What a name makes of a cost does not fall when the cost rises. -/
theorem scaledCost_mono (hcd : c ≤ d) (hc : scaledCost name c = .ok g)
    (hd : scaledCost name d = .ok h) : g ≤ h := by
  unfold scaledCost at hc hd
  cases hname : multiplier? name with
  | none =>
    rw [hname] at hc hd
    cases hc
    cases hd
    exact_mod_cast hcd
  | some m =>
    rw [hname] at hc hd
    have hpos : 0 ≤ m := zero_le_one.trans (one_le_multiplier hname)
    exact Binary64.floorScaled_mono (representable_multiplier hname) hpos (Int.natCast_nonneg c)
      (Int.ofNat_le.mpr hcd) hc hd

/-- What a cost reaches is reached when a name scales it. -/
theorem le_scaledCost {k : ℕ} (hk : k < 2 ^ 53) (hkc : k ≤ c) (hc : scaledCost name c = .ok g) :
    (k : ℤ) ≤ g := by
  unfold scaledCost at hc
  cases hname : multiplier? name with
  | none =>
    rw [hname] at hc
    cases hc
    exact_mod_cast hkc
  | some m =>
    rw [hname] at hc
    have hrep : Representable ((k : ℤ) : ℚ) := by
      refine representable_intCast ?_
      rw [Int.cast_natCast, Nat.abs_cast]
      exact_mod_cast hk
    exact Binary64.le_of_floorScaled (representable_multiplier hname) (one_le_multiplier hname) hrep
      (Int.natCast_nonneg k) (Int.ofNat_le.mpr hkc) hc

/-- A cost of moderate size can be scaled. -/
theorem exists_scaledCost (name : String) (hc : c < 2 ^ 51) : ∃ g, scaledCost name c = .ok g := by
  unfold scaledCost
  cases hname : multiplier? name with
  | none => exact ⟨c, rfl⟩
  | some m =>
    have hfactor : m ≤ 4 := by
      have htable : ∀ e ∈ multipliers, e.2 ≤ 4 := by decide +kernel
      obtain ⟨e, he, rfl⟩ := Option.map_eq_some_iff.mp hname
      exact htable e (List.mem_of_find?_eq_some he)
    have hpos : 0 ≤ m := zero_le_one.trans (one_le_multiplier hname)
    have hpos' : (0 : ℚ) ≤ (c : ℤ) := by exact_mod_cast Int.natCast_nonneg c
    have hsize : ((c : ℤ) : ℚ) ≤ 2 ^ 51 := by exact_mod_cast hc.le
    have hcost : nearestOnGrid (c : ℤ) ≤ 2 ^ 51 :=
      (nearestOnGrid_mono hpos' hsize).trans_eq (by decide +kernel)
    have hround : nearestOnGrid m ≤ 4 :=
      (nearestOnGrid_mono hpos hfactor).trans_eq (by decide +kernel)
    have hproduct : nearestOnGrid (c : ℤ) * nearestOnGrid m ≤ 2 ^ 51 * 4 :=
      mul_le_mul hcost hround (nearestOnGrid_nonneg hpos) (by positivity)
    exact ⟨_, (Binary64.floorScaled_eq_ok (representable_multiplier hname)).mpr
      ⟨representable_of_le hpos' hsize (by decide +kernel),
        representable_of_le (mul_nonneg (nearestOnGrid_nonneg hpos') (nearestOnGrid_nonneg hpos))
          hproduct (by decide +kernel), rfl⟩⟩

end Scaled

/-- The estimates for a function with either of two bodies, and with both of them, one behind the
other. -/
structure Estimated (name module a b : String) (first second both : Estimate) : Prop where
  first : ofFunction ⟨name, module, a⟩ = .ok first
  second : ofFunction ⟨name, module, b⟩ = .ok second
  both : ofFunction ⟨name, module, a ++ ";" ++ b⟩ = .ok both

/-- Two estimates add up to another one, but for the base cost that is counted once. -/
structure AddUp (first second both : Estimate) : Prop where
  computation : both.breakdown.computation =
    first.breakdown.computation + second.breakdown.computation - 1000
  storage : both.breakdown.storage = first.breakdown.storage + second.breakdown.storage
  objectCreation : both.breakdown.objectCreation =
    first.breakdown.objectCreation + second.breakdown.objectCreation
  eventEmission : both.breakdown.eventEmission =
    first.breakdown.eventEmission + second.breakdown.eventEmission
  gas : both.gas = first.gas + second.gas - 1000

variable {name module a b : String}

theorem toList_statements (a b : String) :
    (a ++ ";" ++ b).toList = a.toList ++ ';' :: b.toList := by
  simp

/-- A function has the estimate that its operations have once its cost is scaled. -/
theorem ofFunction_eq_ok {f : Source.FunctionSource} {e : Estimate} :
    ofFunction f = .ok e ↔ ∃ g, scaledCost f.name (Operations.ofBody f.body.toList).cost = .ok g ∧
      ofOperations f (Operations.ofBody f.body.toList) g = e := by
  unfold ofFunction
  simp only [Partial.bind_eq_ok]
  constructor
  · rintro ⟨g, hg, he⟩
    exact ⟨g, hg, Except.ok.inj he⟩
  · rintro ⟨g, hg, rfl⟩
    exact ⟨g, hg, rfl⟩

/-- The operations of two bodies are those of both of them. -/
theorem ofBody_statements (a b : String) : Operations.ofBody (a ++ ";" ++ b).toList =
    (Operations.ofBody a.toList).add (Operations.ofBody b.toList) := by
  rw [toList_statements, Operations.ofBody_append]

/-- Two bodies whose costs can be scaled, together, too, have their estimates. -/
theorem estimated_of_scaledCost {first second both : ℤ}
    (ha : scaledCost name (Operations.ofBody a.toList).cost = .ok first)
    (hb : scaledCost name (Operations.ofBody b.toList).cost = .ok second)
    (hab : scaledCost name
      ((Operations.ofBody a.toList).add (Operations.ofBody b.toList)).cost = .ok both) :
    Estimated name module a b
      (ofOperations ⟨name, module, a⟩ (Operations.ofBody a.toList) first)
      (ofOperations ⟨name, module, b⟩ (Operations.ofBody b.toList) second)
      (ofOperations ⟨name, module, a ++ ";" ++ b⟩
        ((Operations.ofBody a.toList).add (Operations.ofBody b.toList)) both) := by
  refine ⟨ofFunction_eq_ok.mpr ⟨first, ha, rfl⟩, ofFunction_eq_ok.mpr ⟨second, hb, rfl⟩,
    ofFunction_eq_ok.mpr ⟨both, ?_, ?_⟩⟩
  · rw [ofBody_statements]
    exact hab
  · rw [ofBody_statements]

/-- Estimates that are not scaled add up as the costs do. -/
theorem addUp_ofOperations (f g h : Source.FunctionSource) (o p : Operations) :
    AddUp (ofOperations f o o.cost) (ofOperations g p p.cost)
      (ofOperations h (o.add p) (o.add p).cost) := by
  have hcost := Operations.cost_add o p
  constructor <;>
    simp only [ofOperations, Operations.add, Operations.storageCost, Operations.creationCost,
      Operations.eventCost] at * <;>
    omega

/-- Statements are counted apart. Where the name does not scale, the estimates for two bodies add
up; and where costs are of moderate size, more statements do not have a lower estimate. -/
theorem estimates_statements (name module a b : String) :
    (∀ f : Source.Family, f.count (a ++ ";" ++ b).toList = f.count a.toList + f.count b.toList) ∧
    (multiplier? name = none →
      ∃ first second both, Estimated name module a b first second both ∧
        AddUp first second both) ∧
    ((Operations.ofBody a.toList).cost < 2 ^ 50 → (Operations.ofBody b.toList).cost < 2 ^ 50 →
      ∃ first second both, Estimated name module a b first second both ∧
        first.gas ≤ both.gas ∧ second.gas ≤ both.gas) := by
  refine ⟨fun f => ?_, fun hname => ?_, fun ha hb => ?_⟩
  · rw [toList_statements, Source.Family.count_append f.partedBy_semicolon]
  · have hscaled (c : ℕ) : scaledCost name c = .ok c := by
      unfold scaledCost
      rw [hname]
    exact ⟨_, _, _, estimated_of_scaledCost (hscaled _) (hscaled _) (hscaled _),
      addUp_ofOperations _ _ _ _ _⟩
  · have hcost := Operations.cost_add (Operations.ofBody a.toList) (Operations.ofBody b.toList)
    have hfirst := (Operations.ofBody a.toList).base_le_cost
    have hsecond := (Operations.ofBody b.toList).base_le_cost
    obtain ⟨first, hfirst'⟩ := exists_scaledCost name (ha.trans (by norm_num))
    obtain ⟨second, hsecond'⟩ := exists_scaledCost name (hb.trans (by norm_num))
    obtain ⟨both, hboth⟩ := exists_scaledCost name
      (c := ((Operations.ofBody a.toList).add (Operations.ofBody b.toList)).cost) (by omega)
    exact ⟨_, _, _, estimated_of_scaledCost hfirst' hsecond' hboth,
      scaledCost_mono (by omega) hfirst' hboth, scaledCost_mono (by omega) hsecond' hboth⟩

/-- A keyword in front of the semicolon and a call behind it are counted still; and the name that
makes one estimate fall short by one does not make it exceed that for more statements. -/
theorem estimates_statements_payAndWithdraw :
    Source.Family.loop.count ("x.borrow(); while" ++ ";" ++ "new ()").toList = 1 ∧
    (multiplier? "pay" = none ∧ ∃ first second both,
      Estimated "pay" "m" "x.borrow(); while" "new ()" first second both ∧
        AddUp first second both ∧ both.gas = 4800) ∧
    ((Operations.ofBody "x.borrow();".toList).cost < 2 ^ 50 ∧
      (Operations.ofBody "new ()".toList).cost < 2 ^ 50 ∧ ∃ first second both,
      Estimated "withdraw" "m" "x.borrow();" "new ()" first second both ∧
        first.gas = 1819 ∧ first.gas ≤ both.gas ∧ second.gas ≤ both.gas) := by
  have hname : multiplier? "pay" = none := by decide +kernel
  have hfirst : (Operations.ofBody "x.borrow();".toList).cost < 2 ^ 50 := by decide +kernel
  have hsecond : (Operations.ofBody "new ()".toList).cost < 2 ^ 50 := by decide +kernel
  have hpay : (ofFunction ⟨"pay", "m", "x.borrow(); while" ++ ";" ++ "new ()"⟩).map (·.gas) =
      .ok 4800 := by decide +kernel
  have hwithdraw : (ofFunction ⟨"withdraw", "m", "x.borrow();"⟩).map (·.gas) = .ok 1819 := by
    decide +kernel
  have hstatements := estimates_statements "pay" "m" "x.borrow(); while" "new ()"
  refine ⟨?_, ⟨hname, ?_⟩, hfirst, hsecond, ?_⟩
  · rw [hstatements.1]
    decide +kernel
  · obtain ⟨first, second, both, hestimated, hsum⟩ := hstatements.2.1 hname
    rw [hestimated.both] at hpay
    exact ⟨first, second, both, hestimated, hsum, Except.ok.inj hpay⟩
  · obtain ⟨first, second, both, hestimated, hle⟩ :=
      (estimates_statements "withdraw" "m" "x.borrow();" "new ()").2.2 hfirst hsecond
    rw [hestimated.first] at hwithdraw
    exact ⟨first, second, both, hestimated, Except.ok.inj hwithdraw, hle⟩

end Estimate

end MoveWorkbench
