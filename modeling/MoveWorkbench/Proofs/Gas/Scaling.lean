import Mathlib.Data.Nat.Prime.Basic
import MoveWorkbench.Gas.Estimate
import MoveWorkbench.Proofs.Number.Integer
import MoveWorkbench.Proofs.Partial

/-!
Costs that a name scales. A cost is a multiple of one hundred and a factor has one decimal, so
the scaled cost is an integer. The double of a factor is the factor itself, or lies above it or
below it by a small part of a spacing. From above the product is rounded to the integer or to a
little more, which the floor takes back. The double of 6/5 lies below, but so little that the
product is rounded back to the integer. The double of 7/5 lies below by twice as much, and where
the scaled cost lies in the last quarter between two powers of two the product is rounded to the
double under the integer, of which the floor is one less.
-/

namespace MoveWorkbench

namespace Operations

theorem cost_eq (o : Operations) : o.cost = 1000 + 300 * o.storage + 2000 * o.creations +
    200 * o.events + 1500 * o.loops + 100 * o.vectors + 500 * o.transfers := by
  unfold cost computationCost storageCost creationCost eventCost baseCost
  omega

theorem exists_cost_eq_mul (o : Operations) : ∃ k, 0 < k ∧ o.cost = 100 * k := by
  refine ⟨10 + 3 * o.storage + 20 * o.creations + 2 * o.events + 15 * o.loops + o.vectors +
    5 * o.transfers, by omega, ?_⟩
  rw [cost_eq]
  omega

end Operations

namespace Estimate

def exactCost (name : String) (cost : ℕ) : ℤ :=
  match multiplier? name with
  | some factor => (cost * factor : ℚ).floor
  | none => cost

/-- The factor is 7/5, and the scaled cost lies in the last quarter between two powers of two. -/
def FallsShort (name : String) (cost : ℕ) : Prop :=
  multiplier? name = some (7 / 5) ∧ 7 * 2 ^ (7 * cost / 5).log2 < 4 * (7 * cost / 5)

instance (name : String) (cost : ℕ) : Decidable (FallsShort name cost) :=
  inferInstanceAs (Decidable (_ ∧ _))

/-- A factor has one decimal, and its double is not below it by more than a part of a spacing
above it, but for two factors whose doubles lie below. -/
structure ScalesUp (m : ℚ) : Prop where
  pos : 0 < m
  le : m ≤ 5 / 2
  decimal : (10 * m).den = 1
  low : m ≤ nearestOnGrid m
  high : nearestOnGrid m ≤ m + 2 / 5 / 2 ^ 52

instance : DecidablePred ScalesUp := fun m =>
  decidable_of_iff (0 < m ∧ m ≤ 5 / 2 ∧ (10 * m).den = 1 ∧ m ≤ nearestOnGrid m ∧
    nearestOnGrid m ≤ m + 2 / 5 / 2 ^ 52)
    ⟨fun h => ⟨h.1, h.2.1, h.2.2.1, h.2.2.2.1, h.2.2.2.2⟩,
      fun h => ⟨h.pos, h.le, h.decimal, h.low, h.high⟩⟩

theorem multiplier?_cases {name : String} {m : ℚ} (h : multiplier? name = some m) :
    m = 6 / 5 ∨ m = 7 / 5 ∨ ScalesUp m := by
  have htable : ∀ e ∈ multipliers, e.2 = 6 / 5 ∨ e.2 = 7 / 5 ∨ ScalesUp e.2 := by decide +kernel
  obtain ⟨e, he, rfl⟩ := Option.map_eq_some_iff.mp h
  exact htable e (List.mem_of_find?_eq_some he)

variable {c : ℕ} {m d : ℚ}

/-- A cost is a double, so that only the product of the two doubles is rounded. -/
theorem floorScaled_eq (hc : 0 < c) (hsmall : c < 2 ^ 50) (hd : nearestOnGrid m = d)
    (hpos : 0 < d) (hless : d < 8) :
    Binary64.floorScaled c (.ofRat m) = .ok (nearestOnGrid (c * d)).floor := by
  have hcost : (0 : ℚ) < c := by exact_mod_cast hc
  have hcostSmall : (c : ℚ) < 2 ^ 50 := by exact_mod_cast hsmall
  have hrepCost : Representable (c : ℚ) := by
    have := representable_intCast (n := c) (by
      rw [Int.cast_natCast, abs_of_pos hcost]
      linarith)
    rwa [Int.cast_natCast] at this
  have hrepFactor : Representable d := by
    have hlimit : (8 : ℚ) < 2 ^ 1024 := by
      calc (8 : ℚ) < 2 ^ 4 := by norm_num
        _ < 2 ^ 1024 := pow_lt_pow_right₀ (by norm_num) (by norm_num)
    rw [← hd]
    refine representable_nearestOnGrid ?_
    rw [hd, abs_of_pos hpos]
    exact hless.trans hlimit
  have hproduct : c * d ≠ 0 := (mul_pos hcost hpos).ne'
  have hbound : |(c * d : ℚ)| < 2 ^ 53 := by
    rw [abs_of_pos (mul_pos hcost hpos)]
    nlinarith
  have hofInt : Binary64.ofInt? c = .ok (.real c hrepCost) := by
    unfold Binary64.ofInt? Binary64.ofRat?
    rw [Int.cast_natCast, Binary64.ofRat_of_representable hrepCost]
  have hmul : (Binary64.real c hrepCost).mul (.real d hrepFactor) = .ofRat (c * d) := by
    simp [Binary64.mul, Binary64.value?, hproduct]
  unfold Binary64.floorScaled
  rw [hofInt, Binary64.ofRat_eq_real hrepFactor hd]
  change ((Binary64.real c hrepCost).mul (.real d hrepFactor)).floor = _
  rw [hmul, Binary64.floor_ofRat hbound]

/-- A factor whose double is not below it scales exactly. -/
theorem ScalesUp.floor_product {n : ℤ} (h : ScalesUp m) (hc : 0 < c) (hsmall : c < 2 ^ 50)
    (hn : (c * m : ℚ) = n) : (nearestOnGrid (c * nearestOnGrid m)).floor = n := by
  obtain ⟨hpos, hless, -, hlow, hhigh⟩ := h
  have hcost : (0 : ℚ) < c := by exact_mod_cast hc
  have hcostSmall : (c : ℚ) < 2 ^ 50 := by exact_mod_cast hsmall
  have hproduct : 0 < c * nearestOnGrid m := mul_pos hcost (hpos.trans_le hlow)
  apply floor_nearestOnGrid_of_le hproduct.ne'
  · rw [abs_of_pos hproduct]
    nlinarith
  · rw [← hn]
    exact mul_le_mul_of_nonneg_left hlow hcost.le
  · rw [← hn]
    nlinarith

section Below

variable {n : ℕ}

/-- A multiple of an odd prime is no power of two. -/
theorem two_pow_log2_lt {p : ℕ} (hp : p.Prime) (hodd : p ≠ 2) (hn : 0 < n) (h : p ∣ n) :
    2 ^ n.log2 < n := by
  refine lt_of_le_of_ne (Nat.log2_self_le hn.ne') fun heq => hodd ?_
  rw [← heq] at h
  exact (Nat.prime_dvd_prime_iff_eq hp Nat.prime_two).mp (hp.dvd_of_dvd_pow h)

/-- A little below an integer that is no power of two the spacing is that around the integer. -/
theorem spacing_sub (hn : 2 ^ n.log2 < n) (part : ℚ) (hlow : 0 ≤ part) (hhigh : part ≤ 1) :
    spacing (n - part) = 2 ^ n.log2 / 2 ^ 52 := by
  have hsucc : (2 : ℚ) ^ n.log2 + 1 ≤ n := by exact_mod_cast hn
  have hlt : (n : ℚ) < 2 ^ (n.log2 + 1) := by exact_mod_cast Nat.lt_log2_self
  have hpos : (0 : ℚ) < 2 ^ n.log2 := by positivity
  have habs : |(n - part : ℚ)| = n - part := abs_of_pos (by linarith)
  have hexp : binaryExponent (n - part) = n.log2 := by
    apply binaryExponent_eq
    · rw [habs, zpow_natCast]
      linarith
    · rw [habs]
      have hcast : (2 : ℚ) ^ ((n.log2 : ℤ) + 1) = 2 ^ (n.log2 + 1) := by
        exact_mod_cast zpow_natCast (2 : ℚ) (n.log2 + 1)
      rw [hcast]
      linarith
  have hmax : spacingExponent (n - part) = n.log2 - 52 := by
    unfold spacingExponent
    rw [hexp]
    omega
  rw [spacing_eq, hmax, zpow_sub₀ (by norm_num), zpow_natCast]
  norm_num

/-- What lies below an integer by less than half the spacing around it is rounded to it. -/
theorem nearestOnGrid_sub (hn : 2 ^ n.log2 < n) (hsmall : n < 2 ^ 52) {part : ℚ} (hlow : 0 ≤ part)
    (hless : part < 2 ^ n.log2 / 2 ^ 53) : nearestOnGrid (n - part) = n := by
  have hpower : (2 : ℚ) ^ n.log2 < n := by exact_mod_cast hn
  have hlarge : (n : ℚ) < 2 ^ 52 := by exact_mod_cast hsmall
  have hone : (1 : ℚ) ≤ 2 ^ n.log2 := one_le_pow₀ (by norm_num)
  have hvalue : (0 : ℚ) < n - part := by linarith
  have hgrid := nearestOnGrid_eq_intCast (n := n) hvalue.ne' (by
    rw [abs_of_pos hvalue]
    linarith) (by
    rw [spacing_sub hn part hlow (by linarith), Int.cast_natCast, sub_sub_cancel_left, abs_neg,
      abs_of_nonneg hlow]
    linarith)
  rw [hgrid, Int.cast_natCast]

theorem floor_natCast (n : ℕ) : (n : ℚ).floor = n := floor_eq (by simp) (by simp)

theorem lt_two_pow_log2_mul_two (n : ℕ) : (n : ℚ) < 2 ^ n.log2 * 2 := by
  exact_mod_cast pow_succ 2 n.log2 ▸ Nat.lt_log2_self (n := n)

variable {k : ℕ}

/-- The double of 6/5 lies below it, but the product is rounded back to the integer. -/
theorem floor_six_fifths (hk : 0 < k) (hsmall : 100 * k < 2 ^ 50) :
    (nearestOnGrid ((100 * k : ℕ) * (6 / 5 - 1 / 5 / 2 ^ 52))).floor = (120 * k : ℕ) := by
  have hpos : (0 : ℚ) < k := by exact_mod_cast hk
  have hproduct : ((100 * k : ℕ) * (6 / 5 - 1 / 5 / 2 ^ 52) : ℚ) =
      (120 * k : ℕ) - 20 * k / 2 ^ 52 := by
    push_cast
    ring
  have hpower : 2 ^ (120 * k).log2 < 120 * k :=
    two_pow_log2_lt Nat.prime_three (by norm_num) (by omega) ⟨40 * k, by ring⟩
  have hdouble := lt_two_pow_log2_mul_two (120 * k)
  push_cast at hdouble
  rw [hproduct, nearestOnGrid_sub hpower (by omega) (by positivity) (by linarith), floor_natCast]

/-- The double of 7/5 lies below it, and the product is rounded back to the integer in the first
three quarters between two powers of two only. -/
theorem floor_seven_fifths (hk : 0 < k) (hsmall : 100 * k < 2 ^ 50) :
    (nearestOnGrid ((100 * k : ℕ) * (7 / 5 - 2 / 5 / 2 ^ 52))).floor =
      (140 * k : ℕ) - if 7 * 2 ^ (140 * k).log2 < 4 * (140 * k) then 1 else 0 := by
  have hpos : (0 : ℚ) < k := by exact_mod_cast hk
  have hcost : (100 * k : ℚ) < 2 ^ 50 := by exact_mod_cast hsmall
  have hproduct : ((100 * k : ℕ) * (7 / 5 - 2 / 5 / 2 ^ 52) : ℚ) =
      (140 * k : ℕ) - 40 * k / 2 ^ 52 := by
    push_cast
    ring
  have hpower : 2 ^ (140 * k).log2 < 140 * k :=
    two_pow_log2_lt Nat.prime_seven (by norm_num) (by omega) ⟨20 * k, by ring⟩
  have hspacing := spacing_sub hpower (40 * k / 2 ^ 52) (by positivity) (by linarith)
  rw [hproduct]
  rcases lt_trichotomy (4 * (140 * k)) (7 * 2 ^ (140 * k).log2) with hfirst | htie | hlast
  · have hquarter : (4 * (140 * k : ℕ) : ℚ) < 7 * 2 ^ (140 * k).log2 := by exact_mod_cast hfirst
    push_cast at hquarter
    rw [if_neg (by omega), nearestOnGrid_sub hpower (by omega) (by positivity) (by linarith),
      floor_natCast, sub_zero]
  · -- halfway between two doubles, of which the integer is the even one
    have hquarter : (4 * (140 * k : ℕ) : ℚ) = 7 * 2 ^ (140 * k).log2 := by exact_mod_cast htie
    push_cast at hquarter
    have hquot : ((140 * k : ℕ) - 40 * k / 2 ^ 52 : ℚ) / (2 ^ (140 * k).log2 / 2 ^ 52) =
        7 * 2 ^ 50 - 1 / 2 := by
      rw [div_eq_iff (by positivity)]
      push_cast
      linarith
    have heven : nearestEven (7 * 2 ^ 50 - 1 / 2) = 7 * 2 ^ 50 := by decide +kernel
    have hgrid : nearestOnGrid ((140 * k : ℕ) - 40 * k / 2 ^ 52) = (140 * k : ℕ) := by
      unfold nearestOnGrid
      rw [hspacing, hquot, heven]
      push_cast
      linarith
    rw [if_neg (by omega), hgrid, floor_natCast, sub_zero]
  · have hquarter : (7 * 2 ^ (140 * k).log2 : ℚ) < 4 * (140 * k : ℕ) := by exact_mod_cast hlast
    have hbelow : (2 : ℚ) ^ (140 * k).log2 < (140 * k : ℕ) := by exact_mod_cast hpower
    have hdouble := lt_two_pow_log2_mul_two (140 * k)
    have hvalue : (0 : ℚ) < (140 * k : ℕ) - 40 * k / 2 ^ 52 := by
      push_cast
      linarith
    have hbound : |((140 * k : ℕ) - 40 * k / 2 ^ 52 : ℚ)| < 2 ^ 52 := by
      rw [abs_of_pos hvalue]
      push_cast
      linarith
    have hgrid := nearestOnGrid_eq_sub_spacing (n := (140 * k : ℕ)) hvalue.ne'
      (hbound.trans (by norm_num)) (by
        rw [hspacing]
        push_cast at hquarter ⊢
        linarith) (by
        rw [hspacing]
        push_cast at hbelow hdouble ⊢
        linarith)
    have hhalf := spacing_le_half hvalue.ne' hbound
    have hs := spacing_pos ((140 * k : ℕ) - 40 * k / 2 ^ 52 : ℚ)
    rw [if_pos hlast, hgrid]
    apply floor_eq
    · push_cast at *
      linarith
    · push_cast at *
      linarith

end Below

section Table

variable {name : String} {cost : ℕ}

theorem exactCost_eq {n : ℤ} (h : multiplier? name = some m) (hn : (cost * m : ℚ) = n) :
    exactCost name cost = n := by
  simp only [exactCost, h, hn]
  exact floor_eq le_rfl (by linarith)

theorem not_fallsShort (h : multiplier? name ≠ some (7 / 5)) : ¬ FallsShort name cost :=
  fun hshort => h hshort.1

end Table

/-- What is given for a cost that a name scales is the floor of the exact product, but one less
where it falls short. -/
theorem scaledCost_eq {name : String} {k : ℕ} (hk : 0 < k) (hsmall : 100 * k < 2 ^ 50) :
    scaledCost name (100 * k) =
      .ok (exactCost name (100 * k) - if FallsShort name (100 * k) then 1 else 0) := by
  have hc : 0 < 100 * k := by omega
  cases hfactor : multiplier? name with
  | none =>
    rw [if_neg (not_fallsShort (by simp [hfactor]))]
    simp [scaledCost, exactCost, hfactor]
  | some m =>
    simp only [scaledCost, hfactor]
    rcases multiplier?_cases hfactor with rfl | rfl | hup
    · have hdouble : nearestOnGrid (6 / 5) = 6 / 5 - 1 / 5 / 2 ^ 52 := by decide +kernel
      have hexact : exactCost name (100 * k) = (120 * k : ℕ) :=
        exactCost_eq hfactor (by push_cast; ring)
      rw [floorScaled_eq hc hsmall hdouble (by norm_num) (by norm_num), floor_six_fifths hk hsmall,
        hexact, if_neg (not_fallsShort (by rw [hfactor]; decide +kernel)), sub_zero]
    · have hdouble : nearestOnGrid (7 / 5) = 7 / 5 - 2 / 5 / 2 ^ 52 := by decide +kernel
      have hexact : exactCost name (100 * k) = (140 * k : ℕ) :=
        exactCost_eq hfactor (by push_cast; ring)
      have hlast : FallsShort name (100 * k) ↔ 7 * 2 ^ (140 * k).log2 < 4 * (140 * k) := by
        unfold FallsShort
        rw [hfactor, show 7 * (100 * k) / 5 = 140 * k by omega, and_iff_right rfl]
      rw [floorScaled_eq hc hsmall hdouble (by norm_num) (by norm_num),
        floor_seven_fifths hk hsmall, hexact]
      simp only [hlast]
    · obtain ⟨j, hj⟩ := den_eq_one_iff.mp hup.decimal
      have hn : ((100 * k : ℕ) * m : ℚ) = (10 * k * j : ℤ) := by
        push_cast
        rw [← hj]
        ring
      have hne : multiplier? name ≠ some (7 / 5) := by
        rw [hfactor]
        rintro ⟨⟩
        have hnot : ¬ ScalesUp (7 / 5) := by decide +kernel
        exact hnot hup
      have hless : nearestOnGrid m < 8 := by linarith [hup.le, hup.high]
      rw [floorScaled_eq hc hsmall rfl (hup.pos.trans_le hup.low) hless,
        hup.floor_product hc hsmall hn, exactCost_eq hfactor hn, if_neg (not_fallsShort hne),
        sub_zero]

/-- The estimate for a function is the floor of its cost times the factor of its name, but one
less where that falls short. -/
theorem gas_ofFunction (f : Source.FunctionSource)
    (hsmall : (Operations.ofBody f.body.toList).cost < 2 ^ 50) :
    ∃ e, ofFunction f = .ok e ∧ e.gas = exactCost f.name (Operations.ofBody f.body.toList).cost -
      if FallsShort f.name (Operations.ofBody f.body.toList).cost then 1 else 0 := by
  obtain ⟨k, hk, hcost⟩ := (Operations.ofBody f.body.toList).exists_cost_eq_mul
  rw [hcost] at hsmall ⊢
  refine ⟨_, Partial.bind_eq_ok.mpr ⟨_, ?_, rfl⟩, rfl⟩
  rw [hcost]
  exact scaledCost_eq hk hsmall

def withdraw : Source.FunctionSource where
  name := "withdraw"
  module := "m::n"
  body := "x.borrow();"

/-- Its cost of 1300 is given as 1819, one less than 7/5 of it. -/
theorem gas_ofFunction_withdraw :
    (Operations.ofBody withdraw.body.toList).cost < 2 ^ 50 ∧
      FallsShort withdraw.name (Operations.ofBody withdraw.body.toList).cost ∧
      ∃ e, ofFunction withdraw = .ok e ∧ e.gas = 1819 := by
  have hsmall : (Operations.ofBody withdraw.body.toList).cost < 2 ^ 50 := by decide +kernel
  have hshort : FallsShort withdraw.name (Operations.ofBody withdraw.body.toList).cost := by
    decide +kernel
  have hexact : exactCost withdraw.name (Operations.ofBody withdraw.body.toList).cost = 1820 := by
    decide +kernel
  obtain ⟨e, he, hgas⟩ := gas_ofFunction withdraw hsmall
  rw [hexact, if_pos hshort] at hgas
  exact ⟨hsmall, hshort, e, he, hgas⟩

/-- Not every small cost is given as the floor of its product. -/
theorem not_forall_gas_eq_exactCost :
    ¬ ∀ f : Source.FunctionSource, (Operations.ofBody f.body.toList).cost < 2 ^ 50 →
      ∃ e, ofFunction f = .ok e ∧
        e.gas = exactCost f.name (Operations.ofBody f.body.toList).cost := by
  intro hexact
  obtain ⟨e, he, hgas⟩ := hexact withdraw (by decide +kernel)
  have heval : (ofFunction withdraw).map (·.gas) = .ok 1819 := by decide +kernel
  have hcost : exactCost withdraw.name (Operations.ofBody withdraw.body.toList).cost = 1820 := by
    decide +kernel
  rw [he] at heval
  rw [hcost] at hgas
  have hlow : e.gas = 1819 := Except.ok.inj heval
  omega

end Estimate

end MoveWorkbench
