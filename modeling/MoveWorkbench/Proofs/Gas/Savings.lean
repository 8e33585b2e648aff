import MoveWorkbench.Proofs.Gas.Findings
import MoveWorkbench.Proofs.Number.Part

/-!
What can be saved on functions. A threshold that an estimate exceeds says which part of an amount
can be saved. The doubles of these parts are close enough to them for the floor of the product to
be exact as long as the amount is below two to the fiftieth; and of several estimates for one
function it is the first one above the threshold that is told of.
-/

namespace MoveWorkbench

structure Estimate.Small (e : Estimate) : Prop where
  gas : e.gas < 2 ^ 50
  storage : e.breakdown.storage < 2 ^ 50
  objectCreation : e.breakdown.objectCreation < 2 ^ 50

namespace Finding

variable {code : List Char} {estimates : List Estimate} {e : Estimate} {t : Threshold}
  {f : Finding} {p : Place} {placed : List (Place × Finding)} {issue function : String} {k : ℕ}

def savingsOn (fs : List Finding) (issue function : String) : List ℤ :=
  (fs.filter (·.subject = (issue, function))).map (·.savings)

section Threshold

def thresholdIssues : List String :=
  ["High gas consumption", "Excessive storage operations", "Multiple object creations"]

theorem issues_thresholds (e : Estimate) : (thresholds e).map (·.issue) = thresholdIssues := rfl

/-- A finding on the issue of a threshold is made by that threshold. -/
theorem threshold_of_triggers (hissue : thresholdIssues[k]? = some f.issue)
    (h : Triggers code estimates p f) : ∃ i e t, estimates[i]? = some e ∧
      (thresholds e)[k]? = some t ∧ t.exceeded = true ∧ t.finding e.function = .ok f ∧
      p = .threshold i k := by
  cases h with
  | @threshold i l e t _ he ht hexceeded hf =>
    have hsubject := congrArg Prod.fst (subject_of_threshold hf)
    have hl : thresholdIssues[l]? = some f.issue := by
      rw [← issues_thresholds e, List.getElem?_map, ht]
      exact congrArg some hsubject.symm
    -- thresholds are told apart by their issues
    obtain rfl : l = k := by
      rw [← List.getElem?_inj (List.getElem?_eq_some_iff.mp hl).1 (by decide), hl, hissue]
    exact ⟨i, e, t, he, ht, hexceeded, hf, rfl⟩
  | @check n l line c hline hc happlies =>
    have hnone : ∀ s ∈ ["Inefficient loop with vector::length", "Repeated storage access",
      "Excessive event emissions"], s ∉ thresholdIssues := by decide
    have hmem : c.issue ∈ (lineChecks code).map (·.issue) :=
      List.mem_map_of_mem (List.mem_of_getElem? hc)
    exact absurd (List.mem_of_getElem? hissue) (hnone c.issue hmem)

theorem savings_of_finding (h : t.finding function = .ok f) :
    Binary64.floorScaled t.amount (.ofRat t.part) = .ok f.savings := by
  obtain ⟨g, hg, hf⟩ := Partial.bind_eq_ok.mp h
  cases hf
  exact hg

theorem part_of_mem_thresholds (ht : t ∈ thresholds e) : Binary64.Part t.part := by
  have htenths : Binary64.Part (3 / 10) :=
    ⟨by norm_num, by norm_num, ⟨10, by decide +kernel⟩, by decide +kernel, by decide +kernel⟩
  have hfifths : Binary64.Part (2 / 5) :=
    ⟨by norm_num, by norm_num, ⟨5, by decide +kernel⟩, by decide +kernel, by decide +kernel⟩
  have hquarter : Binary64.Part (1 / 4) :=
    ⟨by norm_num, by norm_num, ⟨4, by decide +kernel⟩, by decide +kernel, by decide +kernel⟩
  simp only [thresholds, List.mem_cons, List.not_mem_nil, or_false] at ht
  rcases ht with rfl | rfl | rfl
  · exact htenths
  · exact hfifths
  · exact hquarter

theorem amount_bounds (hsmall : e.Small) (ht : t ∈ thresholds e) (hexceeded : t.exceeded = true) :
    8 ≤ t.amount ∧ t.amount < 2 ^ 50 := by
  obtain ⟨hgas, hstorage, hcreation⟩ := hsmall
  simp only [thresholds, List.mem_cons, List.not_mem_nil, or_false] at ht
  rcases ht with rfl | rfl | rfl <;>
    simp only [highGas, excessiveStorage, multipleCreations, decide_eq_true_eq] at hexceeded ⊢ <;>
    omega

/-- The savings that a threshold tells of are rounded down exactly. -/
theorem savings_eq_floor (hsmall : e.Small) (ht : t ∈ thresholds e)
    (hexceeded : t.exceeded = true) (h : t.finding function = .ok f) :
    f.savings = (t.amount * t.part : ℚ).floor := by
  obtain ⟨hlow, hhigh⟩ := amount_bounds hsmall ht hexceeded
  exact Except.ok.inj ((savings_of_finding h).symm.trans
    ((part_of_mem_thresholds ht).floorScaled hlow hhigh))

theorem moderate_of_small (h : e.Small) : e.Moderate := by
  have hlimit : (2 : ℤ) ^ 50 < Binary64.leastTooLarge := by decide +kernel
  exact ⟨by linarith [h.gas], h.storage.trans hlimit, h.objectCreation.trans hlimit⟩

end Threshold

theorem Place.threshold_le_threshold {i j : ℕ} :
    Place.threshold i k ≤ Place.threshold j k ↔ i ≤ j := by
  rw [threshold, threshold, Sum.Lex.inl_le_inl_iff, Prod.Lex.toLex_le_toLex, and_iff_left le_rfl,
    le_iff_lt_or_eq]

/-- The savings on a subject are those of its finding. -/
theorem Ranking.savingsOn_eq (h : Ranking code estimates placed) (hmem : (p, f) ∈ placed)
    (hsubject : f.subject = (issue, function)) :
    savingsOn (placed.map Prod.snd) issue function = [f.savings] := by
  rw [savingsOn, h.filter_eq hmem fun g _ => by rw [decide_eq_true_eq, hsubject],
    List.map_singleton]

/-- What is told on the issue of a threshold comes from the first estimate for the function that
exceeds it. -/
theorem Ranking.savingsOn_threshold (h : Ranking code estimates placed)
    (hmoderate : ∀ e ∈ estimates, e.Moderate) (hissue : thresholdIssues[k]? = some issue)
    {rule : Estimate → Threshold} (hrule : ∀ e, (thresholds e)[k]? = some (rule e))
    {exact : Estimate → ℤ} (hexact : ∀ e ∈ estimates, ∀ f, (rule e).exceeded = true →
      (rule e).finding e.function = .ok f → f.savings = exact e) (function : String) :
    savingsOn (placed.map Prod.snd) issue function =
      ((estimates.find? fun e => e.function == function && (rule e).exceeded).map exact).toList := by
  have hbased {p : Place} {f : Finding} (hmem : (p, f) ∈ placed)
      (hsubject : f.subject = (issue, function)) : ∃ i e, estimates[i]? = some e ∧
        e.function = function ∧ (rule e).exceeded = true ∧
        (rule e).finding e.function = .ok f ∧ p = .threshold i k := by
    have hissue' := congrArg Prod.fst hsubject
    obtain ⟨i, e, t, he, ht, hexceeded, hf, hp⟩ :=
      threshold_of_triggers (hissue.trans (congrArg some hissue'.symm)) (h.triggers _ hmem)
    cases (hrule e).symm.trans ht
    have hname := congrArg Prod.snd ((subject_of_threshold hf).symm.trans hsubject)
    exact ⟨i, e, he, hname, hexceeded, hf, hp⟩
  cases hfind : estimates.find? fun e => e.function == function && (rule e).exceeded with
  | none =>
    rw [List.find?_eq_none] at hfind
    have hnone : (placed.map Prod.snd).filter (·.subject = (issue, function)) = [] := by
      rw [List.filter_eq_nil_iff]
      intro f hf hsubject
      obtain ⟨⟨p, f⟩, hmem, rfl⟩ := List.mem_map.mp hf
      obtain ⟨i, e, he, hname, hexceeded, -, -⟩ := hbased hmem (of_decide_eq_true hsubject)
      refine hfind e (List.mem_of_getElem? he) ?_
      rw [Bool.and_eq_true, beq_iff_eq]
      exact ⟨hname, hexceeded⟩
    rw [savingsOn, hnone]
    rfl
  | some e =>
    obtain ⟨hflag, i, hi, he, hbefore⟩ := List.find?_eq_some_iff_getElem.mp hfind
    rw [Bool.and_eq_true, beq_iff_eq] at hflag
    obtain ⟨rfl, hexceeded⟩ := hflag
    have he' : estimates[i]? = some e := List.getElem?_eq_some_iff.mpr ⟨hi, he⟩
    have hmem := List.mem_of_getElem? he'
    have ht := List.mem_of_getElem? (hrule e)
    obtain ⟨f, hf⟩ : ∃ f, (rule e).finding e.function = .ok f :=
      (exists_finding_iff ht hexceeded).mpr (moderate_iff.mp (hmoderate e hmem) _ ht)
    have hissue' : (rule e).issue = issue := by
      rw [← issues_thresholds e, List.getElem?_map, hrule e] at hissue
      exact Option.some.inj hissue
    have hsubject : f.subject = (issue, e.function) := by
      rw [subject_of_threshold hf, hissue']
    have htriggers : Triggers code estimates (.threshold i k) f :=
      .threshold he' (hrule e) hexceeded hf
    obtain ⟨⟨q, g⟩, hplaced, hsubject'⟩ := (h.flagged _ _).mpr
      ((exists_triggers_iff hmoderate).mp ⟨_, _, htriggers, hsubject⟩)
    obtain ⟨j, e', hj, hname, hexceeded', hg, rfl⟩ := hbased hplaced hsubject'
    -- the kept finding is no later than the one of the first estimate, and no earlier either
    have hle : j ≤ i := Place.threshold_le_threshold.mp
      (h.first _ hplaced _ _ htriggers (hsubject.trans hsubject'.symm))
    have hge : i ≤ j := by
      by_contra hless
      have hnot := hbefore j (not_le.mp hless)
      obtain ⟨hj', rfl⟩ := List.getElem?_eq_some_iff.mp hj
      rw [hname, hexceeded'] at hnot
      simp at hnot
    obtain rfl := le_antisymm hle hge
    cases he'.symm.trans hj
    rw [h.savingsOn_eq hplaced hsubject', hexact e hmem g hexceeded hg]
    rfl

/-- The floor of a product with a fraction is that of a quotient of integers. -/
theorem floor_mul_div (n a : ℤ) {b : ℤ} (hb : 0 < b) : (n * (a / b) : ℚ).floor = a * n / b := by
  have hb' : (0 : ℚ) < b := by exact_mod_cast hb
  have hvalue : (n * (a / b) : ℚ) = (a * n : ℤ) / b := by
    push_cast
    ring
  rw [hvalue]
  refine floor_eq ?_ ?_
  · rw [le_div_iff₀ hb']
    exact_mod_cast Int.ediv_mul_le (a * n) hb.ne'
  · rw [div_lt_iff₀ hb']
    exact_mod_cast Int.lt_ediv_add_one_mul_self (a * n) hb

/-- What can be saved on each function is told exactly: of the gas above 2000 three tenths, of the
storage two fifths and of the object creation a quarter, rounded down, for the first estimate that
exceeds the threshold. -/
theorem find_saves (text : String) (h : ∀ e ∈ estimates, e.Small) :
    ∃ fs, find text estimates = .ok fs ∧ ∀ function,
      savingsOn fs "High gas consumption" function =
        ((estimates.find? fun e => e.function == function && 3000 < e.gas).map
          fun e => 3 * (e.gas - 2000) / 10).toList ∧
      savingsOn fs "Excessive storage operations" function =
        ((estimates.find? fun e => e.function == function && 1000 < e.breakdown.storage).map
          fun e => 2 * e.breakdown.storage / 5).toList ∧
      savingsOn fs "Multiple object creations" function =
        ((estimates.find? fun e => e.function == function && 4000 < e.breakdown.objectCreation).map
          fun e => e.breakdown.objectCreation / 4).toList := by
  have hmoderate : ∀ e ∈ estimates, e.Moderate := fun e he => moderate_of_small (h e he)
  have hranking : Ranking text.toList estimates (ranking text.toList estimates) :=
    ranking_spec hmoderate
  obtain ⟨fs, hfs⟩ : ∃ fs, find text estimates = .ok fs := exists_find_iff.mpr hmoderate
  obtain rfl := map_snd_ranking hfs
  refine ⟨_, hfs, fun function => ⟨?_, ?_, ?_⟩⟩
  · refine hranking.savingsOn_threshold hmoderate (k := 0) rfl (fun _ => rfl) ?_ function
    intro e he f hexceeded hf
    rw [savings_eq_floor (h e he) (List.mem_of_getElem? (i := 0) rfl) hexceeded hf]
    exact floor_mul_div (e.gas - 2000) 3 (b := 10) (by norm_num)
  · refine hranking.savingsOn_threshold hmoderate (k := 1) rfl (fun _ => rfl) ?_ function
    intro e he f hexceeded hf
    rw [savings_eq_floor (h e he) (List.mem_of_getElem? (i := 1) rfl) hexceeded hf]
    exact floor_mul_div e.breakdown.storage 2 (b := 5) (by norm_num)
  · refine hranking.savingsOn_threshold hmoderate (k := 2) rfl (fun _ => rfl) ?_ function
    intro e he f hexceeded hf
    rw [savings_eq_floor (h e he) (List.mem_of_getElem? (i := 2) rfl) hexceeded hf]
    exact (floor_mul_div e.breakdown.objectCreation 1 (b := 4) (by norm_num)).trans
      (by rw [one_mul])

def swollen : Estimate where
  function := "f"
  module := "m"
  gas := 10 ^ 15
  confidence := .high
  breakdown := ⟨0, 10 ^ 15 - 1, 4003, 0, none⟩

/-- Of two estimates for one function, the first one is above all thresholds and the second one
above that for gas. -/
theorem find_saves_swollen : (∀ e ∈ [swollen, computed "f" 6000], e.Small) ∧
    ∃ fs, find "" [swollen, computed "f" 6000] = .ok fs ∧
      savingsOn fs "High gas consumption" "f" = [299999999999400] ∧
      savingsOn fs "Excessive storage operations" "f" = [399999999999999] ∧
      savingsOn fs "Multiple object creations" "f" = [1000] := by
  have hsmall : ∀ e ∈ [swollen, computed "f" 6000], e.Small := by
    rw [List.forall_mem_cons, List.forall_mem_singleton]
    exact ⟨⟨by decide, by decide, by decide⟩, ⟨by decide, by decide, by decide⟩⟩
  obtain ⟨fs, hfs, hsaves⟩ := find_saves "" hsmall
  obtain ⟨hgas, hstorage, hcreation⟩ := hsaves "f"
  exact ⟨hsmall, fs, hfs, hgas, hstorage, hcreation⟩

end Finding

end MoveWorkbench
