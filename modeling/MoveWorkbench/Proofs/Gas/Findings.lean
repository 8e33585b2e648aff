import MoveWorkbench.Proofs.Gas.Places
import MoveWorkbench.Proofs.Number.Monotone
import MoveWorkbench.Proofs.Ordered

/-!
Findings about a text and its estimates. There is an answer just when no amount of which a part
could be saved is too large for a double. Then every subject that is flagged has one finding, the
first that was come upon; the findings that save most come first, and those that save the same
stand in the order of their places.
-/

namespace MoveWorkbench

/-- No amount of which a finding says what can be saved is too large for a double. -/
structure Estimate.Moderate (e : Estimate) : Prop where
  gas : e.gas - 2000 < Binary64.leastTooLarge
  storage : e.breakdown.storage < Binary64.leastTooLarge
  objectCreation : e.breakdown.objectCreation < Binary64.leastTooLarge

namespace Finding

open Source Text

/-- What an issue is found about: an estimate above a threshold, or a line with a costly phrase;
and phrases that are costly when they are many are counted in the whole text. -/
inductive Flagged (code : List Char) (estimates : List Estimate) : String → String → Prop
  | highGas {e : Estimate} (he : e ∈ estimates) (h : 3000 < e.gas) :
      Flagged code estimates "High gas consumption" e.function
  | excessiveStorage {e : Estimate} (he : e ∈ estimates) (h : 1000 < e.breakdown.storage) :
      Flagged code estimates "Excessive storage operations" e.function
  | multipleCreations {e : Estimate} (he : e ∈ estimates) (h : 4000 < e.breakdown.objectCreation) :
      Flagged code estimates "Multiple object creations" e.function
  | loopLength {line : List Char} (hline : line ∈ lines code) (hloop : Family.loop.occurs line)
      (hlength : Family.lengthQuery.occurs line) :
      Flagged code estimates "Inefficient loop with vector::length" "unknown"
  | repeatedBorrow {line : List Char} (hline : line ∈ lines code)
      (hmany : 3 < Family.borrow.count code) (hborrow : Family.borrow.occurs line) :
      Flagged code estimates "Repeated storage access" "unknown"
  | excessiveEvents {line : List Char} (hline : line ∈ lines code)
      (hmany : 5 < Family.event.count code) (hevent : Family.event.occurs line) :
      Flagged code estimates "Excessive event emissions" "unknown"

/-- Findings, with their places, as the answer lists them. -/
structure Ranking (code : List Char) (estimates : List Estimate)
    (placed : List (Place × Finding)) : Prop where
  nodup : (placed.map fun p => p.2.subject).Nodup
  flagged : ∀ issue function, (∃ p ∈ placed, p.2.subject = (issue, function)) ↔
    Flagged code estimates issue function
  triggers : ∀ p ∈ placed, Triggers code estimates p.1 p.2
  first : ∀ p ∈ placed, ∀ q g, Triggers code estimates q g → g.subject = p.2.subject → p.1 ≤ q
  falling : placed.Pairwise fun p q => q.2.savings ≤ p.2.savings
  stable : placed.Pairwise fun p q => p.2.savings = q.2.savings → p.1 < q.1

variable {code : List Char} {estimates : List Estimate} {e : Estimate} {fs : List Finding}
  {t : Threshold} {c : LineCheck} {f : Finding} {function : String} {k : ℕ}

theorem exists_threshold_finding_iff : (∃ f, t.finding function = .ok f) ↔
    ∃ g, Binary64.floorScaled t.amount (.ofRat t.part) = .ok g := by
  unfold Threshold.finding
  rw [Partial.exists_bind_eq_ok]
  exact exists_congr fun g => and_iff_left ⟨_, rfl⟩

theorem subject_of_threshold (h : t.finding function = .ok f) :
    f.subject = (t.issue, function) := by
  obtain ⟨g, -, hf⟩ := Partial.bind_eq_ok.mp h
  cases hf
  rfl

/-- What is saved is a part of an amount that is not below zero when it is exceeded, and is not
large otherwise. -/
theorem amount_of_mem_thresholds (ht : t ∈ thresholds e) :
    (0 ≤ t.part ∧ t.part ≤ 1) ∧ (t.exceeded = true → 0 ≤ t.amount) ∧
      (t.exceeded = false → t.amount ≤ 4000) := by
  simp only [thresholds, List.mem_cons, List.not_mem_nil, or_false] at ht
  rcases ht with rfl | rfl | rfl <;>
    simp only [highGas, excessiveStorage, multipleCreations, decide_eq_true_eq,
      decide_eq_false_iff_not] <;>
    exact ⟨by norm_num, by omega, by omega⟩

theorem exists_finding_iff (ht : t ∈ thresholds e) (hexceeded : t.exceeded = true) :
    (∃ f, t.finding function = .ok f) ↔ t.amount < Binary64.leastTooLarge := by
  obtain ⟨⟨hpart, hpart'⟩, hamount, -⟩ := amount_of_mem_thresholds ht
  rw [exists_threshold_finding_iff,
    Binary64.exists_floorScaled_iff (hamount hexceeded) hpart hpart']

theorem moderate_iff : e.Moderate ↔ ∀ t ∈ thresholds e, t.amount < Binary64.leastTooLarge := by
  simp only [thresholds, List.forall_mem_cons]
  exact ⟨fun h => ⟨h.gas, h.storage, h.objectCreation, fun _ ht => (nomatch ht)⟩,
    fun ⟨hgas, hstorage, hcreation, _⟩ => ⟨hgas, hstorage, hcreation⟩⟩

theorem exists_ofEstimate_iff : (∃ fs, ofEstimate e = .ok fs) ↔ e.Moderate := by
  unfold ofEstimate
  rw [Partial.exists_mapM_eq_ok, moderate_iff]
  refine forall_congr' fun t => ?_
  rw [List.mem_filter]
  constructor
  · intro h ht
    cases hexceeded : t.exceeded with
    | true => exact (exists_finding_iff ht hexceeded).mp (h ⟨ht, hexceeded⟩)
    | false =>
      -- nothing is computed here, but the amount is small
      exact ((amount_of_mem_thresholds ht).2.2 hexceeded).trans_lt (by decide +kernel)
  · rintro h ⟨ht, hexceeded⟩
    exact (exists_finding_iff ht hexceeded).mpr (h ht)

/-- There is an answer just when no amount is too large. -/
theorem exists_find_iff {text : String} :
    (∃ fs, find text estimates = .ok fs) ↔ ∀ e ∈ estimates, e.Moderate := by
  unfold find triggered
  rw [Partial.exists_map_eq_ok, Partial.exists_bind_eq_ok]
  simp only [← exists_ofEstimate_iff]
  rw [← Partial.exists_mapM_eq_ok]
  exact exists_congr fun groups => and_iff_left ⟨_, rfl⟩

/-- An exceeded threshold of an estimate makes a finding on its issue. -/
theorem exists_triggers_of_threshold (he : e ∈ estimates) (hmoderate : e.Moderate)
    (ht : (thresholds e)[k]? = some t) (hexceeded : t.exceeded = true) :
    ∃ p f, Triggers code estimates p f ∧ f.subject = (t.issue, e.function) := by
  obtain ⟨i, hi⟩ := List.mem_iff_getElem?.mp he
  have hmem := List.mem_of_getElem? ht
  obtain ⟨f, hf⟩ := (exists_finding_iff hmem hexceeded).mpr (moderate_iff.mp hmoderate t hmem)
  exact ⟨_, f, .threshold hi ht hexceeded hf, subject_of_threshold hf⟩

/-- A line to which a check applies makes a finding on its issue. -/
theorem exists_triggers_of_check {line : List Char} (hline : line ∈ lines code)
    (hc : (lineChecks code)[k]? = some c) (happlies : c.applies line = true) :
    ∃ p f, Triggers code estimates p f ∧ f.subject = (c.issue, unknown) := by
  obtain ⟨n, hn⟩ := List.mem_iff_getElem?.mp hline
  exact ⟨_, _, .check hn hc happlies, rfl⟩

/-- The subjects on which there are findings are those that are flagged. -/
theorem exists_triggers_iff (hmoderate : ∀ e ∈ estimates, e.Moderate) {issue : String} :
    (∃ p f, Triggers code estimates p f ∧ f.subject = (issue, function)) ↔
      Flagged code estimates issue function := by
  constructor
  · rintro ⟨p, f, h, hsubject⟩
    cases h with
    | @threshold i k e t _ he ht hexceeded hf =>
      rw [subject_of_threshold hf] at hsubject
      cases hsubject
      have he' := List.mem_of_getElem? he
      have ht' := List.mem_of_getElem? ht
      simp only [thresholds, List.mem_cons, List.not_mem_nil, or_false] at ht'
      rcases ht' with rfl | rfl | rfl
      · exact .highGas he' (of_decide_eq_true hexceeded)
      · exact .excessiveStorage he' (of_decide_eq_true hexceeded)
      · exact .multipleCreations he' (of_decide_eq_true hexceeded)
    | @check n k line c hline hc happlies =>
      cases hsubject
      have hline' := List.mem_of_getElem? hline
      have hc' := List.mem_of_getElem? hc
      simp only [lineChecks, List.mem_cons, List.not_mem_nil, or_false] at hc'
      rcases hc' with rfl | rfl | rfl <;>
        obtain ⟨hfirst, hsecond⟩ := Bool.and_eq_true_iff.mp happlies
      · exact .loopLength hline' hfirst hsecond
      · exact .repeatedBorrow hline' (of_decide_eq_true hfirst) hsecond
      · exact .excessiveEvents hline' (of_decide_eq_true hfirst) hsecond
  · intro h
    cases h with
    | highGas he h =>
      exact exists_triggers_of_threshold he (hmoderate _ he) (k := 0) rfl (decide_eq_true h)
    | excessiveStorage he h =>
      exact exists_triggers_of_threshold he (hmoderate _ he) (k := 1) rfl (decide_eq_true h)
    | multipleCreations he h =>
      exact exists_triggers_of_threshold he (hmoderate _ he) (k := 2) rfl (decide_eq_true h)
    | loopLength hline hloop hlength =>
      exact exists_triggers_of_check hline (k := 0) rfl (Bool.and_eq_true_iff.mpr ⟨hloop, hlength⟩)
    | repeatedBorrow hline hmany hborrow =>
      exact exists_triggers_of_check hline (k := 1) rfl
        (Bool.and_eq_true_iff.mpr ⟨decide_eq_true hmany, hborrow⟩)
    | excessiveEvents hline hmany hevent =>
      exact exists_triggers_of_check hline (k := 2) rfl
        (Bool.and_eq_true_iff.mpr ⟨decide_eq_true hmany, hevent⟩)

def kept (code : List Char) (estimates : List Estimate) : List (Place × Finding) :=
  Ordered.distinctBy (fun p => p.2.subject) [] (trace code estimates)

def saves (p q : Place × Finding) : Bool := q.2.savings ≤ p.2.savings

theorem saves_trans (p q r : Place × Finding) (hpq : saves p q = true) (hqr : saves q r = true) :
    saves p r = true :=
  decide_eq_true ((of_decide_eq_true hqr).trans (of_decide_eq_true hpq))

theorem saves_total (p q : Place × Finding) : (saves p q || saves q p) = true := by
  simp only [saves, Bool.or_eq_true, decide_eq_true_eq]
  exact le_total _ _

def ranking (code : List Char) (estimates : List Estimate) : List (Place × Finding) :=
  (kept code estimates).mergeSort saves

/-- The answer is the ranking without the places. -/
theorem map_snd_ranking {text : String} (h : find text estimates = .ok fs) :
    (ranking text.toList estimates).map Prod.snd = fs := by
  obtain ⟨found, hfound, rfl⟩ := Partial.map_eq_ok.mp h
  have hsort (placed : List (Place × Finding)) : (placed.mergeSort saves).map Prod.snd =
      (placed.map Prod.snd).mergeSort fun f g => g.savings ≤ f.savings :=
    List.map_mergeSort fun _ _ _ _ => rfl
  rw [ranking, hsort, kept, Ordered.map_distinctBy, map_snd_trace hfound, ranked]

theorem mem_ranking {p : Place × Finding} :
    p ∈ ranking code estimates ↔ p ∈ kept code estimates := List.mem_mergeSort

theorem mem_trace_of_mem_ranking {p : Place × Finding} (h : p ∈ ranking code estimates) :
    p ∈ trace code estimates :=
  (Ordered.distinctBy_sublist _ _ _).subset (mem_ranking.mp h)

/-- No subject that is triggered is lost. -/
theorem exists_mem_ranking_iff {s : String × String} :
    (∃ p ∈ ranking code estimates, p.2.subject = s) ↔
      ∃ p f, Triggers code estimates p f ∧ f.subject = s := by
  have hkept : s ∈ (kept code estimates).map (fun p => p.2.subject) ↔
      s ∈ (trace code estimates).map (fun p => p.2.subject) ∧ s ∉ [] := Ordered.mem_map_distinctBy
  rw [and_iff_left List.not_mem_nil, List.mem_map, List.mem_map] at hkept
  simp only [mem_ranking, hkept, Prod.exists, mem_trace]

theorem ranking_spec (hmoderate : ∀ e ∈ estimates, e.Moderate) :
    Ranking code estimates (ranking code estimates) where
  nodup := ((List.mergeSort_perm _ _).map _).nodup_iff.mpr (Ordered.nodup_map_distinctBy _ _ _)
  flagged _ _ := exists_mem_ranking_iff.trans (exists_triggers_iff hmoderate)
  triggers _ hp := mem_trace.mp (mem_trace_of_mem_ranking hp)
  first p hp q g hg hsubject := by
    rcases Ordered.eq_or_of_mem_distinctBy pairwise_trace (mem_ranking.mp hp) (mem_trace.mpr hg)
      hsubject with rfl | hless
    · exact le_rfl
    · exact hless.le
  falling := (List.pairwise_mergeSort saves_trans saves_total _).imp of_decide_eq_true
  stable := (Ordered.pairwise_mergeSort_of_pairwise saves_trans saves_total
    (pairwise_trace.sublist (Ordered.distinctBy_sublist _ _ _))).imp
      fun h heq => h (decide_eq_true heq.le)

/-- There is one finding on a subject at most. -/
theorem Ranking.filter_eq {placed : List (Place × Finding)} (h : Ranking code estimates placed)
    {p : Place} (hmem : (p, f) ∈ placed) {chosen : Finding → Bool}
    (hchosen : ∀ g ∈ placed.map Prod.snd, chosen g = true ↔ g.subject = f.subject) :
    (placed.map Prod.snd).filter chosen = [f] := by
  have hsubjects : ((placed.map Prod.snd).map subject).Nodup := by
    rw [List.map_map]
    exact h.nodup
  have hf : f ∈ placed.map Prod.snd := List.mem_map_of_mem (f := Prod.snd) hmem
  refine List.perm_singleton.mp ((List.perm_ext_iff_of_nodup (hsubjects.of_map.filter _)
    (List.nodup_singleton _)).mpr fun g => ?_)
  rw [List.mem_filter, List.mem_singleton]
  constructor
  · rintro ⟨hg, heq⟩
    exact List.inj_on_of_nodup_map hsubjects hg hf ((hchosen g hg).mp heq)
  · rintro rfl
    exact ⟨hf, (hchosen g hf).mpr rfl⟩

/-- Where no amount is too large for a double, and only there, the findings are given: one on
each subject that is flagged, the first that was come upon, by falling savings, and those that
save the same as they were come upon. -/
theorem find_ranks (text : String) (estimates : List Estimate) :
    ((∃ fs, find text estimates = .ok fs) ↔ ∀ e ∈ estimates, e.Moderate) ∧
    ∀ fs, find text estimates = .ok fs → ∃ placed : List (Place × Finding),
      placed.map Prod.snd = fs ∧ Ranking text.toList estimates placed :=
  ⟨exists_find_iff, fun fs h => ⟨ranking text.toList estimates, map_snd_ranking h,
    ranking_spec (exists_find_iff.mp ⟨fs, h⟩)⟩⟩

def computed (function : String) (gas : ℤ) : Estimate where
  function := function
  module := "m"
  gas := gas
  confidence := .high
  breakdown := ⟨gas, 0, 0, 0, none⟩

def aboveThreshold (function : String) (savings : ℤ) : Finding where
  function := function
  issue := "High gas consumption"
  severity := .medium
  suggestion := "Consider breaking down into smaller functions or optimizing storage operations"
  savings := savings
  line := none

/-- Kept findings whose savings fall already are the answer. -/
theorem find_eq_of_falling {text : String}
    (h : (triggered text.toList estimates).map (Ordered.distinctBy subject []) = .ok fs)
    (hfalling : fs.Pairwise fun f g => g.savings ≤ f.savings) : find text estimates = .ok fs := by
  obtain ⟨found, hfound, rfl⟩ := Partial.map_eq_ok.mp h
  refine Partial.map_eq_ok.mpr ⟨found, hfound, List.mergeSort_of_pairwise ?_⟩
  exact hfalling.imp decide_eq_true

/-- Of two functions of one name only the first one is told of, and one of another name that saves
as much stands behind it. -/
theorem find_ranks_repeated : ∃ fs placed,
    find "let n = 0;\nwhile (n < v.length())"
      [computed "f" 4000, computed "f" 6000, computed "g" 4000] = .ok fs ∧
    fs.map (fun f => (f.function, f.savings, f.line)) =
      [("f", 600, none), ("g", 600, none), ("unknown", 200, some 2)] ∧
    placed.map Prod.snd = fs ∧
    Ranking "let n = 0;\nwhile (n < v.length())".toList
      [computed "f" 4000, computed "f" 6000, computed "g" 4000] placed := by
  have hfind : find "let n = 0;\nwhile (n < v.length())"
      [computed "f" 4000, computed "f" 6000, computed "g" 4000] =
      .ok [aboveThreshold "f" 600, aboveThreshold "g" 600, loopLength.finding 2] :=
    find_eq_of_falling (by decide +kernel) (by decide)
  obtain ⟨placed, hplaced, hranking⟩ := (find_ranks _ _).2 _ hfind
  exact ⟨_, placed, hfind, rfl, hplaced, hranking⟩

/-- An estimate above the threshold that is too large for a double leaves no answer. -/
theorem find_breaks_off_of_huge_estimate :
    Flagged "".toList [computed "f" (10 ^ 309)] "High gas consumption" "f" ∧
    find "" [computed "f" (10 ^ 309)] = .error .tooLarge :=
  ⟨.highGas (e := computed "f" (10 ^ 309)) List.mem_cons_self (by decide +kernel),
    by decide +kernel⟩

end Finding

end MoveWorkbench
