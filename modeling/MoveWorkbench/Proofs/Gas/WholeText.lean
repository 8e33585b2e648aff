import MoveWorkbench.Proofs.Gas.Findings
import MoveWorkbench.Proofs.Source.PhrasePlace

/-!
Findings about phrases that are many. Such phrases are counted in the whole text and then looked
for in single lines. No phrase of theirs reaches across a line break, so the one finding is there
just when the whole text has enough of them, and its line is the one with the first of them.
-/

namespace MoveWorkbench.Finding

open Source Text

variable {cs line : List Char} {estimates : List Estimate} {e : Estimate} {f : Family}
  {limit rate k : ℕ} {c : LineCheck} {t : Threshold} {p : Place} {g : Finding}
  {placed : List (Place × Finding)}

/-- An issue is told of when a phrase family counts more than `limit` phrases, and then once, with
`rate` to be saved for each of them, in the line of the first one. -/
structure Counted (cs : List Char) (fs : List Finding) (f : Family) (issue : String)
    (limit rate : ℕ) : Prop where
  told : (∃ g ∈ fs, g.issue = issue) ↔ limit < f.count cs
  once : limit < f.count cs → ∃ g i, fs.filter (·.issue = issue) = [g] ∧
    g.savings = rate * f.count cs ∧ f.FirstPlace cs i ∧
    g.line = some ((cs.take i).count '\n' + 1 : ℕ)

/-- A check of lines looks for the phrases of a family when there are more than `limit`. -/
structure Watches (cs : List Char) (k : ℕ) (c : LineCheck) (f : Family) (limit rate : ℕ) :
    Prop where
  check : (lineChecks cs)[k]? = some c
  savings : c.savings = rate * f.count cs
  applies : ∀ line, c.applies line = true ↔ limit < f.count cs ∧ f.occurs line = true
  parted : f.PartedBy '\n'

theorem watches_repeatedBorrow (cs : List Char) :
    Watches cs 1 (repeatedBorrow (Family.borrow.count cs)) .borrow 3 50 where
  check := rfl
  savings := mul_comm _ _
  applies line := by simp [repeatedBorrow]
  parted := Family.partedBy_lineBreak (by decide)

theorem watches_excessiveEvents (cs : List Char) :
    Watches cs 2 (excessiveEvents (Family.event.count cs)) .event 5 30 where
  check := rfl
  savings := mul_comm _ _
  applies line := by simp [excessiveEvents]
  parted := Family.partedBy_lineBreak (by decide)

/-- No threshold is about the issue of a check. -/
theorem issue_ne_of_mem (ht : t ∈ thresholds e) (hc : c ∈ lineChecks cs) : t.issue ≠ c.issue := by
  simp only [thresholds, lineChecks, List.mem_cons, List.not_mem_nil, or_false] at ht hc
  rcases ht with rfl | rfl | rfl <;> rcases hc with rfl | rfl | rfl <;>
    simp [highGas, excessiveStorage, multipleCreations, loopLength, repeatedBorrow, excessiveEvents]

/-- All checks are about different issues. -/
theorem nodup_issues (cs : List Char) : ((lineChecks cs).map (·.issue)).Nodup := by
  change ["Inefficient loop with vector::length", "Repeated storage access",
    "Excessive event emissions"].Nodup
  decide

/-- Only a check makes findings on its issue. -/
theorem eq_of_triggers (hc : (lineChecks cs)[k]? = some c) (h : Triggers cs estimates p g)
    (hissue : g.issue = c.issue) : ∃ n line, (lines cs)[n]? = some line ∧
      c.applies line = true ∧ p = .check n k ∧ g = c.finding (n + 1) := by
  cases h with
  | threshold _ ht _ hg =>
    have hsubject := congrArg Prod.fst (subject_of_threshold hg)
    exact absurd (hsubject.symm.trans hissue)
      (issue_ne_of_mem (List.mem_of_getElem? ht) (List.mem_of_getElem? hc))
  | @check n l line d hline hd happlies =>
    have hl : ((lineChecks cs).map (·.issue))[l]? = some d.issue := by
      rw [List.getElem?_map, hd, Option.map_some]
    have hk : ((lineChecks cs).map (·.issue))[k]? = some c.issue := by
      rw [List.getElem?_map, hc, Option.map_some]
    -- checks are told apart by their issues
    obtain rfl : l = k := by
      rw [← List.getElem?_inj (List.getElem?_eq_some_iff.mp hl).1 (nodup_issues cs), hl, hk]
      exact congrArg some hissue
    cases hc.symm.trans hd
    exact ⟨n, line, hline, happlies, rfl, rfl⟩

namespace Watches

variable (hw : Watches cs k c f limit rate)

include hw

/-- Enough phrases in the text are in some line of it. -/
theorem exists_line (hmany : limit < f.count cs) : ∃ line ∈ lines cs, c.applies line = true := by
  by_contra hnone
  have hzero : ∀ n ∈ (lines cs).map f.count, n = 0 := by
    intro n hn
    obtain ⟨line, hline, rfl⟩ := List.mem_map.mp hn
    by_contra hpos
    exact hnone ⟨line, hline, (hw.applies line).mpr
      ⟨hmany, decide_eq_true (Nat.pos_of_ne_zero hpos)⟩⟩
  rw [← Family.sum_count_lines hw.parted, List.sum_eq_zero hzero] at hmany
  exact Nat.not_lt_zero _ hmany

/-- The first place of a check that applies is at the line with the first phrase. -/
theorem exists_firstPlace {n : ℕ} (hline : (lines cs)[n]? = some line)
    (happlies : c.applies line = true)
    (hfirst : ∀ q g, Triggers cs estimates q g → g.subject = (c.finding (n + 1)).subject →
      Place.check n k ≤ q) : ∃ i, f.FirstPlace cs i ∧ (cs.take i).count '\n' = n := by
  obtain ⟨hmany, hoccurs⟩ := (hw.applies line).mp happlies
  refine Family.exists_firstPlace_of_lines hw.parted hline hoccurs fun m hm l hl => ?_
  by_contra hoccurs'
  have happlies' := (hw.applies l).mpr ⟨hmany, Bool.not_eq_false _ ▸ hoccurs'⟩
  have hle := Place.check_le_check.mp (hfirst _ _ (.check hl hw.check happlies') rfl)
  omega

/-- Enough phrases in the text make a finding of the check that is kept. -/
theorem exists_placed (hmoderate : ∀ e ∈ estimates, e.Moderate)
    (hranking : Ranking cs estimates placed) (hmany : limit < f.count cs) :
    ∃ n line, (lines cs)[n]? = some line ∧ c.applies line = true ∧
      (.check n k, c.finding (n + 1)) ∈ placed := by
  obtain ⟨line, hline, happlies⟩ := hw.exists_line hmany
  have hflagged := (exists_triggers_iff hmoderate).mp
    (exists_triggers_of_check hline hw.check happlies)
  obtain ⟨⟨p, g⟩, hmem, hsubject⟩ := (hranking.flagged _ _).mpr hflagged
  obtain ⟨n, line, hline, happlies, rfl, rfl⟩ :=
    eq_of_triggers hw.check (hranking.triggers _ hmem) (congrArg Prod.fst hsubject)
  exact ⟨n, line, hline, happlies, hmem⟩

theorem counted (hmoderate : ∀ e ∈ estimates, e.Moderate)
    (hranking : Ranking cs estimates placed) :
    Counted cs (placed.map Prod.snd) f c.issue limit rate := by
  refine ⟨⟨?_, fun hmany => ?_⟩, fun hmany => ?_⟩
  · rintro ⟨g, hg, hissue⟩
    obtain ⟨⟨p, g⟩, hmem, rfl⟩ := List.mem_map.mp hg
    obtain ⟨n, line, hline, happlies, -, -⟩ :=
      eq_of_triggers hw.check (hranking.triggers _ hmem) hissue
    exact ((hw.applies line).mp happlies).1
  · obtain ⟨n, line, -, -, hmem⟩ := hw.exists_placed hmoderate hranking hmany
    exact ⟨_, List.mem_map_of_mem hmem, rfl⟩
  · obtain ⟨n, line, hline, happlies, hmem⟩ := hw.exists_placed hmoderate hranking hmany
    obtain ⟨i, hi, hcount⟩ := hw.exists_firstPlace hline happlies (hranking.first _ hmem)
    refine ⟨c.finding (n + 1), i, ?_, hw.savings, hi, by rw [hcount]; rfl⟩
    refine hranking.filter_eq hmem fun g hg => ?_
    rw [decide_eq_true_eq]
    refine ⟨fun hissue => ?_, congrArg Prod.fst⟩
    obtain ⟨⟨p, g⟩, hg', rfl⟩ := List.mem_map.mp hg
    obtain ⟨m, _, _, _, _, heq⟩ := eq_of_triggers hw.check (hranking.triggers _ hg') hissue
    rw [heq]
    rfl

end Watches

/-- Borrows and events are counted line by line. Where no amount is too large for a double, they
are told of just when the whole text has more than three, or five, of them, once and at the first
of them. -/
theorem find_counts (text : String) (estimates : List Estimate) :
    (∀ f ∈ [Family.borrow, Family.event],
      ((lines text.toList).map f.count).sum = f.count text.toList) ∧
    ((∀ e ∈ estimates, e.Moderate) → ∃ fs, find text estimates = .ok fs ∧
      Counted text.toList fs .borrow "Repeated storage access" 3 50 ∧
      Counted text.toList fs .event "Excessive event emissions" 5 30) := by
  have hborrow := watches_repeatedBorrow text.toList
  have hevent := watches_excessiveEvents text.toList
  constructor
  · rw [List.forall_mem_cons, List.forall_mem_singleton]
    exact ⟨Family.sum_count_lines hborrow.parted _, Family.sum_count_lines hevent.parted _⟩
  · intro hmoderate
    obtain ⟨fs, hfs⟩ := exists_find_iff.mpr hmoderate
    have hranking : Ranking text.toList estimates (ranking text.toList estimates) :=
      ranking_spec hmoderate
    have hborrow' := hborrow.counted hmoderate hranking
    have hevent' := hevent.counted hmoderate hranking
    rw [map_snd_ranking hfs] at hborrow' hevent'
    exact ⟨fs, hfs, hborrow', hevent'⟩

/-- Four borrows below each other, the first one in the second line. -/
theorem find_counts_fourBorrows :
    (∀ e ∈ [computed "f" 4000], e.Moderate) ∧
    ∃ fs, find "fun f()\nx.borrow(); y.BORROW_MUT();\nz.borrow_mut(); z\n.borrow"
        [computed "f" 4000] = .ok fs ∧
      Counted "fun f()\nx.borrow(); y.BORROW_MUT();\nz.borrow_mut(); z\n.borrow".toList fs .borrow
        "Repeated storage access" 3 50 ∧
      fs.map (fun g => (g.issue, g.savings, g.line)) =
        [("High gas consumption", 600, none), ("Repeated storage access", 200, some 2)] := by
  have hmoderate : ∀ e ∈ [computed "f" 4000], e.Moderate := by
    rw [List.forall_mem_singleton]
    exact ⟨by decide +kernel, by decide +kernel, by decide +kernel⟩
  have hfind : find "fun f()\nx.borrow(); y.BORROW_MUT();\nz.borrow_mut(); z\n.borrow"
      [computed "f" 4000] = .ok [aboveThreshold "f" 600, (repeatedBorrow 4).finding 2] :=
    find_eq_of_falling (by decide +kernel) (by decide)
  obtain ⟨fs, hfs, hborrow, -⟩ := (find_counts _ _).2 hmoderate
  cases hfind.symm.trans hfs
  exact ⟨hmoderate, _, hfs, hborrow, rfl⟩

/-- An estimate that is too large for a double leaves four borrows untold. -/
theorem find_breaks_off_of_fourBorrows :
    3 < Family.borrow.count "x.borrow(); x.borrow(); x.borrow(); x.borrow();".toList ∧
    find "x.borrow(); x.borrow(); x.borrow(); x.borrow();" [computed "f" (10 ^ 309)] =
      .error .tooLarge :=
  ⟨by decide +kernel, by decide +kernel⟩

end MoveWorkbench.Finding
