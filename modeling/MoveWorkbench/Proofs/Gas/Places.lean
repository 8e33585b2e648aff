import Mathlib.Data.Prod.Lex
import Mathlib.Data.Sum.Order
import MoveWorkbench.Gas.Finding
import MoveWorkbench.Proofs.Partial

/-!
Places of findings. A finding is come upon at a threshold of an estimate or at a check of a line:
estimates come before lines, each of the two in order, and the rules for one of them in order. So
the findings stand in a list whose places rise.
-/

namespace MoveWorkbench.Finding

/-- Where a finding is come upon: at an estimate, or at a line of the text, and by which of the
rules for it. -/
abbrev Place := (ℕ ×ₗ ℕ) ⊕ₗ (ℕ ×ₗ ℕ)

namespace Place

def threshold (estimate rule : ℕ) : Place := Sum.inlₗ (toLex (estimate, rule))

def check (line rule : ℕ) : Place := Sum.inrₗ (toLex (line, rule))

theorem check_le_check {m n k : ℕ} : check m k ≤ check n k ↔ m ≤ n := by
  rw [check, check, Sum.Lex.inr_le_inr_iff, Prod.Lex.toLex_le_toLex, and_iff_left le_rfl,
    le_iff_lt_or_eq]

end Place

/-- A threshold of an estimate or a check of a line makes a finding. -/
inductive Triggers (code : List Char) (estimates : List Estimate) : Place → Finding → Prop
  | threshold {i k : ℕ} {e : Estimate} {t : Threshold} {f : Finding} (he : estimates[i]? = some e)
      (ht : (thresholds e)[k]? = some t) (hexceeded : t.exceeded = true)
      (hf : t.finding e.function = .ok f) : Triggers code estimates (.threshold i k) f
  | check {n k : ℕ} {line : List Char} {c : LineCheck} (hline : (Text.lines code)[n]? = some line)
      (hc : (lineChecks code)[k]? = some c) (happlies : c.applies line = true) :
      Triggers code estimates (.check n k) (c.finding (n + 1))

section Swept

variable {α β ρ : Type} {rules : α → List ρ} {found : ℕ → α → ρ → Option β} {items : List α}
  {i k : ℕ} {b : β}

/-- What is found by the rules for each item, with the numbers of item and rule. -/
def swept (rules : α → List ρ) (found : ℕ → α → ρ → Option β) (items : List α) :
    List ((ℕ ×ₗ ℕ) × β) :=
  items.zipIdx.flatMap fun item =>
    (rules item.1).zipIdx.filterMap fun rule =>
      (found item.2 item.1 rule.1).map fun b => (toLex (item.2, rule.2), b)

theorem mem_swept : (toLex (i, k), b) ∈ swept rules found items ↔
    ∃ a r, items[i]? = some a ∧ (rules a)[k]? = some r ∧ found i a r = some b := by
  constructor
  · intro h
    obtain ⟨⟨a, j⟩, hitem, hmem⟩ := List.mem_flatMap.mp h
    obtain ⟨⟨r, l⟩, hrule, heq⟩ := List.mem_filterMap.mp hmem
    obtain ⟨c, hfound, heq⟩ := Option.map_eq_some_iff.mp heq
    cases heq
    exact ⟨a, r, List.mk_mem_zipIdx_iff_getElem?.mp hitem,
      List.mk_mem_zipIdx_iff_getElem?.mp hrule, hfound⟩
  · rintro ⟨a, r, hitem, hrule, hfound⟩
    refine List.mem_flatMap.mpr ⟨(a, i), List.mk_mem_zipIdx_iff_getElem?.mpr hitem, ?_⟩
    exact List.mem_filterMap.mpr ⟨(r, k), List.mk_mem_zipIdx_iff_getElem?.mpr hrule,
      Option.map_eq_some_iff.mpr ⟨b, hfound, rfl⟩⟩

theorem pairwise_zipIdx (as : List α) : as.zipIdx.Pairwise fun a b => a.2 < b.2 := by
  have hrange := List.pairwise_lt_range' (s := 0) (n := as.length)
  rw [← List.zipIdx_map_snd 0 as] at hrange
  exact List.pairwise_map.mp hrange

/-- The numbers rise. -/
theorem pairwise_swept : (swept rules found items).Pairwise fun a b => a.1 < b.1 := by
  refine List.pairwise_flatMap.mpr ⟨fun item _ => ?_, ?_⟩
  · refine (pairwise_zipIdx _).filterMap _ fun c d hcd p hp q hq => ?_
    obtain ⟨_, _, rfl⟩ := Option.map_eq_some_iff.mp hp
    obtain ⟨_, _, rfl⟩ := Option.map_eq_some_iff.mp hq
    exact Prod.Lex.toLex_lt_toLex.mpr (.inr ⟨rfl, hcd⟩)
  · refine (pairwise_zipIdx items).imp fun hitems p hp q hq => ?_
    obtain ⟨_, -, hp⟩ := List.mem_filterMap.mp hp
    obtain ⟨_, -, hq⟩ := List.mem_filterMap.mp hq
    obtain ⟨_, _, rfl⟩ := Option.map_eq_some_iff.mp hp
    obtain ⟨_, _, rfl⟩ := Option.map_eq_some_iff.mp hq
    exact Prod.Lex.toLex_lt_toLex.mpr (.inl hitems)

theorem map_snd_swept : (swept rules found items).map Prod.snd =
    items.zipIdx.flatMap fun item => (rules item.1).filterMap (found item.2 item.1) := by
  rw [swept, List.map_flatMap]
  congr 1
  funext item
  conv_rhs => rw [← List.zipIdx_map_fst 0 (rules item.1)]
  rw [List.map_filterMap, List.filterMap_map]
  congr 1
  funext rule
  simp

end Swept

def Threshold.found (function : String) (t : Threshold) : Option Finding :=
  if t.exceeded then (t.finding function).toOption else none

def LineCheck.found (n : ℕ) (line : List Char) (check : LineCheck) : Option Finding :=
  if check.applies line then some (check.finding n) else none

def trace (code : List Char) (estimates : List Estimate) : List (Place × Finding) :=
  (swept thresholds (fun _ e => Threshold.found e.function) estimates).map
      (Prod.map Sum.inlₗ id) ++
    (swept (fun _ => lineChecks code) (fun n => LineCheck.found (n + 1)) (Text.lines code)).map
      (Prod.map Sum.inrₗ id)

variable {code : List Char} {estimates : List Estimate} {fs : List Finding}

theorem mem_trace {p : Place} {f : Finding} :
    (p, f) ∈ trace code estimates ↔ Triggers code estimates p f := by
  rw [trace, List.mem_append, List.mem_map, List.mem_map]
  constructor
  · rintro (⟨⟨⟨i, k⟩, g⟩, hmem, heq⟩ | ⟨⟨⟨n, k⟩, g⟩, hmem, heq⟩) <;> cases heq
    · obtain ⟨e, t, he, ht, hfound⟩ := mem_swept.mp hmem
      obtain ⟨hexceeded, hf⟩ := Option.ite_none_right_eq_some.mp hfound
      exact .threshold he ht hexceeded (Partial.toOption_eq_some.mp hf)
    · obtain ⟨line, c, hline, hc, hfound⟩ := mem_swept.mp hmem
      obtain ⟨happlies, hf⟩ := Option.ite_none_right_eq_some.mp hfound
      cases hf
      exact .check hline hc happlies
  · intro h
    cases h with
    | threshold he ht hexceeded hf =>
      exact .inl ⟨_, mem_swept.mpr ⟨_, _, he, ht, Option.ite_none_right_eq_some.mpr
        ⟨hexceeded, Partial.toOption_eq_some.mpr hf⟩⟩, rfl⟩
    | check hline hc happlies =>
      exact .inr ⟨_, mem_swept.mpr ⟨_, _, hline, hc, if_pos happlies⟩, rfl⟩

theorem pairwise_trace : (trace code estimates).Pairwise fun a b => a.1 < b.1 := by
  refine List.pairwise_append.mpr ⟨?_, ?_, ?_⟩
  · exact List.pairwise_map.mpr (pairwise_swept.imp fun h => Sum.Lex.inl_lt_inl_iff.mpr h)
  · exact List.pairwise_map.mpr (pairwise_swept.imp fun h => Sum.Lex.inr_lt_inr_iff.mpr h)
  · intro p hp q hq
    obtain ⟨_, _, rfl⟩ := List.mem_map.mp hp
    obtain ⟨_, _, rfl⟩ := List.mem_map.mp hq
    exact Sum.Lex.inl_lt_inr _ _

/-- The findings of checks are those of the lines by their numbers. -/
theorem inLines_eq (checks : List LineCheck) (n : ℕ) (lines : List (List Char)) :
    inLines checks (n + 1) lines =
      (lines.zipIdx n).flatMap fun line =>
        checks.filterMap (LineCheck.found (line.2 + 1) line.1) := by
  induction lines generalizing n with
  | nil => rfl
  | cons line rest ih =>
    rw [inLines, ih, List.zipIdx_cons, List.flatMap_cons]
    congr 1
    rw [← List.filterMap_eq_map, List.filterMap_filter]
    rfl

/-- The findings about an estimate are those of the thresholds that it exceeds. -/
theorem filterMap_found {e : Estimate} (h : ofEstimate e = .ok fs) :
    (thresholds e).filterMap (Threshold.found e.function) = fs := by
  rw [← Partial.filterMap_toOption h, List.filterMap_filter]
  rfl

/-- The findings that are come upon, one by one. -/
theorem map_snd_trace (h : triggered code estimates = .ok fs) :
    (trace code estimates).map Prod.snd = fs := by
  obtain ⟨groups, hgroups, hrest⟩ := Partial.bind_eq_ok.mp h
  cases hrest
  have hestimates : estimates.zipIdx.flatMap (fun item =>
      (thresholds item.1).filterMap (Threshold.found item.1.function)) = groups.flatten := by
    have hgroups' := List.forall₂_map_left_iff.mpr
      ((Partial.mapM_eq_ok.mp hgroups).imp fun _ _ => filterMap_found)
    rw [List.forall₂_eq_eq_eq] at hgroups'
    rw [← hgroups', ← List.flatMap_def]
    conv_rhs => rw [← List.zipIdx_map_fst 0 estimates, List.flatMap_map]
  rw [trace, List.map_append, List.map_map, List.map_map]
  exact congrArg₂ _ (map_snd_swept.trans hestimates)
    (map_snd_swept.trans (inLines_eq _ 0 _).symm)

end MoveWorkbench.Finding
