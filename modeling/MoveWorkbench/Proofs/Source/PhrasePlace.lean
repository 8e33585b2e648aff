import Mathlib.Algebra.GroupWithZero.Nat
import Mathlib.Data.Nat.Find
import MoveWorkbench.Proofs.Source.PhraseCount
import MoveWorkbench.Proofs.Text.Lines

/-!
Places of phrases. A family is counted in a text just when a phrase of it stands at some place.
Where the family is parted by line breaks, its phrases are counted line by line, and the first
line in which it occurs is the one with the first place of a phrase.
-/

namespace MoveWorkbench.Source.Family

open Text

def StandsFrom (f : Family) : Option Char → List Char → ℕ → Prop
  | before, cs, 0 => (f.length? before cs).isSome
  | _, [], _ + 1 => False
  | _, c :: cs, i + 1 => f.StandsFrom (some c) cs i

structure FirstPlace (f : Family) (cs : List Char) (i : ℕ) : Prop where
  stands : f.StandsFrom none cs i
  least : ∀ j < i, ¬ f.StandsFrom none cs j

variable {f : Family} {before : Option Char} {c : Char} {as bs cs line : List Char} {i n : ℕ}

theorem StandsFrom.lt_length (h : f.StandsFrom before cs i) : i < cs.length := by
  induction cs generalizing before i with
  | nil =>
    cases i with
    | zero => simp [StandsFrom, length?_nil] at h
    | succ i => exact h.elim
  | cons c cs ih =>
    cases i with
    | zero => exact Nat.succ_pos _
    | succ i => exact Nat.succ_lt_succ (ih h)

/-- Nothing is counted just when no phrase stands anywhere. -/
theorem countFrom_eq_zero_iff :
    f.countFrom before 0 cs = 0 ↔ ∀ i, ¬ f.StandsFrom before cs i := by
  induction cs generalizing before with
  | nil =>
    exact iff_of_true rfl fun i h => absurd h.lt_length (Nat.not_lt_zero i)
  | cons c cs ih =>
    rw [countFrom]
    cases hlength : f.length? before (c :: cs) with
    | none =>
      dsimp only
      rw [ih]
      constructor
      · intro h i
        cases i with
        | zero => simp [StandsFrom, hlength]
        | succ i => exact h i
      · exact fun h i => h (i + 1)
    | some n =>
      refine iff_of_false (Nat.succ_ne_zero _) fun h => h 0 ?_
      rw [StandsFrom, hlength]
      rfl

theorem occurs_iff : f.occurs cs = true ↔ ∃ i, f.FirstPlace cs i := by
  have hcount : f.occurs cs = true ↔ ∃ i, f.StandsFrom none cs i := by
    rw [occurs, decide_eq_true_iff, Nat.pos_iff_ne_zero, count, Ne, countFrom_eq_zero_iff]
    push Not
    rfl
  rw [hcount]
  constructor
  · intro h
    classical
    exact ⟨Nat.find h, Nat.find_spec h, fun j hj => Nat.find_min h hj⟩
  · rintro ⟨i, h⟩
    exact ⟨i, h.stands⟩

/-- Up to a sign that parts the family, its phrases stand where they stand without the rest. -/
theorem standsFrom_append (hc : f.PartedBy c) (hi : i ≤ as.length) :
    f.StandsFrom before (as ++ c :: bs) i ↔ f.StandsFrom before as i := by
  induction as generalizing before i with
  | nil =>
    obtain rfl : i = 0 := Nat.le_zero.mp hi
    rw [StandsFrom, StandsFrom, length?_append hc]
  | cons a as ih =>
    cases i with
    | zero => rw [StandsFrom, StandsFrom, length?_append hc]
    | succ i => exact ih (Nat.le_of_succ_le_succ hi)

/-- Behind the sign its phrases stand where they stand in the rest alone. -/
theorem standsFrom_behind (hc : f.PartedBy c) :
    f.StandsFrom before (as ++ c :: bs) (as.length + 1 + i) ↔ f.StandsFrom none bs i := by
  induction as generalizing before with
  | nil =>
    have hfresh : insideWord (some c) = insideWord none := hc.notWord
    rw [List.nil_append, List.length_nil, Nat.zero_add, Nat.add_comm, StandsFrom]
    cases i with
    | zero => rw [StandsFrom, StandsFrom, length?_congr hfresh]
    | succ i => cases bs <;> exact Iff.rfl
  | cons a as ih =>
    rw [List.cons_append, List.length_cons, Nat.add_right_comm as.length 1 1,
      Nat.add_right_comm _ 1 i]
    exact ih

/-- A text in which the family does not occur has no place in front of the sign. -/
theorem not_standsFrom_of_le (hc : f.PartedBy c) (has : f.occurs as = false)
    (hi : i ≤ as.length) : ¬ f.StandsFrom none (as ++ c :: bs) i := by
  rw [standsFrom_append hc hi]
  have hzero : f.count as = 0 := by
    unfold occurs at has
    simpa using has
  exact countFrom_eq_zero_iff.mp hzero i

theorem FirstPlace.append (hc : f.PartedBy c) (h : f.FirstPlace as i) :
    f.FirstPlace (as ++ c :: bs) i := by
  have hi : i ≤ as.length := h.stands.lt_length.le
  exact ⟨(standsFrom_append hc hi).mpr h.stands,
    fun j hj => (standsFrom_append hc (hj.le.trans hi)).not.mpr (h.least j hj)⟩

theorem FirstPlace.behind (hc : f.PartedBy c) (has : f.occurs as = false)
    (h : f.FirstPlace bs i) : f.FirstPlace (as ++ c :: bs) (as.length + 1 + i) := by
  refine ⟨(standsFrom_behind hc).mpr h.stands, fun j hj => ?_⟩
  rcases Nat.lt_or_ge as.length j with hless | hle
  · obtain ⟨k, rfl⟩ := Nat.exists_eq_add_of_lt hless
    rw [Nat.add_right_comm, standsFrom_behind hc]
    exact h.least k (by omega)
  · exact not_standsFrom_of_le hc has hle

/-- A family that is parted by line breaks is counted line by line. -/
theorem sum_count_lines (hbreak : f.PartedBy '\n') (cs : List Char) :
    ((lines cs).map f.count).sum = f.count cs := by
  induction cs using split_induction '\n' with
  | whole part hpart => rw [lines, split_of_not_mem hpart, List.map_singleton, List.sum_singleton]
  | parted part rest hpart ih =>
    rw [lines, split_append_cons, split_of_not_mem hpart, List.singleton_append, List.map_cons,
      List.sum_cons, count_append hbreak, ← ih, lines]

/-- The first line in which the family occurs is the one with the first place of a phrase. -/
theorem exists_firstPlace_of_lines (hbreak : f.PartedBy '\n') (hline : (lines cs)[n]? = some line)
    (hoccurs : f.occurs line = true)
    (hleast : ∀ m < n, ∀ l, (lines cs)[m]? = some l → f.occurs l = false) :
    ∃ i, f.FirstPlace cs i ∧ (cs.take i).count '\n' = n := by
  have hzero {part : List Char} (hpart : '\n' ∉ part) (hoccurs : f.occurs part = true) :
      ∃ i, f.FirstPlace part i ∧ (part.take i).count '\n' = 0 := by
    obtain ⟨i, hi⟩ := occurs_iff.mp hoccurs
    exact ⟨i, hi, List.count_eq_zero.mpr fun hmem => hpart (List.mem_of_mem_take hmem)⟩
  induction cs using split_induction '\n' generalizing n with
  | whole part hpart =>
    rw [lines, split_of_not_mem hpart] at hline
    cases n with
    | zero =>
      cases hline
      exact hzero hpart hoccurs
    | succ n => cases hline
  | parted part rest hpart ih =>
    have hlines : lines (part ++ '\n' :: rest) = part :: lines rest := by
      rw [lines, split_append_cons, split_of_not_mem hpart]
      rfl
    rw [hlines] at hline hleast
    cases n with
    | zero =>
      cases hline
      obtain ⟨i, hi, hcount⟩ := hzero hpart hoccurs
      refine ⟨i, hi.append hbreak, ?_⟩
      rw [List.take_append_of_le_length hi.stands.lt_length.le, hcount]
    | succ n =>
      have hpart' : f.occurs part = false := hleast 0 n.succ_pos part rfl
      obtain ⟨i, hi, hcount⟩ := ih hline fun m hm => hleast (m + 1) (Nat.succ_lt_succ hm)
      have htake : (part ++ '\n' :: rest).take (part.length + 1 + i) =
          part ++ '\n' :: rest.take i := by
        rw [List.take_append, Nat.add_assoc, List.take_of_length_le (Nat.le_add_right _ _),
          Nat.add_sub_cancel_left, Nat.add_comm 1 i, List.take_succ_cons]
      refine ⟨_, hi.behind hbreak hpart', ?_⟩
      rw [htake, List.count_append, List.count_eq_zero.mpr hpart, List.count_cons_self, hcount]
      omega

end MoveWorkbench.Source.Family
