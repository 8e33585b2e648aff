import Mathlib.Data.Int.Order.Basic
import Mathlib.Data.List.Infix
import MoveWorkbench.Proofs.Source.Bracket

/-!
Brackets by counting. The depth that text leads to is the number of opening brackets in it less
the closing ones. The partner of a bracket is found at the first place at which the depth is back
to nothing. So what is enclosed is balanced by the numbers of brackets in its parts, and where no
partner is found the rest of the text never closes more brackets than it opens.
-/

namespace MoveWorkbench.Source

variable {α : Type} [BEq α] {opener closer : α}

def rise (opener closer : α) (cs : List α) : ℤ := cs.count opener - cs.count closer

def Upright (opener closer : α) (cs : List α) : Prop :=
  ∀ front, front <+: cs → front.count closer ≤ front.count opener

structure Matched (opener closer : α) (cs : List α) : Prop where
  upright : Upright opener closer cs
  all : cs.count opener = cs.count closer

@[simp] theorem rise_nil : rise opener closer [] = 0 := by simp [rise]

theorem neg_one_le_rise_singleton (c : α) : -1 ≤ rise opener closer [c] := by
  have hle : [c].count closer ≤ 1 := List.count_le_length
  unfold rise
  omega

/-- Parts in front are told by their lengths. -/
theorem upright_iff {cs : List α} :
    Upright opener closer cs ↔ ∀ m, 0 < 1 + rise opener closer (cs.take m) := by
  unfold Upright rise
  constructor
  · intro h m
    have hle := h (cs.take m) (List.take_prefix m cs)
    omega
  · intro h front hfront
    have hpos := h front.length
    rw [← List.prefix_iff_eq_take.mp hfront] at hpos
    omega

theorem rise_append (cs ds : List α) :
    rise opener closer (cs ++ ds) = rise opener closer cs + rise opener closer ds := by
  unfold rise
  rw [List.count_append, List.count_append]
  omega

theorem rise_take_succ (m : ℕ) (c : α) (cs : List α) : rise opener closer ((c :: cs).take (m + 1)) =
    rise opener closer [c] + rise opener closer (cs.take m) := by
  rw [List.take_succ_cons, ← List.singleton_append, rise_append]

variable [LawfulBEq α]

theorem rise_opener (hne : closer ≠ opener) : rise opener closer [opener] = 1 := by
  simp [rise, hne.symm]

theorem rise_closer (hne : closer ≠ opener) : rise opener closer [closer] = -1 := by
  simp [rise, hne]

/-- Going forward by one character changes the depth, and ends the search where nothing of it is
left. -/
theorem closing?_cons (hne : closer ≠ opener) {depth : ℤ} (hdepth : 0 < depth) (c : α)
    (cs : List α) : closing? opener closer depth (c :: cs) =
      if depth + rise opener closer [c] = 0 then some 0
      else (closing? opener closer (depth + rise opener closer [c]) cs).map (· + 1) := by
  by_cases ho : c = opener
  · subst ho
    rw [closing?_opener, rise_opener hne, if_neg (by omega)]
  · by_cases hc : c = closer
    · subst hc
      rw [rise_closer hne]
      by_cases hone : depth = 1
      · simp [closing?, hne, hone]
      · rw [closing?_closer hne hone, if_neg (by omega)]
        rfl
    · have hlevel : rise opener closer [c] = 0 := by simp [rise, ho, hc]
      rw [closing?_plain ho hc, hlevel, if_neg (by omega), Int.add_zero]

/-- The search ends at the first place at which the depth is back to nothing. -/
theorem closing?_eq_some_iff (hne : closer ≠ opener) {depth : ℤ} (hdepth : 0 < depth)
    {cs : List α} {n : ℕ} : closing? opener closer depth cs = some n ↔
      n < cs.length ∧ depth + rise opener closer (cs.take (n + 1)) = 0 ∧
        ∀ m ≤ n, 0 < depth + rise opener closer (cs.take m) := by
  induction cs generalizing depth n with
  | nil => simp [closing?]
  | cons c cs ih =>
    have hstep : -1 ≤ rise opener closer [c] := neg_one_le_rise_singleton c
    rw [closing?_cons hne hdepth]
    split
    · rename_i hzero
      constructor
      · intro hn
        cases hn
        refine ⟨Nat.succ_pos _, ?_, fun m hm => ?_⟩
        · simpa using hzero
        · obtain rfl : m = 0 := Nat.le_zero.mp hm
          simpa using hdepth
      · intro hparts
        obtain ⟨-, -, hbefore⟩ := hparts
        cases n with
        | zero => rfl
        | succ n =>
          have hone := hbefore 1 (Nat.succ_pos n)
          rw [rise_take_succ, List.take_zero, rise_nil] at hone
          omega
    · rename_i hnonzero
      have hpos : 0 < depth + rise opener closer [c] := by omega
      cases n with
      | zero =>
        refine iff_of_false (by simp) fun hparts => hnonzero ?_
        simpa using hparts.2.1
      | succ n =>
        have hrest := ih (n := n) hpos
        simp only [Option.map_eq_some_iff, Nat.add_right_cancel_iff, exists_eq_right, hrest,
          List.length_cons, Nat.add_lt_add_iff_right, rise_take_succ, ← Int.add_assoc]
        refine and_congr_right fun _ => and_congr_right fun _ => ?_
        constructor
        · intro hbefore m hm
          cases m with
          | zero => simpa using hdepth
          | succ m =>
            rw [rise_take_succ, ← Int.add_assoc]
            exact hbefore m (Nat.le_of_succ_le_succ hm)
        · intro hbefore m hm
          have hlater := hbefore (m + 1) (Nat.succ_le_succ hm)
          rwa [rise_take_succ, ← Int.add_assoc] at hlater

/-- The search finds nothing where the depth is never back to nothing. -/
theorem closing?_eq_none_iff (hne : closer ≠ opener) {depth : ℤ} (hdepth : 0 < depth)
    {cs : List α} : closing? opener closer depth cs = none ↔
      ∀ m, 0 < depth + rise opener closer (cs.take m) := by
  induction cs generalizing depth with
  | nil => simp [closing?, hdepth]
  | cons c cs ih =>
    have hstep : -1 ≤ rise opener closer [c] := neg_one_le_rise_singleton c
    rw [closing?_cons hne hdepth]
    split
    · rename_i hzero
      refine iff_of_false (by simp) fun hall => ?_
      have hone := hall 1
      rw [rise_take_succ, List.take_zero, rise_nil] at hone
      omega
    · rename_i hnonzero
      rw [Option.map_eq_none_iff, ih (by omega)]
      constructor
      · intro hall m
        cases m with
        | zero => simpa using hdepth
        | succ m =>
          rw [rise_take_succ, ← Int.add_assoc]
          exact hall m
      · intro hall m
        have hlater := hall (m + 1)
        rwa [rise_take_succ, ← Int.add_assoc] at hlater

/-- What a bracket and its partner enclose is balanced by its numbers of brackets. -/
theorem matched_of_enclosed? (hne : closer ≠ opener) {cs inner rest : List α}
    (h : enclosed? opener closer cs = some (inner, rest)) : Matched opener closer inner := by
  obtain ⟨n, hn, hparts⟩ := Option.map_eq_some_iff.mp h
  obtain ⟨-, hzero, hbefore⟩ := (closing?_eq_some_iff hne Int.one_pos).mp hn
  cases hparts
  have hlast : cs.take (n + 1) = cs.take n ++ [closer] := by
    rw [List.take_add, drop_of_closing? hn, List.take_succ_cons, List.take_zero]
  refine ⟨upright_iff.mpr fun m => ?_, ?_⟩
  · rw [List.take_take]
    exact hbefore _ (Nat.min_le_right m n)
  · rw [hlast, rise_append, rise_closer hne] at hzero
    unfold rise at hzero
    omega

/-- Where a bracket has no partner, the text behind it never closes more brackets than it opens. -/
theorem upright_of_enclosed?_eq_none (hne : closer ≠ opener) {cs : List α}
    (h : enclosed? opener closer cs = none) : Upright opener closer cs :=
  upright_iff.mpr ((closing?_eq_none_iff hne Int.one_pos).mp (Option.map_eq_none_iff.mp h))

end MoveWorkbench.Source
