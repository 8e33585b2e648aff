import Mathlib.Data.Int.Order.Basic
import MoveWorkbench.Source.Bracket

/-!
Balanced text. Passing over it changes no depth, so the partner of a bracket that was
opened in front of balanced text is the closing bracket right after it, whatever stands
between them and whatever comes later.
-/

namespace MoveWorkbench.Source

variable {α : Type}

/-- Text in which every bracket has its partner: nothing, a character that is no bracket in
front of such a text, or such a text in brackets in front of another one. -/
inductive Balanced (opener closer : α) : List α → Prop where
  | nil : Balanced opener closer []
  | plain {c : α} {cs : List α} (ho : c ≠ opener) (hc : c ≠ closer)
    (h : Balanced opener closer cs) : Balanced opener closer (c :: cs)
  | nested {inner cs : List α} (hinner : Balanced opener closer inner)
    (h : Balanced opener closer cs) :
    Balanced opener closer (opener :: (inner ++ closer :: cs))

variable {opener closer : α}

/-- Text without brackets may stand in front of balanced text. -/
theorem Balanced.append_plain {front cs : List α} (hfront : ∀ c ∈ front, c ≠ opener ∧ c ≠ closer)
    (h : Balanced opener closer cs) : Balanced opener closer (front ++ cs) := by
  induction front with
  | nil => exact h
  | cons c front ih =>
    rw [List.forall_mem_cons] at hfront
    exact .plain hfront.1.1 hfront.1.2 (ih hfront.2)

/-- Balanced texts may follow one another. -/
theorem Balanced.append {cs ds : List α} (hcs : Balanced opener closer cs)
    (hds : Balanced opener closer ds) : Balanced opener closer (cs ++ ds) := by
  induction hcs with
  | nil => exact hds
  | plain ho hc _ ih => exact .plain ho hc ih
  | nested hinner _ _ ih =>
    rw [List.cons_append, List.append_assoc, List.cons_append]
    exact .nested hinner ih

variable [BEq α] [LawfulBEq α]

theorem closing?_opener (depth : ℤ) (cs : List α) :
    closing? opener closer depth (opener :: cs) =
      (closing? opener closer (depth + 1) cs).map (· + 1) := by
  simp [closing?]

theorem closing?_closer (hne : closer ≠ opener) {depth : ℤ} (hdepth : depth ≠ 1) (cs : List α) :
    closing? opener closer depth (closer :: cs) =
      (closing? opener closer (depth - 1) cs).map (· + 1) := by
  simp [closing?, hne, hdepth]

theorem closing?_plain {c : α} (ho : c ≠ opener) (hc : c ≠ closer) (depth : ℤ) (cs : List α) :
    closing? opener closer depth (c :: cs) =
      (closing? opener closer depth cs).map (· + 1) := by
  simp [closing?, ho, hc]

/-- A closing bracket stands at the place that is found. -/
theorem drop_of_closing? {depth : ℤ} {cs : List α} {n : ℕ}
    (h : closing? opener closer depth cs = some n) :
    cs.drop n = closer :: cs.drop (n + 1) := by
  induction cs generalizing depth n with
  | nil => cases h
  | cons c cs ih =>
    have hlater {depth : ℤ} (h : (closing? opener closer depth cs).map (· + 1) = some n) :
        (c :: cs).drop n = closer :: (c :: cs).drop (n + 1) := by
      obtain ⟨m, hm, rfl⟩ := Option.map_eq_some_iff.mp h
      exact ih hm
    rw [closing?] at h
    split at h
    · exact hlater h
    · split at h
      · rename_i hcloser
        split at h
        · cases h
          rw [eq_of_beq hcloser]
          rfl
        · exact hlater h
      · exact hlater h

/-- What is enclosed ends at a closing bracket. -/
theorem eq_append_of_enclosed? {cs inner rest : List α}
    (h : enclosed? opener closer cs = some (inner, rest)) : cs = inner ++ closer :: rest := by
  obtain ⟨n, hn, hparts⟩ := Option.map_eq_some_iff.mp h
  cases hparts
  rw [← drop_of_closing? hn]
  exact (List.take_append_drop n cs).symm

/-- Balanced text is passed over. -/
theorem closing?_append (hne : closer ≠ opener) {cs : List α} (h : Balanced opener closer cs)
    {depth : ℤ} (hdepth : 1 ≤ depth) (rest : List α) :
    closing? opener closer depth (cs ++ rest) =
      (closing? opener closer depth rest).map (· + cs.length) := by
  induction h generalizing depth rest with
  | nil => simp
  | plain ho hc _ ih =>
    rw [List.cons_append, closing?_plain ho hc, ih hdepth, Option.map_map]
    rfl
  | @nested inner cs _ _ ihinner ih =>
    have hback : depth + 1 - 1 = depth := by omega
    rw [List.cons_append, List.append_assoc, closing?_opener, ihinner (by omega),
      List.cons_append, closing?_closer hne (by omega), hback, ih hdepth, Option.map_map,
      Option.map_map, Option.map_map]
    congr 1
    funext n
    simp only [Function.comp_apply, List.length_cons, List.length_append]
    omega

/-- The partner of a bracket stands right after balanced text. -/
theorem enclosed?_of_balanced (hne : closer ≠ opener) {cs : List α}
    (h : Balanced opener closer cs) (rest : List α) :
    enclosed? opener closer (cs ++ closer :: rest) = some (cs, rest) := by
  have hclosing : closing? opener closer 1 (cs ++ closer :: rest) = some cs.length := by
    rw [closing?_append hne h (le_refl 1)]
    simp [closing?, hne]
  unfold enclosed?
  rw [hclosing]
  simp

end MoveWorkbench.Source
