import Mathlib.Data.List.Infix
import MoveWorkbench.Text.Leading
import MoveWorkbench.Text.Lines

/-!
Parts of texts that are put together. The parts of a text with a separator in its middle are
those before it and those behind it, so that the lines of texts that are put one below the other
are the lines of each of them, in this order. A text in front of another one without a separator
lengthens the first part only.
-/

namespace MoveWorkbench.Text

variable {sep : Char} {cs part : List Char}

theorem split_of_not_mem (h : sep ∉ part) : split sep part = [part] := by
  induction part with
  | nil => rfl
  | cons c cs ih =>
    rw [List.mem_cons, not_or] at h
    rw [split, if_neg (Ne.symm h.1), ih h.2]

/-- The parts on both sides of a separator. -/
theorem split_append_cons (sep : Char) (cs rest : List Char) :
    split sep (cs ++ sep :: rest) = split sep cs ++ split sep rest := by
  induction cs with
  | nil => simp [split]
  | cons c cs ih =>
    rw [List.cons_append, split, split, ih]
    split
    · rfl
    · obtain ⟨first, parts, hparts⟩ := List.exists_cons_of_ne_nil (split_ne_nil sep cs)
      rw [hparts]
      rfl

/-- A text in front lengthens the first part. -/
theorem split_append {first : List Char} {parts : List (List Char)} (h : sep ∉ part)
    (hparts : split sep cs = first :: parts) :
    split sep (part ++ cs) = (part ++ first) :: parts := by
  induction part with
  | nil => exact hparts
  | cons c part ih =>
    rw [List.mem_cons, not_or] at h
    rw [List.cons_append, split, if_neg (Ne.symm h.1), ih h.2, List.cons_append]

/-- The parts of texts that are put together with separators. -/
theorem split_intercalate (sep : Char) (first : List Char) (rest : List (List Char)) :
    split sep ([sep].intercalate (first :: rest)) = (first :: rest).flatMap (split sep) := by
  induction rest generalizing first with
  | nil => rw [List.intercalate_singleton, List.flatMap_singleton]
  | cons next rest ih =>
    rw [List.intercalate_cons_cons, List.append_assoc, List.singleton_append, split_append_cons,
      ih, ← List.flatMap_cons]

/-- What holds of texts without separators, and of a text with one in front of another for which
it holds, holds of all texts. -/
theorem split_induction {P : List Char → Prop} (sep : Char) (whole : ∀ part, sep ∉ part → P part)
    (parted : ∀ part rest, sep ∉ part → P rest → P (part ++ sep :: rest)) (cs : List Char) :
    P cs := by
  have hfront : ∀ part, sep ∉ part → P (part ++ cs) := by
    induction cs with
    | nil =>
      intro part hpart
      rw [List.append_nil]
      exact whole part hpart
    | cons c cs ih =>
      intro part hpart
      by_cases hc : c = sep
      · subst hc
        exact parted part cs hpart (ih [] List.not_mem_nil)
      · rw [List.append_cons]
        refine ih (part ++ [c]) ?_
        rw [List.mem_append, List.mem_singleton, not_or]
        exact ⟨hpart, Ne.symm hc⟩
  exact hfront [] List.not_mem_nil

/-- Parts without separators are read back. -/
theorem split_intercalate_of_not_mem {parts : List (List Char)} (h : ∀ p ∈ part :: parts, sep ∉ p) :
    split sep ([sep].intercalate (part :: parts)) = part :: parts := by
  rw [split_intercalate, List.flatMap_congr fun p hp => split_of_not_mem (h p hp),
    List.flatMap_singleton']

/-- The parts of a text put together are the text. -/
theorem intercalate_split (sep : Char) (cs : List Char) : [sep].intercalate (split sep cs) = cs := by
  induction cs using split_induction sep with
  | whole part h => rw [split_of_not_mem h, List.intercalate_singleton]
  | parted part rest h ih =>
    obtain ⟨first, parts, hparts⟩ := List.exists_cons_of_ne_nil (split_ne_nil sep rest)
    rw [hparts] at ih
    rw [split_append_cons, split_of_not_mem h, hparts, List.singleton_append,
      List.intercalate_cons_cons, ih, List.append_assoc, List.singleton_append]

/-- A separator is in none of the parts. -/
theorem not_mem_of_mem_split (h : part ∈ split sep cs) : sep ∉ part := by
  induction cs generalizing part with
  | nil =>
    rw [split, List.mem_singleton] at h
    rw [h]
    exact List.not_mem_nil
  | cons c cs ih =>
    rw [split] at h
    split at h
    · rcases List.mem_cons.mp h with rfl | h
      · exact List.not_mem_nil
      · exact ih h
    · rename_i hne
      split at h
      · rename_i first rest heq
        rw [heq] at ih
        rcases List.mem_cons.mp h with rfl | h
        · exact List.not_mem_cons_of_ne_of_not_mem (Ne.symm hne) (ih List.mem_cons_self)
        · exact ih (List.mem_cons_of_mem _ h)
      · rename_i heq
        exact absurd heq (split_ne_nil sep cs)

/-- Every part stands in the text. -/
theorem mem_of_mem_split {d : Char} (h : part ∈ split sep cs) (hd : d ∈ part) : d ∈ cs := by
  induction cs generalizing part with
  | nil =>
    rw [split, List.mem_singleton] at h
    rwa [h] at hd
  | cons c cs ih =>
    rw [split] at h
    split at h
    · rcases List.mem_cons.mp h with rfl | h
      · exact absurd hd List.not_mem_nil
      · exact List.mem_cons_of_mem c (ih h hd)
    · obtain ⟨first, rest, heq⟩ := List.exists_cons_of_ne_nil (split_ne_nil sep cs)
      rw [heq] at h ih
      rcases List.mem_cons.mp h with rfl | h
      · rcases List.mem_cons.mp hd with rfl | hd
        · exact List.mem_cons_self
        · exact List.mem_cons_of_mem c (ih List.mem_cons_self hd)
      · exact List.mem_cons_of_mem c (ih (List.mem_cons_of_mem first h) hd)

/-- The lines of texts that are put one below the other. -/
theorem lines_joinLines {ls : List String} (h : ls ≠ []) :
    lines (joinLines ls).toList = ls.flatMap fun l => lines l.toList := by
  obtain ⟨first, rest, rfl⟩ := List.exists_cons_of_ne_nil h
  have hlist : (joinLines (first :: rest)).toList =
      ['\n'].intercalate (first.toList :: rest.map String.toList) := by
    simp [joinLines]
  unfold lines
  rw [hlist, split_intercalate, ← List.map_cons, List.flatMap_map]

theorem occursIn_iff {cs : List Char} : occursIn part cs = true ↔ part <:+: cs := by
  induction cs with
  | nil => simp [occursIn]
  | cons c cs ih =>
    have hstart : (after? part (c :: cs)).isSome = true ↔ part <+: c :: cs := by
      simp only [Option.isSome_iff_exists, after?_eq_some_iff]
      exact exists_congr fun _ => eq_comm
    rw [occursIn, Bool.or_eq_true, hstart, ih, List.infix_cons_iff]

/-- A part does not begin in a text in front that lacks its second character. -/
theorem occursIn_append {a b : Char} {rest cs : List Char} (h : b ∉ part)
    (hcs : cs.head? ≠ some b) :
    occursIn (a :: b :: rest) (part ++ cs) = occursIn (a :: b :: rest) cs := by
  induction part with
  | nil => rfl
  | cons c part ih =>
    rw [List.mem_cons, not_or] at h
    have hnext : (part ++ cs).head? ≠ some b := by
      cases part with
      | nil => exact hcs
      | cons d part =>
        intro heq
        exact h.2 (Option.some.inj heq ▸ List.mem_cons_self)
    have hstart : after? (a :: b :: rest) (c :: (part ++ cs)) = none := by
      rw [Option.eq_none_iff_forall_ne_some]
      intro after hafter
      obtain ⟨-, htail⟩ := List.cons_eq_cons.mp (after?_eq_some_iff.mp hafter)
      exact hnext (by rw [htail]; rfl)
    rw [List.cons_append, occursIn, hstart, ih h.2]
    rfl

end MoveWorkbench.Text
