import Mathlib.Data.List.TakeWhile
import MoveWorkbench.Text.Blank
import MoveWorkbench.Text.Case
import MoveWorkbench.Text.Word

/-!
Blanks and word characters in a text. No character is both, so a word ends at a blank and
blanks end at a word. Lower case makes no characters but letters and marks, so that what comes
before the letters in ASCII stands in the text already.
-/

namespace MoveWorkbench.Text

def narrowBlanks : List ℕ := [0x9, 0xa, 0xb, 0xc, 0xd, 0x1c, 0x1d, 0x1e, 0x1f, 0x20]

def wideBlanks : List ℕ := [
  0x85, 0xa0, 0x1680, 0x2000, 0x2001, 0x2002, 0x2003, 0x2004, 0x2005, 0x2006, 0x2007, 0x2008,
  0x2009, 0x200a, 0x2028, 0x2029, 0x202f, 0x205f, 0x3000]

theorem mem_blanks_of_isBlank {c : Char} (h : isBlank c = true) :
    c.toNat ∈ narrowBlanks ∨ c.toNat ∈ wideBlanks := by
  simp only [isBlank, isWhite, Bool.or_eq_true, Bool.and_eq_true, decide_eq_true_eq,
    beq_iff_eq] at h
  simp only [narrowBlanks, wideBlanks, List.mem_cons, List.not_mem_nil, or_false]
  omega

/-- No blank is a word character. -/
theorem isWord_of_isBlank {c : Char} (h : isBlank c = true) : isWord c = false := by
  rcases mem_blanks_of_isBlank h with hc | hc
  · have hnarrow : ∀ n ∈ narrowBlanks, isWord (Char.ofNat n) = false := by decide +kernel
    have hword := hnarrow c.toNat hc
    rwa [Char.ofNat_toNat] at hword
  · have hwide : ∀ n ∈ wideBlanks, ¬ n < 128 ∧
        wideAlphanumeric.changes.countP (· ≤ n) % 2 = 0 := by decide +kernel
    obtain ⟨hlarge, heven⟩ := hwide c.toNat hc
    simp [isWord, hlarge, Charset.contains, heven]

theorem isBlank_of_isWord {c : Char} (h : isWord c = true) : isBlank c = false := by
  rw [← Bool.not_eq_true]
  intro hblank
  rw [isWord_of_isBlank hblank] at h
  cases h

theorem skipBlanks_of_not_isBlank {c : Char} (h : isBlank c = false) (cs : List Char) :
    skipBlanks (c :: cs) = c :: cs := List.dropWhile_cons_of_neg (by simp [h])

theorem toNat_ofNat (n : ℕ) : (Char.ofNat n).toNat = n ∨ (Char.ofNat n).toNat = 0 := by
  by_cases h : n.isValidChar
  · rw [Char.ofNat, dif_pos h]
    exact .inl rfl
  · rw [Char.ofNat, dif_neg h]
    exact .inr rfl

section LowerCase

variable {c d : Char}

theorem eq_of_eq_lowerChar (hpos : 0 < d.toNat) (hlow : d.toNat < 0x61)
    (h : d = lowerChar c) : d = c := by
  unfold lowerChar at h
  split at h
  · rename_i hascii
    have hall : ∀ n < 128, (Char.ofNat n).toLower.toNat < 0x61 →
        (Char.ofNat n).toLower = Char.ofNat n := by decide +kernel
    have hlower := hall c.toNat hascii
    rw [Char.ofNat_toNat, ← h] at hlower
    exact hlower hlow
  · split at h
    · rename_i r hr
      -- no run moves a character to a place before the small letters
      have hall : ∀ r ∈ wideCaseRuns, 0x61 ≤ r.first + r.offset := by decide +kernel
      have hrun := hall r (List.mem_of_find?_eq_some hr)
      have hcovers := List.find?_some hr
      simp only [CaseRun.covers, Bool.and_eq_true, decide_eq_true_eq] at hcovers
      rcases toNat_ofNat (c.toNat + r.offset).toNat with hplace | hplace
      all_goals
        unfold CaseRun.move at h
        rw [← h] at hplace
        omega
    · exact h

theorem eq_of_mem_lowerBetween {before after : List Char} (hpos : 0 < d.toNat)
    (hlow : d.toNat < 0x61) (h : d ∈ lowerBetween before c after) : d = c := by
  unfold lowerBetween at h
  split at h
  · rw [List.mem_cons, List.mem_singleton] at h
    rcases h with rfl | rfl
    · exact absurd hlow (by decide)
    · exact absurd hlow (by decide)
  · split at h
    · rw [List.mem_singleton] at h
      subst h
      split at hlow <;> exact absurd hlow (by decide)
    · exact eq_of_eq_lowerChar hpos hlow (List.mem_singleton.mp h)

/-- A character that comes before the small letters is not made by lower case. -/
theorem mem_of_mem_lower {s : String} (hpos : 0 < d.toNat) (hlow : d.toNat < 0x61)
    (h : d ∈ (lower s).toList) : d ∈ s.toList := by
  have hfrom (cs : List Char) : ∀ before, d ∈ lowerFrom before cs → d ∈ cs := by
    induction cs with
    | nil => exact fun _ h => h
    | cons c cs ih =>
      intro before h
      rcases List.mem_append.mp h with h | h
      · exact List.mem_cons.mpr (.inl (eq_of_mem_lowerBetween hpos hlow h))
      · exact List.mem_cons_of_mem c (ih _ h)
  unfold lower lowerChars at h
  rw [String.toList_ofList] at h
  exact hfrom s.toList [] h

/-- Line breaks are neither made nor lost by lower case. -/
theorem count_break_lower (s : String) : (lower s).toList.count '\n' = s.toList.count '\n' := by
  have hone (before : List Char) (c : Char) (after : List Char) :
      (lowerBetween before c after).count '\n' = [c].count '\n' := by
    by_cases hc : c = '\n'
    · rw [hc, lowerBetween_of_ascii (by decide)]
      rfl
    · have hnone : '\n' ∉ lowerBetween before c after := fun hmem =>
        hc (eq_of_mem_lowerBetween (by decide) (by decide) hmem).symm
      rw [List.count_eq_zero.mpr hnone, List.count_singleton, if_neg (by simpa using hc)]
  have hfrom (cs : List Char) : ∀ before,
      (lowerFrom before cs).count '\n' = cs.count '\n' := by
    induction cs with
    | nil => exact fun _ => rfl
    | cons c cs ih =>
      intro before
      rw [lowerFrom, List.count_append, hone, ih, ← List.count_append, List.singleton_append]
  unfold lower lowerChars
  rw [String.toList_ofList]
  exact hfrom s.toList []

end LowerCase

end MoveWorkbench.Text
