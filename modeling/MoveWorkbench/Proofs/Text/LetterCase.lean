import Mathlib.Data.List.TakeWhile
import MoveWorkbench.Text.Blank
import MoveWorkbench.Text.Case
import MoveWorkbench.Text.Word

/-!
Texts that differ by the case of their ASCII letters. Each of them has one form in small letters,
and what is told by single characters, or by the case that others around have, is told from this
form as well. Lower case is told so: whether a sigma is final depends on which characters near it
have case at all.
-/

namespace MoveWorkbench.Text

/-- Whether two texts differ by the case of their ASCII letters at most. Other characters are
their own small letters here. -/
def Recased (s t : List Char) : Prop := s.map Char.toLower = t.map Char.toLower

instance (s t : List Char) : Decidable (Recased s t) := inferInstanceAs (Decidable (_ = _))

/-- What small letters tell as well is told of both texts alike. -/
theorem Recased.congr {α : Type} {F : List Char → α} (hF : ∀ cs, F (cs.map Char.toLower) = F cs)
    {s t : List Char} (h : Recased s t) : F s = F t := by
  rw [← hF s, ← hF t, h]

/-- The capitals that have small letters here lie below 128. -/
theorem toLower_of_le {c : Char} (h : 128 ≤ c.toNat) : c.toLower = c := by
  have hlarge : ¬ c.val ≤ 'Z'.val := by
    rw [UInt32.le_iff_toNat_le]
    exact fun hle => absurd (h.trans hle) (by decide)
  exact dif_neg fun hcapital => hlarge hcapital.2

/-- What case does not matter to among the ASCII characters, it does not matter to at all. -/
theorem apply_toLower {α : Type} {f : Char → α}
    (h : ∀ n < 128, f (Char.ofNat n).toLower = f (Char.ofNat n)) (c : Char) :
    f c.toLower = f c := by
  by_cases hc : c.toNat < 128
  · have hascii := h c.toNat hc
    rwa [Char.ofNat_toNat] at hascii
  · rw [toLower_of_le (not_lt.mp hc)]

theorem isWord_toLower (c : Char) : isWord c.toLower = isWord c :=
  apply_toLower (by decide +kernel) c

theorem isBlank_toLower (c : Char) : isBlank c.toLower = isBlank c :=
  apply_toLower (by decide +kernel) c

theorem isCased_toLower (c : Char) : isCased c.toLower = isCased c :=
  apply_toLower (by decide +kernel) c

theorem isPassedOver_toLower (c : Char) : isPassedOver c.toLower = isPassedOver c :=
  apply_toLower (by decide +kernel) c

theorem lowerChar_toLower (c : Char) : lowerChar c.toLower = lowerChar c :=
  apply_toLower (by decide +kernel) c

theorem skipBlanks_map (cs : List Char) :
    skipBlanks (cs.map Char.toLower) = (skipBlanks cs).map Char.toLower := by
  have hblank : isBlank ∘ Char.toLower = isBlank := funext isBlank_toLower
  rw [skipBlanks, List.dropWhile_map, hblank, skipBlanks]

theorem nextIsCased_map (cs : List Char) :
    nextIsCased (cs.map Char.toLower) = nextIsCased cs := by
  have hpassed : isPassedOver ∘ Char.toLower = isPassedOver := funext isPassedOver_toLower
  rw [nextIsCased, List.dropWhile_map, hpassed, nextIsCased]
  cases cs.dropWhile isPassedOver with
  | nil => rfl
  | cons c _ => exact isCased_toLower c

theorem lowerBetween_map (before : List Char) (c : Char) (after : List Char) :
    lowerBetween (before.map Char.toLower) c.toLower (after.map Char.toLower) =
      lowerBetween before c after := by
  -- the two capitals with a rule of their own are no ASCII letters
  have hdotted : (c.toLower.toNat == 0x130) = (c.toNat == 0x130) :=
    apply_toLower (f := fun d => d.toNat == 0x130) (by decide +kernel) c
  have hsigma : (c.toLower.toNat == 0x3a3) = (c.toNat == 0x3a3) :=
    apply_toLower (f := fun d => d.toNat == 0x3a3) (by decide +kernel) c
  simp only [lowerBetween, hdotted, hsigma, nextIsCased_map, lowerChar_toLower]

theorem lowerFrom_map (cs : List Char) (before : List Char) :
    lowerFrom (before.map Char.toLower) (cs.map Char.toLower) = lowerFrom before cs := by
  induction cs generalizing before with
  | nil => rfl
  | cons c cs ih =>
    rw [List.map_cons, lowerFrom, lowerBetween_map, ← List.map_cons, ih, lowerFrom]

/-- Texts that differ by case have the same lower case. -/
theorem Recased.lowerChars {s t : List Char} (h : Recased s t) : lowerChars s = lowerChars t :=
  h.congr fun cs => lowerFrom_map cs []

end MoveWorkbench.Text
