import MoveWorkbench.Proofs.Source.Head
import MoveWorkbench.Source.Phrase

/-!
Phrases do not reach across braces and semicolons. A phrase that begins in front of such a sign
ends in front of it, and whether a word may begin or end next to the sign is as at an end of the
text. So the phrases of a text with the sign in it are those in front of it and those behind it.
A line break is as good a sign for families without calls: only the blanks of a call may hold one.
-/

namespace MoveWorkbench.Source

open Text

/-- A character that parts the phrases of a family: none of them has it, no word has it, and it
does not lead on to the parenthesis of a call. -/
structure Family.PartedBy (f : Family) (c : Char) : Prop where
  notWord : isWord c = false
  unspoken : ∀ p ∈ f.phrases, letter c ∉ p.text
  uncalled : ∀ p ∈ f.phrases, p.ending = .call → isBlank c = false ∧ c ≠ '('

namespace Family

theorem partedBy_openingBrace (f : Family) : f.PartedBy '\x7b' where
  notWord := rfl
  unspoken := by cases f <;> decide
  uncalled _ _ _ := by decide

theorem partedBy_closingBrace (f : Family) : f.PartedBy '\x7d' where
  notWord := rfl
  unspoken := by cases f <;> decide
  uncalled _ _ _ := by decide

theorem partedBy_semicolon (f : Family) : f.PartedBy ';' where
  notWord := rfl
  unspoken := by cases f <;> decide
  uncalled _ _ _ := by decide

/-- A family without calls is parted by line breaks. -/
theorem partedBy_lineBreak {f : Family} (h : ∀ p ∈ f.phrases, p.ending ≠ .call) :
    f.PartedBy '\n' where
  notWord := rfl
  unspoken := by cases f <;> decide
  uncalled p hp hcall := absurd hcall (h p hp)

end Family

variable {c : Char} {as bs rest : List Char} {n : ℕ}

theorem afterText?_append {text : List Char} (hc : letter c ∉ text) :
    afterText? text (as ++ c :: bs) = (afterText? text as).map (· ++ c :: bs) := by
  induction text generalizing as with
  | nil => simp [afterText?]
  | cons t text ih =>
    rw [List.mem_cons, not_or] at hc
    cases as with
    | nil => simp [afterText?, hc.1]
    | cons a as =>
      simp only [List.cons_append, afterText?]
      split
      · exact ih hc.2
      · rfl

theorem length_of_afterText? {text : List Char} (h : afterText? text as = some rest) :
    as.length = text.length + rest.length := by
  induction text generalizing as with
  | nil =>
    cases h
    simp
  | cons t text ih =>
    cases as with
    | nil => cases h
    | cons a as =>
      simp only [afterText?] at h
      split at h
      · have hlength := ih h
        simp only [List.length_cons]
        omega
      · cases h

namespace Ending

/-- An ending takes nothing of what stands behind a sign. -/
theorem length?_append {e : Ending} (hword : isWord c = false)
    (hcall : e = .call → isBlank c = false ∧ c ≠ '(') :
    e.length? (as ++ c :: bs) = e.length? as := by
  cases e with
  | anything => rfl
  | wordEnd =>
    cases as with
    | nil => simp [length?, insideWord, hword]
    | cons a as => rfl
  | call =>
    obtain ⟨hblank, hopener⟩ := hcall rfl
    have hskip : skipBlanks (as ++ c :: bs) = skipBlanks as ++ c :: bs := by
      have hsign : (c :: bs).dropWhile isBlank = c :: bs := skipBlanks_of_not_isBlank hblank bs
      unfold skipBlanks
      rw [List.dropWhile_append, hsign]
      split
      · rename_i hempty
        rw [List.isEmpty_iff.mp hempty, List.nil_append]
      · rfl
    have hlengths (after : List Char) : (as ++ c :: bs).length - (after ++ c :: bs).length =
        as.length - after.length := by
      simp only [List.length_append]
      omega
    simp only [length?, hskip]
    cases skipBlanks as with
    | nil =>
      rw [List.nil_append]
      split
      · rename_i heq
        injection heq with heq
        exact absurd heq hopener
      · rfl
    | cons a after =>
      rw [List.cons_append]
      by_cases ha : a = '('
      · subst ha
        exact congrArg some (hlengths after)
      · simp [ha]

theorem length?_le {e : Ending} (h : e.length? as = some n) : n ≤ as.length := by
  cases e with
  | anything =>
    cases h
    exact Nat.zero_le _
  | wordEnd =>
    simp only [length?] at h
    split at h
    · cases h
    · cases h
      exact Nat.zero_le _
  | call =>
    simp only [length?] at h
    split at h
    · cases h
      exact Nat.sub_le _ _
    · cases h

end Ending

namespace Phrase

/-- A phrase in front of a sign does not depend on what stands behind the sign. -/
theorem length?_append {f : Family} (hc : f.PartedBy c) {p : Phrase} (hp : p ∈ f.phrases)
    (before : Option Char) : p.length? before (as ++ c :: bs) = p.length? before as := by
  unfold length?
  rw [afterText?_append (hc.unspoken p hp)]
  cases afterText? p.text as with
  | none => rfl
  | some rest =>
    simp only [Option.map_some, Ending.length?_append hc.notWord (hc.uncalled p hp)]

theorem length?_nil {p : Phrase} (hp : p.text ≠ []) (before : Option Char) :
    p.length? before [] = none := by
  obtain ⟨t, text, htext⟩ := List.exists_cons_of_ne_nil hp
  simp [length?, htext, afterText?]

theorem length?_le {p : Phrase} {before : Option Char} (h : p.length? before as = some n) :
    n ≤ as.length := by
  unfold length? at h
  split at h
  · cases h
  · split at h
    · cases h
    · rename_i rest hrest
      obtain ⟨m, hm, rfl⟩ := Option.map_eq_some_iff.mp h
      have hlength := length_of_afterText? hrest
      have hle := Ending.length?_le hm
      omega

end Phrase

namespace Family

variable {f : Family}

theorem length?_append (hc : f.PartedBy c) (before : Option Char) :
    f.length? before (as ++ c :: bs) = f.length? before as := by
  have hphrases : ∀ ps : List Phrase, (∀ p ∈ ps, p ∈ f.phrases) →
      ps.findSome? (·.length? before (as ++ c :: bs)) = ps.findSome? (·.length? before as) := by
    intro ps hps
    induction ps with
    | nil => rfl
    | cons p ps ih =>
      rw [List.forall_mem_cons] at hps
      rw [List.findSome?_cons, List.findSome?_cons, Phrase.length?_append hc hps.1, ih hps.2]
  exact hphrases f.phrases fun _ hp => hp

theorem length?_le {before : Option Char} (h : f.length? before as = some n) : n ≤ as.length := by
  obtain ⟨p, -, hp⟩ := List.exists_of_findSome?_eq_some h
  exact Phrase.length?_le hp

/-- No phrase is empty, so none stands in nothing. -/
theorem length?_nil (f : Family) (before : Option Char) : f.length? before [] = none := by
  have htexts : ∀ p ∈ f.phrases, p.text ≠ [] := by cases f <;> decide
  exact List.findSome?_eq_none_iff.mpr fun p hp => Phrase.length?_nil (htexts p hp) before

/-- All that counts in front of a text is whether a word can begin there. -/
theorem length?_congr {b b' : Option Char} (h : insideWord b = insideWord b') (f : Family)
    (cs : List Char) : f.length? b cs = f.length? b' cs := by
  simp only [length?, Phrase.length?, h]

theorem countFrom_congr {b b' : Option Char} (h : insideWord b = insideWord b') (f : Family)
    (cs : List Char) : f.countFrom b 0 cs = f.countFrom b' 0 cs := by
  cases cs with
  | nil => rfl
  | cons d ds => simp only [countFrom, length?_congr h]

/-- Counting begins anew behind a sign, wherever the last phrase in front of it ended. -/
theorem countFrom_append (hc : f.PartedBy c) (before : Option Char) {skip : ℕ}
    (hskip : skip ≤ as.length) :
    f.countFrom before skip (as ++ c :: bs) = f.countFrom before skip as + f.count bs := by
  induction as generalizing before skip with
  | nil =>
    obtain rfl : skip = 0 := Nat.le_zero.mp hskip
    have hnone : f.length? before ([] ++ c :: bs) = none :=
      (length?_append hc before).trans (length?_nil f before)
    rw [List.nil_append] at hnone
    have hfresh : insideWord (some c) = insideWord none := hc.notWord
    simp only [List.nil_append, countFrom, hnone, Nat.zero_add]
    exact countFrom_congr hfresh f bs
  | cons a as ih =>
    cases skip with
    | succ skip =>
      rw [List.cons_append, countFrom, countFrom]
      exact ih _ (Nat.le_of_succ_le_succ hskip)
    | zero =>
      have hsame : f.length? before ((a :: as) ++ c :: bs) = f.length? before (a :: as) :=
        length?_append hc before
      rw [List.cons_append] at hsame ⊢
      rw [countFrom, countFrom, hsame]
      cases hlength : f.length? before (a :: as) with
      | none => exact ih _ (Nat.zero_le _)
      | some n =>
        have hle := length?_le hlength
        rw [List.length_cons] at hle
        dsimp only
        rw [ih _ (by omega)]
        omega

/-- The phrases of a text are those in front of a sign and those behind it. -/
theorem count_append (hc : f.PartedBy c) (as bs : List Char) :
    f.count (as ++ c :: bs) = f.count as + f.count bs :=
  countFrom_append hc none (Nat.zero_le _)

end Family

end MoveWorkbench.Source
