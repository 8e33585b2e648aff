import MoveWorkbench.Json.Writer
import MoveWorkbench.Proofs.Text.Digits

/-!
Texts written in JSON are read back. Each character is written as itself, as an escape of
its own, or by the escapes of its UTF-16 units, and reading takes what was written for one
character as pieces that join to just that character, whatever comes after them.
-/

namespace MoveWorkbench.Json

open Text

/-- Pieces that join to one character, whatever pieces come after them. -/
def Spells (ps : List Piece) (c : Char) : Prop :=
  ∀ qs, joinPieces (ps ++ qs) = c :: joinPieces qs

def consPieces (ps : List Piece) (r : Except Misreading (List Piece × List Char)) :
    Except Misreading (List Piece × List Char) :=
  r.map fun r => (ps ++ r.1, r.2)

theorem consPieces_consPieces (ps qs : List Piece)
    (r : Except Misreading (List Piece × List Char)) :
    consPieces ps (consPieces qs r) = consPieces (ps ++ qs) r := by
  cases r with
  | error e => rfl
  | ok r =>
    change Except.ok (ps ++ (qs ++ r.1), r.2) = Except.ok (ps ++ qs ++ r.1, r.2)
    rw [List.append_assoc]

theorem spells_char (c : Char) : Spells [.char c] c := fun _ => rfl

/-- A unit that is not half of a pair spells its character. -/
theorem spells_unit {c : Char} (h : isHighUnit c.toNat = false)
    (h' : isLowUnit c.toNat = false) : Spells [.unit c.toNat] c := by
  have hchar : unitChar c.toNat = c := by
    simp [unitChar, h, h', Char.ofNat_toNat]
  intro qs
  cases qs with
  | nil => simp [joinPieces, hchar]
  | cons q qs => cases q <;> simp [joinPieces, h, hchar]

theorem spells_pair {c : Char} {high low : ℕ} (hhigh : isHighUnit high = true)
    (hlow : isLowUnit low = true) (hpair : pairChar high low = c) :
    Spells [.unit high, .unit low] c := by
  intro qs
  simp [joinPieces, hhigh, hlow, hpair]

/-- The four digits of a unit are read as that unit. -/
theorem unit?_digits {n : ℕ} (hn : n < 0x10000) :
    ∃ a b c d, padZeros 4 (digitsIn 16 n) = [a, b, c, d] ∧ unit? a b c d = some n := by
  have hlength : (padZeros 4 (digitsIn 16 n)).length = 4 := by
    have hle : (digitsIn 16 n).length ≤ 4 :=
      writeDigits_length_le (by omega) (n + 1) n (k := 4) (by omega) (by omega)
    rw [padZeros_length]
    omega
  have hvalue := ofDigits_padZeros (show 2 ≤ 16 by omega) (by omega) 4 n
  have hmem := fun c => mem_padZeros_digitsIn (show 2 ≤ 16 by omega) 4 n (c := c)
  obtain ⟨a, b, c, d, hds⟩ : ∃ a b c d, padZeros 4 (digitsIn 16 n) = [a, b, c, d] := by
    generalize padZeros 4 (digitsIn 16 n) = ds at hlength
    match ds, hlength with
    | [a, b, c, d], _ => exact ⟨a, b, c, d, rfl⟩
  rw [hds] at hvalue hmem
  refine ⟨a, b, c, d, hds, ?_⟩
  obtain ⟨i, hi, rfl⟩ := hmem a (by simp)
  obtain ⟨j, hj, rfl⟩ := hmem b (by simp)
  obtain ⟨k, hk, rfl⟩ := hmem c (by simp)
  obtain ⟨l, hl, rfl⟩ := hmem d (by simp)
  simp only [List.map_cons, List.map_nil, digitValue_digitChar (show i < 36 by omega),
    digitValue_digitChar (show j < 36 by omega), digitValue_digitChar (show k < 36 by omega),
    digitValue_digitChar (show l < 36 by omega)] at hvalue
  simp [unit?, hexDigit?_digitChar, hi, hj, hk, hl, hvalue]

theorem readPieces_unitEscape (inside : List Char) {n : ℕ} (hn : n < 0x10000)
    {cs : List Char} (hcs : cs ≠ []) :
    readPieces inside (unitEscape n ++ cs) = consPieces [.unit n] (readPieces inside cs) := by
  obtain ⟨a, b, c, d, hds, hunit⟩ := unit?_digits hn
  cases cs with
  | nil => exact absurd rfl hcs
  | cons e cs =>
    unfold unitEscape
    rw [hds]
    simp [readPieces, hunit, consPiece, consPieces]

theorem unitEscape_append_ne_nil (n : ℕ) (cs : List Char) : unitEscape n ++ cs ≠ [] :=
  List.cons_ne_nil _ _

theorem readPieces_unitEscapes (inside : List Char) {high low : ℕ} (hhigh : high < 0x10000)
    (hlow : low < 0x10000) {cs : List Char} (hcs : cs ≠ []) :
    readPieces inside (unitEscape high ++ unitEscape low ++ cs) =
      consPieces [.unit high, .unit low] (readPieces inside cs) := by
  rw [List.append_assoc, readPieces_unitEscape inside hhigh (unitEscape_append_ne_nil low cs),
    readPieces_unitEscape inside hlow hcs, consPieces_consPieces]
  rfl

theorem pairChar_halves {n : ℕ} (h : 0x10000 ≤ n) :
    pairChar (0xd800 + (n - 0x10000) / 0x400) (0xdc00 + (n - 0x10000) % 0x400) =
      Char.ofNat n := by
  unfold pairChar
  apply congrArg Char.ofNat
  omega

/-- The escapes of a character by its units are read as pieces that spell it. -/
theorem exists_pieces_charEscape (inside : List Char) (c : Char) {cs : List Char}
    (hcs : cs ≠ []) :
    ∃ ps, Spells ps c ∧
      readPieces inside (charEscape c ++ cs) = consPieces ps (readPieces inside cs) := by
  have hvalid : c.toNat < 0xd800 ∨ 0xdfff < c.toNat ∧ c.toNat < 0x110000 := c.valid
  simp only [charEscape]
  split
  · rename_i hn
    refine ⟨[.unit c.toNat], spells_unit ?_ ?_, readPieces_unitEscape inside hn hcs⟩
    · simp only [isHighUnit, Bool.and_eq_false_iff, decide_eq_false_iff_not]
      omega
    · simp only [isLowUnit, Bool.and_eq_false_iff, decide_eq_false_iff_not]
      omega
  · rename_i hn
    have hhigh : (c.toNat - 0x10000) / 0x400 < 0x400 := by omega
    have hlow : (c.toNat - 0x10000) % 0x400 < 0x400 := by omega
    refine ⟨_, spells_pair ?_ ?_ ?_, readPieces_unitEscapes inside ?_ ?_ hcs⟩
    · simp only [isHighUnit, Bool.and_eq_true, decide_eq_true_eq]
      omega
    · simp only [isLowUnit, Bool.and_eq_true, decide_eq_true_eq]
      omega
    · rw [pairChar_halves (Nat.not_lt.mp hn), Char.ofNat_toNat]
    · omega
    · omega

/-- A backslash and the letter of an escape are read as the character they stand for. -/
theorem readPieces_escaped (inside : List Char) {c e : Char} (cs : List Char)
    (he : escaped? e = some c) :
    readPieces inside ('\\' :: e :: cs) = consPieces [.char c] (readPieces inside cs) := by
  have hu : e ≠ 'u' := by
    rintro rfl
    simp [escaped?] at he
  simp [readPieces, he, hu, consPiece, consPieces]

theorem readPieces_plain (inside : List Char) {c : Char} (cs : List Char) (hquote : c ≠ '"')
    (hslash : c ≠ '\\') (hc : 0x20 ≤ c.toNat) :
    readPieces inside (c :: cs) = consPieces [.char c] (readPieces inside cs) := by
  simp [readPieces, hslash, Nat.not_lt.mpr hc, consPiece, consPieces]

theorem eq_of_toNat_eq {c d : Char} (h : c.toNat = d.toNat) : c = d := by
  rw [← Char.ofNat_toNat c, h, Char.ofNat_toNat]

/-- What is written for a character is read as pieces that spell it. -/
theorem exists_pieces_writeChar (inside : List Char) (c : Char) {cs : List Char}
    (hcs : cs ≠ []) :
    ∃ ps, Spells ps c ∧
      readPieces inside (writeChar c ++ cs) = consPieces ps (readPieces inside cs) := by
  have escape {e : Char} (he : escaped? e = some c) :
      ∃ ps, Spells ps c ∧
        readPieces inside (['\\', e] ++ cs) = consPieces ps (readPieces inside cs) :=
    ⟨_, spells_char c, readPieces_escaped inside cs he⟩
  unfold writeChar
  simp only [beq_iff_eq, Bool.and_eq_true, decide_eq_true_eq]
  split
  · exact escape (by subst c; rfl)
  split
  · exact escape (by subst c; rfl)
  split
  · exact escape (by subst c; rfl)
  split
  · exact escape (by subst c; rfl)
  split
  · exact escape (by subst c; rfl)
  split
  · rename_i hc
    rw [eq_of_toNat_eq (d := Char.ofNat 0xc) hc] at escape ⊢
    exact escape rfl
  split
  · rename_i hc
    rw [eq_of_toNat_eq (d := Char.ofNat 0x8) hc] at escape ⊢
    exact escape rfl
  split
  · rename_i hquote hslash _ _ _ _ _ hprint
    exact ⟨_, spells_char c, readPieces_plain inside cs hquote hslash hprint.1⟩
  · exact exists_pieces_charEscape inside c hcs

theorem exists_pieces_flatMap (inside s rest : List Char) :
    ∃ ps, joinPieces ps = s ∧
      readPieces inside (s.flatMap writeChar ++ '"' :: rest) = .ok (ps, rest) := by
  induction s with
  | nil => exact ⟨[], rfl, by simp [readPieces]⟩
  | cons c s ih =>
    obtain ⟨qs, hqs, hread⟩ := ih
    have hne : s.flatMap writeChar ++ '"' :: rest ≠ [] := by simp
    obtain ⟨ps, hps, hchar⟩ := exists_pieces_writeChar inside c hne
    refine ⟨ps ++ qs, by rw [hps, hqs], ?_⟩
    rw [List.flatMap_cons, List.append_assoc, hchar, hread]
    rfl

/-- A text is read back after its opening quote. -/
theorem readText_writeText (s : String) (rest : List Char) :
    ∃ cs, writeText s ++ rest = '"' :: cs ∧ readText cs = .ok (s, rest) := by
  refine ⟨s.toList.flatMap writeChar ++ '"' :: rest, ?_, ?_⟩
  · simp [writeText]
  · obtain ⟨ps, hps, hread⟩ := exists_pieces_flatMap (s.toList.flatMap writeChar ++ '"' :: rest)
      s.toList rest
    unfold readText
    rw [hread]
    change Except.ok (String.ofList (joinPieces ps), rest) = _
    rw [hps, String.ofList_toList]

end MoveWorkbench.Json
