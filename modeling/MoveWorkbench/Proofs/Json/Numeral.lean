import MoveWorkbench.Json.Writer
import MoveWorkbench.Proofs.Number.Shortest
import MoveWorkbench.Proofs.Text.Digits

/-!
Numbers written in JSON text are read back. A numeral is taken apart at its point and its
letter, and what follows a value in written text belongs to none of its parts. Integers
come back as they are, if they are short enough to be read, and every double comes back as
the same double: the two zeros, the infinities and the one that is not a number included.
-/

namespace MoveWorkbench.Json

/-- What comes after a value in written text: nothing, a comma or a new line. -/
def EndsValue (rest : List Char) : Prop := ∀ c ∈ rest.head?, c = ',' ∨ c = '\n'

def EndsDigits (rest : List Char) : Prop := ∀ c ∈ rest.head?, c.isDigit = false

theorem EndsValue.endsDigits {rest : List Char} (h : EndsValue rest) : EndsDigits rest := by
  intro c hc
  rcases h c hc with rfl | rfl <;> rfl

theorem endsDigits_cons {c : Char} (h : c.isDigit = false) (rest : List Char) :
    EndsDigits (c :: rest) := by
  intro d hd
  rw [List.head?_cons, Option.mem_some_iff] at hd
  rwa [← hd]

theorem spanDigits_append {ds rest : List Char} (hds : ∀ c ∈ ds, c.isDigit = true)
    (hrest : EndsDigits rest) : spanDigits (ds ++ rest) = (ds, rest) := by
  have htake : rest.takeWhile Char.isDigit = [] ∧ rest.dropWhile Char.isDigit = rest := by
    cases rest with
    | nil => exact ⟨rfl, rfl⟩
    | cons c rest =>
      have hc : c.isDigit = false := hrest c rfl
      constructor
      · rw [List.takeWhile_cons_of_neg (by simp [hc])]
      · rw [List.dropWhile_cons_of_neg (by simp [hc])]
  unfold spanDigits
  rw [List.takeWhile_append_of_pos hds, List.dropWhile_append_of_pos hds, htake.1, htake.2,
    List.append_nil]

/-- The digits before a point: a zero alone, or digits that begin with another one. -/
inductive IsWhole : List Char → Prop where
  | zero : IsWhole ['0']
  | digits {c : Char} {ds : List Char} (hc : c ≠ '0') (h : ∀ d ∈ c :: ds, d.isDigit = true) :
      IsWhole (c :: ds)

theorem IsWhole.isDigit {w : List Char} (h : IsWhole w) : ∀ c ∈ w, c.isDigit = true := by
  cases h with
  | zero => exact List.forall_mem_singleton.mpr rfl
  | digits _ hall => exact hall

theorem wholePart?_append {w rest : List Char} (h : IsWhole w) (hrest : EndsDigits rest) :
    wholePart? (w ++ rest) = some (w, rest) := by
  cases h with
  | zero => rfl
  | @digits c ds hc hall =>
    have hspan := spanDigits_append hall hrest
    rw [List.cons_append] at hspan ⊢
    unfold wholePart?
    split
    · rename_i heq
      injection heq with hhead
      exact absurd hhead hc
    · rename_i heq
      injection heq with hhead htail
      subst hhead htail
      rw [if_pos (hall _ (List.mem_cons_self ..)), hspan]
    · rename_i heq
      cases heq

theorem fractionPart_append {ds rest : List Char} (hne : ds ≠ [])
    (hds : ∀ c ∈ ds, c.isDigit = true) (hrest : EndsDigits rest) :
    fractionPart ('.' :: (ds ++ rest)) = (ds, rest) := by
  simp only [fractionPart]
  rw [spanDigits_append hds hrest]
  cases ds with
  | nil => exact absurd rfl hne
  | cons d ds => rfl

theorem fractionPart_of_ne {rest : List Char} (h : ∀ c ∈ rest.head?, c ≠ '.') :
    fractionPart rest = ([], rest) := by
  unfold fractionPart
  split
  · exact absurd rfl (h '.' rfl)
  · rfl

theorem exponentPart_of_endsValue {rest : List Char} (h : EndsValue rest) :
    exponentPart rest = (none, rest) := by
  cases rest with
  | nil => rfl
  | cons c rest =>
    rcases h c rfl with rfl | rfl <;> rfl

theorem exponentPart_append {ds rest : List Char} (negative : Bool) (hne : ds ≠ [])
    (hds : ∀ c ∈ ds, c.isDigit = true) (hrest : EndsDigits rest) :
    exponentPart ('e' :: (if negative then '-' else '+') :: (ds ++ rest)) =
      (some (if negative then -(digitsOf ds : ℤ) else digitsOf ds), rest) := by
  have hspan := spanDigits_append hds hrest
  cases ds with
  | nil => exact absurd rfl hne
  | cons d ds =>
    rw [List.cons_append] at hspan
    cases negative <;> simp [exponentPart, hspan]

def signed (negative : Bool) (cs : List Char) : List Char :=
  if negative then '-' :: cs else cs

theorem isDigit_ne {c d : Char} (hc : c.isDigit = true) (hd : d.isDigit = false) : c ≠ d := by
  rintro rfl
  rw [hc] at hd
  cases hd

/-- A numeral is read part by part. -/
theorem numeral?_signed {w tail fraction mid rest : List Char} {exponent : Option ℤ}
    (negative : Bool) (hw : IsWhole w) (htail : EndsDigits tail)
    (hfraction : fractionPart tail = (fraction, mid))
    (hexponent : exponentPart mid = (exponent, rest)) :
    numeral? (signed negative (w ++ tail)) = some (⟨negative, w, fraction, exponent⟩, rest) := by
  have hwhole := wholePart?_append hw htail
  cases negative with
  | true => simp [numeral?, signed, hwhole, hfraction, hexponent]
  | false =>
    obtain ⟨c, cs, rfl⟩ : ∃ c cs, w = c :: cs := by
      cases hw with
      | zero => exact ⟨_, _, rfl⟩
      | digits => exact ⟨_, _, rfl⟩
    have hc : c ≠ '-' := isDigit_ne (hw.isDigit c (List.mem_cons_self ..)) rfl
    rw [List.cons_append] at hwhole
    simp [numeral?, signed, hc, hwhole, hfraction, hexponent]

def BeginsNumber (cs : List Char) : Prop :=
  ∃ negative c rest, c.isDigit = true ∧ cs = signed negative (c :: rest)

theorem beginsNumber_signed {w : List Char} (negative : Bool) (hw : IsWhole w)
    (tail : List Char) : BeginsNumber (signed negative (w ++ tail)) := by
  cases hw with
  | zero => exact ⟨negative, '0', tail, rfl, rfl⟩
  | @digits c ds hc hall => exact ⟨negative, c, ds ++ tail, hall c (List.mem_cons_self ..), rfl⟩

/-- What begins like a number is not the name of a value. -/
theorem readPlain_of_beginsNumber {cs : List Char} (h : BeginsNumber cs) :
    readPlain cs = match numeral? cs with
      | some (n, rest) => do return (← n.value, rest)
      | none => .error (.unexpected .value cs.length) := by
  obtain ⟨negative, c, rest, hc, rfl⟩ := h
  have hn : c ≠ 'n' := isDigit_ne hc rfl
  have ht : c ≠ 't' := isDigit_ne hc rfl
  have hf : c ≠ 'f' := isDigit_ne hc rfl
  have hN : c ≠ 'N' := isDigit_ne hc rfl
  have hI : c ≠ 'I' := isDigit_ne hc rfl
  have hminus : c ≠ '-' := isDigit_ne hc rfl
  have hnone : (namedValues.findSome? fun p =>
      (Text.after? p.1 (signed negative (c :: rest))).map fun rest => (p.2, rest)) = none := by
    cases negative <;>
      simp [namedValues, signed, Text.after?, hn.symm, ht.symm, hf.symm, hN.symm, hI.symm,
        hminus.symm]
  unfold readPlain
  rewrite [hnone]
  rfl

/-! Integers. -/

theorem toDigits_eq_append_digitChar {n : ℕ} (h : 10 ≤ n) :
    Nat.toDigits 10 n = Nat.toDigits 10 (n / 10) ++ [Nat.digitChar (n % 10)] :=
  Nat.toDigits_of_base_le (by omega) h

/-- The digits of a number other than zero do not begin with a zero. -/
theorem head?_toDigits_ne_zero {n : ℕ} (h : n ≠ 0) :
    ∀ c ∈ (Nat.toDigits 10 n).head?, c ≠ '0' := by
  induction n using Nat.strong_induction_on with
  | _ n ih =>
    rcases Nat.lt_or_ge n 10 with hlt | hge
    · rw [Nat.toDigits_of_lt_base hlt]
      intro c hc
      rw [List.head?_cons, Option.mem_some_iff] at hc
      rw [← hc, Ne, Nat.digitChar_eq_zero]
      exact h
    · rw [toDigits_eq_append_digitChar hge, List.head?_append_of_ne_nil _ Nat.toDigits_ne_nil]
      exact ih (n / 10) (by omega) (by omega)

theorem isWhole_toDigits (n : ℕ) : IsWhole (Nat.toDigits 10 n) := by
  rcases Nat.eq_zero_or_pos n with rfl | hpos
  · rw [Nat.toDigits_zero]
    exact .zero
  · have hhead := head?_toDigits_ne_zero hpos.ne'
    have hdigit := @isDigit_of_mem_toDigits n
    generalize hds : Nat.toDigits 10 n = ds at hhead hdigit
    cases ds with
    | nil => exact absurd hds Nat.toDigits_ne_nil
    | cons c ds => exact .digits (hhead c rfl) fun d hd => hdigit hd

theorem toList_toString_int (n : ℤ) :
    (toString n).toList = signed (n < 0) (Nat.toDigits 10 n.natAbs) := by
  rw [Int.toString_eq_repr, Int.repr_eq_if]
  by_cases hn : 0 ≤ n
  · rw [if_pos hn, Nat.toList_repr]
    have habs : n.toNat = n.natAbs := by omega
    simp [signed, hn, habs]
  · rw [if_neg hn, String.toList_append, Nat.toList_repr]
    have habs : (-n).toNat = n.natAbs := by omega
    simp [signed, Int.not_le.mp hn, habs]

def IsShort (n : ℤ) : Prop := (Nat.toDigits 10 n.natAbs).length ≤ maxDigits

instance (n : ℤ) : Decidable (IsShort n) := inferInstanceAs (Decidable (_ ≤ _))

theorem isShort_iff {n : ℤ} : IsShort n ↔ n.natAbs < 10 ^ maxDigits :=
  Nat.length_toDigits_le_iff (by omega) (by decide)

/-- A short integer is read back. -/
theorem readPlain_int {n : ℤ} (hn : IsShort n) {rest : List Char} (hrest : EndsValue rest) :
    readPlain ((toString n).toList ++ rest) = .ok (.int n, rest) := by
  have hw := isWhole_toDigits n.natAbs
  have hfraction : fractionPart rest = ([], rest) := by
    apply fractionPart_of_ne
    intro c hc
    rcases hrest c hc with rfl | rfl <;> decide
  have hnumeral := numeral?_signed (decide (n < 0)) hw hrest.endsDigits hfraction
    (exponentPart_of_endsValue hrest)
  have hbegins := beginsNumber_signed (decide (n < 0)) hw rest
  have htext : (toString n).toList ++ rest =
      signed (decide (n < 0)) (Nat.toDigits 10 n.natAbs ++ rest) := by
    rw [toList_toString_int]
    cases decide (n < 0) <;> rfl
  have hlength : ¬ maxDigits < (Nat.toDigits 10 n.natAbs).length := Nat.not_lt.mpr hn
  have hvalue : Numeral.value ⟨decide (n < 0), Nat.toDigits 10 n.natAbs, [], none⟩ =
      .ok (.int n) := by
    simp only [Numeral.value, and_self, if_true, if_neg hlength, digitsOf_toDigits,
      decide_eq_true_eq]
    congr 2
    split <;> omega
  rw [htext, readPlain_of_beginsNumber hbegins, hnumeral]
  simp only [hvalue]
  rfl

end MoveWorkbench.Json
