import Mathlib.Data.List.TakeWhile
import MoveWorkbench.Proofs.Json.Numeral

/-!
Doubles written in JSON text are read back. The digits of the shortest decimal, freed of
the zeros at their end, are laid out with a point or with an exponent; each layout is a
numeral with the same exact value, which is rounded to the double that was written.
-/

namespace MoveWorkbench.Binary64

/-- A power of ten that a double stays below has an exponent of at most four hundred. -/
private theorem two_pow_lt_ten_zpow {e : ℤ} (he : 400 < e) : (2 : ℚ) ^ (1024 : ℕ) < 10 ^ e := by
  calc (2 : ℚ) ^ (1024 : ℕ) ≤ 2 ^ (3 * 400) := pow_le_pow_right₀ (by norm_num) (by norm_num)
    _ = (2 ^ 3) ^ 400 := pow_mul 2 3 400
    _ ≤ 10 ^ 400 := pow_le_pow_left₀ (by norm_num) (by norm_num) 400
    _ = 10 ^ (400 : ℤ) := (zpow_natCast 10 400).symm
    _ < 10 ^ e := zpow_lt_zpow_right₀ (by norm_num) he

/-- A decimal that is rounded to a finite double and is not extremely small is read as the
double nearest to it. -/
theorem ofDecimal_eq {digits : ℕ} {e : ℤ} {x : ℚ} {hx : Representable x} (hdigits : digits ≠ 0)
    (hlow : -400 - (digits.log2 : ℤ) ≤ e) (hreal : ofRat (digits * 10 ^ e) = real x hx) :
    ofDecimal digits e = real x hx := by
  have hhigh : ¬ 400 < e := by
    intro he
    have hlt := abs_lt_of_ofRat_eq_real hreal
    have hone : (1 : ℚ) ≤ digits := by exact_mod_cast Nat.one_le_iff_ne_zero.mpr hdigits
    have hpos : (0 : ℚ) < 10 ^ e := by positivity
    rw [abs_of_nonneg (by positivity)] at hlt
    have hge : (10 : ℚ) ^ e ≤ digits * 10 ^ e := le_mul_of_one_le_left hpos.le hone
    exact absurd (two_pow_lt_ten_zpow he) (not_lt.mpr (hge.trans hlt.le))
  unfold ofDecimal
  rw [if_neg hdigits, if_neg hhigh, if_neg (by omega), hreal]

theorem ofDecimal_zero (e : ℤ) : ofDecimal 0 e = zero := rfl

/-- Only zeros are left off at the end of digits. -/
theorem toDigits_eq_significant_append (digits : ℕ) :
    ∃ k, Nat.toDigits 10 digits = significant digits ++ List.replicate k '0' := by
  unfold significant
  generalize Nat.toDigits 10 digits = ds
  refine ⟨(ds.reverse.takeWhile (· == '0')).length, ?_⟩
  have hzeros : ds.reverse.takeWhile (· == '0') =
      List.replicate (ds.reverse.takeWhile (· == '0')).length '0' := by
    rw [List.eq_replicate_iff]
    refine ⟨rfl, fun c hc => ?_⟩
    simpa using List.mem_takeWhile_imp hc
  have hsplit := congrArg List.reverse (List.takeWhile_append_dropWhile (p := (· == '0'))
    (l := ds.reverse))
  rw [List.reverse_append, List.reverse_reverse, hzeros, List.reverse_replicate] at hsplit
  exact hsplit.symm

/-- What is left of the digits of a number other than zero begins with no zero. -/
theorem exists_significant_eq_cons {digits : ℕ} (h : digits ≠ 0) :
    ∃ c ds, significant digits = c :: ds ∧ c ≠ '0' ∧ ∀ d ∈ c :: ds, d.isDigit = true := by
  obtain ⟨k, hk⟩ := toDigits_eq_significant_append digits
  have hhead := Json.head?_toDigits_ne_zero h
  have hdigit := @Json.isDigit_of_mem_toDigits digits
  rw [hk] at hhead hdigit
  cases hds : significant digits with
  | nil =>
    rw [hds, List.nil_append] at hk hhead
    cases k with
    | zero => exact absurd hk Nat.toDigits_ne_nil
    | succ k => exact absurd rfl (hhead '0' rfl)
  | cons c ds =>
    rw [hds] at hhead hdigit
    exact ⟨c, ds, rfl, hhead c rfl, fun d hd => hdigit (List.mem_append_left _ hd)⟩

end MoveWorkbench.Binary64

namespace MoveWorkbench.Json

open Binary64

/-- Digits that begin with no zero are worth at least as much as their number says. -/
theorem ten_pow_le_digitsOf {c : Char} {ds : List Char} (hc : c ≠ '0')
    (h : ∀ d ∈ c :: ds, d.isDigit = true) : 10 ^ ds.length ≤ digitsOf (c :: ds) := by
  have hdigit : c.isDigit = true := h c (List.mem_cons_self ..)
  have hvalue : digitsOf [c] = c.toNat - 48 := by
    simp [digitsOf, Text.ofDigits, Text.asciiDigit?_of_isDigit hdigit]
  have hpos : 1 ≤ c.toNat - 48 := by
    simp only [Char.isDigit, Bool.and_eq_true, decide_eq_true_eq] at hdigit
    have hge : 48 ≤ c.toNat := hdigit.1
    have hne : c.toNat ≠ 48 := by
      intro heq
      apply hc
      rw [← Char.ofNat_toNat c, heq]
    omega
  have hsplit : digitsOf ([c] ++ ds) = digitsOf [c] * 10 ^ ds.length + digitsOf ds :=
    digitsOf_append (by simpa using hdigit) fun d hd => h d (List.mem_cons_of_mem c hd)
  rw [List.singleton_append, hvalue] at hsplit
  rw [hsplit]
  nlinarith [Nat.one_le_pow ds.length 10 (by omega)]

/-- A numeral that stands for `digits * 10 ^ e`, perhaps with zeros moved over from the
exponent. -/
structure Numeral.Denotes (n : Numeral) (digits : ℕ) (e : ℤ) : Prop where
  isDouble : ¬ (n.fraction = [] ∧ n.exponent = none)
  zeros : ∃ k : ℕ, digitsOf (n.whole ++ n.fraction) = digits * 10 ^ k ∧
    n.exponent.getD 0 - n.fraction.length = e - k

structure WrittenAs (cs rest : List Char) (negative : Bool) (digits : ℕ) (e : ℤ) : Prop where
  begins : BeginsNumber (signed negative cs)
  reads : ∃ n : Numeral, numeral? (signed negative cs) = some (n, rest) ∧
    n.negative = negative ∧ n.Denotes digits e

section Layout

variable {c : Char} {ds rest : List Char}

/-- Digits with a fraction are a numeral without an exponent. -/
private theorem writtenAs_point {w fraction : List Char} (hw : IsWhole w)
    (hne : fraction ≠ []) (hfraction : ∀ d ∈ fraction, d.isDigit = true)
    (hrest : EndsValue rest) (negative : Bool) {digits : ℕ} {e : ℤ} {k : ℕ}
    (hdigits : digitsOf (w ++ fraction) = digits * 10 ^ k)
    (he : -(fraction.length : ℤ) = e - k) :
    WrittenAs (w ++ '.' :: (fraction ++ rest)) rest negative digits e where
  begins := beginsNumber_signed negative hw _
  reads := by
    refine ⟨_, numeral?_signed negative hw (endsDigits_cons rfl _)
      (fractionPart_append hne hfraction hrest.endsDigits) (exponentPart_of_endsValue hrest),
      rfl, ?_, k, hdigits, ?_⟩
    · intro hparts
      obtain ⟨h, -⟩ := hparts
      exact hne h
    · simpa using he

/-- One digit, perhaps a fraction, and an exponent. -/
private theorem writtenAs_exponent (hc : c ≠ '0') (hds : ∀ d ∈ c :: ds, d.isDigit = true)
    (hrest : EndsValue rest) (negative : Bool) (point : ℤ) :
    WrittenAs ((match c :: ds with
      | d :: [] => [d]
      | d :: ds => d :: '.' :: ds
      | [] => []) ++ 'e' :: (if point - 1 < 0 then '-' else '+') ::
        Text.padZeros 2 (Nat.toDigits 10 (point - 1).natAbs) ++ rest) rest negative
      (digitsOf (c :: ds)) (point - (ds.length + 1)) := by
  have hc' : c.isDigit = true := hds c (List.mem_cons_self ..)
  have hds' : ∀ d ∈ ds, d.isDigit = true := fun d hd => hds d (List.mem_cons_of_mem c hd)
  have hw : IsWhole [c] := .digits hc (by simpa using hc')
  have hpad : ∀ d ∈ Text.padZeros 2 (Nat.toDigits 10 (point - 1).natAbs), d.isDigit = true := by
    intro d hd
    rcases List.mem_append.mp hd with hd | hd
    · obtain ⟨-, rfl⟩ := List.mem_replicate.mp hd
      rfl
    · exact isDigit_of_mem_toDigits hd
  have hpadNe : Text.padZeros 2 (Nat.toDigits 10 (point - 1).natAbs) ≠ [] := by
    unfold Text.padZeros
    exact List.append_ne_nil_of_right_ne_nil _ Nat.toDigits_ne_nil
  have hpadValue : digitsOf (Text.padZeros 2 (Nat.toDigits 10 (point - 1).natAbs)) =
      (point - 1).natAbs := by
    unfold Text.padZeros
    rw [digitsOf_append (by simp +contextual [List.mem_replicate])
      (fun _ => isDigit_of_mem_toDigits), digitsOf_replicate_zero, digitsOf_toDigits]
    omega
  have hexponent := exponentPart_append (decide (point - 1 < 0)) hpadNe hpad hrest.endsDigits
  have hvalue : (if point - 1 < 0 then -((point - 1).natAbs : ℤ)
      else (point - 1).natAbs) = point - 1 := by
    split <;> omega
  simp only [hpadValue, decide_eq_true_eq, hvalue] at hexponent
  cases ds with
  | nil =>
    rw [List.singleton_append, List.cons_append, List.cons_append]
    refine ⟨beginsNumber_signed negative hw _, _, numeral?_signed negative hw
      (endsDigits_cons rfl _) (fractionPart_of_ne ?_) hexponent, rfl, ?_, 0, ?_, ?_⟩
    · intro d hd
      rw [List.head?_cons, Option.mem_some_iff] at hd
      rw [← hd]
      decide
    · intro hparts
      obtain ⟨-, h⟩ := hparts
      cases h
    · simp
    · simp
  | cons d ds =>
    rw [List.cons_append, List.cons_append, List.append_assoc, List.cons_append,
      List.cons_append]
    refine ⟨beginsNumber_signed negative hw ('.' :: _), _, numeral?_signed negative hw
      (endsDigits_cons rfl _) (fractionPart_append (List.cons_ne_nil d ds) hds'
        (endsDigits_cons rfl _)) hexponent, rfl, ?_, 0, ?_, ?_⟩
    · intro hparts
      obtain ⟨h, -⟩ := hparts
      cases h
    · simp
    · simp only [Option.getD_some, List.length_cons]
      push_cast
      ring

/-- Every layout of digits is a numeral with their value. -/
theorem writtenAs_render (hc : c ≠ '0') (hds : ∀ d ∈ c :: ds, d.isDigit = true)
    (hrest : EndsValue rest) (negative : Bool) (point : ℤ) :
    WrittenAs (layout.render (c :: ds) point ++ rest) rest negative (digitsOf (c :: ds))
      (point - (ds.length + 1)) := by
  have hzeros (n : ℕ) : ∀ d ∈ List.replicate n '0', d.isDigit = true := by
    simp +contextual [List.mem_replicate]
  unfold Layout.render
  split
  · split
    · -- All digits stand after the point, with zeros in front of them.
      rename_i hle
      have h : WrittenAs (['0'] ++ '.' :: ((List.replicate (-point).toNat '0' ++ c :: ds) ++ rest))
          rest negative (digitsOf (c :: ds)) (point - (ds.length + 1)) := by
        apply writtenAs_point .zero (by simp) _ hrest (k := 0)
        · rw [← List.append_assoc, ← List.replicate_one, List.replicate_append_replicate,
            digitsOf_append (hzeros _) hds, digitsOf_replicate_zero, Nat.zero_mul, Nat.zero_add,
            Nat.pow_zero, Nat.mul_one]
        · simp only [List.length_append, List.length_replicate, List.length_cons]
          omega
        · intro d hd
          exact (List.mem_append.mp hd).elim (hzeros _ d) (hds d)
      simpa only [List.cons_append, List.nil_append, List.append_assoc] using h
    · split
      · -- All digits stand before the point, with zeros behind them.
        rename_i hpos hlength
        have hw : IsWhole (c :: (ds ++ List.replicate (point.toNat - (c :: ds).length) '0')) := by
          apply IsWhole.digits hc
          intro d hd
          rw [← List.cons_append] at hd
          exact (List.mem_append.mp hd).elim (hds d) (hzeros _ d)
        have h : WrittenAs ((c :: (ds ++ List.replicate (point.toNat - (c :: ds).length) '0')) ++
            '.' :: (['0'] ++ rest)) rest negative (digitsOf (c :: ds))
            (point - (ds.length + 1)) := by
          apply writtenAs_point hw (by simp) (List.forall_mem_singleton.mpr rfl) hrest
            (k := point.toNat - (c :: ds).length + 1)
          · rw [← List.cons_append, List.append_assoc, ← List.replicate_succ',
              digitsOf_append hds (hzeros _), digitsOf_replicate_zero, List.length_replicate,
              Nat.add_zero]
          · simp only [List.length_cons, List.length_nil] at hlength ⊢
            omega
        simpa only [List.cons_append, List.nil_append, List.append_assoc] using h
      · -- The point stands among the digits.
        rename_i hpos hlength
        simp only [List.length_cons] at hlength
        obtain ⟨n, hn⟩ : ∃ n, point.toNat = n + 1 := ⟨point.toNat - 1, by omega⟩
        have htake : ∀ d ∈ c :: ds.take n, d.isDigit = true := by
          intro d hd
          rw [← List.take_succ_cons] at hd
          exact hds d (List.mem_of_mem_take hd)
        have h : WrittenAs ((c :: ds.take n) ++ '.' :: (ds.drop n ++ rest)) rest negative
            (digitsOf (c :: ds)) (point - (ds.length + 1)) := by
          apply writtenAs_point (.digits hc htake) _ _ hrest (k := 0)
          · rw [List.cons_append, List.take_append_drop, Nat.pow_zero, Nat.mul_one]
          · rw [List.length_drop]
            omega
          · intro hnil
            rw [List.drop_eq_nil_iff] at hnil
            omega
          · intro d hd
            exact hds d (List.mem_cons_of_mem c (List.mem_of_mem_drop hd))
        rw [hn, List.take_succ_cons, List.drop_succ_cons]
        simpa only [List.cons_append, List.append_assoc] using h
  · exact writtenAs_exponent hc hds hrest negative point

/-- A numeral whose value is read as a double is read as that double with its sign. -/
theorem WrittenAs.readPlain_eq {cs : List Char} {negative : Bool} {digits : ℕ} {e : ℤ}
    (h : WrittenAs cs rest negative digits e) {size : Binary64}
    (hsize : ∀ k : ℕ, ofDecimal (digits * 10 ^ k) (e - k) = size) :
    readPlain (signed negative cs) =
      .ok (.float (if negative then size.neg else size), rest) := by
  obtain ⟨n, hread, hsign, hdouble, k, hvalue, hexponent⟩ := h.reads
  have hnumeral : n.value = .ok (.float (if negative then size.neg else size)) := by
    unfold Numeral.value
    rw [if_neg hdouble, hvalue, hexponent, hsize, hsign]
  rw [readPlain_of_beginsNumber h.begins, hread]
  simp only [hnumeral]
  rfl

/-- Zeros moved over from the exponent do not change what a decimal is read as. -/
theorem ofDecimal_mul_ten_pow {digits : ℕ} {e : ℤ} {x : ℚ} {hx : Representable x}
    (hdigits : digits ≠ 0) (hlow : -400 - (digits.log2 : ℤ) ≤ e)
    (hreal : ofRat (digits * 10 ^ e) = real x hx) (k : ℕ) :
    ofDecimal (digits * 10 ^ k) (e - k) = real x hx := by
  have hlog : digits.log2 + k ≤ (digits * 10 ^ k).log2 := by
    rw [Nat.le_log2 (by positivity), Nat.pow_add]
    exact Nat.mul_le_mul (Nat.log2_self_le hdigits) (Nat.pow_le_pow_left (by omega) k)
  apply ofDecimal_eq (by positivity) (by omega)
  rw [← hreal]
  congr 1
  rw [zpow_sub₀ (by norm_num)]
  push_cast
  rw [zpow_natCast]
  field_simp

theorem readPlain_positiveText {x : ℚ} (h : Representable x) (hx : 0 < x)
    (hrest : EndsValue rest) (negative : Bool) :
    readPlain (signed negative (positiveText x ++ rest)) =
      .ok (.float (if negative then (real x h).neg else real x h), rest) := by
  obtain ⟨hback, hmin, -⟩ := shortest_spec h hx
  have hne := shortest_digits_ne_zero h hx
  unfold positiveText
  generalize shortest x = found at hback hmin hne
  obtain ⟨digits, exponent⟩ := found
  simp only at hback hmin hne ⊢
  obtain ⟨k, hk⟩ := toDigits_eq_significant_append digits
  obtain ⟨c, ds, hsignificant, hc, hds⟩ := exists_significant_eq_cons hne
  rw [hsignificant] at hk ⊢
  have hwidth := congrArg List.length hk
  simp only [List.length_append, List.length_cons, List.length_replicate] at hwidth
  have hdigits : digits = digitsOf (c :: ds) * 10 ^ k := by
    have hzeros : ∀ d ∈ List.replicate k '0', d.isDigit = true := by
      simp +contextual [List.mem_replicate]
    have hvalue := congrArg digitsOf hk
    rwa [digitsOf_toDigits, digitsOf_append hds hzeros, digitsOf_replicate_zero,
      List.length_replicate, Nat.add_zero] at hvalue
  have hbig := ten_pow_le_digitsOf hc hds
  have hpos : digitsOf (c :: ds) ≠ 0 := by
    have := Nat.one_le_pow ds.length 10 (by omega)
    omega
  have hlog : ds.length ≤ (digitsOf (c :: ds)).log2 := by
    rw [Nat.le_log2 hpos]
    exact (Nat.pow_le_pow_left (by omega) ds.length).trans hbig
  apply (writtenAs_render hc hds hrest negative _).readPlain_eq
  apply ofDecimal_mul_ten_pow hpos
  · rw [hwidth]
    push_cast
    omega
  · rw [← ofRat_of_representable h, ← hback, hwidth, hdigits]
    congr 1
    push_cast
    rw [mul_assoc, ← zpow_natCast (10 : ℚ) k, ← zpow_add₀ (by norm_num)]
    congr 2
    ring

theorem readPlain_zeroText (hrest : EndsValue rest) (negative : Bool) :
    readPlain (signed negative ('0' :: '.' :: '0' :: rest)) =
      .ok (.float (if negative then zero.neg else zero), rest) := by
  have h : WrittenAs (['0'] ++ '.' :: (['0'] ++ rest)) rest negative 0 (-1) :=
    writtenAs_point .zero (List.cons_ne_nil _ _) (List.forall_mem_singleton.mpr rfl) hrest negative
      (k := 0) rfl rfl
  apply h.readPlain_eq
  intro k
  rw [Nat.zero_mul, ofDecimal_zero]

theorem neg_zero : zero.neg = negativeZero := by
  rw [zero_eq]
  rfl

theorem neg_real {x : ℚ} (h : Representable x) (hx : x ≠ 0) :
    (real x h).neg = real (-x) h.neg := by
  simp only [neg, if_neg hx]
  exact ofRat_of_representable h.neg

/-- Every double is read back from its text. -/
theorem readPlain_numberText (x : Binary64) (hrest : EndsValue rest) :
    readPlain ((numberText x).toList ++ rest) = .ok (.float x, rest) := by
  cases x with
  | nan => rfl
  | infinite negative => cases negative <;> rfl
  | negativeZero =>
    have h := readPlain_zeroText hrest true
    rwa [if_pos rfl, neg_zero] at h
  | real x h =>
    simp only [numberText, Binary64.text]
    split
    · rename_i hzero
      subst hzero
      have hread := readPlain_zeroText hrest false
      rwa [if_neg (by decide), zero_eq] at hread
    · split
      · rename_i hne hneg
        have hread := readPlain_positiveText h.neg (neg_pos.mpr hneg) hrest true
        rw [if_pos rfl, neg_real h.neg (by simpa using hne)] at hread
        simp only [neg_neg] at hread
        simp only [String.toList_append, String.toList_ofList]
        exact hread
      · rename_i hne hnonneg
        have hpos : 0 < x := lt_of_le_of_ne (not_lt.mp hnonneg) (Ne.symm hne)
        rw [String.toList_ofList]
        exact readPlain_positiveText h hpos hrest false

end Layout

end MoveWorkbench.Json
