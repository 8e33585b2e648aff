import Mathlib.Data.List.Induction
import Mathlib.Tactic.Ring
import MoveWorkbench.Json.Reader

/-!
Digits written and read. The digits of a number in a base of at most thirty-six have that
number as their value, with or without zeros in front, so different numbers have different
digits. Digits of base sixteen and of base ten are read by their own readers to the same
value.
-/

namespace MoveWorkbench.Text

def digitValue (c : Char) : ℕ := if c.isDigit then c.toNat - 48 else c.toNat - 87

theorem digitValue_digitChar {n : ℕ} (h : n < 36) : digitValue (digitChar n) = n := by
  have hall : ∀ k < 36, digitValue (digitChar k) = k := by decide
  exact hall n h

theorem hexDigit?_digitChar {n : ℕ} (h : n < 16) : hexDigit? (digitChar n) = some n := by
  have hall : ∀ k < 16, hexDigit? (digitChar k) = some k := by decide
  exact hall n h

theorem digitChar_ne_hyphen {n : ℕ} (h : n < 36) : digitChar n ≠ '-' := by
  have hall : ∀ k < 36, digitChar k ≠ '-' := by decide
  exact hall n h

theorem ofDigits_append_singleton (base : ℕ) (ds : List ℕ) (d : ℕ) :
    ofDigits base (ds ++ [d]) = ofDigits base ds * base + d := by
  unfold ofDigits
  rw [List.foldl_append]
  rfl

/-- Zeros in front change no value. -/
theorem ofDigits_replicate_zero_append (base n : ℕ) (ds : List ℕ) :
    ofDigits base (List.replicate n 0 ++ ds) = ofDigits base ds := by
  induction n with
  | zero => rfl
  | succ n ih =>
    rw [List.replicate_succ, List.cons_append]
    simpa only [ofDigits, List.foldl_cons, Nat.zero_mul, Nat.zero_add] using ih

section Base

variable {base : ℕ}

theorem writeDigits_digits (hbase : 0 < base) (fuel n : ℕ) {c : Char}
    (hc : c ∈ writeDigits base fuel n) : ∃ d < base, c = digitChar d := by
  induction fuel generalizing n with
  | zero => cases hc
  | succ fuel ih =>
    simp only [writeDigits] at hc
    split at hc
    · rename_i hlt
      rw [List.mem_singleton] at hc
      exact ⟨n, hlt, hc⟩
    · rw [List.mem_append, List.mem_singleton] at hc
      rcases hc with hc | rfl
      · exact ih (n / base) hc
      · exact ⟨n % base, Nat.mod_lt n hbase, rfl⟩

theorem ofDigits_writeDigits (hbase : 2 ≤ base) (hmax : base ≤ 36) (fuel n : ℕ)
    (hfuel : n < fuel) : ofDigits base ((writeDigits base fuel n).map digitValue) = n := by
  induction fuel generalizing n with
  | zero => omega
  | succ fuel ih =>
    simp only [writeDigits]
    split
    · simp only [List.map_cons, List.map_nil, ofDigits, List.foldl_cons, List.foldl_nil]
      rw [digitValue_digitChar (by omega)]
      omega
    · have hdiv : n / base < n := Nat.div_lt_self (by omega) (by omega)
      have hmod : n % base < base := Nat.mod_lt n (by omega)
      rw [List.map_append, List.map_singleton, ofDigits_append_singleton,
        digitValue_digitChar (by omega), ih (n / base) (by omega)]
      exact Nat.div_add_mod' n base

theorem writeDigits_length_le (hbase : 2 ≤ base) (fuel n : ℕ) {k : ℕ} (hk : 0 < k)
    (hn : n < base ^ k) : (writeDigits base fuel n).length ≤ k := by
  induction fuel generalizing n k with
  | zero => simp [writeDigits]
  | succ fuel ih =>
    simp only [writeDigits]
    split
    · simpa only [List.length_singleton]
    · rename_i hge
      obtain ⟨k, rfl⟩ : ∃ j, k = j + 1 := ⟨k - 1, by omega⟩
      have hk' : 0 < k := by
        rcases Nat.eq_zero_or_pos k with rfl | hpos
        · simp only [Nat.zero_add, Nat.pow_one] at hn
          omega
        · exact hpos
      have hdiv : n / base < base ^ k := by
        rw [Nat.div_lt_iff_lt_mul (by omega)]
        rwa [← Nat.pow_succ]
      have := ih (n / base) hk' hdiv
      simp only [List.length_append, List.length_singleton]
      omega

/-- The digits of a number have it as their value, whatever zeros stand in front. -/
theorem ofDigits_padZeros (hbase : 2 ≤ base) (hmax : base ≤ 36) (width n : ℕ) :
    ofDigits base ((padZeros width (digitsIn base n)).map digitValue) = n := by
  unfold padZeros digitsIn
  rw [List.map_append, List.map_replicate]
  exact (ofDigits_replicate_zero_append base _ _).trans
    (ofDigits_writeDigits hbase hmax (n + 1) n (by omega))

theorem padZeros_digitsIn_injective (hbase : 2 ≤ base) (hmax : base ≤ 36) (width : ℕ)
    {m n : ℕ} (h : padZeros width (digitsIn base m) = padZeros width (digitsIn base n)) :
    m = n := by
  rw [← ofDigits_padZeros hbase hmax width m, h, ofDigits_padZeros hbase hmax width n]

theorem mem_padZeros_digitsIn (hbase : 2 ≤ base) (width n : ℕ) {c : Char}
    (hc : c ∈ padZeros width (digitsIn base n)) : ∃ d < base, c = digitChar d := by
  unfold padZeros at hc
  rw [List.mem_append] at hc
  rcases hc with hc | hc
  · obtain ⟨-, rfl⟩ := List.mem_replicate.mp hc
    exact ⟨0, by omega, rfl⟩
  · exact writeDigits_digits (by omega) (n + 1) n hc

end Base

theorem asciiDigit?_of_isDigit {c : Char} (h : c.isDigit = true) :
    asciiDigit? c = some (c.toNat - 48) := by
  unfold asciiDigit?
  rw [if_pos h]

end MoveWorkbench.Text

namespace MoveWorkbench.Json

/-- Decimal digits are read to the value that they have. -/
theorem digitsOf_eq {cs : List Char} (h : ∀ c ∈ cs, c.isDigit = true) :
    digitsOf cs = Nat.ofDigitChars 10 cs 0 := by
  have hvalues : cs.filterMap Text.asciiDigit? = cs.map fun c => c.toNat - 48 := by
    induction cs with
    | nil => rfl
    | cons c cs ih =>
      rw [List.filterMap_cons_some (Text.asciiDigit?_of_isDigit (h c (List.mem_cons_self ..))),
        List.map_cons, ih fun d hd => h d (List.mem_cons_of_mem c hd)]
  unfold digitsOf Text.ofDigits
  rw [hvalues, List.foldl_map, Nat.ofDigitChars_eq_foldl]
  simp only [Nat.mul_comm, Char.reduceToNat]

theorem digitsOf_append {cs ds : List Char} (hcs : ∀ c ∈ cs, c.isDigit = true)
    (hds : ∀ c ∈ ds, c.isDigit = true) :
    digitsOf (cs ++ ds) = digitsOf cs * 10 ^ ds.length + digitsOf ds := by
  have hall : ∀ c ∈ cs ++ ds, c.isDigit = true := by
    intro c hc
    exact (List.mem_append.mp hc).elim (hcs c) (hds c)
  rw [digitsOf_eq hall, digitsOf_eq hcs, digitsOf_eq hds, Nat.ofDigitChars_append,
    Nat.ofDigitChars_eq_ofDigitChars_zero, Nat.mul_comm]

theorem digitsOf_replicate_zero (n : ℕ) : digitsOf (List.replicate n '0') = 0 := by
  rw [digitsOf_eq (by simp +contextual [List.mem_replicate]), Nat.ofDigitChars_replicate_zero,
    Nat.mul_zero]

theorem isDigit_of_mem_toDigits {n : ℕ} {c : Char} (h : c ∈ Nat.toDigits 10 n) :
    c.isDigit = true := Nat.isDigit_of_mem_toDigits (by omega) (by omega) h

theorem digitsOf_toDigits (n : ℕ) : digitsOf (Nat.toDigits 10 n) = n := by
  rw [digitsOf_eq fun c => isDigit_of_mem_toDigits]
  exact Nat.ofDigitChars_toDigits (by omega) (by omega)

/-- As many digits as there are bound the value. -/
theorem digitsOf_lt {cs : List Char} (h : ∀ c ∈ cs, c.isDigit = true) :
    digitsOf cs < 10 ^ cs.length := by
  induction cs using List.reverseRecOn with
  | nil => simp [digitsOf, Text.ofDigits]
  | append_singleton cs c ih =>
    have hc : c.isDigit = true := h c (by simp)
    have hcs : ∀ d ∈ cs, d.isDigit = true := fun d hd => h d (by simp [hd])
    have hvalue : digitsOf [c] = c.toNat - 48 := by
      simp [digitsOf, Text.ofDigits, Text.asciiDigit?_of_isDigit hc]
    have hlt : c.toNat - 48 < 10 := by
      have hle : c.toNat ≤ 57 := by
        simp only [Char.isDigit, Bool.and_eq_true, decide_eq_true_eq] at hc
        exact hc.2
      omega
    have hrest := ih hcs
    rw [digitsOf_append hcs (by simpa using hc), hvalue, List.length_append, Nat.pow_add]
    simp only [List.length_singleton, Nat.pow_one]
    omega

end MoveWorkbench.Json
