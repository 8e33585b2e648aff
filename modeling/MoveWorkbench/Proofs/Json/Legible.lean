import MoveWorkbench.Proofs.Json.Numeral
import MoveWorkbench.Proofs.Ordered
import MoveWorkbench.Proofs.Partial

/-!
Legible values: their integers are short enough to be read, and the fields of their objects
have different names. Whatever is read from a text is legible.
-/

namespace MoveWorkbench.Json

/-- Values that can be read from a text. -/
inductive Legible : Json → Prop where
  | null : Legible null
  | bool (b : Bool) : Legible (bool b)
  | int {n : ℤ} (h : IsShort n) : Legible (int n)
  | float (x : Binary64) : Legible (float x)
  | text (s : String) : Legible (text s)
  | list {vs : List Json} (h : ∀ v ∈ vs, Legible v) : Legible (list vs)
  | object {fs : Fields} (names : (Ordered.keys fs).Nodup) (h : ∀ f ∈ fs, Legible f.2) :
    Legible (object fs)

theorem isDigit_of_wholePart? {cs w rest : List Char} (h : wholePart? cs = some (w, rest)) :
    ∀ c ∈ w, c.isDigit = true := by
  unfold wholePart? at h
  split at h
  · injection h with h
    injection h with hw
    subst hw
    exact List.forall_mem_singleton.mpr rfl
  · split at h
    · injection h with h
      injection h with hw
      subst hw
      intro c hc
      exact List.all_eq_true.mp List.all_takeWhile c hc
    · cases h
  · cases h

theorem isDigit_of_numeral? {cs rest : List Char} {n : Numeral}
    (h : numeral? cs = some (n, rest)) : ∀ c ∈ n.whole, c.isDigit = true := by
  unfold numeral? at h
  split at h
  split at h
  · cases h
  · rename_i hwhole
    injection h with h
    injection h with hn
    subst hn
    exact isDigit_of_wholePart? hwhole

/-- An integer that was read has no more digits than are read. -/
theorem legible_of_numeral_value {n : Numeral} {v : Json}
    (hdigits : ∀ c ∈ n.whole, c.isDigit = true) (h : n.value = .ok v) : Legible v := by
  unfold Numeral.value at h
  split at h
  · split at h
    · cases h
    · rename_i hlength
      injection h with h
      subst h
      refine .int (isShort_iff.mpr ?_)
      have hlt := digitsOf_lt hdigits
      have hle : 10 ^ n.whole.length ≤ 10 ^ maxDigits :=
        Nat.pow_le_pow_right (by omega) (Nat.not_lt.mp hlength)
      have habs : (if n.negative = true then -(digitsOf n.whole : ℤ)
          else digitsOf n.whole).natAbs = digitsOf n.whole := by
        split <;> omega
      rw [habs]
      exact Nat.lt_of_lt_of_le hlt hle
  · injection h with h
    subst h
    exact .float _

theorem legible_of_readPlain {cs rest : List Char} {v : Json}
    (h : readPlain cs = .ok (v, rest)) : Legible v := by
  unfold readPlain at h
  split at h
  · rename_i r hnamed
    injection h with h
    subst h
    obtain ⟨p, hp, hrest⟩ := List.exists_of_findSome?_eq_some hnamed
    obtain ⟨tail, -, htail⟩ := Option.map_eq_some_iff.mp hrest
    injection htail with hv
    subst hv
    simp only [namedValues, List.mem_cons, List.not_mem_nil, or_false] at hp
    rcases hp with rfl | rfl | rfl | rfl | rfl | rfl
    · exact .null
    · exact .bool true
    · exact .bool false
    · exact .float _
    · exact .float _
    · exact .float _
  · split at h
    · rename_i n tail hnumeral
      obtain ⟨w, hvalue, hw⟩ := Partial.bind_eq_ok.mp h
      cases hw
      exact legible_of_numeral_value (isDigit_of_numeral? hnumeral) hvalue
    · cases h

private structure ReadsLegible (fuel : ℕ) : Prop where
  value : ∀ cs v rest, readValue fuel cs = .ok (v, rest) → Legible v
  items : ∀ cs vs rest, readItems fuel cs = .ok (vs, rest) → ∀ v ∈ vs, Legible v
  fields : ∀ cs fs rest, readFields fuel cs = .ok (fs, rest) → ∀ f ∈ fs, Legible f.2

private theorem legible_of_readValue_succ {fuel : ℕ} (ih : ReadsLegible fuel) {cs : List Char}
    {v : Json} {rest : List Char} (h : readValue (fuel + 1) cs = .ok (v, rest)) :
    Legible v := by
  unfold readValue at h
  split at h
  · obtain ⟨r, -, hr⟩ := Partial.bind_eq_ok.mp h
    cases hr
    exact .text _
  · split at h
    · cases h
      exact .list (by simp)
    · obtain ⟨r, hitems, hr⟩ := Partial.bind_eq_ok.mp h
      cases hr
      exact .list (ih.items _ _ _ hitems)
  · split at h
    · cases h
      exact .object List.nodup_nil (by simp)
    · obtain ⟨r, hfields, hr⟩ := Partial.bind_eq_ok.mp h
      cases hr
      have hspec := Ordered.ofList_spec (ih.fields _ _ _ hfields)
      exact .object hspec.1 hspec.2
  · exact legible_of_readPlain h

private theorem legible_of_readItems_succ {fuel : ℕ} (ih : ReadsLegible fuel) {cs : List Char}
    {vs : List Json} {rest : List Char} (h : readItems (fuel + 1) cs = .ok (vs, rest)) :
    ∀ v ∈ vs, Legible v := by
  unfold readItems at h
  obtain ⟨⟨v, tail⟩, hvalue, h⟩ := Partial.bind_eq_ok.mp h
  have hv := ih.value _ _ _ hvalue
  dsimp only at h
  split at h
  · cases h
    simpa using hv
  · obtain ⟨s, hitems, hs⟩ := Partial.bind_eq_ok.mp h
    cases hs
    exact List.forall_mem_cons.mpr ⟨hv, ih.items _ _ _ hitems⟩
  · cases h

private theorem legible_of_readFields_succ {fuel : ℕ} (ih : ReadsLegible fuel) {cs : List Char}
    {fs : Fields} {rest : List Char} (h : readFields (fuel + 1) cs = .ok (fs, rest)) :
    ∀ f ∈ fs, Legible f.2 := by
  unfold readFields at h
  split at h
  · obtain ⟨⟨name, tail⟩, -, h⟩ := Partial.bind_eq_ok.mp h
    dsimp only at h
    split at h
    · obtain ⟨⟨v, tail'⟩, hvalue, h⟩ := Partial.bind_eq_ok.mp h
      have hv := ih.value _ _ _ hvalue
      dsimp only at h
      split at h
      · cases h
        simpa using hv
      · obtain ⟨t, hfields, ht⟩ := Partial.bind_eq_ok.mp h
        cases ht
        exact List.forall_mem_cons.mpr ⟨hv, ih.fields _ _ _ hfields⟩
      · cases h
    · cases h
  · cases h

private theorem readsLegible (fuel : ℕ) : ReadsLegible fuel := by
  induction fuel with
  | zero =>
    constructor
    · exact fun _ _ _ h => nomatch h
    · exact fun _ _ _ h => nomatch h
    · exact fun _ _ _ h => nomatch h
  | succ fuel ih =>
    constructor
    · exact fun _ _ _ => legible_of_readValue_succ ih
    · exact fun _ _ _ => legible_of_readItems_succ ih
    · exact fun _ _ _ => legible_of_readFields_succ ih

/-- Whatever is read from a text is legible. -/
theorem legible_of_ofText {s : String} {v : Json} (h : ofText s = .ok v) : Legible v := by
  simp only [ofText] at h
  split at h
  · rename_i w hread
    cases h
    unfold readAll at hread
    split at hread
    · cases hread
    · obtain ⟨⟨w, tail⟩, hvalue, hread⟩ := Partial.bind_eq_ok.mp hread
      dsimp only at hread
      split at hread
      · cases hread
        exact (readsLegible _).value _ _ _ hvalue
      · cases hread
  · cases h
  · cases h

end MoveWorkbench.Json
