import Mathlib.Order.Bounds.Basic
import MoveWorkbench.Proofs.Source.Depth

/-!
Partners of brackets. From an opening bracket on, a place is level when the text up to it closes as
many brackets as it opens. The search gives the first level place and nothing where there is none.
A closing bracket stands at that place, and whatever is read before it opens more brackets than it
closes. What stands between the two brackets is what the opening one encloses.
-/

namespace MoveWorkbench.Source

variable {α : Type} {opener closer : α} {start stop : ℕ} {code rest : List α}

/-- The text from one place to another, both included. -/
def span (start stop : ℕ) (code : List α) : List α := (code.take (stop + 1)).drop start

/-- The span from an opening bracket to a place behind it is the bracket and what follows it. -/
theorem span_of_opener (h : code.drop start = opener :: rest) (n : ℕ) :
    span start (start + 1 + n) code = opener :: rest.take (n + 1) := by
  have hlength : start + 1 + n + 1 - start = n + 2 := by omega
  unfold span
  rw [List.drop_take, h, hlength, List.take_succ_cons]

variable [BEq α]

/-- A place of a text, behind another one, up to which as many brackets are closed as opened. -/
structure Level (opener closer : α) (start : ℕ) (code : List α) (stop : ℕ) : Prop where
  behind : start < stop
  inside : stop < code.length
  equal : (span start stop code).count opener = (span start stop code).count closer

/-- Every part in front that is neither nothing nor the whole opens more brackets than it closes. -/
def Deep (opener closer : α) (cs : List α) : Prop :=
  ∀ front, front ≠ [] → front <+: cs → front ≠ cs → front.count closer < front.count opener

variable [LawfulBEq α]

/-- A text in brackets is closed by its last character only. -/
theorem Matched.deep (hne : closer ≠ opener) {inner : List α} (h : Matched opener closer inner) :
    Deep opener closer (opener :: (inner ++ [closer])) := by
  intro front hnonempty hfront hproper
  cases front with
  | nil => exact absurd rfl hnonempty
  | cons c front =>
    obtain ⟨rfl, hbehind⟩ := List.cons_prefix_cons.mp hfront
    rcases List.prefix_concat_iff.mp hbehind with rfl | hinner
    · exact absurd rfl hproper
    · have hle := h.upright front hinner
      rw [List.count_cons_self, List.count_cons_of_ne hne.symm]
      omega

/-- The level places behind an opening bracket, by the depth that what follows leads to. -/
theorem level_iff (hne : closer ≠ opener) (h : code.drop start = opener :: rest) :
    Level opener closer start code stop ↔ ∃ n, stop = start + 1 + n ∧ n < rest.length ∧
      1 + rise opener closer (rest.take (n + 1)) = 0 := by
  have hlength : code.length - start = rest.length + 1 := by
    rw [← List.length_drop, h, List.length_cons]
  have hequal (n : ℕ) : (span start (start + 1 + n) code).count opener =
      (span start (start + 1 + n) code).count closer ↔
        1 + rise opener closer (rest.take (n + 1)) = 0 := by
    rw [span_of_opener h, List.count_cons_self, List.count_cons_of_ne hne.symm]
    unfold rise
    omega
  constructor
  · rintro ⟨hbehind, hinside, hcounts⟩
    obtain ⟨n, rfl⟩ := Nat.exists_eq_add_of_le (Nat.succ_le_of_lt hbehind)
    exact ⟨n, rfl, by omega, (hequal n).mp hcounts⟩
  · rintro ⟨n, rfl, hn, hzero⟩
    exact ⟨by omega, by omega, (hequal n).mpr hzero⟩

/-- The search from an opening bracket goes on behind it at depth one. -/
theorem partner?_of_opener (h : code.drop start = opener :: rest) :
    partner? opener closer start code =
      (closing? opener closer 1 rest).map fun n => start + 1 + n := by
  unfold partner?
  rw [h, closing?_opener, Int.zero_add, Option.map_map]
  congr 1
  funext n
  simp only [Function.comp_apply]
  omega

/-- What a bracket encloses stands between it and its partner. -/
theorem partner?_eq_map_enclosed? (h : code.drop start = opener :: rest) :
    partner? opener closer start code =
      (enclosed? opener closer rest).map fun parts => start + 1 + parts.1.length := by
  rw [partner?_of_opener h]
  unfold enclosed?
  rw [Option.map_map]
  refine Option.map_congr fun n hn => ?_
  have hinside := closing?_lt_length hn
  simp only [Function.comp_apply, List.length_take]
  omega

/-- The search stops at the first level place. -/
theorem isLeast_of_partner? (hne : closer ≠ opener) (h : code.drop start = opener :: rest)
    (hstop : partner? opener closer start code = some stop) :
    IsLeast {place | Level opener closer start code place} stop := by
  rw [partner?_of_opener h] at hstop
  obtain ⟨n, hn, rfl⟩ := Option.map_eq_some_iff.mp hstop
  obtain ⟨hinside, hzero, hbefore⟩ := (closing?_eq_some_iff hne Int.one_pos).mp hn
  refine ⟨(level_iff hne h).mpr ⟨n, rfl, hinside, hzero⟩, fun place hplace => ?_⟩
  obtain ⟨m, rfl, -, hlevel⟩ := (level_iff hne h).mp hplace
  -- the search is still inside of a bracket at every place before the one at which it stops
  by_contra hless
  have hpos := hbefore (m + 1) (by omega)
  omega

/-- The search goes on to the end of the text just when it meets no level place. -/
theorem partner?_eq_none_iff (hne : closer ≠ opener) (h : code.drop start = opener :: rest) :
    partner? opener closer start code = none ↔
      ∀ place, ¬ Level opener closer start code place := by
  constructor
  · intro hnone place hplace
    rw [partner?_of_opener h, Option.map_eq_none_iff] at hnone
    obtain ⟨n, -, -, hzero⟩ := (level_iff hne h).mp hplace
    have hpos := (closing?_eq_none_iff hne Int.one_pos).mp hnone (n + 1)
    omega
  · intro hall
    cases hfound : partner? opener closer start code with
    | none => rfl
    | some stop => exact absurd (isLeast_of_partner? hne h hfound).1 (hall stop)

theorem partner?_eq_some_iff (hne : closer ≠ opener) (h : code.drop start = opener :: rest) :
    partner? opener closer start code = some stop ↔
      IsLeast {place | Level opener closer start code place} stop := by
  refine ⟨isLeast_of_partner? hne h, fun hleast => ?_⟩
  cases hfound : partner? opener closer start code with
  | none => exact absurd hleast.1 ((partner?_eq_none_iff hne h).mp hfound stop)
  | some found => rw [(isLeast_of_partner? hne h hfound).unique hleast]

/-- The place at which the search stops holds a closing bracket, and is the first at which it is
not inside of one. -/
theorem getElem?_and_deep_of_partner? (hne : closer ≠ opener)
    (h : code.drop start = opener :: rest)
    (hstop : partner? opener closer start code = some stop) :
    code[stop]? = some closer ∧ Deep opener closer (span start stop code) := by
  rw [partner?_eq_map_enclosed? h] at hstop
  obtain ⟨⟨inner, behind⟩, henclosed, rfl⟩ := Option.map_eq_some_iff.mp hstop
  have hrest := eq_append_of_enclosed? henclosed
  constructor
  · rw [← List.getElem?_drop, ← List.tail_drop, h, hrest]
    simp
  · have hspan : rest.take (inner.length + 1) = inner ++ [closer] := by
      rw [hrest, List.take_length_add_append, List.take_succ_cons, List.take_zero]
    rw [span_of_opener h, hspan]
    exact (matched_of_enclosed? hne henclosed).deep hne

/-- The search from an opening bracket stops at the first place behind it up to which as many
brackets are closed as opened. A closing bracket stands there, and every smaller part of the text
up to it opens more brackets than it closes. Where there is no such place, and only there, the
search finds nothing. -/
theorem partnerFrom_firstLevel (hne : closer ≠ opener) (h : code[start]? = some opener) :
    partnerFrom opener closer start code =
        .ok ((partner? opener closer start code).map Int.ofNat) ∧
      (∀ stop, partner? opener closer start code = some stop ↔
        IsLeast {place | Level opener closer start code place} stop) ∧
      (∀ stop, partner? opener closer start code = some stop →
        code[stop]? = some closer ∧ Deep opener closer (span start stop code)) ∧
      (partner? opener closer start code = none ↔
        ∀ place, ¬ Level opener closer start code place) := by
  obtain ⟨rest, hrest⟩ : ∃ rest, code.drop start = opener :: rest := by
    rw [← List.head?_drop] at h
    exact List.head?_eq_some_iff.mp h
  refine ⟨?_, fun stop => partner?_eq_some_iff hne hrest,
    fun stop => getElem?_and_deep_of_partner? hne hrest, partner?_eq_none_iff hne hrest⟩
  unfold partnerFrom
  rw [if_pos (Int.natCast_nonneg start), Int.toNat_natCast]

def openedCalls : List Char := "f(a, g(b), (c)) (d".toList

theorem partnerFrom_firstLevel_openedCalls :
    ')' ≠ '(' ∧ openedCalls[1]? = some '(' ∧ openedCalls[16]? = some '(' ∧
      partnerFrom '(' ')' 1 openedCalls = .ok (some 14) ∧
      IsLeast {place | Level '(' ')' 1 openedCalls place} 14 ∧
      Deep '(' ')' "(a, g(b), (c))".toList ∧
      partnerFrom '(' ')' 16 openedCalls = .ok none ∧
      ∀ place, ¬ Level '(' ')' 16 openedCalls place := by
  have hne : ')' ≠ '(' := by decide
  have hcall : openedCalls[1]? = some '(' := by decide
  have hopen : openedCalls[16]? = some '(' := by decide
  obtain ⟨hfrom, hleast, hparts, -⟩ := partnerFrom_firstLevel hne hcall
  have hfound : partner? '(' ')' 1 openedCalls = some 14 := by decide
  have hspan : span 1 14 openedCalls = "(a, g(b), (c))".toList := by decide
  obtain ⟨hfrom', -, -, hnone⟩ := partnerFrom_firstLevel hne hopen
  have hlost : partner? '(' ')' 16 openedCalls = none := by decide
  rw [hfound] at hfrom
  rw [hlost] at hfrom'
  exact ⟨hne, hcall, hopen, hfrom, (hleast 14).mp hfound, hspan ▸ (hparts 14 hfound).2, hfrom',
    hnone.mp hlost⟩

end MoveWorkbench.Source
