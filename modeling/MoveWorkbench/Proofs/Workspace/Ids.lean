import Mathlib.Tactic.Linarith
import MoveWorkbench.Proofs.Number.Size
import MoveWorkbench.Proofs.Partial
import MoveWorkbench.Proofs.Text.Digits
import MoveWorkbench.Workspace.Basic

/-!
Ids. While the clock shows an instant of the calendar, an id can be drawn: the time in
milliseconds stays far below the largest double. The number of an id stands after its last
hyphen, so ids with different numbers differ, whatever their tags and times are.
-/

namespace MoveWorkbench.Workspace

open Binary64

/-- The time in milliseconds can be told at every instant of the calendar. -/
theorem exists_millis (t : Instant) : ∃ n, millis t.micros = .ok n := by
  have hseconds : |((t.micros : ℤ) : ℚ) / (1000000 : ℤ)| < 2 ^ (38 : ℤ) := by
    have hlow : (-62135596800000000 : ℚ) ≤ (t.micros : ℚ) := by exact_mod_cast t.inRange.1
    have hhigh : (t.micros : ℚ) ≤ 253402300799999999 := by exact_mod_cast t.inRange.2
    rw [abs_lt]
    constructor
    · rw [lt_div_iff₀ (by norm_num)]
      norm_num
      linarith
    · rw [div_lt_iff₀ (by norm_num)]
      norm_num
      linarith
  have hthousand : |(1000 : ℚ)| < 2 ^ (10 : ℤ) := by
    rw [abs_of_pos (by norm_num)]
    norm_num
  obtain ⟨seconds, hquotient, hsize⟩ := exists_ofRat? (by omega) hseconds
  have hfactor := within_ofRat (by omega) hthousand
  obtain ⟨n, hn⟩ := (hsize.mul hfactor (by omega)).exists_truncate
  exact ⟨n, Partial.bind_eq_ok.mpr ⟨seconds, hquotient, hn⟩⟩

theorem exists_nextId {w : Workspace} {t : Instant} (h : w.clock = t.micros) (tag : String) :
    ∃ n, w.nextId tag = .ok (idText tag n w.drawn) := by
  obtain ⟨n, hn⟩ := exists_millis t
  refine ⟨n, ?_⟩
  unfold nextId
  rw [h, hn]
  rfl

/-- An id that is drawn has its tag and the next number. -/
theorem exists_eq_idText {w : Workspace} {tag id : String} (h : w.nextId tag = .ok id) :
    ∃ t, id = idText tag t w.drawn := by
  obtain ⟨t, -, rfl⟩ := Partial.map_eq_ok.mp h
  exact ⟨t, rfl⟩

theorem now_eq {w : Workspace} {t : Instant} (h : w.clock = t.micros) : w.now = .ok t := by
  unfold now
  rw [h]
  exact Instant.ofMicros_micros t

theorem now_eq_ok {w : Workspace} {t : Instant} : w.now = .ok t ↔ t.micros = w.clock :=
  Instant.ofMicros_eq_ok

theorem eq_of_append_cons_eq {α : Type} {c : α} {as bs as' bs' : List α} (hbs : c ∉ bs)
    (hbs' : c ∉ bs') (h : as ++ c :: bs = as' ++ c :: bs') : bs = bs' := by
  rcases List.append_eq_append_iff.mp h with ⟨cs, -, hcs⟩ | ⟨cs, -, hcs⟩
  · cases cs with
    | nil => exact (List.cons_inj_right c).mp hcs
    | cons d cs =>
      injection hcs with _ htail
      exact absurd (htail ▸ List.mem_append_right cs (List.mem_cons_self ..)) hbs
  · cases cs with
    | nil => exact ((List.cons_inj_right c).mp hcs).symm
    | cons d cs =>
      injection hcs with _ htail
      exact absurd (htail ▸ List.mem_append_right cs (List.mem_cons_self ..)) hbs'

/-- Ids with different numbers differ. -/
theorem idText_number_injective {tag tag' : String} {t t' : ℤ} {m n : ℕ}
    (h : idText tag t m = idText tag' t' n) : m = n := by
  have hyphen (k : ℕ) : '-' ∉ Text.padZeros 9 (Text.digitsIn 36 k) := by
    intro hmem
    obtain ⟨d, hd, heq⟩ := Text.mem_padZeros_digitsIn (by omega) 9 k hmem
    exact Text.digitChar_ne_hyphen hd heq.symm
  have hchars : (tag ++ "-" ++ toString t).toList ++ '-' :: Text.padZeros 9 (Text.digitsIn 36 m) =
      (tag' ++ "-" ++ toString t').toList ++ '-' :: Text.padZeros 9 (Text.digitsIn 36 n) := by
    have hlist := congrArg String.toList h
    have hone : "-".toList = ['-'] := rfl
    simpa only [idText, String.toList_append, String.toList_ofList, List.append_assoc, hone,
      List.cons_append, List.nil_append] using hlist
  exact Text.padZeros_digitsIn_injective (by omega) (by omega) 9
    (eq_of_append_cons_eq (hyphen m) (hyphen n) hchars)

end MoveWorkbench.Workspace
