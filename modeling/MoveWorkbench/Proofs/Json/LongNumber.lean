import MoveWorkbench.Proofs.Json.Legible

/-!
Numbers that are too long. The reader goes forward: what it leaves is the end of what it was
given. So when it stops for an integer of too many digits, these digits stand in the text one
after another; in a text without such a run, nothing but a misplaced character keeps the text
from being read. A long run that is the whole text is indeed not read.
-/

namespace MoveWorkbench.Json

/-- Whether more digits stand one after another than an integer may have. -/
def HasLongRun (cs : List Char) : Prop :=
  ∃ ds, ds <:+: cs ∧ (∀ d ∈ ds, d.isDigit = true) ∧ maxDigits < ds.length

theorem HasLongRun.of_suffix {cs cs' : List Char} (h : HasLongRun cs) (hcs : cs <:+ cs') :
    HasLongRun cs' := by
  obtain ⟨ds, hinfix, hdigits, hlong⟩ := h
  exact ⟨ds, hinfix.trans hcs.isInfix, hdigits, hlong⟩

variable {α β : Type} {cs cs' : List Char}

/-- What a reader may come to that goes forward over a text. -/
inductive Forward (cs : List Char) : Except Misreading (α × List Char) → Prop where
  | ok {a : α} {rest : List Char} (h : rest <:+ cs) : Forward cs (.ok (a, rest))
  | tooManyDigits (h : HasLongRun cs) : Forward cs (.error .tooManyDigits)
  | unexpected (expected : Expectation) (left : ℕ) :
    Forward cs (.error (.unexpected expected left))

namespace Forward

variable {x : Except Misreading (α × List Char)}

theorem of_suffix (h : Forward cs x) (hcs : cs <:+ cs') : Forward cs' x := by
  cases h with
  | ok hrest => exact .ok (hrest.trans hcs)
  | tooManyDigits hrun => exact .tooManyDigits (hrun.of_suffix hcs)
  | unexpected expected left => exact .unexpected expected left

/-- A reader that goes on where another one has stopped. -/
theorem bind {f : α × List Char → Except Misreading (β × List Char)} (h : Forward cs x)
    (hf : ∀ a rest, Forward rest (f (a, rest))) : Forward cs (x >>= f) := by
  cases h with
  | ok hrest => exact (hf _ _).of_suffix hrest
  | tooManyDigits hrun => exact .tooManyDigits hrun
  | unexpected expected left => exact .unexpected expected left

end Forward

theorem suffix_skipSpace (cs : List Char) : skipSpace cs <:+ cs := List.dropWhile_suffix _

/-- What stands behind the character that comes after blanks. -/
theorem suffix_of_skipSpace {c : Char} {rest : List Char} (h : skipSpace cs = c :: rest) :
    rest <:+ cs :=
  (List.suffix_cons c rest).trans (h ▸ suffix_skipSpace cs)

/-! Texts. -/

theorem forward_consPiece {p : Text.Piece} {x : Except Misreading (List Text.Piece × List Char)}
    (h : Forward cs x) : Forward cs (consPiece p x) := by
  cases h with
  | ok hrest => exact .ok hrest
  | tooManyDigits hrun => exact .tooManyDigits hrun
  | unexpected expected left => exact .unexpected expected left

theorem forward_readPieces (inside cs : List Char) : Forward cs (readPieces inside cs) := by
  fun_induction readPieces inside cs with
  | case1 => exact .unexpected _ _
  | case2 cs => exact .ok (List.suffix_cons _ _)
  | case3 a b c d n head tail _ ih =>
    exact (forward_consPiece ih).of_suffix (List.suffix_append ['\\', 'u', a, b, c, d] _)
  | case4 => exact .unexpected _ _
  | case5 => exact .unexpected _ _
  | case6 => exact .unexpected _ _
  | case7 e cs _ _ c _ ih =>
    exact (forward_consPiece ih).of_suffix (List.suffix_append ['\\', e] cs)
  | case8 => exact .unexpected _ _
  | case9 => exact .unexpected _ _
  | case10 c cs _ _ _ _ _ _ ih => exact (forward_consPiece ih).of_suffix (List.suffix_cons c cs)

theorem forward_readText (cs : List Char) : Forward cs (readText cs) :=
  (forward_readPieces cs cs).bind fun _ _ => .ok List.suffix_rfl

/-! Numbers. -/

theorem eq_append_of_wholePart? {w rest : List Char} (h : wholePart? cs = some (w, rest)) :
    cs = w ++ rest := by
  unfold wholePart? at h
  split at h
  · cases h
    rfl
  · split at h
    · cases h
      exact List.takeWhile_append_dropWhile.symm
    · cases h
  · cases h

theorem suffix_fractionPart (cs : List Char) : (fractionPart cs).2 <:+ cs := by
  unfold fractionPart
  split
  · rename_i cs'
    split
    · exact List.suffix_rfl
    · exact (List.dropWhile_suffix _).trans (List.suffix_cons _ _)
  · exact List.suffix_rfl

theorem suffix_of_spanDigits {ds rest : List Char} (h : spanDigits cs = (ds, rest)) :
    rest <:+ cs := by
  cases h
  exact List.dropWhile_suffix _

theorem suffix_exponentPart (cs : List Char) : (exponentPart cs).2 <:+ cs := by
  unfold exponentPart
  split
  · split
    · dsimp only
      split
      · exact List.suffix_rfl
      · rename_i c behind _ _ _ _ _ hspan
        refine (suffix_of_spanDigits hspan).trans (.trans ?_ (List.suffix_cons c behind))
        -- the digits stand behind a sign, if there is one
        split
        · exact List.suffix_cons _ _
        · exact List.suffix_cons _ _
        · exact List.suffix_rfl
    · exact List.suffix_rfl
  · exact List.suffix_rfl

/-- The digits before the point stand in the text, and what is left of it comes behind them. -/
theorem infix_of_numeral? {n : Numeral} {rest : List Char} (h : numeral? cs = some (n, rest)) :
    n.whole <:+: cs ∧ rest <:+ cs := by
  unfold numeral? at h
  split at h
  rename_i negative unsigned hsign
  have hunsigned : unsigned <:+ cs := by
    split at hsign
    · cases hsign
      exact List.suffix_cons _ _
    · cases hsign
      exact List.suffix_rfl
  split at h
  · cases h
  · rename_i whole behind hwhole
    have hparts := eq_append_of_wholePart? hwhole
    cases h
    constructor
    · have hprefix : whole <+: unsigned := hparts ▸ List.prefix_append _ _
      exact hprefix.isInfix.trans hunsigned.isInfix
    · have hbehind : behind <:+ unsigned := hparts ▸ List.suffix_append _ _
      exact (suffix_exponentPart _).trans
        ((suffix_fractionPart _).trans (hbehind.trans hunsigned))

theorem forward_value {n : Numeral} {rest : List Char} (h : numeral? cs = some (n, rest)) :
    Forward cs (do return (← n.value, rest)) := by
  obtain ⟨hwhole, hrest⟩ := infix_of_numeral? h
  unfold Numeral.value
  split
  · split
    · rename_i hlong
      exact .tooManyDigits ⟨n.whole, hwhole, isDigit_of_numeral? h, hlong⟩
    · exact .ok hrest
  · exact .ok hrest

theorem forward_readPlain (cs : List Char) : Forward cs (readPlain cs) := by
  unfold readPlain
  split
  · rename_i r hnamed
    obtain ⟨p, -, hp⟩ := List.exists_of_findSome?_eq_some hnamed
    obtain ⟨rest, hafter, rfl⟩ := Option.map_eq_some_iff.mp hp
    rw [Text.after?_eq_some_iff.mp hafter]
    exact .ok (List.suffix_append _ _)
  · split
    · rename_i n rest hnumeral
      exact forward_value hnumeral
    · exact .unexpected _ _

/-! Values. -/

private structure GoForward (fuel : ℕ) : Prop where
  value : ∀ cs, Forward cs (readValue fuel cs)
  items : ∀ cs, Forward cs (readItems fuel cs)
  fields : ∀ cs, Forward cs (readFields fuel cs)

private theorem forward_readValue_succ {fuel : ℕ} (ih : GoForward fuel) (cs : List Char) :
    Forward cs (readValue (fuel + 1) cs) := by
  unfold readValue
  split
  · refine Forward.of_suffix ?_ (List.suffix_cons _ _)
    exact (forward_readText _).bind fun _ _ => .ok List.suffix_rfl
  · rename_i cs
    refine Forward.of_suffix ?_ (List.suffix_cons _ cs)
    split
    · rename_i rest hspace
      exact .ok (suffix_of_skipSpace hspace)
    · refine Forward.of_suffix ?_ (suffix_skipSpace cs)
      exact (ih.items _).bind fun _ _ => .ok List.suffix_rfl
  · rename_i cs
    refine Forward.of_suffix ?_ (List.suffix_cons _ cs)
    split
    · rename_i rest hspace
      exact .ok (suffix_of_skipSpace hspace)
    · refine Forward.of_suffix ?_ (suffix_skipSpace cs)
      exact (ih.fields _).bind fun _ _ => .ok List.suffix_rfl
  · exact forward_readPlain _

private theorem forward_readItems_succ {fuel : ℕ} (ih : GoForward fuel) (cs : List Char) :
    Forward cs (readItems (fuel + 1) cs) := by
  unfold readItems
  refine (ih.value cs).bind fun v rest => ?_
  dsimp only
  split
  · rename_i rest' hspace
    exact .ok (suffix_of_skipSpace hspace)
  · rename_i rest' hspace
    refine Forward.of_suffix ?_ ((suffix_skipSpace rest').trans (suffix_of_skipSpace hspace))
    exact (ih.items _).bind fun _ _ => .ok List.suffix_rfl
  · exact .unexpected _ _

private theorem forward_readFields_succ {fuel : ℕ} (ih : GoForward fuel) (cs : List Char) :
    Forward cs (readFields (fuel + 1) cs) := by
  unfold readFields
  split
  · refine Forward.of_suffix ?_ (List.suffix_cons _ _)
    refine (forward_readText _).bind fun name rest => ?_
    dsimp only
    split
    · rename_i rest' hcolon
      refine Forward.of_suffix ?_ ((suffix_skipSpace rest').trans (suffix_of_skipSpace hcolon))
      refine (ih.value _).bind fun v rest => ?_
      dsimp only
      split
      · rename_i rest'' hspace
        exact .ok (suffix_of_skipSpace hspace)
      · rename_i rest'' hspace
        refine Forward.of_suffix ?_ ((suffix_skipSpace rest'').trans (suffix_of_skipSpace hspace))
        exact (ih.fields _).bind fun _ _ => .ok List.suffix_rfl
      · exact .unexpected _ _
    · exact .unexpected _ _
  · exact .unexpected _ _

private theorem goForward (fuel : ℕ) : GoForward fuel := by
  induction fuel with
  | zero =>
    constructor
    · exact fun _ => .unexpected _ _
    · exact fun _ => .unexpected _ _
    · exact fun _ => .unexpected _ _
  | succ fuel ih =>
    constructor
    · exact forward_readValue_succ ih
    · exact forward_readItems_succ ih
    · exact forward_readFields_succ ih

theorem hasLongRun_of_readAll {cs : List Char} (h : readAll cs = .error .tooManyDigits) :
    HasLongRun cs := by
  unfold readAll at h
  split at h
  · cases h
  · have hvalue := (goForward (2 * cs.length + 2)).value (skipSpace cs)
    generalize readValue (2 * cs.length + 2) (skipSpace cs) = x at h hvalue
    cases hvalue with
    | ok =>
      simp only [bind, Except.bind] at h
      split at h <;> cases h
    | tooManyDigits hrun => exact hrun.of_suffix (suffix_skipSpace cs)
    | unexpected => cases h

/-- A text with an integer too long to be read has a long run of digits. -/
theorem hasLongRun_of_ofText {s : String} (h : ofText s = .error .tooManyDigits) :
    HasLongRun s.toList := by
  unfold ofText at h
  dsimp only at h
  split at h
  · cases h
  · cases h
  · rename_i hread
    exact hasLongRun_of_readAll hread

/-- An integer of too many digits is not read. -/
theorem ofText_of_digits {c : Char} {ds : List Char} (hc : c ≠ '0')
    (h : ∀ d ∈ c :: ds, d.isDigit = true) (hlong : maxDigits < (c :: ds).length) :
    ofText (String.ofList (c :: ds)) = .error .tooManyDigits := by
  have hdigit : c.isDigit = true := h c List.mem_cons_self
  have hnumeral : numeral? (c :: ds) = some (⟨false, c :: ds, [], none⟩, []) := by
    have hends : EndsDigits [] := fun _ hd => nomatch hd
    have hsigned := numeral?_signed false (.digits hc h) hends
      (fractionPart_of_ne fun _ hd => nomatch hd) (exponentPart_of_endsValue fun _ hd => nomatch hd)
    rwa [List.append_nil] at hsigned
  have hplain : readPlain (c :: ds) = .error .tooManyDigits := by
    have hbegins : BeginsNumber (c :: ds) := ⟨false, c, ds, hdigit, rfl⟩
    rw [readPlain_of_beginsNumber hbegins, hnumeral]
    simp only [Numeral.value, and_self, if_true, if_pos hlong]
    rfl
  have hvalue (fuel : ℕ) : readValue (fuel + 1) (c :: ds) = .error .tooManyDigits := by
    have hquote : c ≠ '"' := isDigit_ne hdigit rfl
    have hbracket : c ≠ '[' := isDigit_ne hdigit rfl
    have hbrace : c ≠ '\x7b' := isDigit_ne hdigit rfl
    simpa [readValue, hquote, hbracket, hbrace] using hplain
  have hskip : skipSpace (c :: ds) = c :: ds := by
    refine List.dropWhile_cons_of_neg ?_
    simp [isSpace, isDigit_ne hdigit (d := ' ') rfl, isDigit_ne hdigit (d := '\t') rfl,
      isDigit_ne hdigit (d := '\n') rfl, isDigit_ne hdigit (d := '\r') rfl]
  have hmark : (c :: ds).head? ≠ some (Char.ofNat 0xfeff) := by
    rw [List.head?_cons]
    exact fun hhead => isDigit_ne hdigit (d := '\ufeff') rfl (Option.some_inj.mp hhead)
  have hall : readAll (c :: ds) = .error .tooManyDigits := by
    unfold readAll
    rw [if_neg hmark, hskip, hvalue]
    rfl
  unfold ofText
  rw [String.toList_ofList]
  simp only [hall]

end MoveWorkbench.Json
