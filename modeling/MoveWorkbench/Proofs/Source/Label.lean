import MoveWorkbench.Proofs.Source.Head

/-!
The module that a text is labelled with. Its header has two colons right behind a word, so
none begins where another sign comes before any colon, and a header that was printed is read
back with its names.
-/

namespace MoveWorkbench.Source

open Text

variable {address name : List Char}

theorem word?_of_not_isWord {c : Char} (hc : isWord c = false) (cs : List Char) :
    word? (c :: cs) = none := by
  unfold word?
  rw [List.takeWhile_cons_of_neg (by simp [hc])]

/-- The header of a module is read back, unless one of its names is empty. -/
theorem moduleHead?_header {before : Option Char} (hbefore : before.any isWord = false)
    (haddress : ∀ c ∈ address, isWord c = true) (hname : ∀ c ∈ name, isWord c = true)
    (inner : List Char) :
    moduleHead? before ("module ".toList ++ address ++ "::".toList ++ name ++ ' ' :: inner) =
      if address = [] ∨ name = [] then none else some (address, name) := by
  have hkeyword : after? "module".toList
      ("module ".toList ++ address ++ "::".toList ++ name ++ ' ' :: inner) =
        some (' ' :: (address ++ ':' :: ':' :: (name ++ ' ' :: inner))) := by
    rw [after?_eq_some_iff]
    simp
  have hblanks : afterBlanks? (' ' :: (address ++ ':' :: ':' :: (name ++ ' ' :: inner))) =
      some (address ++ ':' :: ':' :: (name ++ ' ' :: inner)) := by
    have hblank : isBlank ' ' = true := rfl
    rw [afterBlanks?, if_pos hblank]
    cases address with
    | nil => rfl
    | cons c cs =>
      have hc : isBlank c = false := isBlank_of_isWord (haddress c List.mem_cons_self)
      rw [List.cons_append, skipBlanks_of_not_isBlank hc]
  have hcolons (cs : List Char) : after? "::".toList (':' :: ':' :: cs) = some cs :=
    after?_eq_some_iff.mpr rfl
  have hcolon : isWord ':' = false := rfl
  have hspace : isWord ' ' = false := rfl
  simp only [moduleHead?, hbefore, Bool.false_eq_true, if_false, hkeyword, hblanks,
    Option.bind_eq_bind, Option.bind_some]
  cases address with
  | nil =>
    rw [if_pos (.inl rfl), List.nil_append, word?_of_not_isWord hcolon]
    rfl
  | cons c cs =>
    rw [word?_append (List.cons_ne_nil c cs) haddress hcolon]
    simp only [Option.bind_some, hcolons]
    cases name with
    | nil =>
      rw [if_pos (.inr rfl), List.nil_append, word?_of_not_isWord hspace]
      rfl
    | cons d ds =>
      rw [word?_append (List.cons_ne_nil d ds) hname hspace, if_neg (by simp)]
      rfl

/-- A module whose header comes first is the first one. -/
theorem firstModule?_header {before : Option Char} (hbefore : before.any isWord = false)
    (haddress : IsName address) (hname : IsName name) (inner : List Char) :
    firstModule? before ("module ".toList ++ address ++ "::".toList ++ name ++ ' ' :: inner) =
      some (address, name) := by
  have hhead := moduleHead?_header hbefore haddress.2 hname.2 inner
  rw [if_neg (not_or.mpr ⟨haddress.1, hname.1⟩)] at hhead
  obtain ⟨cs, hcs⟩ : ∃ cs,
      "module ".toList ++ address ++ "::".toList ++ name ++ ' ' :: inner = 'm' :: cs := ⟨_, rfl⟩
  rw [hcs] at hhead ⊢
  rw [firstModule?, hhead]

/-- No module begins in text in which a sign comes before any colon. -/
theorem Barred.moduleHead? {cs : List Char} (h : Barred [':'] cs) (before : Option Char) :
    Source.moduleHead? before cs = none := by
  unfold Source.moduleHead?
  split
  · rfl
  · cases hmodule : Text.after? "module".toList cs with
    | none => rfl
    | some afterModule =>
      have hafterModule := h.after? hmodule (List.all_eq_true.mp rfl)
      cases hblanks : Source.afterBlanks? afterModule with
      | none => simp [hblanks]
      | some start =>
        have hstart := hafterModule.afterBlanks? hblanks
        cases hword : Source.word? start with
        | none => simp [hblanks, hword]
        | some found =>
          obtain ⟨w, rest⟩ := found
          have hrest := hstart.word? hword
          have hcolons : Text.after? "::".toList rest = none := by
            rw [Option.eq_none_iff_forall_ne_some]
            intro name hname
            rw [after?_eq_some_iff] at hname
            have hrest' : Barred [':'] (':' :: ':' :: name) := by
              rw [hname] at hrest
              exact hrest
            exact absurd (List.mem_singleton_self ':') hrest'.head_not_mem
          simp only [Option.bind_eq_bind, Option.bind_some, hblanks, hword, hcolons,
            Option.bind_none]

/-- No module is read up to the bar of barred text. -/
theorem firstModule?_barred {front : List Char} {bar : Char} (hfront : ∀ c ∈ front, c ∉ [':'])
    (hsign : IsSign bar) (hbar : bar ∉ [':']) (before : Option Char) (rest : List Char) :
    firstModule? before (front ++ bar :: rest) = firstModule? (some bar) rest := by
  induction front generalizing before with
  | nil =>
    have hbarred : Barred [':'] (bar :: rest) :=
      ⟨[], bar, rest, rfl, fun _ hc => absurd hc List.not_mem_nil, hsign, hbar⟩
    rw [List.nil_append, firstModule?, hbarred.moduleHead? before]
  | cons c front ih =>
    have hbarred : Barred [':'] (c :: (front ++ bar :: rest)) :=
      ⟨c :: front, bar, rest, rfl, hfront, hsign, hbar⟩
    rw [List.cons_append, firstModule?, hbarred.moduleHead? before]
    exact ih (fun d hd => hfront d (List.mem_cons_of_mem c hd)) (some c)

end MoveWorkbench.Source
