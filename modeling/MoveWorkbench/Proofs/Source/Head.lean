import MoveWorkbench.Proofs.Text.Word
import MoveWorkbench.Source.Declaration

/-!
Heads of function declarations. A head reaches an opening parenthesis over letters, blanks
and brackets of its own, so none begins where another sign comes before any parenthesis and
any type parameters. Among words and blanks, a head is the words in front of the name
together with the parenthesis right behind it, so none begins farther back. A head that was
printed is read back with its name.
-/

namespace MoveWorkbench.Source

open Text

def IsSign (c : Char) : Prop := isWord c = false ∧ isBlank c = false

/-- Text in which a sign comes before any of some other ones. -/
def Barred (stops cs : List Char) : Prop :=
  ∃ front bar rest, cs = front ++ bar :: rest ∧ (∀ c ∈ front, c ∉ stops) ∧
    IsSign bar ∧ bar ∉ stops

section Barred

variable {stops cs rest : List Char}

/-- What is left of such text is such text again, if no sign is passed. -/
theorem Barred.of_append {passed : List Char} (h : Barred stops (passed ++ cs))
    (hpassed : ∀ c ∈ passed, isWord c = true ∨ isBlank c = true) : Barred stops cs := by
  obtain ⟨front, bar, rest, heq, hfront, hsign, hbar⟩ := h
  rcases List.append_eq_append_iff.mp heq with ⟨more, hmore, hcs⟩ | ⟨more, hmore, hcs⟩
  · refine ⟨more, bar, rest, hcs, fun c hc => hfront c ?_, hsign, hbar⟩
    rw [hmore]
    exact List.mem_append_right passed hc
  · cases more with
    | nil => exact ⟨[], bar, rest, hcs.symm, fun _ hc => absurd hc List.not_mem_nil, hsign, hbar⟩
    | cons c more =>
      injection hcs with hc _
      rcases hpassed bar (by rw [hmore, hc]; simp) with hword | hblank
      · rw [hsign.1] at hword
        cases hword
      · rw [hsign.2] at hblank
        cases hblank

theorem Barred.head_not_mem {c : Char} (h : Barred stops (c :: cs)) : c ∉ stops := by
  obtain ⟨front, bar, rest, heq, hfront, -, hbar⟩ := h
  cases front with
  | nil =>
    injection heq with hc _
    exact hc ▸ hbar
  | cons d front =>
    injection heq with hc _
    subst hc
    exact hfront c (List.mem_cons_self ..)

theorem Barred.after? {start : List Char} (h : Barred stops cs)
    (hafter : Text.after? start cs = some rest) (hstart : ∀ c ∈ start, isWord c = true) :
    Barred stops rest := by
  rw [after?_eq_some_iff] at hafter
  subst hafter
  exact h.of_append fun c hc => .inl (hstart c hc)

theorem Barred.dropWhile {p : Char → Bool} (h : Barred stops cs)
    (hp : ∀ c, p c = true → isWord c = true ∨ isBlank c = true) :
    Barred stops (cs.dropWhile p) := by
  have hsplit := List.takeWhile_append_dropWhile (p := p) (l := cs)
  rw [← hsplit] at h
  refine h.of_append fun c hc => hp c ?_
  exact List.all_eq_true.mp List.all_takeWhile c hc

theorem Barred.skipBlanks (h : Barred stops cs) : Barred stops (skipBlanks cs) :=
  h.dropWhile fun _ => .inr

theorem Barred.afterBlanks? (h : Barred stops cs) (hafter : Source.afterBlanks? cs = some rest) :
    Barred stops rest := by
  cases cs with
  | nil => cases hafter
  | cons c cs =>
    simp only [Source.afterBlanks?] at hafter
    split at hafter
    · rename_i hblank
      cases hafter
      have hpassed : ∀ d ∈ [c], isWord d = true ∨ isBlank d = true := by
        rw [List.forall_mem_singleton]
        exact .inr hblank
      exact Barred.skipBlanks (Barred.of_append h hpassed)
    · cases hafter

theorem Barred.word? {w : List Char} (h : Barred stops cs)
    (hword : Source.word? cs = some (w, rest)) : Barred stops rest := by
  unfold Source.word? at hword
  split at hword
  · cases hword
  · cases hword
    exact h.dropWhile fun _ => .inl

end Barred

/-- What is said of the characters of a text is decided one by one, not by a search through all
characters there are. -/
instance decidableForallChar {p : Char → Prop} [DecidablePred p] (cs : List Char) :
    Decidable (∀ c ∈ cs, p c) :=
  List.decidableBAll p cs

def openings : List Char := ['(', '<']

theorem not_mem_openings_of_isWord {c : Char} (h : isWord c = true) : c ∉ openings := by
  simp only [openings, List.mem_cons, List.not_mem_nil, or_false, not_or]
  constructor <;> rintro rfl <;> cases h

theorem not_mem_openings_of_isBlank {c : Char} (h : isBlank c = true) : c ∉ openings := by
  simp only [openings, List.mem_cons, List.not_mem_nil, or_false, not_or]
  constructor <;> rintro rfl <;> cases h

section Openings

variable {cs : List Char}

theorem Barred.afterTypeParameters? (h : Barred openings cs) :
    Source.afterTypeParameters? cs = some cs := by
  unfold Source.afterTypeParameters?
  split
  · exact absurd (by simp [openings]) h.head_not_mem
  · rfl

theorem Barred.afterKeyword? (h : Barred openings cs) : Source.afterKeyword? cs = none := by
  unfold Source.afterKeyword?
  cases hfun : Text.after? "fun".toList cs with
  | none => rfl
  | some afterFun =>
    have hafterFun := h.after? hfun (List.all_eq_true.mp rfl)
    cases hblanks : Source.afterBlanks? afterFun with
    | none => simp [hblanks]
    | some start =>
      have hstart := hafterFun.afterBlanks? hblanks
      cases hword : Source.word? start with
      | none => simp [hblanks, hword]
      | some found =>
        obtain ⟨w, rest⟩ := found
        have hrest := (hstart.word? hword).skipBlanks
        simp only [hblanks, hword, hrest.afterTypeParameters?, Option.bind_eq_bind, Option.bind_some]
        split
        · rename_i heq
          rw [heq] at hrest
          exact absurd (by simp [openings]) hrest.head_not_mem
        · rfl

theorem Barred.afterModifier? (h : Barred openings cs) : Source.afterModifier? cs = none := by
  unfold Source.afterModifier?
  split
  · rename_i rest hentry
    have hrest := h.after? hentry (List.all_eq_true.mp rfl)
    cases hblanks : Source.afterBlanks? rest with
    | none => rfl
    | some start => exact (hrest.afterBlanks? hblanks).afterKeyword?
  · exact h.afterKeyword?

/-- Without a parenthesis there are just blanks behind the word public. -/
theorem afterVisibility?_eq (h : ∀ rest, skipBlanks cs ≠ '(' :: rest) :
    afterVisibility? cs = afterBlanks? cs := by
  unfold afterVisibility?
  split
  · rename_i heq
    exact absurd heq (h _)
  · rfl

/-- No head begins in barred text. -/
theorem Barred.head? (h : Barred openings cs) (before : Option Char) :
    Source.head? before cs = none := by
  unfold Source.head?
  split
  · rfl
  · split
    · rename_i rest hpublic
      have hrest := h.after? hpublic (List.all_eq_true.mp rfl)
      have hvisibility : Source.afterVisibility? rest = Source.afterBlanks? rest := by
        refine afterVisibility?_eq fun inner heq => ?_
        have hskip := hrest.skipBlanks
        rw [heq] at hskip
        exact absurd (by simp [openings]) hskip.head_not_mem
      rw [hvisibility]
      cases hblanks : Source.afterBlanks? rest with
      | none => rfl
      | some start => exact (hrest.afterBlanks? hblanks).afterModifier?
    · exact h.afterModifier?

end Openings

/-- A head begins with a letter of its first word. -/
theorem head?_of_ne {c : Char} (hp : c ≠ 'p') (he : c ≠ 'e') (hf : c ≠ 'f')
    (before : Option Char) (cs : List Char) : head? before (c :: cs) = none := by
  have hnone {d : Char} {ds : List Char} (hd : c ≠ d) : after? (d :: ds) (c :: cs) = none := by
    rw [after?, if_neg hd.symm]
  have hpublic : after? "public".toList (c :: cs) = none := hnone hp
  have hentry : after? "entry".toList (c :: cs) = none := hnone he
  have hfun : after? "fun".toList (c :: cs) = none := hnone hf
  have hkeyword : afterKeyword? (c :: cs) = none := by
    unfold afterKeyword?
    rw [hfun]
    rfl
  have hmodifier : afterModifier? (c :: cs) = none := by
    unfold afterModifier?
    rw [hentry]
    exact hkeyword
  unfold head?
  rw [hpublic]
  split
  · rfl
  · exact hmodifier

/-! Heads that were printed. -/

inductive Modifier where
  | none
  | everywhere
  | package
  | entry
  | everywhereEntry

def Modifier.text : Modifier → List Char
  | none => []
  | everywhere => "public ".toList
  | package => "public(package) ".toList
  | entry => "entry ".toList
  | everywhereEntry => "public entry ".toList

def typeText : Option (List Char) → List Char
  | none => []
  | some g => '<' :: g ++ ['>']

def headText (m : Modifier) (name : List Char) (g : Option (List Char)) : List Char :=
  m.text ++ ("fun ".toList ++ (name ++ (typeText g ++ ['('])))

theorem takeWhile_isWord {w : List Char} (hw : ∀ c ∈ w, isWord c = true) {c : Char}
    (hc : isWord c = false) (cs : List Char) :
    (w ++ c :: cs).takeWhile isWord = w ∧ (w ++ c :: cs).dropWhile isWord = c :: cs := by
  constructor
  · rw [List.takeWhile_append_of_pos hw, List.takeWhile_cons_of_neg (by simp [hc]),
      List.append_nil]
  · rw [List.dropWhile_append_of_pos hw, List.dropWhile_cons_of_neg (by simp [hc])]

theorem word?_append {w : List Char} (hne : w ≠ []) (hw : ∀ c ∈ w, isWord c = true) {c : Char}
    (hc : isWord c = false) (cs : List Char) : word? (w ++ c :: cs) = some (w, c :: cs) := by
  obtain ⟨htake, hdrop⟩ := takeWhile_isWord hw hc cs
  unfold word?
  rw [htake, hdrop]
  cases w with
  | nil => exact absurd rfl hne
  | cons d w => rfl

/-- Type parameters end at the first angle bracket that closes. -/
theorem afterTypeParameters?_typeText {g : Option (List Char)} (hg : ∀ t ∈ g, '>' ∉ t)
    (cs : List Char) :
    afterTypeParameters? (typeText g ++ '(' :: cs) = some ('(' :: cs) := by
  cases g with
  | none => rfl
  | some t =>
    have hclose : (t ++ '>' :: '(' :: cs).dropWhile (· != '>') = '>' :: '(' :: cs := by
      rw [List.dropWhile_append_of_pos, List.dropWhile_cons_of_neg (by simp)]
      intro c hc
      rw [bne_iff_ne]
      rintro rfl
      exact hg t rfl hc
    have htext : typeText (some t) ++ '(' :: cs = '<' :: (t ++ '>' :: '(' :: cs) := by
      simp [typeText]
    rw [htext]
    simp only [afterTypeParameters?, hclose, skipBlanks_of_not_isBlank (show isBlank '(' = false from rfl)]

/-- The first character of a type or a parenthesis is neither blank nor in a word. -/
theorem exists_typeText_cons (g : Option (List Char)) (cs : List Char) :
    ∃ c rest, typeText g ++ '(' :: cs = c :: rest ∧ isWord c = false ∧ isBlank c = false := by
  cases g with
  | none => exact ⟨'(', cs, rfl, rfl, rfl⟩
  | some t => exact ⟨'<', t ++ ['>'] ++ '(' :: cs, rfl, rfl, rfl⟩

variable {name : List Char} {g : Option (List Char)}

theorem afterKeyword?_fun (hne : name ≠ []) (hname : ∀ c ∈ name, isWord c = true)
    (hg : ∀ t ∈ g, '>' ∉ t) (cs : List Char) :
    afterKeyword? ("fun ".toList ++ (name ++ (typeText g ++ '(' :: cs))) = some (name, cs) := by
  obtain ⟨c, rest, htype, hword, hblank⟩ := exists_typeText_cons g cs
  have hfun (ds : List Char) : after? "fun".toList ("fun ".toList ++ ds) = some (' ' :: ds) := by
    simp [after?_eq_some_iff]
  obtain ⟨d, ds, rfl⟩ := List.exists_cons_of_ne_nil hne
  have hd : isBlank d = false := isBlank_of_isWord (hname d (List.mem_cons_self ..))
  have hstart : afterBlanks? (' ' :: (d :: ds ++ (c :: rest))) = some (d :: ds ++ c :: rest) := by
    simp only [afterBlanks?, show isBlank ' ' = true from rfl, if_true, List.cons_append,
      skipBlanks_of_not_isBlank hd]
  have hparameters := afterTypeParameters?_typeText hg cs
  rw [htype] at hparameters ⊢
  simp only [afterKeyword?, hfun, hstart, word?_append hne hname hword,
    skipBlanks_of_not_isBlank hblank, hparameters, Option.bind_eq_bind, Option.bind_some]

/-- All that may stand in front of the word fun is passed over. -/
theorem head?_modifier (m : Modifier) {before : Option Char} (h : before.any isWord = false)
    (cs : List Char) :
    head? before (m.text ++ ("fun ".toList ++ cs)) = afterKeyword? ("fun ".toList ++ cs) := by
  unfold head?
  rw [h]
  cases m <;> rfl

/-- A printed head is read back with its name. -/
theorem head?_headText (m : Modifier) {before : Option Char} (h : before.any isWord = false)
    (hne : name ≠ []) (hname : ∀ c ∈ name, isWord c = true) (hg : ∀ t ∈ g, '>' ∉ t)
    (cs : List Char) : head? before (headText m name g ++ cs) = some (name, cs) := by
  have htext : headText m name g ++ cs =
      m.text ++ ("fun ".toList ++ (name ++ (typeText g ++ '(' :: cs))) := by
    unfold headText
    simp only [List.append_assoc, List.singleton_append]
  rw [htext, head?_modifier m h, afterKeyword?_fun hne hname hg]

theorem exists_headText_cons (m : Modifier) (name : List Char) (g : Option (List Char)) :
    ∃ c cs, headText m name g = c :: cs := by
  cases m <;> exact ⟨_, _, rfl⟩

/-! Heads among words. -/

def IsName (w : List Char) : Prop := w ≠ [] ∧ ∀ c ∈ w, isWord c = true

def IsGap (gap : List Char) : Prop := gap ≠ [] ∧ ∀ c ∈ gap, isBlank c = true

theorem skipBlanks_append {gap : List Char} (hgap : ∀ c ∈ gap, isBlank c = true) {c : Char}
    (hc : isBlank c = false) (cs : List Char) : skipBlanks (gap ++ c :: cs) = c :: cs := by
  unfold skipBlanks
  rw [List.dropWhile_append_of_pos hgap, List.dropWhile_cons_of_neg (by simp [hc])]

theorem IsGap.afterBlanks? {gap : List Char} (hgap : IsGap gap) {c : Char}
    (hc : isBlank c = false) (cs : List Char) :
    Source.afterBlanks? (gap ++ c :: cs) = some (c :: cs) := by
  obtain ⟨hne, hblank⟩ := hgap
  obtain ⟨b, gap, rfl⟩ := List.exists_cons_of_ne_nil hne
  rw [List.forall_mem_cons] at hblank
  rw [List.cons_append, Source.afterBlanks?, if_pos hblank.1, skipBlanks_append hblank.2 hc]

theorem IsName.word? {w gap : List Char} (hw : IsName w) (hgap : IsGap gap) (cs : List Char) :
    Source.word? (w ++ (gap ++ cs)) = some (w, gap ++ cs) := by
  obtain ⟨b, gap, rfl⟩ := List.exists_cons_of_ne_nil hgap.1
  exact word?_append hw.1 hw.2 (isWord_of_isBlank (hgap.2 b (List.mem_cons_self ..))) (gap ++ cs)

/-- Letters at the beginning of a word and of what comes after it are letters of the word. -/
theorem exists_of_after? {start w gap cs after : List Char}
    (hstart : ∀ c ∈ start, isWord c = true) (hgap : IsGap gap)
    (hafter : after? start (w ++ (gap ++ cs)) = some after) :
    ∃ more, w = start ++ more ∧ after = more ++ (gap ++ cs) := by
  rw [after?_eq_some_iff] at hafter
  rcases List.append_eq_append_iff.mp hafter with ⟨more, hmore, hcs⟩ | hwhole
  · cases more with
    | nil => exact ⟨[], by simpa using hmore.symm, hcs.symm⟩
    | cons d more =>
      -- the letters would have to go on over the first blank
      obtain ⟨b, gap, rfl⟩ := List.exists_cons_of_ne_nil hgap.1
      injection hcs with hb _
      have hblank := hgap.2 b (List.mem_cons_self ..)
      rw [hb, isBlank_of_isWord (hstart d (by rw [hmore]; simp))] at hblank
      cases hblank
  · exact hwhole

/-- Letters with blanks behind them are a whole word. -/
theorem eq_of_after?_of_afterBlanks? {start w gap cs after rest : List Char}
    (hstart : ∀ c ∈ start, isWord c = true) (hw : IsName w) (hgap : IsGap gap)
    (hafter : after? start (w ++ (gap ++ cs)) = some after)
    (hrest : afterBlanks? after = some rest) : w = start ∧ after = gap ++ cs := by
  obtain ⟨more, rfl, rfl⟩ := exists_of_after? hstart hgap hafter
  cases more with
  | nil => exact ⟨List.append_nil start, rfl⟩
  | cons d more =>
    have hblank := isBlank_of_isWord (hw.2 d (by simp))
    rw [List.cons_append, Source.afterBlanks?, if_neg (by simp [hblank])] at hrest
    cases hrest

section Words

variable {w gap v gap' : List Char} {c : Char}

/-- The word in front of a name is fun. -/
theorem afterKeyword?_of_ne (hw : IsName w) (hgap : IsGap gap) (hfun : w ≠ "fun".toList)
    (cs : List Char) : afterKeyword? (w ++ (gap ++ cs)) = none := by
  unfold afterKeyword?
  cases hafter : after? "fun".toList (w ++ (gap ++ cs)) with
  | none => rfl
  | some after =>
    cases hblanks : afterBlanks? after with
    | none => simp [hblanks]
    | some start =>
      have hkeyword : ∀ c ∈ "fun".toList, isWord c = true := List.all_eq_true.mp rfl
      exact absurd (eq_of_after?_of_afterBlanks? hkeyword hw hgap hafter hblanks).1 hfun

/-- Behind a name there is not another word. -/
theorem afterKeyword?_words (hw : IsName w) (hgap : IsGap gap) (hv : IsName v)
    (hgap' : IsGap gap') (hc : isWord c = true) (cs : List Char) :
    afterKeyword? (w ++ (gap ++ (v ++ (gap' ++ c :: cs)))) = none := by
  unfold afterKeyword?
  cases hafter : after? "fun".toList (w ++ (gap ++ (v ++ (gap' ++ c :: cs)))) with
  | none => rfl
  | some after =>
    cases hblanks : afterBlanks? after with
    | none => simp [hblanks]
    | some start =>
      have hkeyword : ∀ c ∈ "fun".toList, isWord c = true := List.all_eq_true.mp rfl
      obtain ⟨-, rfl⟩ := eq_of_after?_of_afterBlanks? hkeyword hw hgap hafter hblanks
      have hstart : start = v ++ (gap' ++ c :: cs) := by
        obtain ⟨d, u, rfl⟩ := List.exists_cons_of_ne_nil hv.1
        have hd : isBlank d = false := isBlank_of_isWord (hv.2 d (List.mem_cons_self ..))
        rw [List.cons_append, hgap.afterBlanks? hd] at hblanks
        exact (Option.some.inj hblanks).symm
      have hopenings := not_mem_openings_of_isWord hc
      have htype : afterTypeParameters? (c :: cs) = some (c :: cs) := by
        unfold afterTypeParameters?
        split
        · rename_i heq
          injection heq with hc'
          exact absurd (by simp [hc', openings]) hopenings
        · rfl
      simp only [hblanks, hstart, hv.word? hgap', skipBlanks_append hgap'.2 (isBlank_of_isWord hc),
        htype, Option.bind_eq_bind, Option.bind_some]
      split
      · rename_i heq
        injection heq with hc'
        exact absurd (by simp [hc', openings]) hopenings
      · rfl

theorem afterModifier?_of_ne (hw : IsName w) (hgap : IsGap gap) (hentry : w ≠ "entry".toList)
    (hfun : w ≠ "fun".toList) (cs : List Char) : afterModifier? (w ++ (gap ++ cs)) = none := by
  unfold afterModifier?
  cases hafter : after? "entry".toList (w ++ (gap ++ cs)) with
  | none => exact afterKeyword?_of_ne hw hgap hfun cs
  | some after =>
    cases hblanks : afterBlanks? after with
    | none => simp [hblanks]
    | some start =>
      have hkeyword : ∀ c ∈ "entry".toList, isWord c = true := List.all_eq_true.mp rfl
      exact absurd (eq_of_after?_of_afterBlanks? hkeyword hw hgap hafter hblanks).1 hentry

/-- No head begins two words and more in front of a parenthesis, unless the second one is
a modifier or the word fun itself. -/
theorem head?_words (hw : IsName w) (hgap : IsGap gap) (hv : IsName v) (hgap' : IsGap gap')
    (hc : isWord c = true) (hentry : v ≠ "entry".toList) (hfun : v ≠ "fun".toList)
    (before : Option Char) (cs : List Char) :
    head? before (w ++ (gap ++ (v ++ (gap' ++ c :: cs)))) = none := by
  obtain ⟨d, u, hdu⟩ := List.exists_cons_of_ne_nil hv.1
  have hd : isWord d = true := hv.2 d (by simp [hdu])
  have hstart {start after rest : List Char} (hkeyword : ∀ c ∈ start, isWord c = true)
      (hafter : after? start (w ++ (gap ++ (v ++ (gap' ++ c :: cs)))) = some after)
      (hblanks : afterBlanks? after = some rest) : rest = v ++ (gap' ++ c :: cs) := by
    obtain ⟨-, rfl⟩ := eq_of_after?_of_afterBlanks? hkeyword hw hgap hafter hblanks
    rw [hdu, List.cons_append, hgap.afterBlanks? (isBlank_of_isWord hd)] at hblanks
    rw [hdu, List.cons_append, Option.some.inj hblanks]
  have hmodifier : afterModifier? (w ++ (gap ++ (v ++ (gap' ++ c :: cs)))) = none := by
    unfold afterModifier?
    cases hafter : after? "entry".toList (w ++ (gap ++ (v ++ (gap' ++ c :: cs)))) with
    | none => exact afterKeyword?_words hw hgap hv hgap' hc cs
    | some after =>
      cases hblanks : afterBlanks? after with
      | none => simp [hblanks]
      | some rest =>
        have hrest := hstart (List.all_eq_true.mp rfl) hafter hblanks
        simpa only [hblanks, Option.bind_some, hrest] using
          afterKeyword?_of_ne hv hgap' hfun (c :: cs)
  unfold head?
  split
  · rfl
  · cases hafter : after? "public".toList (w ++ (gap ++ (v ++ (gap' ++ c :: cs)))) with
    | none => exact hmodifier
    | some after =>
      have hvisibility : afterVisibility? after = afterBlanks? after := by
        obtain ⟨more, hmore, rfl⟩ := exists_of_after? (List.all_eq_true.mp rfl) hgap hafter
        refine afterVisibility?_eq fun inner hinner => ?_
        obtain ⟨e, es, hskip, he⟩ : ∃ e es,
            skipBlanks (more ++ (gap ++ (v ++ (gap' ++ c :: cs)))) = e :: es ∧
              isWord e = true := by
          cases more with
          | nil =>
            refine ⟨d, u ++ (gap' ++ c :: cs), ?_, hd⟩
            rw [hdu]
            exact skipBlanks_append hgap.2 (isBlank_of_isWord hd) _
          | cons m more =>
            have hm : isWord m = true := hw.2 m (by rw [hmore]; simp)
            exact ⟨m, _, skipBlanks_of_not_isBlank (isBlank_of_isWord hm) _, hm⟩
        rw [hskip] at hinner
        injection hinner with he'
        exact absurd (by simp [he', openings]) (not_mem_openings_of_isWord he)
      cases hblanks : afterBlanks? after with
      | none => simp [hvisibility, hblanks]
      | some rest =>
        have hrest := hstart (List.all_eq_true.mp rfl) hafter hblanks
        simpa only [hvisibility, hblanks, Option.bind_some, hrest] using
          afterModifier?_of_ne hv hgap' hentry hfun (c :: cs)

end Words

end MoveWorkbench.Source
