import MoveWorkbench.Proofs.Source.Head

/-!
Reading functions part by part. A part of a text is read on its own where a word may begin
in front of it and behind it, so what is read from a text is what is read from its parts, one
after the other.
-/

namespace MoveWorkbench.Source

open Text

/-- Characters that are left out up to their end, which a text begins with. -/
theorem functionsFrom_skip (before : Option Char) (passed cs : List Char) (c : Char) :
    functionsFrom before (passed.length + 1) (passed ++ c :: cs) =
      functionsFrom (some c) 0 cs := by
  induction passed generalizing before with
  | nil => rw [List.nil_append, List.length_nil, functionsFrom]
  | cons d passed ih => rw [List.cons_append, List.length_cons, functionsFrom, ih]

theorem functionsFrom_of_head?_none {before : Option Char} {c : Char} {cs : List Char}
    (h : head? before (c :: cs) = none) :
    functionsFrom before 0 (c :: cs) = functionsFrom (some c) 0 cs := by
  have hnone : declaration? before (c :: cs) = none := by
    simp [declaration?, h]
  rw [functionsFrom, hnone]

/-- Nothing is read up to the bar of barred text. -/
theorem functionsFrom_barred {front : List Char} {bar : Char}
    (hfront : ∀ c ∈ front, c ∉ openings) (hsign : IsSign bar) (hbar : bar ∉ openings)
    (before : Option Char) (rest : List Char) :
    functionsFrom before 0 (front ++ bar :: rest) = functionsFrom (some bar) 0 rest := by
  induction front generalizing before with
  | nil =>
    have hbarred : Barred openings (bar :: rest) :=
      ⟨[], bar, rest, rfl, fun _ hc => absurd hc List.not_mem_nil, hsign, hbar⟩
    exact functionsFrom_of_head?_none (hbarred.head? before)
  | cons c front ih =>
    have hbarred : Barred openings (c :: (front ++ bar :: rest)) :=
      ⟨c :: front, bar, rest, rfl, hfront, hsign, hbar⟩
    rw [List.cons_append, functionsFrom_of_head?_none (hbarred.head? before)]
    exact ih (fun d hd => hfront d (List.mem_cons_of_mem c hd)) (some c)

/-- From a part of a text just these functions are read, if a word may begin there; and a
word may begin behind it. -/
def Reads (cs : List Char) (fs : List (List Char × List Char)) : Prop :=
  ∀ (before : Option Char) (rest : List Char), before.any isWord = false →
    ∃ last : Option Char, last.any isWord = false ∧
      functionsFrom before 0 (cs ++ rest) = fs ++ functionsFrom last 0 rest

section Reads

variable {cs ds : List Char} {fs gs : List (List Char × List Char)}

theorem Reads.append (hcs : Reads cs fs) (hds : Reads ds gs) : Reads (cs ++ ds) (fs ++ gs) := by
  intro before rest hbefore
  obtain ⟨middle, hmiddle, hfirst⟩ := hcs before (ds ++ rest) hbefore
  obtain ⟨last, hlast, hsecond⟩ := hds middle rest hmiddle
  exact ⟨last, hlast, by rw [List.append_assoc, hfirst, hsecond, List.append_assoc]⟩

/-- Nothing but what is read from the parts is read from the whole. -/
theorem reads_flatMap {α : Type} {as : List α} {text : α → List Char}
    {found : α → List (List Char × List Char)} (h : ∀ a ∈ as, Reads (text a) (found a)) :
    Reads (as.flatMap text) (as.flatMap found) := by
  induction as with
  | nil => exact fun before _ hbefore => ⟨before, hbefore, rfl⟩
  | cons a as ih =>
    rw [List.forall_mem_cons] at h
    exact h.1.append (ih h.2)

theorem Reads.functionsFrom (h : Reads cs fs) : Source.functionsFrom none 0 cs = fs := by
  obtain ⟨last, -, hread⟩ := h none [] rfl
  rw [List.append_nil] at hread
  rw [hread]
  exact List.append_nil fs

/-- Nothing is read from blanks, which end no word. -/
theorem reads_blanks {gap : List Char} (hgap : ∀ c ∈ gap, isBlank c = true) : Reads gap [] := by
  intro before rest hbefore
  induction gap generalizing before with
  | nil => exact ⟨before, hbefore, rfl⟩
  | cons c gap ih =>
    rw [List.forall_mem_cons] at hgap
    have hc : head? before (c :: (gap ++ rest)) = none := by
      apply head?_of_ne
      · rintro rfl
        cases hgap.1
      · rintro rfl
        cases hgap.1
      · rintro rfl
        cases hgap.1
    rw [List.cons_append, functionsFrom_of_head?_none hc]
    exact ih hgap.2 (some c) (isWord_of_isBlank hgap.1)

theorem reads_barred {front : List Char} {bar : Char} (hfront : ∀ c ∈ front, c ∉ openings)
    (hsign : IsSign bar) (hbar : bar ∉ openings) : Reads (front ++ [bar]) [] := by
  intro before rest _
  refine ⟨some bar, hsign.1, ?_⟩
  rw [List.append_assoc]
  exact functionsFrom_barred hfront hsign hbar before rest

end Reads

section Words

variable {w gap cs : List Char} {fs : List (List Char × List Char)}

/-- No head begins inside of a word, so a word is passed over with the blanks behind it. -/
theorem functionsFrom_insideWord (hw : ∀ c ∈ w, isWord c = true) (hgap : IsGap gap) {c : Char}
    (hc : isWord c = true) (rest : List Char) :
    ∃ last : Option Char, last.any isWord = false ∧
      functionsFrom (some c) 0 (w ++ (gap ++ rest)) = functionsFrom last 0 rest := by
  have hinside (d : Char) (ds : List Char) {c : Char} (hc : isWord c = true) :
      head? (some c) (d :: ds) = none := by
    unfold head?
    rw [Option.any_some, if_pos hc]
  induction w generalizing c with
  | nil =>
    obtain ⟨b, gap, rfl⟩ := List.exists_cons_of_ne_nil hgap.1
    have hblank := hgap.2
    rw [List.forall_mem_cons] at hblank
    rw [List.nil_append, List.cons_append, functionsFrom_of_head?_none (hinside b _ hc)]
    exact reads_blanks hblank.2 (some b) rest (isWord_of_isBlank hblank.1)
  | cons d w ih =>
    rw [List.forall_mem_cons] at hw
    rw [List.cons_append, functionsFrom_of_head?_none (hinside d _ hc)]
    exact ih hw.2 hw.1

/-- A word with which no head begins may stand in front. -/
theorem Reads.behind_word (h : Reads cs fs) (hw : IsName w) (hgap : IsGap gap)
    (hhead : ∀ before rest, head? before (w ++ (gap ++ (cs ++ rest))) = none) :
    Reads (w ++ (gap ++ cs)) fs := by
  intro before rest _
  obtain ⟨c, w, rfl⟩ := List.exists_cons_of_ne_nil hw.1
  have hword := hw.2
  rw [List.forall_mem_cons] at hword
  obtain ⟨middle, hmiddle, hpass⟩ := functionsFrom_insideWord hword.2 hgap hword.1 (cs ++ rest)
  obtain ⟨last, hlast, hread⟩ := h middle rest hmiddle
  refine ⟨last, hlast, ?_⟩
  have hstart := hhead before rest
  rw [List.cons_append] at hstart
  rw [List.append_assoc, List.append_assoc, List.cons_append, functionsFrom_of_head?_none hstart,
    hpass, hread]

end Words

end MoveWorkbench.Source
