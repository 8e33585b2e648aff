import MoveWorkbench.Proofs.Design.ReadBack
import MoveWorkbench.Proofs.Text.Lines

/-!
Comments in Move code. All that is written for comments are lines of comments, so that the code
without them is left when these lines are deleted. The one text of any shape that stands in a
comment is the summary, and only its first line stands behind the slashes: where it has more lines,
each of them would have to be a comment itself.
-/

namespace MoveWorkbench

open Source Text

/-- Whether the first characters of a line that are no blanks are three slashes. -/
def isComment (l : List Char) : Bool := (after? "///".toList (skipBlanks l)).isSome

def bareLines (ls : List (List Char)) : List (List Char) := ls.filter (!isComment ·)

def withoutComments (code : String) : String :=
  String.ofList (['\n'].intercalate (bareLines (lines code.toList)))

section Lines

variable {s t : String}

def Unbroken (s : String) : Prop := '\n' ∉ s.toList

instance : DecidablePred Unbroken := fun s => inferInstanceAs (Decidable ('\n' ∉ s.toList))

theorem unbroken_append : Unbroken (s ++ t) ↔ Unbroken s ∧ Unbroken t := by
  unfold Unbroken
  rw [String.toList_append, List.mem_append, not_or]

theorem Source.IsName.unbroken (h : IsName s.toList) : Unbroken s :=
  fun hmem => absurd (h.2 _ hmem) (by decide)

def Plain (s : String) : Prop := Unbroken s ∧ isComment s.toList = false

instance : DecidablePred Plain :=
  fun s => inferInstanceAs (Decidable (Unbroken s ∧ isComment s.toList = false))

def Opens (s : String) : Prop :=
  Unbroken s ∧ (skipBlanks s.toList).head?.any (· != '/') = true

instance : DecidablePred Opens := fun s =>
  inferInstanceAs (Decidable (Unbroken s ∧ (skipBlanks s.toList).head?.any (· != '/') = true))

theorem Opens.exists_cons (h : Opens s) : ∃ c cs, skipBlanks s.toList = c :: cs ∧ c ≠ '/' := by
  obtain ⟨c, hc, hne⟩ := (Option.any_eq_true ..).mp h.2
  obtain ⟨cs, hcs⟩ := List.head?_eq_some_iff.mp hc
  exact ⟨c, cs, hcs, bne_iff_ne.mp hne⟩

theorem Opens.append (hs : Opens s) (ht : Unbroken t) : Opens (s ++ t) := by
  refine ⟨unbroken_append.mpr ⟨hs.1, ht⟩, ?_⟩
  obtain ⟨c, cs, hcs, hne⟩ := hs.exists_cons
  unfold skipBlanks at hcs ⊢
  rw [String.toList_append, List.dropWhile_append, hcs, if_neg (by simp)]
  simpa using hne

theorem Opens.plain (h : Opens s) : Plain s := by
  obtain ⟨c, cs, hcs, hne⟩ := h.exists_cons
  refine ⟨h.1, ?_⟩
  unfold isComment
  rw [hcs]
  simp [after?, Ne.symm hne]

/-- An indented name begins no comment. -/
theorem opens_indented (hs : ∀ c ∈ s.toList, c = ' ') (ht : IsName t.toList) : Opens (s ++ t) := by
  refine ⟨unbroken_append.mpr ⟨fun hmem => absurd (hs _ hmem) (by decide), ht.unbroken⟩, ?_⟩
  obtain ⟨c, cs, hcs⟩ := List.exists_cons_of_ne_nil ht.1
  have hword := ht.2 c (hcs ▸ List.mem_cons_self)
  have hblank : ∀ c ∈ s.toList, isBlank c = true := by
    intro c hc
    rw [hs c hc]
    rfl
  unfold skipBlanks
  rw [String.toList_append, List.dropWhile_append_of_pos hblank, hcs,
    List.dropWhile_cons_of_neg (by simp [isBlank_of_isWord hword])]
  simp only [List.head?_cons, Option.any_some, bne_iff_ne]
  rintro rfl
  cases hword

theorem bareLines_append (ls ms : List (List Char)) :
    bareLines (ls ++ ms) = bareLines ls ++ bareLines ms := List.filter_append ..

/-- The lines of a code, and an empty one behind the last line break. -/
theorem lines_lineChars (ls : List String) :
    lines (lineChars ls) = (ls.flatMap fun l => lines l.toList) ++ [[]] := by
  induction ls with
  | nil => rfl
  | cons l ls ih =>
    rw [lineChars_cons, List.flatMap_cons, List.append_assoc, ← ih]
    exact split_append_cons '\n' _ _

/-- Plain lines are kept as they are. -/
theorem bareLines_of_plain {ls : List String} (h : ∀ l ∈ ls, Plain l) :
    bareLines (ls.flatMap fun l => lines l.toList) = ls.flatMap fun l => lines l.toList := by
  refine List.filter_eq_self.mpr fun l hl => ?_
  obtain ⟨s, hs, hl⟩ := List.mem_flatMap.mp hl
  unfold lines at hl
  rw [split_of_not_mem (h s hs).1, List.mem_singleton] at hl
  rw [hl, (h s hs).2]
  rfl

/-- Of a comment the first line is deleted, and the others where they are comments themselves. -/
theorem bareLines_comment {front : String} (hfront : Unbroken front)
    (hcomment : ∀ rest, isComment (front.toList ++ rest) = true) (s : String) :
    bareLines (lines (front ++ s).toList) = bareLines (lines s.toList).tail := by
  obtain ⟨first, rest, hlines⟩ := List.exists_cons_of_ne_nil (split_ne_nil '\n' s.toList)
  unfold lines
  rw [String.toList_append, split_append hfront hlines, hlines]
  exact List.filter_cons_of_neg (by simp [hcomment first])

theorem bareLines_eq_nil_iff {ls : List (List Char)} :
    bareLines ls = [] ↔ ∀ l ∈ ls, isComment l = true := by
  unfold bareLines
  rw [List.filter_eq_nil_iff]
  simp

/-- The code that is left is the one with the lines that are left. -/
theorem withoutComments_eq_iff {code other : String} (h : bareLines (lines code.toList) ≠ []) :
    withoutComments code = other ↔ bareLines (lines code.toList) = lines other.toList := by
  constructor
  · rintro rfl
    obtain ⟨l, ls, hls⟩ := List.exists_cons_of_ne_nil h
    have hunbroken : ∀ m ∈ l :: ls, '\n' ∉ m := by
      rw [← hls]
      exact fun m hm => not_mem_of_mem_split (List.mem_of_mem_filter hm)
    unfold withoutComments
    rw [String.toList_ofList, hls]
    exact (split_intercalate_of_not_mem hunbroken).symm
  · intro heq
    unfold withoutComments lines at *
    rw [heq, intercalate_split, String.ofList_toList]

/-- A line that is left in front of a code stands in front of it. -/
theorem withoutComments_eq_append {code bare line : String} (hline : Unbroken line)
    (h : bareLines (lines code.toList) = line.toList :: lines bare.toList) :
    withoutComments code = line ++ "\n" ++ bare := by
  have hlines : lines (line ++ "\n" ++ bare).toList = line.toList :: lines bare.toList := by
    have hbreak : "\n".toList = ['\n'] := rfl
    unfold lines
    rw [String.toList_append, String.toList_append, List.append_assoc, hbreak,
      List.singleton_append, split_append_cons, split_of_not_mem hline, List.singleton_append]
  rw [withoutComments_eq_iff (by rw [h]; exact List.cons_ne_nil _ _), h, hlines]

end Lines

namespace MoveModule

namespace Item

variable {i : Item}

theorem plain_lines (h : i.WellNamed) : ∀ l ∈ i.lines, Plain l := by
  cases i with
  | object name fields =>
    refine List.forall_mem_append.mpr ⟨List.forall_mem_append.mpr ⟨?_, ?_⟩, by decide⟩
    · rw [List.forall_mem_cons]
      exact ⟨((Opens.append (by decide) h.1.unbroken).append (by decide)).plain, by decide⟩
    · intro l hl
      obtain ⟨f, hf, rfl⟩ := List.mem_map.mp hl
      obtain ⟨hname, htype⟩ := h.2 f hf
      have hopen : Opens ("        " ++ f.name) := opens_indented (by decide) hname
      exact (((hopen.append (by decide)).append htype.unbroken).append (by decide)).plain
  | resource name =>
    have hopen : Opens ("    public struct " ++ name) := Opens.append (by decide) h.unbroken
    unfold lines
    rw [List.forall_mem_cons]
    exact ⟨(hopen.append (by decide)).plain, by decide⟩
  | constructor name function fields =>
    obtain ⟨hname, hfunction, hfields⟩ := h
    refine List.forall_mem_append.mpr ⟨List.forall_mem_append.mpr ⟨?_, ?_⟩, by decide⟩
    · have hhead : Opens ("    public fun create_" ++ function) :=
        Opens.append (by decide) hfunction.unbroken
      have hstruct : Opens ("        " ++ name) := opens_indented (by decide) hname
      rw [List.forall_mem_cons, List.forall_mem_cons]
      exact ⟨(((hhead.append (by decide)).append hname.unbroken).append (by decide)).plain,
        (hstruct.append (by decide)).plain, by decide⟩
    · intro l hl
      obtain ⟨f, hf, rfl⟩ := List.mem_map.mp hl
      obtain ⟨hname, htype⟩ := hfields f hf
      have hopen : Opens ("            " ++ f.name) := opens_indented (by decide) hname
      exact (((hopen.append (by decide)).append htype.unbroken).append (by decide)).plain
  | entry name function =>
    have hopen : Opens ("    public entry fun " ++ function) :=
      Opens.append (by decide) h.2.unbroken
    unfold lines
    rw [List.forall_mem_cons]
    exact ⟨(hopen.append (by decide)).plain, by decide⟩

theorem unbroken_comment (h : i.WellNamed) : Unbroken i.comment := by
  cases i with
  | object name fields => exact unbroken_append.mpr ⟨h.1.unbroken, by decide⟩
  | resource name => exact unbroken_append.mpr ⟨IsName.unbroken h, by decide⟩
  | constructor name function fields => exact unbroken_append.mpr ⟨by decide, h.1.unbroken⟩
  | entry name function => exact unbroken_append.mpr ⟨h.1.unbroken, by decide⟩

/-- From the lines of an item its comment is deleted. -/
theorem bareLines_commentedLines (h : i.WellNamed) :
    bareLines ((i.commentedLines true).flatMap fun l => Text.lines l.toList) =
      (i.commentedLines false).flatMap fun l => Text.lines l.toList := by
  have hcomment : bareLines (Text.lines ("    /// " ++ i.comment).toList) = [] := by
    rw [bareLines_comment (by decide) fun _ => rfl]
    unfold Text.lines
    rw [split_of_not_mem (unbroken_comment h)]
    rfl
  unfold commentedLines
  rw [if_pos rfl, if_neg (by decide), List.nil_append, List.singleton_append, List.flatMap_cons,
    bareLines_append, hcomment, bareLines_of_plain (plain_lines h), List.nil_append]

end Item

variable {m : MoveModule}

/-- A name without a line break begins no comments. -/
theorem plain_headLines (hname : Unbroken m.name) : ∀ l ∈ m.headLines, Plain l := by
  have hopen : Opens ("module " ++ m.name) := Opens.append (by decide) hname
  unfold headLines
  rw [List.forall_mem_cons]
  exact ⟨(((hopen.append (by decide)).append hname).append (by decide)).plain, by decide⟩

theorem plain_testLines (hname : Unbroken m.name) : ∀ l ∈ m.testLines, Plain l := by
  have hopen : Opens ("module " ++ m.name) := Opens.append (by decide) hname
  have huse : Opens ("    use " ++ m.name) := Opens.append (by decide) hname
  unfold testLines
  simp only [List.forall_mem_cons]
  exact ⟨by decide, by decide, (((hopen.append (by decide)).append hname).append (by decide)).plain,
    (((huse.append (by decide)).append hname).append (by decide)).plain, by decide⟩

/-- The lines that are left of a code with comments: those of the summary behind its first one,
and the code without comments. -/
theorem bareLines_text (hname : Unbroken m.name) (hitems : ∀ i ∈ m.items, i.WellNamed)
    (tests : Bool) : bareLines (Text.lines (m.text true tests).toList) =
      bareLines (Text.lines m.summary.toList).tail ++ Text.lines (m.text false tests).toList := by
  have hsummary : bareLines (m.summaryLines.flatMap fun l => Text.lines l.toList) =
      bareLines (Text.lines m.summary.toList).tail := by
    have hsecond : bareLines (Text.lines "/// Auto-generated from System Designer".toList) = [] := by
      decide
    unfold summaryLines
    rw [List.flatMap_cons, List.flatMap_singleton, bareLines_append, hsecond, List.append_nil]
    exact bareLines_comment (by decide) (fun _ => rfl) m.summary
  have hcommented : bareLines ((m.items.flatMap (·.commentedLines true)).flatMap
      fun l => Text.lines l.toList) =
      (m.items.flatMap (·.commentedLines false)).flatMap fun l => Text.lines l.toList := by
    unfold bareLines
    rw [List.flatMap_assoc, List.flatMap_assoc, List.filter_flatMap]
    exact List.flatMap_congr fun i hi => Item.bareLines_commentedLines (hitems i hi)
  have htests : ∀ l ∈ if tests then m.testLines else [], Plain l := by
    cases tests with
    | false => exact fun _ hl => absurd hl List.not_mem_nil
    | true => exact plain_testLines hname
  have hlast : bareLines [[]] = [[]] := by decide
  have hbrace : bareLines (["\x7d"].flatMap fun l => Text.lines l.toList) =
      ["\x7d"].flatMap fun l => Text.lines l.toList := by decide
  rw [toList_text, toList_text, lines_lineChars, lines_lineChars]
  unfold lines
  simp only [reduceIte, Bool.false_eq_true, List.flatMap_append, bareLines_append, hsummary,
    hcommented, hlast, hbrace, bareLines_of_plain (plain_headLines hname),
    bareLines_of_plain htests, List.nil_append, List.append_assoc]

end MoveModule

namespace Design

variable {d : Design} {given : Option String}

theorem not_isBlank_of_mem_joinBlanksFrom (inRun : Bool) (cs : List Char) :
    ∀ c ∈ joinBlanksFrom inRun cs, isBlank c = false := by
  induction cs generalizing inRun with
  | nil => exact fun _ hc => absurd hc List.not_mem_nil
  | cons d cs ih =>
    unfold joinBlanksFrom
    split
    · split
      · exact ih true
      · exact List.forall_mem_cons.mpr ⟨rfl, ih true⟩
    · rename_i hblank
      exact List.forall_mem_cons.mpr ⟨Bool.eq_false_iff.mpr hblank, ih false⟩

/-- No line break is left in a name that is made from a text. -/
theorem unbroken_defaultModuleName (s : String) : Unbroken (defaultModuleName s) := by
  unfold Unbroken defaultModuleName joinBlanks
  rw [String.toList_ofList]
  exact fun hmem => absurd (not_isBlank_of_mem_joinBlanksFrom false _ _ hmem) (by decide)

theorem exists_unbroken_moduleName (hname : d.name.IsText)
    (hgiven : ∀ name ∈ given, Unbroken name) :
    ∃ name, d.moduleName given = .ok name ∧ Unbroken name := by
  unfold moduleName
  cases hfilter : given.filter (· ≠ "") with
  | some name => exact ⟨name, rfl, hgiven name (Option.eq_some_of_filter_eq_some hfilter)⟩
  | none =>
    obtain ⟨s, hs⟩ := hname
    rw [hs]
    exact ⟨_, rfl, unbroken_defaultModuleName s⟩

/-- Where the names of components are words and that of the module is one line, a code without its
comments is the code that is made without comments just when each line of the summary behind the
first one is a comment itself. -/
theorem WordNamed.withoutComments_moveCode_iff (h : d.WordNamed) (hname : d.name.IsText)
    (hgiven : ∀ name ∈ given, Unbroken name) (tests : Bool) :
    ∃ code bare, d.moveCode ⟨given, true, tests⟩ = .ok code ∧
      d.moveCode ⟨given, false, tests⟩ = .ok bare ∧
      (withoutComments code = bare ↔
        ∀ l ∈ (lines (d.description.orElse d.name).display.toList).tail, isComment l = true) := by
  obtain ⟨name, hmodule, hunbroken⟩ := exists_unbroken_moduleName hname hgiven
  have hleft := (d.moduleOf name).bareLines_text hunbroken (h.wellNamed_items name) tests
  refine ⟨_, _, h.textNamed.moveCode hmodule, h.textNamed.moveCode hmodule, ?_⟩
  rw [withoutComments_eq_iff, hleft, List.append_left_eq_self, bareLines_eq_nil_iff]
  · rfl
  · rw [hleft]
    exact List.append_ne_nil_of_right_ne_nil _ (split_ne_nil _ _)

def describedBank (name description : String) : Design where
  name := .text name
  description := .text description
  components := [
    ⟨.text "a", .text "object", .text "Vault", .null, .null, [.text "b"], []⟩,
    ⟨.text "b", .text "resource", .text "Coin", .null, .null, [], []⟩]

theorem wordNamed_describedBank (name description : String) :
    (describedBank name description).WordNamed := by
  intro c hc
  simp only [describedBank, List.mem_cons, List.not_mem_nil, or_false] at hc
  rcases hc with rfl | rfl
  · exact ⟨_, rfl, by decide⟩
  · exact ⟨_, rfl, by decide⟩

/-- A name of two lines, and a description of which the second line is a comment. -/
theorem withoutComments_moveCode_describedBank :
    (describedBank "Big\nBank" "first\n  /// second").WordNamed ∧
      (describedBank "Big\nBank" "first\n  /// second").name.IsText ∧
      (∀ name ∈ (none : Option String), Unbroken name) ∧
      ∃ code bare, (describedBank "Big\nBank" "first\n  /// second").moveCode ⟨none, true, true⟩ =
          .ok code ∧
        (describedBank "Big\nBank" "first\n  /// second").moveCode ⟨none, false, true⟩ = .ok bare ∧
        withoutComments code = bare := by
  have hword := wordNamed_describedBank "Big\nBank" "first\n  /// second"
  have hgiven : ∀ name ∈ (none : Option String), Unbroken name :=
    fun _ hname => absurd hname (Option.not_mem_none _)
  obtain ⟨code, bare, hcode, hbare, hiff⟩ :=
    hword.withoutComments_moveCode_iff ⟨_, rfl⟩ hgiven true
  exact ⟨hword, ⟨_, rfl⟩, hgiven, code, bare, hcode, hbare, hiff.mpr (by decide)⟩

/-- The second line of a description is left when the comments are deleted. -/
theorem withoutComments_moveCode_secondLine : (describedBank "Bank" "first\nsecond").WordNamed ∧
    ∃ code bare, (describedBank "Bank" "first\nsecond").moveCode ⟨none, true, false⟩ = .ok code ∧
      (describedBank "Bank" "first\nsecond").moveCode ⟨none, false, false⟩ = .ok bare ∧
      withoutComments code = "second" ++ "\n" ++ bare ∧ withoutComments code ≠ bare := by
  have hword := wordNamed_describedBank "Bank" "first\nsecond"
  have hname : (describedBank "Bank" "first\nsecond").moduleName none = .ok "bank" :=
    congrArg Except.ok (by decide +kernel : defaultModuleName "Bank" = "bank")
  obtain ⟨m, hm⟩ : ∃ m, (describedBank "Bank" "first\nsecond").moduleOf "bank" = m := ⟨_, rfl⟩
  have hmade (comments : Bool) : (describedBank "Bank" "first\nsecond").moveCode
      ⟨none, comments, false⟩ = .ok (m.text comments false) := by
    rw [← hm]
    exact hword.textNamed.moveCode hname
  have hsecond : bareLines (lines m.summary.toList).tail = ["second".toList] := by
    rw [← hm]
    decide +kernel
  have hlines := m.bareLines_text (by rw [← hm]; decide)
    (by rw [← hm]; exact hword.wellNamed_items "bank") false
  rw [hsecond, List.singleton_append] at hlines
  have hleft := withoutComments_eq_append (by decide) hlines
  refine ⟨hword, _, _, hmade true, hmade false, hleft, ?_⟩
  rw [hleft]
  exact fun heq => absurd (congrArg String.length heq) (by simp)

end Design

end MoveWorkbench
