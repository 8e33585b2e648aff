import MoveWorkbench.Design.MoveModule
import MoveWorkbench.Proofs.Source.Printed

/-!
Move code is read back. From the code of a module just its constructors and entry functions
are read, and after them its test: a struct has no parentheses up to its closing brace, and
the words of a comment begin no head in front of a public function, also where they are
words of such heads themselves.
-/

namespace MoveWorkbench

open Source Text

def lineChars (ls : List String) : List Char := ls.flatMap fun l => l.toList ++ ['\n']

theorem lineChars_cons (l : String) (ls : List String) :
    lineChars (l :: ls) = l.toList ++ '\n' :: lineChars ls := by
  simp [lineChars]

theorem lineChars_append (ls ms : List String) :
    lineChars (ls ++ ms) = lineChars ls ++ lineChars ms := List.flatMap_append

def Unopened (s : String) : Prop := ∀ c ∈ s.toList, c ∉ openings

instance : DecidablePred Unopened :=
  fun s => inferInstanceAs (Decidable (∀ c ∈ s.toList, c ∉ openings))

theorem unopened_append {s t : String} : Unopened (s ++ t) ↔ Unopened s ∧ Unopened t := by
  simp [Unopened, String.toList_append, or_imp, forall_and]

theorem Source.IsName.unopened {s : String} (h : IsName s.toList) : Unopened s :=
  fun c hc => not_mem_openings_of_isWord (h.2 c hc)

theorem not_mem_openings_of_mem_lineChars {ls : List String} (h : ∀ l ∈ ls, Unopened l) :
    ∀ c ∈ lineChars ls, c ∉ openings := by
  intro c hc
  obtain ⟨l, hl, hc⟩ := List.mem_flatMap.mp hc
  rcases List.mem_append.mp hc with hc | hc
  · exact h l hl c hc
  · rw [List.mem_singleton.mp hc]
    decide

/-- Nothing is read from lines without openings, if a sign ends the last one. -/
theorem reads_lines {ls : List String} (h : ∀ l ∈ ls, Unopened l) {last : String}
    {front : List Char} {bar : Char} (hlast : last.toList = front ++ [bar])
    (hfront : ∀ c ∈ front, c ∉ openings) (hsign : IsSign bar) (hbar : bar ∉ openings) :
    Reads (lineChars (ls ++ [last])) [] := by
  have htext : lineChars (ls ++ [last]) = lineChars ls ++ front ++ [bar] ++ ['\n'] := by
    rw [lineChars_append, lineChars_cons, hlast]
    simp [lineChars]
  have hinit : ∀ c ∈ lineChars ls ++ front, c ∉ openings := by
    intro c hc
    rcases List.mem_append.mp hc with hc | hc
    · exact not_mem_openings_of_mem_lineChars h c hc
    · exact hfront c hc
  have hend : Reads ['\n'] [] := reads_blanks (List.all_eq_true.mp rfl)
  rw [htext]
  exact (reads_barred hinit hsign hbar).append hend

namespace MoveModule

def Field.WellNamed (f : Field) : Prop := IsName f.name.toList ∧ IsName f.type.toList

namespace Item

def WellNamed : Item → Prop
  | object name fields => IsName name.toList ∧ ∀ f ∈ fields, f.WellNamed
  | resource name => IsName name.toList
  | constructor name function fields =>
    IsName name.toList ∧ IsName function.toList ∧ ∀ f ∈ fields, f.WellNamed
  | entry name function => IsName name.toList ∧ IsName function.toList

def valueLines (fields : List Field) : List String :=
  "            id: object::new(ctx)," ::
    fields.map fun f => "            " ++ f.name ++ ": " ++ f.type ++ " \x7b value: 0 \x7d,"

def constructedLines (name : String) (fields : List Field) : List String :=
  ("        " ++ name ++ " \x7b") :: valueLines fields ++ ["        \x7d"]

def printed (modifier : Modifier) (name parameters result : String) (body : List String) :
    Printed where
  modifier := modifier
  name := name.toList
  typeParameters := none
  parameters := parameters.toList
  result := result.toList
  body := some ('\n' :: (lineChars body ++ "    ".toList))

def constructorFunction (name function : String) (fields : List Field) : Printed :=
  printed .everywhere ("create_" ++ function) "ctx: &mut TxContext" (": " ++ name ++ " ")
    (constructedLines name fields)

def entryFunction (function : String) : Printed :=
  printed .everywhereEntry function "ctx: &mut TxContext" " "
    ["        // TODO: Implement function logic"]

def function? : Item → Option Printed
  | object _ _ | resource _ => none
  | constructor name function fields => some (constructorFunction name function fields)
  | entry _ function => some (entryFunction function)

variable {name function : String} {fields : List Field}

abbrev Braced (cs : List Char) : Prop := Balanced '\x7b' '\x7d' cs

theorem braced_of_plain {cs : List Char} (h : ∀ c ∈ cs, c ≠ '\x7b' ∧ c ≠ '\x7d') :
    Braced cs := by
  have hbraced : Braced (cs ++ []) := .append_plain h .nil
  rwa [List.append_nil] at hbraced

theorem ne_brace_of_isName {w : List Char} (h : IsName w) :
    ∀ c ∈ w, c ≠ '\x7b' ∧ c ≠ '\x7d' := by
  intro c hc
  have hword := h.2 c hc
  constructor <;> rintro rfl <;> cases hword

theorem braced_value : Braced " \x7b value: 0 \x7d,".toList := by
  have hinner : Braced " value: 0 ".toList := braced_of_plain (by decide)
  have hrest : Braced ",".toList := braced_of_plain (by decide)
  have hspace : ∀ c ∈ " ".toList, c ≠ '\x7b' ∧ c ≠ '\x7d' := by decide
  exact .append_plain hspace (.nested hinner hrest)

theorem braced_lineChars {ls : List String} (h : ∀ l ∈ ls, Braced l.toList) :
    Braced (lineChars ls) := by
  induction ls with
  | nil => exact .nil
  | cons l ls ih =>
    rw [List.forall_mem_cons] at h
    rw [lineChars_cons]
    exact h.1.append (.plain (by decide) (by decide) (ih h.2))

theorem braced_valueLines (hfields : ∀ f ∈ fields, f.WellNamed) :
    Braced (lineChars (valueLines fields)) := by
  refine braced_lineChars fun l hl => ?_
  rcases List.mem_cons.mp hl with rfl | hl
  · exact braced_of_plain (by decide)
  · obtain ⟨f, hf, rfl⟩ := List.mem_map.mp hl
    obtain ⟨hfield, htype⟩ := hfields f hf
    simp only [String.toList_append]
    exact .append (.append (.append (.append (braced_of_plain (by decide))
      (braced_of_plain (ne_brace_of_isName hfield))) (braced_of_plain (by decide)))
      (braced_of_plain (ne_brace_of_isName htype))) braced_value

/-- Each field is made in braces of its own, and all of them in those of the struct. -/
theorem braced_constructedLines (hname : IsName name.toList)
    (hfields : ∀ f ∈ fields, f.WellNamed) : Braced (lineChars (constructedLines name fields)) := by
  have htext : lineChars (constructedLines name fields) =
      "        ".toList ++ (name.toList ++ (" ".toList ++ '\x7b' ::
        (('\n' :: (lineChars (valueLines fields) ++ "        ".toList)) ++ '\x7d' :: ['\n']))) := by
    have hopen : " \x7b".toList = " ".toList ++ ['\x7b'] := rfl
    have hclose : "        \x7d".toList = "        ".toList ++ ['\x7d'] := rfl
    unfold constructedLines
    rw [lineChars_append, lineChars_cons, lineChars_cons, String.toList_append,
      String.toList_append, hopen, hclose]
    generalize "        ".toList = indent
    generalize " ".toList = space
    simp [lineChars]
  have hinner : Braced ('\n' :: (lineChars (valueLines fields) ++ "        ".toList)) :=
    .plain (by decide) (by decide)
      (.append (braced_valueLines hfields) (braced_of_plain (by decide)))
  rw [htext]
  exact .append_plain (by decide) (.append_plain (ne_brace_of_isName hname)
    (.append_plain (by decide) (.nested hinner (.plain (by decide) (by decide) .nil))))

section Printed

variable {modifier : Modifier} {parameters result : String} {body : List String}

theorem wellFormed_printed (hname : IsName name.toList)
    (hparameters : Balanced '(' ')' parameters.toList)
    (hresult : ∀ c ∈ result.toList, c ≠ '\x7b' ∧ c ≠ ';' ∧ c ≠ '(' ∧ c ≠ '<')
    (hbody : Braced (lineChars body)) :
    (printed modifier name parameters result body).WellFormed where
  name_ne := hname.1
  name := hname.2
  typeParameters := fun _ hg => absurd hg (Option.not_mem_none _)
  parameters := hparameters
  result := hresult
  body := by
    intro b hb
    cases hb
    exact .plain (by decide) (by decide) (hbody.append (braced_of_plain (by decide)))

/-- The lines of a function are its text, indented and with an empty line behind it. -/
theorem lineChars_printed {head : String}
    (hhead : head.toList = "    ".toList ++ (headText modifier name.toList none ++
      (parameters.toList ++ ')' :: (result.toList ++ ['\x7b'])))) :
    lineChars (head :: body ++ ["    \x7d"]) =
      "    ".toList ++ ((printed modifier name parameters result body).text ++ ['\n']) := by
  have hclose : "    \x7d".toList = "    ".toList ++ ['\x7d'] := rfl
  rw [lineChars_append, lineChars_cons, lineChars_cons, hhead, hclose]
  unfold Printed.text printed
  generalize "    ".toList = indent
  simp [lineChars, Printed.bodyText]

end Printed

/-- Nothing is read from a struct and a comment in front of it. -/
theorem reads_struct {comment : String} (hcomment : Unopened comment) {ls : List String}
    (hls : ∀ l ∈ ls, Unopened l) (comments : Bool) :
    Reads (lineChars ((if comments then ["    /// " ++ comment] else []) ++
      (ls ++ ["    \x7d", ""]))) [] := by
  have hall : ∀ l ∈ (if comments then ["    /// " ++ comment] else []) ++ ls, Unopened l := by
    refine List.forall_mem_append.mpr ⟨?_, hls⟩
    cases comments with
    | false => exact fun _ hl => absurd hl List.not_mem_nil
    | true => simpa using unopened_append.mpr ⟨by decide, hcomment⟩
  have hclose : "    \x7d".toList = "    ".toList ++ ['\x7d'] := rfl
  have hstruct := reads_lines hall hclose (by decide) ⟨rfl, rfl⟩ (by decide)
  have hend : Reads (lineChars [""]) [] := reads_blanks (List.all_eq_true.mp rfl)
  have hread := hstruct.append hend
  rwa [← lineChars_append, List.append_assoc, List.append_assoc] at hread

/-- A function is read behind blanks, and behind a comment if its last words may stand in front
of the function. -/
theorem reads_commented {d : Printed} {fs : List (List Char × List Char)} (hd : Reads d.text fs)
    {comment : String} {front words : List Char} (hcomment : comment.toList = front ++ words)
    (hfront : Reads (" ".toList ++ front) [])
    (hwords : Reads (words ++ ("\n    ".toList ++ d.text)) fs) {ls : List String}
    (hls : lineChars ls = "    ".toList ++ (d.text ++ ['\n'])) (comments : Bool) :
    Reads (lineChars ((if comments then ["    /// " ++ comment] else []) ++ (ls ++ [""]))) fs := by
  have hend : Reads "\n\n".toList [] := reads_blanks (List.all_eq_true.mp rfl)
  have htext : lineChars (ls ++ [""]) = "    ".toList ++ (d.text ++ "\n\n".toList) := by
    rw [lineChars_append, hls]
    simp [lineChars]
  cases comments with
  | false =>
    have hindent : Reads "    ".toList [] := reads_blanks (List.all_eq_true.mp rfl)
    have hread := hindent.append (hd.append hend)
    rw [List.append_nil, List.nil_append] at hread
    rw [if_neg (by simp), List.nil_append, htext]
    exact hread
  | true =>
    have hslashes : Reads ("    //".toList ++ ['/']) [] :=
      reads_barred (by decide) ⟨rfl, rfl⟩ (by decide)
    have hread := hslashes.append (hfront.append (hwords.append hend))
    rw [List.append_nil, List.nil_append, List.nil_append] at hread
    have hcommented : lineChars (["    /// " ++ comment] ++ (ls ++ [""])) =
        "    //".toList ++ ['/'] ++ (" ".toList ++ front ++
          (words ++ ("\n    ".toList ++ d.text) ++ "\n\n".toList)) := by
      have hopen : "    /// ".toList = "    //".toList ++ ('/' :: " ".toList) := rfl
      have hbreak : "\n    ".toList = '\n' :: "    ".toList := rfl
      rw [lineChars_append, lineChars_cons, htext, String.toList_append, hopen, hcomment, hbreak]
      generalize "    //".toList = slashes
      generalize "    ".toList = indent
      generalize " ".toList = space
      generalize "\n\n".toList = gap
      simp [lineChars]
    rw [if_pos rfl, hcommented]
    exact hread

theorem reads_object (hname : IsName name.toList) (hfields : ∀ f ∈ fields, f.WellNamed)
    (comments : Bool) : Reads (lineChars ((object name fields).commentedLines comments)) [] := by
  refine reads_struct (unopened_append.mpr ⟨hname.unopened, by decide⟩)
    (List.forall_mem_append.mpr ⟨?_, ?_⟩) comments
  · rw [List.forall_mem_cons, List.forall_mem_singleton]
    simp only [unopened_append]
    exact ⟨⟨⟨by decide, hname.unopened⟩, by decide⟩, by decide⟩
  · intro l hl
    obtain ⟨f, hf, rfl⟩ := List.mem_map.mp hl
    simp only [unopened_append]
    exact ⟨⟨⟨⟨by decide, (hfields f hf).1.unopened⟩, by decide⟩, (hfields f hf).2.unopened⟩,
      by decide⟩

theorem reads_resource (hname : IsName name.toList) (comments : Bool) :
    Reads (lineChars ((resource name).commentedLines comments)) [] := by
  have hopen : Unopened ("    public struct " ++ name ++ " has store \x7b") := by
    simp only [unopened_append]
    exact ⟨⟨by decide, hname.unopened⟩, by decide⟩
  have hlines : ∀ l ∈ ["    public struct " ++ name ++ " has store \x7b",
      "        value: u64,"], Unopened l := by
    rw [List.forall_mem_cons, List.forall_mem_singleton]
    exact ⟨hopen, by decide⟩
  have hcomment : Unopened (name ++ " resource") :=
    unopened_append.mpr ⟨hname.unopened, by decide⟩
  exact reads_struct hcomment hlines comments

theorem isGap_indent : IsGap "\n    ".toList := ⟨by decide, List.all_eq_true.mp rfl⟩

theorem balanced_context : Balanced '(' ')' "ctx: &mut TxContext".toList := by
  have hbalanced : Balanced '(' ')' ("ctx: &mut TxContext".toList ++ []) :=
    .append_plain (by decide) .nil
  rwa [List.append_nil] at hbalanced

theorem wellFormed_constructorFunction (hname : IsName name.toList)
    (hfunction : IsName function.toList) (hfields : ∀ f ∈ fields, f.WellNamed) :
    (constructorFunction name function fields).WellFormed := by
  refine wellFormed_printed ?_ balanced_context ?_ (braced_constructedLines hname hfields)
  · rw [String.toList_append]
    exact ⟨by simp, List.forall_mem_append.mpr ⟨List.all_eq_true.mp rfl, hfunction.2⟩⟩
  · simp only [String.toList_append, List.forall_mem_append]
    refine ⟨⟨by decide, fun c hc => ?_⟩, by decide⟩
    have hword := hname.2 c hc
    refine ⟨?_, ?_, ?_, ?_⟩ <;> rintro rfl <;> cases hword

theorem lineChars_constructorFunction :
    lineChars (("    public fun create_" ++ function ++ "(ctx: &mut TxContext): " ++ name ++ " \x7b")
        :: constructedLines name fields ++ ["    \x7d"]) =
      "    ".toList ++ ((constructorFunction name function fields).text ++ ['\n']) := by
  refine lineChars_printed ?_
  have hstart : "    public fun create_".toList =
      "    ".toList ++ ("public ".toList ++ ("fun ".toList ++ "create_".toList)) := rfl
  have hmiddle : "(ctx: &mut TxContext): ".toList =
      '(' :: ("ctx: &mut TxContext".toList ++ ')' :: ": ".toList) := rfl
  have hopen : " \x7b".toList = " ".toList ++ ['\x7b'] := rfl
  unfold headText typeText Modifier.text
  simp only [String.toList_append]
  rw [hstart, hmiddle, hopen]
  generalize "    ".toList = indent
  generalize "public ".toList = modifier
  generalize "fun ".toList = keyword
  generalize "create_".toList = create
  generalize "ctx: &mut TxContext".toList = parameters
  generalize ": ".toList = colon
  generalize " ".toList = space
  simp

theorem reads_constructor (hname : IsName name.toList) (hfunction : IsName function.toList)
    (hfields : ∀ f ∈ fields, f.WellNamed) (comments : Bool) :
    Reads (lineChars ((constructor name function fields).commentedLines comments))
      (constructorFunction name function fields).function?.toList := by
  have hd := wellFormed_constructorFunction hname hfunction hfields
  have hfront : Reads (" ".toList ++ "Create a new ".toList) [] := by
    intro before rest hbefore
    have hspace : head? before (' ' :: ("Create a new ".toList ++ rest)) = none :=
      head?_of_ne (by decide) (by decide) (by decide) before _
    exact ⟨some ' ', rfl, functionsFrom_of_head?_none hspace⟩
  have hread := reads_commented hd.reads (String.toList_append ..) hfront
    (hd.reads_behind_word (.inl rfl) hname isGap_indent) lineChars_constructorFunction comments
  have hlines : (constructor name function fields).lines =
      (("    public fun create_" ++ function ++ "(ctx: &mut TxContext): " ++ name ++ " \x7b") ::
        constructedLines name fields ++ ["    \x7d"]) ++ [""] := by
    simp [lines, constructedLines, valueLines]
  unfold commentedLines
  rw [hlines]
  exact hread

theorem wellFormed_entryFunction (hfunction : IsName function.toList) :
    (entryFunction function).WellFormed := by
  refine wellFormed_printed hfunction balanced_context (by decide) (braced_lineChars ?_)
  rw [List.forall_mem_singleton]
  exact braced_of_plain (by decide)

theorem lineChars_entryFunction :
    lineChars (("    public entry fun " ++ function ++ "(ctx: &mut TxContext) \x7b") ::
        ["        // TODO: Implement function logic"] ++ ["    \x7d"]) =
      "    ".toList ++ ((entryFunction function).text ++ ['\n']) := by
  refine lineChars_printed ?_
  have hstart : "    public entry fun ".toList =
      "    ".toList ++ ("public entry ".toList ++ "fun ".toList) := rfl
  have hend : "(ctx: &mut TxContext) \x7b".toList =
      '(' :: ("ctx: &mut TxContext".toList ++ ')' :: (" ".toList ++ ['\x7b'])) := rfl
  unfold headText typeText Modifier.text
  rw [String.toList_append, String.toList_append, hstart, hend]
  generalize "    ".toList = indent
  generalize "public entry ".toList = modifier
  generalize "fun ".toList = keyword
  generalize "ctx: &mut TxContext".toList = parameters
  generalize " ".toList = space
  simp

theorem reads_entry (hname : IsName name.toList) (hfunction : IsName function.toList)
    (comments : Bool) : Reads (lineChars ((entry name function).commentedLines comments))
      (entryFunction function).function?.toList := by
  have hd := wellFormed_entryFunction hfunction
  have hword : IsName "function".toList := ⟨by decide, List.all_eq_true.mp rfl⟩
  have hspace : IsGap " ".toList := ⟨by decide, List.all_eq_true.mp rfl⟩
  have hfront : Reads (" ".toList ++ []) [] := reads_blanks (List.all_eq_true.mp rfl)
  have hcomment : (entry name function).comment.toList =
      [] ++ (name.toList ++ (" ".toList ++ "function".toList)) := String.toList_append ..
  have hwords := hd.reads_behind_words (.inr rfl) hname hspace hword isGap_indent (by decide)
    (by decide)
  rw [← List.append_assoc " ".toList, ← List.append_assoc name.toList] at hwords
  exact reads_commented hd.reads hcomment hfront hwords lineChars_entryFunction comments

/-- From the code of an item its function is read, if there is one. -/
theorem reads_commentedLines {i : Item} (h : i.WellNamed) (comments : Bool) :
    Reads (lineChars (i.commentedLines comments))
      (i.function?.bind Printed.function?).toList := by
  cases i with
  | object name fields => exact reads_object h.1 h.2 comments
  | resource name => exact reads_resource h comments
  | constructor name function fields => exact reads_constructor h.1 h.2.1 h.2.2 comments
  | entry name function => exact reads_entry h.1 h.2 comments

end Item

def testFunction : Printed :=
  Item.printed .none "test_basic" "" " " ["        let user = @0xA;",
    "        let scenario = test_scenario::begin(user);", "        // TODO: Add test logic",
    "        test_scenario::end(scenario);"]

theorem wellFormed_testFunction : testFunction.WellFormed := by
  refine Item.wellFormed_printed ⟨by decide, List.all_eq_true.mp rfl⟩ .nil (by decide)
    (Item.braced_lineChars fun l hl => Item.braced_of_plain ?_)
  revert l
  decide

theorem lineChars_testFunction :
    lineChars ("    fun test_basic() \x7b" :: ["        let user = @0xA;",
        "        let scenario = test_scenario::begin(user);", "        // TODO: Add test logic",
        "        test_scenario::end(scenario);"] ++ ["    \x7d"]) =
      "    ".toList ++ (testFunction.text ++ ['\n']) :=
  Item.lineChars_printed rfl

structure WellNamed (m : MoveModule) : Prop where
  name : IsName m.name.toList
  summary : ∀ c ∈ m.summary.toList, isWord c = true ∨ isBlank c = true
  items : ∀ i ∈ m.items, i.WellNamed

/-- The functions that the code of a module is made to declare. -/
def printedFunctions (m : MoveModule) (tests : Bool) : List Printed :=
  m.items.filterMap Item.function? ++ if tests then [testFunction] else []

theorem toList_text (m : MoveModule) (comments tests : Bool) :
    (m.text comments tests).toList = lineChars (m.lines comments tests) := by
  unfold text lineChars
  rw [String.toList_join, List.flatMap_map]
  simp

variable {m : MoveModule}

theorem WellNamed.unopened_summaryLines (h : m.WellNamed) : ∀ l ∈ m.summaryLines, Unopened l := by
  unfold summaryLines
  rw [List.forall_mem_cons, List.forall_mem_singleton]
  refine ⟨unopened_append.mpr ⟨by decide, fun c hc => ?_⟩, by decide⟩
  rcases h.summary c hc with hword | hblank
  · exact not_mem_openings_of_isWord hword
  · exact not_mem_openings_of_isBlank hblank

/-- Nothing is read from the lines in front of the items. -/
theorem WellNamed.reads_headLines (h : m.WellNamed) (comments : Bool) :
    Reads (lineChars ((if comments then m.summaryLines else []) ++ m.headLines)) [] := by
  have hsummary : ∀ l ∈ if comments then m.summaryLines else [], Unopened l := by
    cases comments with
    | false => exact fun _ hl => absurd hl List.not_mem_nil
    | true => exact h.unopened_summaryLines
  have hname : Unopened ("module " ++ m.name ++ "::" ++ m.name ++ " \x7b") := by
    simp only [unopened_append]
    exact ⟨⟨⟨⟨by decide, h.name.unopened⟩, by decide⟩, h.name.unopened⟩, by decide⟩
  have hlines : ∀ l ∈ ["module " ++ m.name ++ "::" ++ m.name ++ " \x7b",
      "    use sui::object::\x7bSelf, UID\x7d;", "    use sui::tx_context::TxContext;"],
      Unopened l := by
    rw [List.forall_mem_cons]
    exact ⟨hname, by decide⟩
  have hlast : "    use sui::transfer;".toList = "    use sui::transfer".toList ++ [';'] := rfl
  have hhead := reads_lines (List.forall_mem_append.mpr ⟨hsummary, hlines⟩) hlast (by decide)
    ⟨rfl, rfl⟩ (by decide)
  have hend : Reads (lineChars [""]) [] := reads_blanks (List.all_eq_true.mp rfl)
  have hread := hhead.append hend
  rwa [← lineChars_append, List.append_assoc, List.append_assoc] at hread

theorem reads_brace : Reads (lineChars ["\x7d"]) [] := by
  have hnone : ∀ l ∈ ([] : List String), Unopened l := fun _ hl => absurd hl List.not_mem_nil
  have hlast : "\x7d".toList = [] ++ ['\x7d'] := rfl
  exact reads_lines hnone hlast (by decide) ⟨rfl, rfl⟩ (by decide)

/-- The test is read from the lines behind the items. -/
theorem WellNamed.reads_testLines (h : m.WellNamed) :
    Reads (lineChars m.testLines) testFunction.function?.toList := by
  have hname : Unopened ("module " ++ m.name ++ "::" ++ m.name ++ "_tests \x7b") := by
    simp only [unopened_append]
    exact ⟨⟨⟨⟨by decide, h.name.unopened⟩, by decide⟩, h.name.unopened⟩, by decide⟩
  have huse : Unopened ("    use " ++ m.name ++ "::" ++ m.name ++ ";") := by
    simp only [unopened_append]
    exact ⟨⟨⟨⟨by decide, h.name.unopened⟩, by decide⟩, h.name.unopened⟩, by decide⟩
  have hlines : ∀ l ∈ ["", "#[test_only]", "module " ++ m.name ++ "::" ++ m.name ++ "_tests \x7b",
      "    use " ++ m.name ++ "::" ++ m.name ++ ";", "    use sui::test_scenario;", ""],
      Unopened l := by
    simp only [List.forall_mem_cons]
    exact ⟨by decide, by decide, hname, huse, by decide, by decide, by decide⟩
  have hlast : "    #[test]".toList = "    #[test".toList ++ [']'] := rfl
  have hfront := reads_lines hlines hlast (by decide) ⟨rfl, rfl⟩ (by decide)
  have hindent : Reads "    ".toList [] := reads_blanks (List.all_eq_true.mp rfl)
  have hend : Reads ['\n'] [] := reads_blanks (List.all_eq_true.mp rfl)
  have htest := hindent.append (wellFormed_testFunction.reads.append hend)
  rw [← lineChars_testFunction, List.append_nil, List.nil_append] at htest
  have hread := hfront.append (htest.append reads_brace)
  rw [← lineChars_append, ← lineChars_append, List.append_nil, List.nil_append] at hread
  exact hread

/-- From the code of a module just its functions are read. -/
theorem WellNamed.reads_text (h : m.WellNamed) (comments tests : Bool) :
    Reads (m.text comments tests).toList ((m.printedFunctions tests).filterMap Printed.function?) := by
  have hitems := reads_flatMap fun i hi => Item.reads_commentedLines (h.items i hi) comments
  have htests : Reads (lineChars (if tests then m.testLines else []))
      ((if tests then [testFunction] else []).filterMap Printed.function?) := by
    cases tests with
    | false => exact reads_blanks fun _ hc => absurd hc List.not_mem_nil
    | true => exact h.reads_testLines
  have hread := (((h.reads_headLines comments).append hitems).append reads_brace).append htests
  have htext : (m.text comments tests).toList =
      lineChars ((if comments then m.summaryLines else []) ++ m.headLines) ++
        m.items.flatMap (fun i => lineChars (i.commentedLines comments)) ++ lineChars ["\x7d"] ++
        lineChars (if tests then m.testLines else []) := by
    have hflat : m.items.flatMap (fun i => lineChars (i.commentedLines comments)) =
        lineChars (m.items.flatMap (·.commentedLines comments)) := List.flatMap_assoc.symm
    rw [toList_text, hflat, ← lineChars_append, ← lineChars_append, ← lineChars_append]
    rfl
  have hfound : (m.printedFunctions tests).filterMap Printed.function? =
      m.items.flatMap (fun i => (i.function?.bind Printed.function?).toList) ++
        (if tests then [testFunction] else []).filterMap Printed.function? := by
    unfold printedFunctions
    rw [List.filterMap_append, List.filterMap_filterMap, ← List.filterMap_eq_flatMap_toList]
  rw [htext, hfound]
  simpa only [List.nil_append, List.append_nil] using hread

/-- No module is read from the summary, and one may begin behind it. -/
theorem WellNamed.firstModule?_summaryLines (h : m.WellNamed) (rest : List Char) :
    firstModule? none (lineChars m.summaryLines ++ rest) = firstModule? (some '\n') rest := by
  have hfront : ∀ c ∈ "/// ".toList ++ m.summary.toList ++ "\n//".toList, c ∉ [':'] := by
    refine List.forall_mem_append.mpr ⟨List.forall_mem_append.mpr ⟨by decide, fun c hc => ?_⟩,
      by decide⟩
    rw [List.mem_singleton]
    rintro rfl
    rcases h.summary ':' hc with hword | hblank
    · cases hword
    · cases hblank
  have htext : lineChars m.summaryLines ++ rest =
      "/// ".toList ++ m.summary.toList ++ "\n//".toList ++ '/' :: (" Auto".toList ++ '-' ::
        ("generated from System Designer\n".toList ++ rest)) := by
    have hsecond : "\n//".toList ++ '/' :: (" Auto".toList ++ '-' ::
        ("generated from System Designer\n".toList ++ rest)) =
          '\n' :: ("/// Auto-generated from System Designer".toList ++ '\n' :: rest) := rfl
    unfold summaryLines
    rw [List.append_assoc _ "\n//".toList, hsecond, lineChars_cons, lineChars_cons,
      String.toList_append]
    generalize "/// ".toList = slashes
    generalize "/// Auto-generated from System Designer".toList = line
    simp [lineChars]
  calc firstModule? none (lineChars m.summaryLines ++ rest)
      = firstModule? (some '/') (" Auto".toList ++ '-' ::
          ("generated from System Designer\n".toList ++ rest)) := by
        rw [htext, firstModule?_barred hfront ⟨rfl, rfl⟩ (by decide)]
    _ = firstModule? (some '-') ("generated from System Designer\n".toList ++ rest) :=
        firstModule?_barred (by decide) ⟨rfl, rfl⟩ (by decide) _ _
    _ = firstModule? (some '\n') rest := rfl

/-- The code of a module is labelled with its name. -/
theorem WellNamed.moduleLabel_text (h : m.WellNamed) (comments tests : Bool) :
    moduleLabel (m.text comments tests) = m.name ++ "::" ++ m.name := by
  obtain ⟨inner, htext⟩ : ∃ inner, (m.text comments tests).toList =
      lineChars (if comments then m.summaryLines else []) ++
        ("module ".toList ++ m.name.toList ++ "::".toList ++ m.name.toList ++ ' ' :: inner) := by
    have hopen : " \x7b".toList = [' ', '\x7b'] := rfl
    rw [toList_text]
    unfold lines headLines
    simp only [List.append_assoc, List.cons_append, lineChars_append, lineChars_cons,
      String.toList_append]
    rw [hopen]
    exact ⟨_, rfl⟩
  have hfirst : firstModule? none (m.text comments tests).toList =
      some (m.name.toList, m.name.toList) := by
    rw [htext]
    cases comments with
    | false => exact firstModule?_header rfl h.name h.name inner
    | true =>
      rw [if_pos rfl, h.firstModule?_summaryLines]
      exact firstModule?_header rfl h.name h.name inner
  unfold moduleLabel
  rw [hfirst]
  simp

end MoveModule

end MoveWorkbench
