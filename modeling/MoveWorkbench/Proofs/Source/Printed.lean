import Mathlib.Data.List.Basic
import MoveWorkbench.Proofs.Source.Bracket
import MoveWorkbench.Proofs.Source.Label
import MoveWorkbench.Proofs.Source.Reads

/-!
Printed modules are read back. A module is printed as a header and declarations with blanks
between them, each with a body or a semicolon. The functions read from it are the
declarations with a body, in order, whatever stands inside their brackets: after a body
reading goes on behind its brace, and behind the parameters of a declaration without one
nothing begins a head up to its semicolon.
-/

namespace MoveWorkbench.Source

open Text

structure Printed where
  modifier : Modifier
  name : List Char
  typeParameters : Option (List Char)
  parameters : List Char
  /-- What stands between the parameters and the body or the semicolon. -/
  result : List Char
  body : Option (List Char)

namespace Printed

def bodyText : Option (List Char) → List Char
  | some b => '\x7b' :: b ++ ['\x7d']
  | none => [';']

def text (d : Printed) : List Char :=
  headText d.modifier d.name d.typeParameters ++ d.parameters ++ ')' :: d.result
    ++ bodyText d.body

/-- The parts of a declaration can be told apart in its text. -/
structure WellFormed (d : Printed) : Prop where
  name_ne : d.name ≠ []
  name : ∀ c ∈ d.name, isWord c = true
  typeParameters : ∀ g ∈ d.typeParameters, '>' ∉ g
  parameters : Balanced '(' ')' d.parameters
  result : ∀ c ∈ d.result, c ≠ '\x7b' ∧ c ≠ ';' ∧ c ≠ '(' ∧ c ≠ '<'
  body : ∀ b ∈ d.body, Balanced '\x7b' '\x7d' b

def function? (d : Printed) : Option (List Char × List Char) := d.body.map fun b => (d.name, b)

variable {d : Printed}

theorem WellFormed.declaration? (h : d.WellFormed) {before : Option Char}
    (hbefore : before.any isWord = false) (rest : List Char) :
    Source.declaration? before (d.text ++ rest) =
      match d.body with
      | some b => some (.function d.name b rest)
      | none => some (.bodyless (d.result ++ ';' :: rest)) := by
  have htext : d.text ++ rest = headText d.modifier d.name d.typeParameters ++
      (d.parameters ++ ')' :: (d.result ++ (bodyText d.body ++ rest))) := by
    simp [text]
  have hhead := head?_headText d.modifier hbefore h.name_ne h.name h.typeParameters
    (d.parameters ++ ')' :: (d.result ++ (bodyText d.body ++ rest)))
  have hparameters := enclosed?_of_balanced (by decide) h.parameters
    (d.result ++ (bodyText d.body ++ rest))
  have hresult (cs : List Char) : (d.result ++ cs).dropWhile (fun c => c != '\x7b' && c != ';') =
      cs.dropWhile fun c => c != '\x7b' && c != ';' := by
    refine List.dropWhile_append_of_pos fun c hc => ?_
    simp [(h.result c hc).1, (h.result c hc).2.1]
  rw [htext]
  unfold Source.declaration?
  rw [hhead]
  simp only [Option.bind_eq_bind, Option.bind_some, hparameters, hresult]
  cases hbody : d.body with
  | none => simp [bodyText]
  | some b =>
    have hb := enclosed?_of_balanced (by decide) (h.body b hbody) rest
    simp [bodyText, hb]

/-- A declaration gives its function, if it has a body, and is passed over. -/
theorem WellFormed.reads (h : d.WellFormed) : Reads d.text d.function?.toList := by
  intro before rest hbefore
  have hdeclaration := h.declaration? hbefore rest
  obtain ⟨c, cs, hhead⟩ := exists_headText_cons d.modifier d.name d.typeParameters
  cases hbody : d.body with
  | some b =>
    refine ⟨some '\x7d', rfl, ?_⟩
    have htext : d.text ++ rest =
        c :: (cs ++ d.parameters ++ ')' :: d.result ++ '\x7b' :: b ++ '\x7d' :: rest) := by
      simp [text, hhead, bodyText, hbody]
    rw [hbody, htext] at hdeclaration
    have hskip : (cs ++ d.parameters ++ ')' :: d.result ++ '\x7b' :: b ++ '\x7d' :: rest).length -
        rest.length = (cs ++ d.parameters ++ ')' :: d.result ++ '\x7b' :: b).length + 1 := by
      simp only [List.length_append, List.length_cons]
      omega
    rw [htext, Source.functionsFrom, hdeclaration]
    simp only [hskip, functionsFrom_skip, function?, hbody]
    rfl
  | none =>
    refine ⟨some ';', rfl, ?_⟩
    have htext : d.text ++ rest =
        c :: (cs ++ d.parameters ++ ')' :: (d.result ++ ';' :: rest)) := by
      simp [text, hhead, bodyText, hbody]
    rw [hbody, htext] at hdeclaration
    have hskip : (cs ++ d.parameters ++ ')' :: (d.result ++ ';' :: rest)).length -
        (d.result ++ ';' :: rest).length = (cs ++ d.parameters).length + 1 := by
      simp only [List.length_append, List.length_cons]
      omega
    have hresult : ∀ e ∈ d.result, e ∉ openings := fun e he => by
      simp [openings, (h.result e he).2.2.1, (h.result e he).2.2.2]
    have hbar : ';' ∉ openings := by simp [openings]
    have hbarred := functionsFrom_barred hresult ⟨rfl, rfl⟩ hbar (some ')') rest
    rw [htext, Source.functionsFrom, hdeclaration]
    simp only [hskip, functionsFrom_skip, function?, hbody, hbarred]
    rfl

end Printed

/-! Words in front of a declaration that is public. -/

section Words

variable {w gap : List Char} {d : Printed}

/-- A public declaration begins with the word public and another one. -/
theorem Printed.exists_text_public
    (hpublic : d.modifier = .everywhere ∨ d.modifier = .everywhereEntry) :
    ∃ c cs, isWord c = true ∧ d.text = "public".toList ++ ([' '] ++ c :: cs) := by
  unfold Printed.text headText
  rcases hpublic with hmodifier | hmodifier
  · rw [hmodifier]
    exact ⟨'f', _, rfl, rfl⟩
  · rw [hmodifier]
    exact ⟨'e', _, rfl, rfl⟩

theorem isName_public : IsName "public".toList := ⟨by decide, List.all_eq_true.mp rfl⟩

/-- A word in front of a public declaration is passed over. -/
theorem Printed.WellFormed.reads_behind_word (h : d.WellFormed)
    (hpublic : d.modifier = .everywhere ∨ d.modifier = .everywhereEntry) (hw : IsName w)
    (hgap : IsGap gap) : Reads (w ++ (gap ++ d.text)) d.function?.toList := by
  obtain ⟨c, cs, hc, htext⟩ := Printed.exists_text_public hpublic
  refine h.reads.behind_word hw hgap fun before rest => ?_
  have hspace : IsGap [' '] := ⟨by decide, List.all_eq_true.mp rfl⟩
  have hhead := head?_words hw hgap isName_public hspace hc (by decide) (by decide) before
    (cs ++ rest)
  rw [htext]
  simpa only [List.append_assoc, List.cons_append] using hhead

/-- Two words in front of a public declaration are passed over, if the second one is no
modifier and not the word fun. -/
theorem Printed.WellFormed.reads_behind_words (h : d.WellFormed)
    (hpublic : d.modifier = .everywhere ∨ d.modifier = .everywhereEntry) (hw : IsName w)
    (hgap : IsGap gap) {v gap' : List Char} (hv : IsName v) (hgap' : IsGap gap')
    (hentry : v ≠ "entry".toList) (hfun : v ≠ "fun".toList) :
    Reads (w ++ (gap ++ (v ++ (gap' ++ d.text)))) d.function?.toList := by
  obtain ⟨c, cs, -, htext⟩ := Printed.exists_text_public hpublic
  refine (h.reads_behind_word hpublic hv hgap').behind_word hw hgap fun before rest => ?_
  have hp : d.text = 'p' :: ("ublic".toList ++ ([' '] ++ c :: cs)) := htext
  rw [hp, List.append_assoc, List.append_assoc]
  exact head?_words hw hgap hv hgap' rfl hentry hfun before _

end Words

def declarationsText (ds : List (List Char × Printed)) : List Char :=
  ds.flatMap fun p => p.1 ++ p.2.text

def WellSpaced (ds : List (List Char × Printed)) : Prop :=
  ∀ p ∈ ds, (∀ c ∈ p.1, isBlank c = true) ∧ p.2.WellFormed

/-- The functions read from declarations are those with a body. -/
theorem reads_declarationsText {ds : List (List Char × Printed)} (hds : WellSpaced ds) :
    Reads (declarationsText ds) (ds.filterMap (·.2.function?)) := by
  rw [List.filterMap_eq_flatMap_toList]
  exact reads_flatMap fun p hp => (reads_blanks (hds p hp).1).append (hds p hp).2.reads

def moduleText (address name : List Char) (ds : List (List Char × Printed)) (tail : List Char) :
    List Char :=
  "module ".toList ++ address ++ "::".toList ++ name ++ [' '] ++
    '\x7b' :: (declarationsText ds ++ (tail ++ ['\x7d']))

variable {address name tail : List Char} {ds : List (List Char × Printed)}

theorem header_not_mem_openings (haddress : ∀ c ∈ address, isWord c = true)
    (hname : ∀ c ∈ name, isWord c = true) :
    ∀ c ∈ "module ".toList ++ address ++ "::".toList ++ name ++ [' '], c ∉ openings := by
  have hkeyword : ∀ c ∈ "module ".toList, c ∉ openings := by decide
  have hcolons : ∀ c ∈ "::".toList, c ∉ openings := by decide
  have hblank : ∀ c ∈ [' '], c ∉ openings := by decide
  intro c hc
  simp only [List.mem_append] at hc
  rcases hc with (((hc | hc) | hc) | hc) | hc
  · exact hkeyword c hc
  · exact not_mem_openings_of_isWord (haddress c hc)
  · exact hcolons c hc
  · exact not_mem_openings_of_isWord (hname c hc)
  · exact hblank c hc

/-- The functions read from a module are the declarations with a body. -/
theorem functionsFrom_moduleText (haddress : ∀ c ∈ address, isWord c = true)
    (hname : ∀ c ∈ name, isWord c = true) (hds : WellSpaced ds)
    (htail : ∀ c ∈ tail, isBlank c = true) :
    functionsFrom none 0 (moduleText address name ds tail) = ds.filterMap (·.2.function?) := by
  have hheader : Reads ("module ".toList ++ address ++ "::".toList ++ name ++ [' '] ++ ['\x7b']) [] :=
    reads_barred (header_not_mem_openings haddress hname) ⟨rfl, rfl⟩ (by decide)
  have hbrace : Reads ([] ++ ['\x7d']) [] :=
    reads_barred (fun _ hc => absurd hc List.not_mem_nil) ⟨rfl, rfl⟩ (by decide)
  have hmodule := hheader.append ((reads_declarationsText hds).append
    ((reads_blanks htail).append hbrace))
  have htext : moduleText address name ds tail =
      "module ".toList ++ address ++ "::".toList ++ name ++ [' '] ++ ['\x7b'] ++
        (declarationsText ds ++ (tail ++ ([] ++ ['\x7d']))) := by
    unfold moduleText
    generalize "module ".toList = keyword
    generalize "::".toList = colons
    simp only [List.append_assoc, List.cons_append, List.nil_append]
  rw [htext, hmodule.functionsFrom]
  simp

theorem moduleHead?_moduleText (haddress : ∀ c ∈ address, isWord c = true)
    (hname : ∀ c ∈ name, isWord c = true) :
    moduleHead? none (moduleText address name ds tail) =
      if address = [] ∨ name = [] then none else some (address, name) := by
  have htext : moduleText address name ds tail = "module ".toList ++ address ++ "::".toList ++
      name ++ ' ' :: '\x7b' :: (declarationsText ds ++ (tail ++ ['\x7d'])) := by
    unfold moduleText
    rw [List.append_assoc _ [' ']]
    rfl
  rw [htext, moduleHead?_header rfl haddress hname]

theorem moduleLabel_moduleText (haddress : ∀ c ∈ address, isWord c = true)
    (hname : ∀ c ∈ name, isWord c = true) (hne : ¬(address = [] ∨ name = [])) :
    moduleLabel (String.ofList (moduleText address name ds tail)) =
      String.ofList address ++ "::" ++ String.ofList name := by
  have hhead : moduleHead? none (moduleText address name ds tail) = some (address, name) := by
    rw [moduleHead?_moduleText haddress hname, if_neg hne]
  obtain ⟨cs, hcs⟩ : ∃ cs, moduleText address name ds tail = 'm' :: cs := ⟨_, rfl⟩
  rw [hcs] at hhead
  unfold moduleLabel
  rw [String.toList_ofList, hcs, firstModule?, hhead]

/-- The functions read from a printed module are its declarations with a body, or the
placeholders where it has none. They belong to the printed module; only a header in which a
name is missing is passed over. -/
theorem functions_moduleText (haddress : ∀ c ∈ address, isWord c = true)
    (hname : ∀ c ∈ name, isWord c = true) (hds : WellSpaced ds)
    (htail : ∀ c ∈ tail, isBlank c = true) :
    let code := String.ofList (moduleText address name ds tail)
    functions code =
        (match ds.filterMap (·.2.function?) with
        | [] => placeholders
        | fs => fs.map fun f => ⟨String.ofList f.1, moduleLabel code, String.ofList f.2⟩) ∧
      if address = [] ∨ name = [] then moduleHead? none code.toList = none
      else moduleLabel code = String.ofList address ++ "::" ++ String.ofList name := by
  intro code
  have hcode : code.toList = moduleText address name ds tail := String.toList_ofList
  constructor
  · have hdeclared : declaredFunctions code = (ds.filterMap (·.2.function?)).map fun f =>
        ⟨String.ofList f.1, moduleLabel code, String.ofList f.2⟩ := by
      unfold declaredFunctions
      rw [hcode, functionsFrom_moduleText haddress hname hds htail]
    unfold functions
    rw [hdeclared]
    cases ds.filterMap (·.2.function?) <;> rfl
  · split
    · rename_i hempty
      rw [hcode, moduleHead?_moduleText haddress hname, if_pos hempty]
    · rename_i hne
      exact moduleLabel_moduleText haddress hname hne

def payAndSeal : List (List Char × Printed) := [
  ("\n ".toList, ⟨.everywhereEntry, "pay".toList, some "T".toList, "x: (u8)".toList, ": T ".toList,
    some "fun f() \x7b\x7d".toList⟩),
  ("\n ".toList, ⟨.none, "seal".toList, none, [], [], none⟩)]

theorem wellSpaced_payAndSeal : WellSpaced payAndSeal := by
  have hnoBrackets : Balanced '(' ')' ("u8".toList ++ []) := Balanced.append_plain (by simp) .nil
  have hparameters : Balanced '(' ')' ("x: ".toList ++ '(' :: ("u8".toList ++ ')' :: [])) :=
    Balanced.append_plain (by simp) (.nested hnoBrackets .nil)
  have hbody : Balanced '\x7b' '\x7d' ("fun f() ".toList ++ '\x7b' :: ([] ++ '\x7d' :: [])) :=
    Balanced.append_plain (by simp) (.nested .nil .nil)
  intro p hp
  simp only [payAndSeal, List.mem_cons, List.not_mem_nil, or_false] at hp
  rcases hp with rfl | rfl
  · refine ⟨List.all_eq_true.mp rfl, by simp, List.all_eq_true.mp rfl, by simp, hparameters,
      by simp, ?_⟩
    intro b hb
    cases hb
    exact hbody
  · refine ⟨List.all_eq_true.mp rfl, by simp, List.all_eq_true.mp rfl, by simp, .nil, by simp, ?_⟩
    intro b hb
    cases hb

theorem functions_moduleText_payAndSeal :
    functions (String.ofList (moduleText "a".toList "m".toList payAndSeal " ".toList)) =
      [⟨"pay", "a::m", "fun f() \x7b\x7d"⟩] := by
  have haddress : ∀ c ∈ "a".toList, isWord c = true := List.all_eq_true.mp rfl
  have hname : ∀ c ∈ "m".toList, isWord c = true := List.all_eq_true.mp rfl
  have htail : ∀ c ∈ " ".toList, isBlank c = true := List.all_eq_true.mp rfl
  obtain ⟨hfunctions, hlabel⟩ := functions_moduleText haddress hname wellSpaced_payAndSeal htail
  rw [if_neg (by decide)] at hlabel
  rw [hlabel] at hfunctions
  rw [hfunctions]
  rfl

/-- A header without an address names no module. -/
theorem functions_moduleText_without_address :
    let ds : List (List Char × Printed) := [([], ⟨.none, ['f'], none, [], [], some []⟩)]
    WellSpaced ds ∧
      functions (String.ofList (moduleText [] ['m'] ds [])) ≠ [⟨"f", "::m", ""⟩] := by
  intro ds
  constructor
  · intro p hp
    rw [List.mem_singleton] at hp
    subst hp
    refine ⟨List.all_eq_true.mp rfl, by simp, List.all_eq_true.mp rfl, by simp, .nil, by simp, ?_⟩
    intro b hb
    cases hb
    exact .nil
  · decide +kernel

end MoveWorkbench.Source
