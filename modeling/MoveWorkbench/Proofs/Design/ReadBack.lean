import MoveWorkbench.Proofs.Design.MoveCode
import MoveWorkbench.Proofs.Design.Renderable
import MoveWorkbench.Proofs.Text.LetterCase

/-!
Designs read back from their code. Where all names of a design are ASCII words, its code can
be made, and the functions that are read from the code are those of the design, under the
name of its module.
-/

namespace MoveWorkbench

open Source Text

def AsciiWord (s : String) : Prop := s ≠ "" ∧ ∀ c ∈ s.toList, c.toNat < 128 ∧ isWord c = true

instance : DecidablePred AsciiWord := fun s =>
  inferInstanceAs (Decidable (s ≠ "" ∧ ∀ c ∈ s.toList, c.toNat < 128 ∧ isWord c = true))

def AsciiPhrase (s : String) : Prop :=
  ∀ c ∈ s.toList, c.toNat < 128 ∧ (isWord c = true ∨ c = ' ')

instance : DecidablePred AsciiPhrase := fun s =>
  inferInstanceAs (Decidable (∀ c ∈ s.toList, c.toNat < 128 ∧ (isWord c = true ∨ c = ' ')))

theorem AsciiWord.isName {s : String} (h : AsciiWord s) : IsName s.toList :=
  ⟨fun hnil => h.1 (String.toList_eq_nil_iff.mp hnil), fun c hc => (h.2 c hc).2⟩

theorem toList_lower {s : String} (h : ∀ c ∈ s.toList, c.toNat < 128) :
    (lower s).toList = s.toList.map Char.toLower := by
  unfold lower lowerChars
  rw [String.toList_ofList, lowerFrom_of_ascii h]

/-- A word in lower case is a name. -/
theorem AsciiWord.isName_lower {s : String} (h : AsciiWord s) : IsName (lower s).toList := by
  rw [toList_lower fun c hc => (h.2 c hc).1]
  refine ⟨fun hnil => h.isName.1 (List.map_eq_nil_iff.mp hnil), fun c hc => ?_⟩
  obtain ⟨d, hd, rfl⟩ := List.mem_map.mp hc
  exact (isWord_toLower d).trans (h.2 d hd).2

/-- With underscores in place of blanks there are just word characters. -/
theorem isWord_of_mem_joinBlanksFrom {cs : List Char}
    (h : ∀ c ∈ cs, isWord c = true ∨ isBlank c = true) (inRun : Bool) :
    ∀ c ∈ joinBlanksFrom inRun cs, isWord c = true := by
  induction cs generalizing inRun with
  | nil => exact fun _ hc => absurd hc List.not_mem_nil
  | cons d cs ih =>
    rw [List.forall_mem_cons] at h
    unfold joinBlanksFrom
    split
    · split
      · exact ih h.2 true
      · exact List.forall_mem_cons.mpr ⟨rfl, ih h.2 true⟩
    · rename_i hblank
      exact List.forall_mem_cons.mpr ⟨h.1.resolve_right hblank, ih h.2 false⟩

/-- The name of a module that is made from a phrase. -/
theorem AsciiPhrase.isName_defaultModuleName {s : String} (h : AsciiPhrase s) {c : Char}
    {cs : List Char} (hstart : s.toList = c :: cs) (hc : isWord c = true) :
    IsName (Design.defaultModuleName s).toList := by
  have hlower := toList_lower fun c hc => (h c hc).1
  have hword := (isWord_toLower c).trans hc
  have hchars : ∀ d ∈ (lower s).toList, isWord d = true ∨ isBlank d = true := by
    intro d hd
    rw [hlower] at hd
    obtain ⟨e, he, rfl⟩ := List.mem_map.mp hd
    rcases (h e he).2 with hword | rfl
    · exact .inl ((isWord_toLower e).trans hword)
    · exact .inr rfl
  unfold Design.defaultModuleName joinBlanks
  rw [String.toList_ofList]
  refine ⟨?_, isWord_of_mem_joinBlanksFrom hchars false⟩
  rw [hlower, hstart, List.map_cons, joinBlanksFrom, if_neg (by simp [isBlank_of_isWord hword])]
  exact List.cons_ne_nil _ _

namespace MoveModule

def Item.functionName? : Item → Option String
  | object _ _ | resource _ => none
  | constructor _ function _ => some ("create_" ++ function)
  | entry _ function => some function

def functionNames (m : MoveModule) (tests : Bool) : List String :=
  m.items.filterMap Item.functionName? ++ if tests then ["test_basic"] else []

variable {m : MoveModule}

theorem map_name_printedFunctions (m : MoveModule) (tests : Bool) :
    ((m.printedFunctions tests).filterMap Printed.function?).map (fun f => String.ofList f.1) =
      m.functionNames tests := by
  unfold printedFunctions functionNames
  rw [List.filterMap_append, List.map_append, List.filterMap_filterMap, List.map_filterMap]
  congr 1
  · congr 1
    funext i
    cases i with
    | object name fields => rfl
    | resource name => rfl
    | constructor name function fields => exact congrArg some String.ofList_toList
    | entry name function => exact congrArg some String.ofList_toList
  · cases tests with
    | false => rfl
    | true => exact congrArg (fun name => [name]) String.ofList_toList

/-- The functions that the code of a module declares are known by name and module. -/
theorem WellNamed.declaredFunctions_text (h : m.WellNamed) (comments tests : Bool) :
    (declaredFunctions (m.text comments tests)).map (fun f => (f.name, f.module)) =
      (m.functionNames tests).map (·, m.name ++ "::" ++ m.name) := by
  unfold declaredFunctions
  rw [(h.reads_text comments tests).functionsFrom, h.moduleLabel_text,
    ← map_name_printedFunctions, List.map_map, List.map_map]
  rfl

end MoveModule

namespace Design

def WordNamed (d : Design) : Prop := ∀ c ∈ d.components, ∃ s, c.name = .text s ∧ AsciiWord s

structure PlainlyNamed (d : Design) : Prop where
  components : ∀ c ∈ d.components, ∃ s, c.name = .text s ∧ AsciiWord s
  name : ∃ s, d.name = .text s ∧ AsciiPhrase s ∧ ∃ c cs, s.toList = c :: cs ∧ isWord c = true
  description : d.description = .null ∨ ∃ s, d.description = .text s ∧ AsciiPhrase s

/-- The names of the functions in the code of a design: those of its function components in
lower case, or of a constructor for each object where it has none. -/
def functionNames (d : Design) : List String :=
  match d.ofKind (.text "function") with
  | [] => (d.ofKind (.text "object")).map fun c => "create_" ++ lower c.name.display
  | functions => functions.map fun c => lower c.name.display

def fieldsOf (d : Design) (c : Component) : List MoveModule.Field :=
  (d.targetsOfKind c (.text "resource")).map fun r => ⟨lower r.name.display, r.name.display⟩

def itemsOf (d : Design) : List MoveModule.Item :=
  match d.ofKind (.text "function") with
  | [] => (d.ofKind (.text "object")).map fun c =>
      .constructor c.name.display (lower c.name.display) (d.fieldsOf c)
  | functions => functions.map fun c => .entry c.name.display (lower c.name.display)

variable {d : Design} {c : Component}

def TextNamed (d : Design) : Prop := ∀ c ∈ d.components, c.name.IsText

theorem TextNamed.lowerName (h : d.TextNamed) (hc : c ∈ d.components) :
    Design.lowerName c.name = .ok (lower c.name.display) := by
  obtain ⟨s, hs⟩ := h c hc
  rw [hs]
  rfl

theorem TextNamed.resourceFields (h : d.TextNamed) (c : Component) :
    d.resourceFields c = .ok (d.fieldsOf c) := by
  refine Partial.mapM_eq_map fun r hr => ?_
  rw [h.lowerName (mem_of_mem_targetsOfKind hr)]
  rfl

theorem TextNamed.functionItems (h : d.TextNamed) : d.functionItems = .ok d.itemsOf := by
  unfold Design.functionItems itemsOf
  cases hfunctions : d.ofKind (.text "function") with
  | nil =>
    refine Partial.mapM_eq_map fun c hc => ?_
    unfold constructorItem
    rw [h.lowerName (List.mem_of_mem_filter hc), h.resourceFields c]
    rfl
  | cons f fs =>
    refine Partial.mapM_eq_map fun c hc => ?_
    rw [← hfunctions] at hc
    unfold entryItem
    rw [h.lowerName (List.mem_of_mem_filter hc)]
    rfl

def moduleOf (d : Design) (name : String) : MoveModule where
  name := name
  summary := (d.description.orElse d.name).display
  items := (d.ofKind (.text "object")).map (fun c => .object c.name.display (d.fieldsOf c)) ++
    (d.ofKind (.text "resource")).map (fun r => .resource r.name.display) ++ d.itemsOf

theorem TextNamed.moveModule (h : d.TextNamed) {given : Option String} {name : String}
    (hname : d.moduleName given = .ok name) : d.moveModule given = .ok (d.moduleOf name) := by
  have hobjects : (d.ofKind (.text "object")).mapM d.objectItem =
      .ok ((d.ofKind (.text "object")).map fun c => .object c.name.display (d.fieldsOf c)) := by
    refine Partial.mapM_eq_map fun c hc => ?_
    unfold objectItem
    rw [h.resourceFields c]
    rfl
  unfold Design.moveModule
  rw [hname, hobjects, h.functionItems]
  rfl

theorem TextNamed.moveCode (h : d.TextNamed) {options : CodeOptions} {name : String}
    (hname : d.moduleName options.moduleName = .ok name) :
    d.moveCode options = .ok ((d.moduleOf name).text options.comments options.tests) := by
  unfold Design.moveCode
  rw [h.moveModule hname]
  rfl

theorem WordNamed.textNamed (h : d.WordNamed) : d.TextNamed := fun c hc => by
  obtain ⟨s, hs, -⟩ := h c hc
  exact ⟨s, hs⟩

theorem WordNamed.asciiWord (h : d.WordNamed) (hc : c ∈ d.components) :
    AsciiWord c.name.display := by
  obtain ⟨s, hs, hword⟩ := h c hc
  rw [hs]
  exact hword

theorem PlainlyNamed.wordNamed (h : d.PlainlyNamed) : d.WordNamed := h.components

/-- The module is named by the name that is given, or by that of the design. -/
theorem PlainlyNamed.exists_moduleName (h : d.PlainlyNamed) {given : Option String}
    (hgiven : ∀ name ∈ given, AsciiWord name) :
    ∃ name, d.moduleName given = .ok name ∧ IsName name.toList := by
  cases given with
  | some name =>
    have hname := hgiven name rfl
    refine ⟨name, ?_, hname.isName⟩
    unfold moduleName
    rw [Option.filter_some, if_pos (by simpa using hname.1)]
  | none =>
    obtain ⟨s, hs, hphrase, c, cs, hstart, hc⟩ := h.name
    refine ⟨defaultModuleName s, ?_, hphrase.isName_defaultModuleName hstart hc⟩
    unfold moduleName
    rw [hs]
    rfl

theorem PlainlyNamed.summary (h : d.PlainlyNamed) (name : String) :
    AsciiPhrase (d.moduleOf name).summary := by
  obtain ⟨s, hs, hphrase, -⟩ := h.name
  have hname : AsciiPhrase d.name.display := by rwa [hs]
  change AsciiPhrase (if d.description.isTruthy then d.description else d.name).display
  split
  · rename_i htruthy
    rcases h.description with hnull | ⟨t, ht, hdescription⟩
    · rw [hnull] at htruthy
      cases htruthy
    · rwa [ht]
  · exact hname

theorem WordNamed.wellNamed_fieldsOf (h : d.WordNamed) (c : Component) :
    ∀ f ∈ d.fieldsOf c, f.WellNamed := by
  intro f hf
  obtain ⟨r, hr, rfl⟩ := List.mem_map.mp hf
  have hword := h.asciiWord (mem_of_mem_targetsOfKind hr)
  exact ⟨hword.isName_lower, hword.isName⟩

theorem WordNamed.wellNamed_itemsOf (h : d.WordNamed) : ∀ i ∈ d.itemsOf, i.WellNamed := by
  intro i hi
  unfold itemsOf at hi
  split at hi
  · obtain ⟨c, hc, rfl⟩ := List.mem_map.mp hi
    have hword := h.asciiWord (List.mem_of_mem_filter hc)
    exact ⟨hword.isName, hword.isName_lower, h.wellNamed_fieldsOf c⟩
  · obtain ⟨c, hc, rfl⟩ := List.mem_map.mp hi
    have hword := h.asciiWord (List.mem_of_mem_filter hc)
    exact ⟨hword.isName, hword.isName_lower⟩

theorem WordNamed.wellNamed_items (h : d.WordNamed) (name : String) :
    ∀ i ∈ (d.moduleOf name).items, i.WellNamed := by
  refine List.forall_mem_append.mpr ⟨List.forall_mem_append.mpr ⟨?_, ?_⟩, h.wellNamed_itemsOf⟩
  · intro i hi
    obtain ⟨c, hc, rfl⟩ := List.mem_map.mp hi
    exact ⟨(h.asciiWord (List.mem_of_mem_filter hc)).isName, h.wellNamed_fieldsOf c⟩
  · intro i hi
    obtain ⟨c, hc, rfl⟩ := List.mem_map.mp hi
    exact (h.asciiWord (List.mem_of_mem_filter hc)).isName

theorem PlainlyNamed.wellNamed_moduleOf (h : d.PlainlyNamed) {name : String}
    (hname : IsName name.toList) : (d.moduleOf name).WellNamed where
  name := hname
  summary := by
    intro c hc
    rcases (h.summary name c hc).2 with hword | rfl
    · exact .inl hword
    · exact .inr rfl
  items := h.wordNamed.wellNamed_items name

theorem functionNames_moduleOf (d : Design) (name : String) (tests : Bool) :
    (d.moduleOf name).functionNames tests =
      d.functionNames ++ if tests then ["test_basic"] else [] := by
  have hobjects : ((d.ofKind (.text "object")).map fun c =>
      MoveModule.Item.object c.name.display (d.fieldsOf c)).filterMap
        MoveModule.Item.functionName? = [] := by
    rw [List.filterMap_map, List.filterMap_eq_nil_iff]
    exact fun _ _ => rfl
  have hresources : ((d.ofKind (.text "resource")).map fun r =>
      MoveModule.Item.resource r.name.display).filterMap MoveModule.Item.functionName? = [] := by
    rw [List.filterMap_map, List.filterMap_eq_nil_iff]
    exact fun _ _ => rfl
  have hitems : d.itemsOf.filterMap MoveModule.Item.functionName? = d.functionNames := by
    unfold itemsOf functionNames
    cases d.ofKind (.text "function") with
    | nil =>
      rw [List.filterMap_map]
      exact congrFun List.filterMap_eq_map _
    | cons f fs =>
      rw [List.filterMap_map]
      exact congrFun List.filterMap_eq_map _
  unfold MoveModule.functionNames moduleOf
  rw [List.filterMap_append, List.filterMap_append, hobjects, hresources, hitems]
  rfl

/-- The functions that are read from the code of a design are those that it is made to have, in
order and under the name of its module; where it has none, they are the placeholders. -/
theorem PlainlyNamed.functions_moveCode (h : d.PlainlyNamed) {options : CodeOptions}
    (hoptions : ∀ name ∈ options.moduleName, AsciiWord name) :
    let names := d.functionNames ++ if options.tests then ["test_basic"] else []
    ∃ code m, d.moveCode options = .ok code ∧ d.moduleName options.moduleName = .ok m ∧
      if names = [] then Source.functions code = placeholders
      else (Source.functions code).map (fun f => (f.name, f.module)) =
        names.map (·, m ++ "::" ++ m) := by
  intro names
  obtain ⟨m, hm, hname⟩ := h.exists_moduleName hoptions
  have hread := (h.wellNamed_moduleOf hname).declaredFunctions_text options.comments options.tests
  rw [functionNames_moduleOf] at hread
  refine ⟨_, m, h.wordNamed.textNamed.moveCode hm, hm, ?_⟩
  unfold Source.functions
  cases hdeclared : declaredFunctions ((d.moduleOf m).text options.comments options.tests) with
  | nil =>
    rw [hdeclared] at hread
    rw [if_pos (List.map_eq_nil_iff.mp hread.symm)]
  | cons f fs =>
    rw [hdeclared] at hread
    rw [if_neg fun hnames => ?_]
    · exact hread
    · have hnil := hread.trans (congrArg (List.map _) hnames)
      cases hnil

def headWords : Design where
  name := .text "module fun"
  description := .text "public entry fun f"
  components := [
    ⟨.text "a", .text "object", .text "fun", .null, .null, [.text "c"], []⟩,
    ⟨.text "b", .text "object", .text "Public", .null, .null, [], []⟩,
    ⟨.text "c", .text "resource", .text "entry", .null, .null, [], []⟩]

theorem plainlyNamed_headWords : headWords.PlainlyNamed := by
  refine ⟨?_, ⟨_, rfl, by decide, _, _, rfl, rfl⟩, .inr ⟨_, rfl, by decide⟩⟩
  intro c hc
  simp only [headWords, List.mem_cons, List.not_mem_nil, or_false] at hc
  rcases hc with rfl | rfl | rfl
  · exact ⟨_, rfl, by decide⟩
  · exact ⟨_, rfl, by decide⟩
  · exact ⟨_, rfl, by decide⟩

theorem functions_moveCode_headWords : ∃ code,
    headWords.moveCode ⟨none, true, true⟩ = .ok code ∧
      (Source.functions code).map (fun f => (f.name, f.module)) =
        [("create_fun", "module_fun::module_fun"), ("create_public", "module_fun::module_fun"),
          ("test_basic", "module_fun::module_fun")] := by
  have hoptions : ∀ name ∈ (⟨none, true, true⟩ : CodeOptions).moduleName, AsciiWord name :=
    fun _ hname => absurd hname (Option.not_mem_none _)
  obtain ⟨code, m, hcode, hm, hread⟩ := plainlyNamed_headWords.functions_moveCode hoptions
  have hname : headWords.moduleName none = .ok "module_fun" :=
    congrArg Except.ok (by decide +kernel : defaultModuleName "module fun" = "module_fun")
  have hnames : headWords.functionNames = ["create_fun", "create_public"] := by
    decide +kernel
  obtain rfl : "module_fun" = m := Except.ok.inj (hname.symm.trans hm)
  rw [hnames] at hread
  exact ⟨code, hcode, hread⟩

end Design

end MoveWorkbench
