import Mathlib.Algebra.BigOperators.Ring.List
import MoveWorkbench.Proofs.Design.Comments
import MoveWorkbench.Proofs.Design.DiagramNodes

/-!
Lines of diagrams. A diagram has a number of lines that is known from the components and their
connections, and one more for each line break in a name that it shows as it is. Identifiers have no
line breaks, but labels, the heads of classes and fields keep those of their names. Where no name
has one, the diagrams of designs that differ just in names differ just in lines that show a name.
-/

namespace MoveWorkbench

open Json

namespace Text

def breaks (s : String) : ℕ := s.toList.count '\n'

def textLines (s : String) : List String := (lines s.toList).map String.ofList

variable {s : String} {ls : List String}

theorem breaks_append (s t : String) : breaks (s ++ t) = breaks s + breaks t := by
  unfold breaks
  rw [String.toList_append, List.count_append]

theorem breaks_eq_zero_iff : breaks s = 0 ↔ Unbroken s := List.count_eq_zero

theorem length_textLines (s : String) : (textLines s).length = breaks s + 1 := by
  unfold textLines
  rw [List.length_map]
  exact split_length '\n' s.toList

theorem textLines_of_unbroken (h : Unbroken s) : textLines s = [s] := by
  unfold textLines lines
  rw [split_of_not_mem h, List.map_singleton, String.ofList_toList]

theorem textLines_joinLines (h : ls ≠ []) : textLines (joinLines ls) = ls.flatMap textLines := by
  unfold textLines
  rw [lines_joinLines h, List.map_flatMap]

/-- Texts put one below the other have a line each, and one for each of their line breaks. -/
theorem length_textLines_joinLines (h : ls ≠ []) :
    (textLines (joinLines ls)).length = ls.length + (ls.map breaks).sum := by
  rw [textLines_joinLines h, List.length_flatMap]
  simp only [length_textLines]
  clear h
  induction ls with
  | nil => rfl
  | cons l ls ih =>
    simp only [List.map_cons, List.sum_cons, List.length_cons]
    omega

end Text

namespace Diagram

open Text

variable {c t : Component} {v : Json} {l : String}

theorem unbroken_identifierOf (h : identifierOf v = .ok l) : Unbroken l := by
  obtain ⟨s, -, rfl⟩ := exists_eq_identifier h
  exact not_mem_of_isWord fun _ => isWord_of_mem_identifier

/-- What is put in place of quotes changes no line breaks. -/
theorem breaks_replaceQuotes {new : List Char} (hnew : '\n' ∉ new) (s : String) :
    breaks (replaceQuotes new s) = breaks s := by
  unfold breaks replaceQuotes
  rw [String.toList_ofList]
  induction s.toList with
  | nil => rfl
  | cons c cs ih =>
    rw [List.flatMap_cons, List.count_append, ih, List.count_cons, Nat.add_comm]
    congr 1
    split
    · rename_i hquote
      rw [List.count_eq_zero.mpr hnew, beq_iff_eq.mp hquote]
      rfl
    · exact List.count_singleton

theorem unbroken_shape {shape : Shape} (h : shapeOf v = .ok shape) :
    Unbroken shape.opening ∧ Unbroken shape.closing := by
  have hall : ∀ k ∈ kindStyles, Unbroken k.shape.opening ∧ Unbroken k.shape.closing := by decide
  obtain ⟨_, -, hshape⟩ := Partial.bind_eq_ok.mp h
  cases hshape
  cases hfound : kindStyles.find? fun k => v == .text k.kind with
  | none => decide
  | some k => exact hall k (List.mem_of_find?_eq_some hfound)

theorem eq_text_of_asText {f : Fault} (h : v.asText f = .ok l) : v = .text l := by
  cases v <;> cases h
  rfl

/-- The forms in which a line shows a name: in quotes as a label, at the head of a class, in lower
case and as it is for a field, and as an identifier on either side of an arrow. -/
inductive Shows (s : String) : String → Prop
  | label (before after : String) :
    Shows s (before ++ ("\"" ++ replaceQuotes "#quot;".toList s ++ "\"") ++ after)
  | head {head : String} (h : classHead (.text s) = .ok head) (after : String) :
    Shows s (head ++ after)
  | field : Shows s ("  +" ++ Text.lower s ++ ": " ++ s)
  | edge (target : String) : Shows s (identifier s ++ " --> " ++ target)

/-- The line of a node shows the name, with all its line breaks. -/
theorem shows_nodeLine (h : nodeLine c = .ok l) :
    Shows c.name.display l ∧ breaks l = breaks c.name.display := by
  obtain ⟨shape, hshape, hrest⟩ := Partial.bind_eq_ok.mp h
  obtain ⟨id, hid, hrest⟩ := Partial.bind_eq_ok.mp hrest
  obtain ⟨label, hlabel, hl⟩ := Partial.bind_eq_ok.mp hrest
  obtain ⟨s, hs, hlabel⟩ := Partial.bind_eq_ok.mp hlabel
  cases hlabel
  cases hl
  rw [eq_text_of_asText hs, display_text]
  refine ⟨.label _ _, ?_⟩
  have hindent : breaks "    " = 0 := by decide
  have hquote : breaks "\"" = 0 := by decide
  have hidentifier := breaks_eq_zero_iff.mpr (unbroken_identifierOf hid)
  have hopening := breaks_eq_zero_iff.mpr (unbroken_shape hshape).1
  have hclosing := breaks_eq_zero_iff.mpr (unbroken_shape hshape).2
  have hquoted : breaks (replaceQuotes "#quot;".toList s) = breaks s :=
    breaks_replaceQuotes (by decide) s
  simp only [breaks_append, hindent, hquote, hidentifier, hopening, hclosing, hquoted]
  omega

theorem unbroken_edgeLine (h : edgeLine c v = .ok l) : Unbroken l := by
  obtain ⟨id, hid, hrest⟩ := Partial.bind_eq_ok.mp h
  obtain ⟨target, htarget, hl⟩ := Partial.bind_eq_ok.mp hrest
  cases hl
  simp only [unbroken_append]
  exact ⟨⟨⟨by decide, unbroken_identifierOf hid⟩, by decide⟩, unbroken_identifierOf htarget⟩

theorem unbroken_classLine (hkind : Unbroken c.kind.display) (h : classLine c = .ok l) :
    Unbroken l := by
  obtain ⟨id, hid, hl⟩ := Partial.bind_eq_ok.mp h
  cases hl
  simp only [unbroken_append]
  exact ⟨⟨⟨by decide, unbroken_identifierOf hid⟩, by decide⟩, hkind⟩

theorem unbroken_styleLine : ∀ l ∈ kindStyles.map styleLine, Unbroken l := by
  have hparts : ∀ k ∈ kindStyles, Unbroken k.kind ∧ Unbroken k.style := by decide
  refine List.forall_mem_map.mpr fun k hk => ?_
  obtain ⟨hkind, hstyle⟩ := hparts k hk
  unfold styleLine
  simp only [unbroken_append]
  exact ⟨⟨⟨by decide, hkind⟩, by decide⟩, hstyle⟩

/-- The head of a class has all line breaks of the name, be it quoted or not. -/
theorem breaks_classHead {s : String} (h : classHead (.text s) = .ok l) : breaks l = breaks s := by
  have hclass : breaks "class " = 0 := by decide
  cases h
  split
  · rw [breaks_append, hclass, Nat.zero_add]
  · have hquoted : breaks (replaceQuotes ['\''] s) = breaks s := breaks_replaceQuotes (by decide) s
    have hidentifier : breaks (identifier s) = 0 :=
      breaks_eq_zero_iff.mpr (unbroken_identifierOf (v := .text s) rfl)
    have hopen : breaks "class \"" = 0 := by decide
    have hclose : breaks "\" as " = 0 := by decide
    simp only [breaks_append, hquoted, hidentifier, hopen, hclose]
    omega

/-- The line of a field shows the name twice. -/
theorem shows_fieldLine (h : fieldLine c = .ok l) :
    Shows c.name.display l ∧ breaks l = 2 * breaks c.name.display := by
  obtain ⟨s, hs, hl⟩ := Partial.bind_eq_ok.mp h
  cases hl
  rw [eq_text_of_asText hs, display_text]
  refine ⟨.field, ?_⟩
  have hfront : breaks "  +" = 0 := by decide
  have hcolon : breaks ": " = 0 := by decide
  have hlower : breaks (Text.lower s) = breaks s := count_break_lower s
  simp only [breaks_append, hfront, hcolon, hlower]
  omega

theorem shows_referenceLine (h : referenceLine c t = .ok l) :
    Shows c.name.display l ∧ Unbroken l := by
  obtain ⟨source, hsource, hrest⟩ := Partial.bind_eq_ok.mp h
  obtain ⟨target, htarget, hl⟩ := Partial.bind_eq_ok.mp hrest
  obtain ⟨s, hs, rfl⟩ := exists_eq_identifier hsource
  cases hl
  rw [hs]
  refine ⟨.edge _, ?_⟩
  simp only [unbroken_append]
  exact ⟨⟨unbroken_identifierOf hsource, by decide⟩, unbroken_identifierOf htarget⟩

end Diagram

def Component.Renamed (c c' : Component) : Prop := c' = { c with name := c'.name }

namespace Design

open Text Diagram

structure Renamed (d d' : Design) : Prop where
  name : d'.name = d.name
  components : List.Forall₂ Component.Renamed d.components d'.components

def OneLined (d : Design) : Prop := ∀ c ∈ d.components, Unbroken c.name.display

def KnownKinds (d : Design) : Prop := ∀ c ∈ d.components, ∃ k ∈ kindStyles, c.kind = .text k.kind

def fieldResources (d : Design) : List Component :=
  (d.ofKind (.text "object")).flatMap fun c => d.targetsOfKind c (.text "resource")

variable {d d' : Design} {c c' t : Component}

section Count

theorem KnownKinds.unbroken (h : d.KnownKinds) (hc : c ∈ d.components) :
    Unbroken c.kind.display := by
  have hall : ∀ k ∈ kindStyles, Unbroken k.kind := by decide
  obtain ⟨k, hk, hkind⟩ := h c hc
  rw [hkind]
  exact hall k hk

theorem sum_breaks_eq_zero {ls : List String} (h : ∀ l ∈ ls, Unbroken l) :
    (ls.map breaks).sum = 0 := by
  rw [List.sum_eq_zero_iff]
  exact List.forall_mem_map.mpr fun l hl => breaks_eq_zero_iff.mpr (h l hl)

/-- The lines of Mermaid: ten, two for each component, one for each connection, and one for each
line break in a name. -/
theorem length_textLines_mermaid (hkind : d.KnownKinds) {s : String} (h : d.mermaid = .ok s) :
    (textLines s).length = 10 + 2 * d.components.length + d.links.length +
      (d.components.map fun c => breaks c.name.display).sum := by
  obtain ⟨lines, hlines, rfl⟩ := Partial.map_eq_ok.mp h
  obtain ⟨nodes, hnodes, hrest⟩ := Partial.bind_eq_ok.mp hlines
  obtain ⟨edges, hedges, hrest⟩ := Partial.bind_eq_ok.mp hrest
  obtain ⟨classes, hclasses, hlines⟩ := Partial.bind_eq_ok.mp hrest
  cases hlines
  have hnodeCount : nodes.length = d.components.length :=
    (Partial.mapM_eq_ok.mp hnodes).length_eq.symm
  have hedgeCount : edges.length = d.links.length := (Partial.mapM_eq_ok.mp hedges).length_eq.symm
  have hclassCount : classes.length = d.components.length :=
    (Partial.mapM_eq_ok.mp hclasses).length_eq.symm
  have hnodeBreaks : nodes.map breaks = d.components.map fun c => breaks c.name.display :=
    Partial.map_eq_map_of_mapM hnodes fun c _ l hl => (shows_nodeLine hl).2
  have hedgeBreaks : (edges.map breaks).sum = 0 := by
    refine sum_breaks_eq_zero fun l hl => ?_
    obtain ⟨e, -, hline⟩ := Partial.exists_of_mem_mapM hedges hl
    exact unbroken_edgeLine hline
  have hclassBreaks : (classes.map breaks).sum = 0 := by
    refine sum_breaks_eq_zero fun l hl => ?_
    obtain ⟨c, hc, hline⟩ := Partial.exists_of_mem_mapM hclasses hl
    exact unbroken_classLine (hkind.unbroken hc) hline
  have hstart : (["\x60\x60\x60mermaid", "graph TD"].map breaks).sum = 0 := by decide
  have hblank : ([""].map breaks).sum = 0 := by decide
  have hstyles : ((kindStyles.map styleLine).map breaks).sum = 0 :=
    sum_breaks_eq_zero unbroken_styleLine
  have hend : (["\x60\x60\x60"].map breaks).sum = 0 := by decide
  have hstyleCount : (kindStyles.map styleLine).length = 5 := rfl
  rw [length_textLines_joinLines (by simp)]
  simp only [List.map_append, List.sum_append, List.length_append, List.length_cons,
    List.length_nil, hnodeCount, hedgeCount, hclassCount, hnodeBreaks, hedgeBreaks, hclassBreaks,
    hstart, hblank, hstyles, hend, hstyleCount]
  omega

theorem length_resourceLines {ls : List String} (hname : c.name.IsText)
    (h : resourceLines c = .ok ls) :
    ls.length = 4 ∧ (ls.map breaks).sum = breaks c.name.display := by
  obtain ⟨s, hs⟩ := hname
  obtain ⟨head, hhead, hls⟩ := Partial.bind_eq_ok.mp h
  cases hls
  rw [hs] at hhead ⊢
  have hrest : breaks " <<resource>> \x7b" = 0 ∧
      (["  +value: u64", "\x7d", ""].map breaks).sum = 0 := by decide
  refine ⟨rfl, ?_⟩
  rw [List.map_cons, List.sum_cons, breaks_append, hrest.1, hrest.2, breaks_classHead hhead]
  rfl

theorem length_objectLines {ls : List String} (hname : c.name.IsText)
    (h : d.objectLines c = .ok ls) :
    ls.length = 4 + (d.targetsOfKind c (.text "resource")).length ∧
      (ls.map breaks).sum = breaks c.name.display +
        2 * ((d.targetsOfKind c (.text "resource")).map fun t => breaks t.name.display).sum := by
  obtain ⟨s, hs⟩ := hname
  obtain ⟨head, hhead, hrest⟩ := Partial.bind_eq_ok.mp h
  obtain ⟨fields, hfields, hls⟩ := Partial.bind_eq_ok.mp hrest
  cases hls
  rw [hs] at hhead ⊢
  have hcount : fields.length = (d.targetsOfKind c (.text "resource")).length :=
    (Partial.mapM_eq_ok.mp hfields).length_eq.symm
  have hbreaks : fields.map breaks =
      (d.targetsOfKind c (.text "resource")).map fun t => 2 * breaks t.name.display :=
    Partial.map_eq_map_of_mapM hfields fun t _ l hl => (shows_fieldLine hl).2
  have hframe : breaks " \x7b" = 0 ∧ breaks "  +id: UID" = 0 ∧ breaks "\x7d" = 0 ∧
      breaks "" = 0 := by decide
  simp only [List.map_append, List.sum_append, List.length_append, List.length_cons,
    List.length_nil, List.map_cons, List.sum_cons, List.map_nil, List.sum_nil, breaks_append,
    hcount, hbreaks, hframe, breaks_classHead hhead, List.sum_map_mul_left, display_text]
  exact ⟨by omega, by omega⟩

/-- The lines of the classes of all objects. -/
theorem length_flatten_objects (hname : ∀ c ∈ d.components, c.name.IsText)
    {objects : List (List String)}
    (h : (d.ofKind (.text "object")).mapM d.objectLines = .ok objects) :
    objects.flatten.length = 4 * (d.ofKind (.text "object")).length + d.fieldResources.length ∧
      (objects.flatten.map breaks).sum =
        ((d.ofKind (.text "object")).map fun c => breaks c.name.display).sum +
          2 * (d.fieldResources.map fun t => breaks t.name.display).sum := by
  have hobject {c : Component} (hc : c ∈ d.ofKind (.text "object")) : c.name.IsText :=
    hname c (List.mem_of_mem_filter hc)
  have hcount : objects.map List.length = (d.ofKind (.text "object")).map fun c =>
      4 + (d.targetsOfKind c (.text "resource")).length :=
    Partial.map_eq_map_of_mapM h fun c hc ls hls => (length_objectLines (hobject hc) hls).1
  have hbreaks : objects.map (fun ls => (ls.map breaks).sum) =
      (d.ofKind (.text "object")).map fun c => breaks c.name.display +
        2 * ((d.targetsOfKind c (.text "resource")).map fun t => breaks t.name.display).sum :=
    Partial.map_eq_map_of_mapM h fun c hc ls hls => (length_objectLines (hobject hc) hls).2
  unfold fieldResources
  constructor
  · rw [List.length_flatten, hcount, List.length_flatMap, List.sum_map_add, List.map_const',
      List.sum_replicate_nat, Nat.mul_comm]
  · rw [List.map_flatten, List.sum_flatten, List.map_map, Function.comp_def, hbreaks,
      List.sum_map_add, List.sum_map_mul_left, List.map_flatMap, List.flatMap, List.sum_flatten,
      List.map_map]
    rfl

/-- The lines of the classes of all resources. -/
theorem length_flatten_resources (hname : ∀ c ∈ d.components, c.name.IsText)
    {resources : List (List String)}
    (h : (d.ofKind (.text "resource")).mapM resourceLines = .ok resources) :
    resources.flatten.length = 4 * (d.ofKind (.text "resource")).length ∧
      (resources.flatten.map breaks).sum =
        ((d.ofKind (.text "resource")).map fun c => breaks c.name.display).sum := by
  have hresource {c : Component} (hc : c ∈ d.ofKind (.text "resource")) : c.name.IsText :=
    hname c (List.mem_of_mem_filter hc)
  have hcount : resources.map List.length = (d.ofKind (.text "resource")).map fun _ => 4 :=
    Partial.map_eq_map_of_mapM h fun c hc ls hls => (length_resourceLines (hresource hc) hls).1
  have hbreaks : resources.map (fun ls => (ls.map breaks).sum) =
      (d.ofKind (.text "resource")).map fun c => breaks c.name.display :=
    Partial.map_eq_map_of_mapM h fun c hc ls hls => (length_resourceLines (hresource hc) hls).2
  constructor
  · rw [List.length_flatten, hcount, List.map_const', List.sum_replicate_nat,
      Nat.mul_comm]
  · rw [List.map_flatten, List.sum_flatten, List.map_map, Function.comp_def, hbreaks]

/-- The lines of PlantUML: four, four for each object and for each resource, one for each field and
each connection to a component, and one for each line break in the title, in the name of a class and
twice in that of a field. -/
theorem length_textLines_plantUml (hname : ∀ c ∈ d.components, c.name.IsText) {s : String}
    (h : d.plantUml = .ok s) :
    (textLines s).length =
      4 + 4 * ((d.ofKind (.text "object")).length + (d.ofKind (.text "resource")).length) +
        d.fieldResources.length + d.resolved.length +
      (breaks d.name.display +
        ((d.ofKind (.text "object")).map fun c => breaks c.name.display).sum +
        ((d.ofKind (.text "resource")).map fun c => breaks c.name.display).sum +
        2 * (d.fieldResources.map fun c => breaks c.name.display).sum) := by
  obtain ⟨lines, hlines, rfl⟩ := Partial.map_eq_ok.mp h
  obtain ⟨objects, hobjects, hrest⟩ := Partial.bind_eq_ok.mp hlines
  obtain ⟨resources, hresources, hrest⟩ := Partial.bind_eq_ok.mp hrest
  obtain ⟨references, hreferences, hlines⟩ := Partial.bind_eq_ok.mp hrest
  cases hlines
  unfold referenceLines at hreferences
  rw [flatMap_targets_eq_resolved] at hreferences
  have hreferenceCount : references.length = d.resolved.length :=
    (Partial.mapM_eq_ok.mp hreferences).length_eq.symm
  have hreferenceBreaks : (references.map breaks).sum = 0 := by
    refine sum_breaks_eq_zero fun l hl => ?_
    obtain ⟨e, -, hline⟩ := Partial.exists_of_mem_mapM hreferences hl
    exact (shows_referenceLine hline).2
  have hstart : (["@startuml", "title " ++ d.name.display, ""].map breaks).sum =
      breaks d.name.display := by
    have hframe : breaks "@startuml" = 0 ∧ breaks "title " = 0 ∧ breaks "" = 0 := by decide
    simp only [List.map_cons, List.sum_cons, List.map_nil, List.sum_nil, breaks_append, hframe,
      Nat.zero_add, Nat.add_zero]
  have hend : (["@enduml"].map breaks).sum = 0 := by decide
  obtain ⟨hobjectCount, hobjectBreaks⟩ := length_flatten_objects hname hobjects
  obtain ⟨hresourceCount, hresourceBreaks⟩ := length_flatten_resources hname hresources
  rw [length_textLines_joinLines (by simp)]
  simp only [List.map_append, List.sum_append, List.length_append, hobjectCount, hobjectBreaks,
    hresourceCount, hresourceBreaks, hreferenceCount, hreferenceBreaks, hstart, hend,
    List.length_cons, List.length_nil]
  omega

end Count

section Renaming

def NameLine (d : Design) (l : String) : Prop :=
  Unbroken l ∧ ∃ c ∈ d.components, Shows c.name.display l

def SameButNames (d d' : Design) (l l' : String) : Prop := l = l' ∨ d.NameLine l ∧ d'.NameLine l'

def Counterparts (d d' : Design) (c c' : Component) : Prop :=
  c ∈ d.components ∧ c' ∈ d'.components ∧ c.Renamed c'

theorem sameButNames_refl (ls : List String) : List.Forall₂ (d.SameButNames d') ls ls :=
  List.forall₂_same.mpr fun _ _ => .inl rfl

theorem Renamed.counterparts (h : d.Renamed d') :
    List.Forall₂ (d.Counterparts d') d.components d'.components := by
  have hright : List.Forall₂ (fun c c' => c' ∈ d'.components ∧ c.Renamed c') d.components
      d'.components :=
    ((List.forall₂_and_left _ _).mpr ⟨fun _ hc => hc, h.components.flip⟩).flip
  exact (List.forall₂_and_left _ _).mpr ⟨fun _ hc => hc, hright⟩

theorem Counterparts.eqs (h : d.Counterparts d' c c') :
    c'.id = c.id ∧ c'.kind = c.kind ∧ c'.connections = c.connections := by
  have hsame : c' = { c with name := c'.name } := h.2.2
  rw [hsame]
  exact ⟨rfl, rfl, rfl⟩

theorem Counterparts.kind_iff (h : d.Counterparts d' c c') (kind : Json) :
    (c.kind == kind) = true ↔ (c'.kind == kind) = true := by
  rw [h.eqs.2.1]

/-- What is found first in two lists is related like the items of these. -/
theorem rel_find? {α β : Type} {R : α → β → Prop} {p : α → Bool} {q : β → Bool} {as : List α}
    {bs : List β} (h : List.Forall₂ R as bs) (hpq : ∀ a b, R a b → p a = q b) :
    Option.Rel R (as.find? p) (bs.find? q) := by
  induction h with
  | nil => exact .none
  | cons hR _ ih =>
    rw [List.find?_cons, List.find?_cons, hpq _ _ hR]
    split
    · exact .some hR
    · exact ih

/-- The same id leads to counterparts. -/
theorem Renamed.find? (h : d.Renamed d') (v : Json) :
    Option.Rel (d.Counterparts d') (d.find? v) (d'.find? v) :=
  rel_find? h.counterparts fun c c' hc => by rw [hc.eqs.1]

theorem Renamed.ofKind (h : d.Renamed d') (kind : Json) :
    List.Forall₂ (d.Counterparts d') (d.ofKind kind) (d'.ofKind kind) :=
  List.rel_filter (fun _ _ hc => hc.kind_iff kind) h.counterparts

theorem Renamed.targets (h : d.Renamed d') (hc : d.Counterparts d' c c') :
    List.Forall₂ (d.Counterparts d') (d.targets c) (d'.targets c') := by
  unfold Design.targets
  rw [hc.eqs.2.2]
  refine List.rel_filterMap (R := (· = ·)) (fun v v' hv => ?_) (List.forall₂_eq_eq_eq ▸ rfl)
  rw [← hv]
  exact h.find? v

theorem Renamed.targetsOfKind (h : d.Renamed d') (hc : d.Counterparts d' c c') (kind : Json) :
    List.Forall₂ (d.Counterparts d') (d.targetsOfKind c kind) (d'.targetsOfKind c' kind) :=
  List.rel_filter (fun _ _ ht => ht.kind_iff kind) (h.targets hc)

/-- Where lines that differ have no breaks, the lines of texts that are put together from them
differ as they do. -/
theorem forall₂_textLines_joinLines {ls ls' : List String} (hne : ls ≠ []) (hne' : ls' ≠ [])
    (h : List.Forall₂ (d.SameButNames d') ls ls') :
    List.Forall₂ (d.SameButNames d') (textLines (joinLines ls)) (textLines (joinLines ls')) := by
  rw [textLines_joinLines hne, textLines_joinLines hne']
  refine List.rel_flatMap h fun l l' hl => ?_
  rcases hl with rfl | ⟨hl, hl'⟩
  · exact sameButNames_refl _
  · rw [textLines_of_unbroken hl.1, textLines_of_unbroken hl'.1]
    exact .cons (.inr ⟨hl, hl'⟩) .nil

/-! Lines that show the name of a component. -/

section NameLine

variable {l : String} (hone : d.OneLined) (hc : c ∈ d.components)
include hone hc

theorem nameLine_nodeLine (h : nodeLine c = .ok l) : d.NameLine l := by
  obtain ⟨hshows, hbreaks⟩ := shows_nodeLine h
  rw [breaks_eq_zero_iff.mpr (hone c hc), breaks_eq_zero_iff] at hbreaks
  exact ⟨hbreaks, c, hc, hshows⟩

theorem nameLine_fieldLine (h : fieldLine c = .ok l) : d.NameLine l := by
  obtain ⟨hshows, hbreaks⟩ := shows_fieldLine h
  rw [breaks_eq_zero_iff.mpr (hone c hc), Nat.mul_zero, breaks_eq_zero_iff] at hbreaks
  exact ⟨hbreaks, c, hc, hshows⟩

theorem nameLine_classHead (h : classHead c.name = .ok l) {after : String}
    (hafter : Unbroken after) : d.NameLine (l ++ after) := by
  obtain ⟨s, hs, -⟩ := Partial.bind_eq_ok.mp h
  have hname := eq_text_of_asText hs
  have hunbroken : Unbroken s := by
    have hone := hone c hc
    rwa [hname, display_text] at hone
  rw [hname] at h
  have hbreaks := breaks_classHead h
  rw [breaks_eq_zero_iff.mpr hunbroken, breaks_eq_zero_iff] at hbreaks
  refine ⟨unbroken_append.mpr ⟨hbreaks, hafter⟩, c, hc, ?_⟩
  rw [hname, display_text]
  exact .head h after

omit hone in
theorem nameLine_referenceLine (h : referenceLine c t = .ok l) : d.NameLine l := by
  obtain ⟨hshows, hunbroken⟩ := shows_referenceLine h
  exact ⟨hunbroken, c, hc, hshows⟩

end NameLine

variable (hone : d.OneLined) (hone' : d'.OneLined)
include hone hone'

theorem Counterparts.resourceLines (hc : d.Counterparts d' c c') {ls ls' : List String}
    (h : resourceLines c = .ok ls) (h' : Diagram.resourceLines c' = .ok ls') :
    List.Forall₂ (d.SameButNames d') ls ls' := by
  obtain ⟨head, hhead, hls⟩ := Partial.bind_eq_ok.mp h
  obtain ⟨head', hhead', hls'⟩ := Partial.bind_eq_ok.mp h'
  cases hls
  cases hls'
  have hafter : Unbroken " <<resource>> \x7b" := by decide
  exact .cons (.inr ⟨nameLine_classHead hone hc.1 hhead hafter,
    nameLine_classHead hone' hc.2.1 hhead' hafter⟩) (sameButNames_refl _)

theorem Renamed.objectLines (hd : d.Renamed d') (hc : d.Counterparts d' c c')
    {ls ls' : List String} (h : d.objectLines c = .ok ls) (h' : d'.objectLines c' = .ok ls') :
    List.Forall₂ (d.SameButNames d') ls ls' := by
  obtain ⟨head, hhead, hrest⟩ := Partial.bind_eq_ok.mp h
  obtain ⟨fields, hfields, hls⟩ := Partial.bind_eq_ok.mp hrest
  obtain ⟨head', hhead', hrest'⟩ := Partial.bind_eq_ok.mp h'
  obtain ⟨fields', hfields', hls'⟩ := Partial.bind_eq_ok.mp hrest'
  cases hls
  cases hls'
  have hafter : Unbroken " \x7b" := by decide
  have hlines : List.Forall₂ (d.SameButNames d') fields fields' :=
    Partial.forall₂_mapM (hd.targetsOfKind hc _) hfields hfields' fun t t' l l' ht hl hl' =>
      .inr ⟨nameLine_fieldLine hone ht.1 hl, nameLine_fieldLine hone' ht.2.1 hl'⟩
  refine List.rel_append (List.rel_append (.cons ?_ (sameButNames_refl _)) hlines)
    (sameButNames_refl _)
  exact .inr ⟨nameLine_classHead hone hc.1 hhead hafter,
    nameLine_classHead hone' hc.2.1 hhead' hafter⟩

omit hone hone' in
theorem Renamed.referenceLines (hd : d.Renamed d') {ls ls' : List String}
    (h : d.referenceLines = .ok ls) (h' : d'.referenceLines = .ok ls') :
    List.Forall₂ (d.SameButNames d') ls ls' := by
  have hpairs : List.Forall₂ (fun e e' => d.Counterparts d' e.1 e'.1)
      (d.components.flatMap fun c => (d.targets c).map fun t => (c, t))
      (d'.components.flatMap fun c => (d'.targets c).map fun t => (c, t)) :=
    List.rel_flatMap hd.counterparts fun c c' hc =>
      List.rel_map (P := fun e e' : Component × Component => d.Counterparts d' e.1 e'.1)
        (fun _ _ _ => hc) (hd.targets hc)
  exact Partial.forall₂_mapM hpairs h h' fun e e' l l' he hl hl' =>
    .inr ⟨nameLine_referenceLine he.1 hl, nameLine_referenceLine he.2.1 hl'⟩

/-- PlantUML of renamed designs differs in lines that show names. -/
theorem Renamed.plantUml (hd : d.Renamed d') {s s' : String} (h : d.plantUml = .ok s)
    (h' : d'.plantUml = .ok s') :
    List.Forall₂ (d.SameButNames d') (textLines s) (textLines s') := by
  obtain ⟨lines, hlines, rfl⟩ := Partial.map_eq_ok.mp h
  obtain ⟨lines', hlines', rfl⟩ := Partial.map_eq_ok.mp h'
  obtain ⟨objects, hobjects, hrest⟩ := Partial.bind_eq_ok.mp hlines
  obtain ⟨resources, hresources, hrest⟩ := Partial.bind_eq_ok.mp hrest
  obtain ⟨references, hreferences, hls⟩ := Partial.bind_eq_ok.mp hrest
  obtain ⟨objects', hobjects', hrest'⟩ := Partial.bind_eq_ok.mp hlines'
  obtain ⟨resources', hresources', hrest'⟩ := Partial.bind_eq_ok.mp hrest'
  obtain ⟨references', hreferences', hls'⟩ := Partial.bind_eq_ok.mp hrest'
  cases hls
  cases hls'
  have hobjectLines := List.rel_flatten (Partial.forall₂_mapM (hd.ofKind _) hobjects hobjects'
    fun c c' ls ls' hc => hd.objectLines hone hone' hc)
  have hresourceLines := List.rel_flatten (Partial.forall₂_mapM (hd.ofKind _) hresources
    hresources' fun c c' ls ls' hc => hc.resourceLines hone hone')
  rw [hd.name]
  refine forall₂_textLines_joinLines (by simp) (by simp) ?_
  exact List.rel_append (List.rel_append (List.rel_append (List.rel_append (sameButNames_refl _)
    hobjectLines) hresourceLines) (hd.referenceLines hreferences hreferences'))
    (sameButNames_refl _)

omit hone hone' in
/-- Edges in Mermaid show no names. -/
theorem Renamed.mermaidEdges_eq (hd : d.Renamed d') : d.mermaidEdges = d'.mermaidEdges := by
  refine Partial.mapM_congr_forall₂ (List.rel_flatMap hd.counterparts fun c c' hc => ?_)
  rw [hc.eqs.2.2]
  refine List.rel_map (R := (· = ·)) (fun v v' hv => ?_) (List.forall₂_eq_eq_eq ▸ rfl)
  unfold edgeLine
  rw [hc.eqs.1, hv]

omit hone hone' in
theorem Renamed.mapM_classLine (hd : d.Renamed d') :
    d.components.mapM classLine = d'.components.mapM classLine := by
  refine Partial.mapM_congr_forall₂ (hd.counterparts.imp fun c c' hc => ?_)
  unfold classLine
  rw [hc.eqs.1, hc.eqs.2.1]

/-- Mermaid of renamed designs differs in lines that show names. -/
theorem Renamed.mermaid (hd : d.Renamed d') {s s' : String} (h : d.mermaid = .ok s)
    (h' : d'.mermaid = .ok s') :
    List.Forall₂ (d.SameButNames d') (textLines s) (textLines s') := by
  obtain ⟨lines, hlines, rfl⟩ := Partial.map_eq_ok.mp h
  obtain ⟨lines', hlines', rfl⟩ := Partial.map_eq_ok.mp h'
  obtain ⟨nodes, hnodes, hrest⟩ := Partial.bind_eq_ok.mp hlines
  obtain ⟨edges, hedges, hrest⟩ := Partial.bind_eq_ok.mp hrest
  obtain ⟨classes, hclasses, hls⟩ := Partial.bind_eq_ok.mp hrest
  obtain ⟨nodes', hnodes', hrest'⟩ := Partial.bind_eq_ok.mp hlines'
  rw [← hd.mermaidEdges_eq, ← hd.mapM_classLine, hedges, hclasses] at hrest'
  cases hls
  cases hrest'
  have hnodeLines : List.Forall₂ (d.SameButNames d') nodes nodes' :=
    Partial.forall₂_mapM hd.counterparts hnodes hnodes' fun c c' l l' hc hl hl' =>
      .inr ⟨nameLine_nodeLine hone hc.1 hl, nameLine_nodeLine hone' hc.2.1 hl'⟩
  refine forall₂_textLines_joinLines (by simp) (by simp) ?_
  simp only [List.append_assoc]
  exact List.rel_append (sameButNames_refl _) (List.rel_append hnodeLines (sameButNames_refl _))

end Renaming

/-- Diagrams of a design of known kinds have just the lines of its components and connections, and
one more for each line break in what they show of a name; and where names have none, the diagrams of
renamed designs differ only in lines that show a name. -/
theorem Spelled.textLines_diagrams (h : d.Spelled) (hkind : d.KnownKinds) :
    (∃ s, d.mermaid = .ok s ∧ (textLines s).length =
      10 + 2 * d.components.length + d.links.length +
        (d.components.map fun c => breaks c.name.display).sum) ∧
    (∃ s, d.plantUml = .ok s ∧ (textLines s).length =
      4 + 4 * ((d.ofKind (.text "object")).length + (d.ofKind (.text "resource")).length) +
        d.fieldResources.length + d.resolved.length +
      (breaks d.name.display +
        ((d.ofKind (.text "object")).map fun c => breaks c.name.display).sum +
        ((d.ofKind (.text "resource")).map fun c => breaks c.name.display).sum +
        2 * (d.fieldResources.map fun c => breaks c.name.display).sum)) ∧
    ∀ d', d.Renamed d' → d'.Spelled → d.OneLined → d'.OneLined →
      (∃ s s', d.mermaid = .ok s ∧ d'.mermaid = .ok s' ∧
        List.Forall₂ (d.SameButNames d') (textLines s) (textLines s')) ∧
      ∃ s s', d.plantUml = .ok s ∧ d'.plantUml = .ok s' ∧
        List.Forall₂ (d.SameButNames d') (textLines s) (textLines s') := by
  obtain ⟨mermaid, hmermaid⟩ := h.exists_mermaid
  obtain ⟨uml, huml⟩ := h.exists_plantUml
  refine ⟨⟨mermaid, hmermaid, length_textLines_mermaid hkind hmermaid⟩,
    ⟨uml, huml, length_textLines_plantUml (fun c hc => (h c hc).name) huml⟩,
    fun d' hrenamed h' hone hone' => ?_⟩
  obtain ⟨mermaid', hmermaid'⟩ := h'.exists_mermaid
  obtain ⟨uml', huml'⟩ := h'.exists_plantUml
  exact ⟨⟨mermaid, mermaid', hmermaid, hmermaid', hrenamed.mermaid hone hone' hmermaid hmermaid'⟩,
    uml, uml', huml, huml', hrenamed.plantUml hone hone' huml huml'⟩

theorem knownKinds_bankNamed (id id' name name' : String) :
    (bankNamed id id' name name').KnownKinds :=
  List.forall_mem_cons.mpr ⟨⟨kindStyles[1], List.getElem_mem _, rfl⟩,
    List.forall_mem_singleton.mpr ⟨kindStyles[2], List.getElem_mem _, rfl⟩⟩

/-- The vault has a field for the coin. -/
theorem classes_bankNamed (name name' : String) :
    let d := bankNamed "a" "b" name name'
    d.ofKind (.text "object") = d.components.take 1 ∧
      d.ofKind (.text "resource") = d.components.drop 1 ∧
      d.fieldResources = d.components.drop 1 ∧ d.resolved.length = 1 := by
  simp [bankNamed, fieldResources, targetsOfKind, targets, ofKind, resolved, links, Design.find?]

/-- Two names are replaced by two others. -/
theorem textLines_diagrams_bank :
    let d := bankNamed "a" "b" "Gold Vault" "Coin"
    let d' := bankNamed "a" "b" "Safe" "Purse"
    d.Spelled ∧ d.KnownKinds ∧ (∃ s, d.mermaid = .ok s ∧ (textLines s).length = 16) ∧
      (∃ s, d.plantUml = .ok s ∧ (textLines s).length = 14) ∧
      d.Renamed d' ∧ d'.Spelled ∧ d.OneLined ∧ d'.OneLined ∧
      (∃ s s', d.mermaid = .ok s ∧ d'.mermaid = .ok s' ∧
        List.Forall₂ (d.SameButNames d') (textLines s) (textLines s')) ∧
      ∃ s s', d.plantUml = .ok s ∧ d'.plantUml = .ok s' ∧
        List.Forall₂ (d.SameButNames d') (textLines s) (textLines s') := by
  intro d d'
  have hspelled : d.Spelled := (distinguished_bankNamed (by decide) (by decide)).spelled
  have hspelled' : d'.Spelled := (distinguished_bankNamed (by decide) (by decide)).spelled
  have hkind : d.KnownKinds := knownKinds_bankNamed _ _ _ _
  have hrenamed : d.Renamed d' := ⟨rfl, .cons rfl (.cons rfl .nil)⟩
  have hone : d.OneLined := List.forall_mem_cons.mpr ⟨by decide, by decide⟩
  have hone' : d'.OneLined := List.forall_mem_cons.mpr ⟨by decide, by decide⟩
  obtain ⟨hobjects, hresources, hfields, hresolved⟩ := classes_bankNamed "Gold Vault" "Coin"
  obtain ⟨⟨s, hs, hlength⟩, ⟨s', hs', hlength'⟩, hdiagrams⟩ := hspelled.textLines_diagrams hkind
  rw [hobjects, hresources, hfields, hresolved] at hlength'
  exact ⟨hspelled, hkind, ⟨s, hs, hlength.trans (by decide)⟩,
    ⟨s', hs', hlength'.trans (by decide)⟩, hrenamed, hspelled', hone, hone',
    hdiagrams d' hrenamed hspelled' hone hone'⟩

/-- A line break in the name of a resource adds a line to Mermaid, and three lines to PlantUML, where
the name stands in a class and twice in a field. -/
theorem textLines_diagrams_brokenName :
    let d := bankNamed "a" "b" "Vault" "Coin\nCoin --> Vault"
    d.Spelled ∧ d.KnownKinds ∧
      (∃ s, d.mermaid = .ok s ∧
        (textLines s).length = 10 + 2 * d.components.length + d.links.length + 1) ∧
      ∃ s, d.plantUml = .ok s ∧
        (textLines s).length =
          4 + 4 * ((d.ofKind (.text "object")).length + (d.ofKind (.text "resource")).length) +
            d.fieldResources.length + d.resolved.length + 3 := by
  intro d
  have hspelled : d.Spelled := (distinguished_bankNamed (by decide) (by decide)).spelled
  have hkind : d.KnownKinds := knownKinds_bankNamed _ _ _ _
  obtain ⟨s, hs⟩ := hspelled.exists_mermaid
  obtain ⟨s', hs'⟩ := hspelled.exists_plantUml
  obtain ⟨hobjects, hresources, hfields, hresolved⟩ :=
    classes_bankNamed "Vault" "Coin\nCoin --> Vault"
  have hlength' := length_textLines_plantUml (fun c hc => (hspelled c hc).name) hs'
  refine ⟨hspelled, hkind, ⟨s, hs, length_textLines_mermaid hkind hs⟩, s', hs', ?_⟩
  rw [hobjects, hresources, hfields, hresolved] at hlength' ⊢
  exact hlength'.trans (by decide)

end Design

end MoveWorkbench
