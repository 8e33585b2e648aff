import MoveWorkbench.Proofs.Design.Renderable
import MoveWorkbench.Proofs.Design.Sound
import MoveWorkbench.Proofs.Text.Lines
import MoveWorkbench.Proofs.Text.Word

/-!
The edges of a design in its diagrams and among its problems. An arrow has hyphens. Words have
none, and nor has anything else in a diagram but the kinds of components, which stand in Mermaid
as they are. So the lines with an arrow are those of the edges and those that kinds bring in.
PlantUML has an edge for each connection to a component, and each other connection is a problem.
-/

namespace MoveWorkbench

namespace Diagram

def arrow : List Char := [' ', '-', '-', '>', ' ']

def edgeLines (s : String) : List String :=
  ((Text.lines s.toList).filter (Text.occursIn arrow)).map String.ofList

theorem edgeLines_joinLines {ls : List String} (h : ls ≠ []) :
    edgeLines (Text.joinLines ls) = ls.flatMap edgeLines := by
  unfold edgeLines
  rw [Text.lines_joinLines h, List.filter_flatMap, List.map_flatMap]

def Unhyphenated (s : String) : Prop := '-' ∉ s.toList

instance (s : String) : Decidable (Unhyphenated s) := inferInstanceAs (Decidable (_ ∉ _))

@[simp] theorem unhyphenated_append {s t : String} :
    Unhyphenated (s ++ t) ↔ Unhyphenated s ∧ Unhyphenated t := by
  simp [Unhyphenated]

theorem Unhyphenated.edgeLines_eq {s : String} (h : Unhyphenated s) : edgeLines s = [] := by
  unfold edgeLines
  rw [List.map_eq_nil_iff, List.filter_eq_nil_iff]
  intro line hline harrow
  rw [Text.occursIn_iff] at harrow
  have hmem : '-' ∈ line := harrow.subset (by decide)
  exact h (Text.mem_of_mem_split hline hmem)

theorem flatMap_edgeLines_eq_nil {ls : List String} (h : ∀ l ∈ ls, Unhyphenated l) :
    ls.flatMap edgeLines = [] :=
  List.flatMap_eq_nil_iff.mpr fun l hl => (h l hl).edgeLines_eq

/-- Where each text is one line with an arrow, these are all. -/
theorem flatMap_edgeLines_eq_self {ls : List String} (h : ∀ l ∈ ls, edgeLines l = [l]) :
    ls.flatMap edgeLines = ls := by
  rw [List.flatMap_congr h, List.flatMap_singleton']

/-- What has an arrow between two texts without line breaks is one line. -/
theorem edgeLines_arrow {s t : String} (hs : '\n' ∉ s.toList) (ht : '\n' ∉ t.toList) :
    edgeLines (s ++ " --> " ++ t) = [s ++ " --> " ++ t] := by
  have hline : Text.lines (s ++ " --> " ++ t).toList = [(s ++ " --> " ++ t).toList] := by
    apply Text.split_of_not_mem
    simp [hs, ht]
  have harrow : Text.occursIn arrow (s ++ " --> " ++ t).toList = true := by
    rw [Text.occursIn_iff, String.toList_append, String.toList_append]
    exact List.infix_append _ _ _
  unfold edgeLines
  rw [hline, List.filter_cons_of_pos harrow, List.filter_nil, List.map_singleton,
    String.ofList_toList]

/-- A text in front that ends before a blank brings in no arrow. -/
theorem length_edgeLines_append {front rest : String} (hhyphen : Unhyphenated front)
    (hbreak : '\n' ∉ front.toList) :
    (edgeLines (front ++ " " ++ rest)).length = (edgeLines (" " ++ rest)).length := by
  obtain ⟨first, parts, hparts⟩ :=
    List.exists_cons_of_ne_nil (Text.split_ne_nil '\n' rest.toList)
  have hrest : Text.lines (" " ++ rest).toList = (' ' :: first) :: parts := by
    rw [String.toList_append]
    exact Text.split_append (by decide) hparts
  have hfront : Text.lines (front ++ " " ++ rest).toList =
      (front.toList ++ ' ' :: first) :: parts := by
    rw [String.append_assoc, String.toList_append]
    exact Text.split_append hbreak hrest
  have hoccurs : Text.occursIn arrow (front.toList ++ ' ' :: first) =
      Text.occursIn arrow (' ' :: first) :=
    Text.occursIn_append hhyphen (by simp)
  -- only the first line is another one, and it has an arrow in both cases or in neither
  unfold edgeLines
  rw [hfront, hrest, List.length_map, List.length_map, List.filter_cons, List.filter_cons,
    hoccurs]
  split <;> rfl

end Diagram

namespace Json

def IsWordText (v : Json) : Prop := ∃ s, v = text s ∧ ∀ c ∈ s.toList, Text.isWord c = true

theorem IsWordText.isText {v : Json} (h : v.IsWordText) : v.IsText := by
  obtain ⟨s, rfl, -⟩ := h
  exact ⟨s, rfl⟩

theorem isWordText_text {s : String} (h : s.toList.all Text.isWord = true) :
    (text s).IsWordText :=
  ⟨s, rfl, List.all_eq_true.mp h⟩

end Json

open Json

namespace Diagram

variable {c t : Component} {v : Json} {l : String}

theorem isWord_of_mem_identifier {s : String} {ch : Char} (h : ch ∈ (identifier s).toList) :
    Text.isWord ch = true := by
  unfold identifier at h
  rw [String.toList_ofList] at h
  obtain ⟨ch', -, rfl⟩ := List.mem_map.mp h
  split
  · assumption
  · exact Text.isWord_underscore

theorem identifier_eq_self {s : String} (h : ∀ c ∈ s.toList, Text.isWord c = true) :
    identifier s = s := by
  unfold identifier
  rw [List.map_congr_left fun c hc => if_pos (h c hc), List.map_id', String.ofList_toList]

/-- Words have no hyphens. -/
theorem unhyphenated_of_isWord {s : String} (h : ∀ c ∈ s.toList, Text.isWord c = true) :
    Unhyphenated s := by
  intro hmem
  exact absurd (h '-' hmem) (by decide)

theorem not_mem_of_isWord {s : String} (h : ∀ c ∈ s.toList, Text.isWord c = true) :
    '\n' ∉ s.toList := by
  intro hmem
  exact absurd (h '\n' hmem) (by decide)

theorem unhyphenated_identifier (s : String) : Unhyphenated (identifier s) :=
  unhyphenated_of_isWord fun _ => isWord_of_mem_identifier

theorem exists_eq_identifier (h : identifierOf v = .ok l) :
    ∃ s, v = .text s ∧ l = identifier s := by
  obtain ⟨s, hs, rfl⟩ := Partial.map_eq_ok.mp h
  cases v <;> cases hs
  exact ⟨s, rfl, rfl⟩

theorem unhyphenated_shape {shape : Shape} (h : shapeOf v = .ok shape) :
    Unhyphenated shape.opening ∧ Unhyphenated shape.closing := by
  have hall : ∀ k ∈ kindStyles, Unhyphenated k.shape.opening ∧ Unhyphenated k.shape.closing := by
    decide
  obtain ⟨_, -, hshape⟩ := Partial.bind_eq_ok.mp h
  cases hshape
  cases hfound : kindStyles.find? fun k => v == .text k.kind with
  | none => decide
  | some k => exact hall k (List.mem_of_find?_eq_some hfound)

theorem unhyphenated_replaceQuotes {new : List Char} {s : String} (hnew : '-' ∉ new)
    (hs : Unhyphenated s) : Unhyphenated (replaceQuotes new s) := by
  unfold Unhyphenated replaceQuotes
  rw [String.toList_ofList, List.mem_flatMap]
  rintro ⟨ch, hch, hmem⟩
  split at hmem
  · exact hnew hmem
  · exact hs (List.mem_singleton.mp hmem ▸ hch)

theorem unhyphenated_nodeLine (hname : c.name.IsWordText) (h : nodeLine c = .ok l) :
    Unhyphenated l := by
  obtain ⟨s, hs, hword⟩ := hname
  obtain ⟨shape, hshape, hrest⟩ := Partial.bind_eq_ok.mp h
  obtain ⟨id, hid, hrest⟩ := Partial.bind_eq_ok.mp hrest
  obtain ⟨_, -, rfl⟩ := exists_eq_identifier hid
  rw [hs] at hrest
  cases hrest
  obtain ⟨hopening, hclosing⟩ := unhyphenated_shape hshape
  have hquoted : Unhyphenated (replaceQuotes "#quot;".toList s) :=
    unhyphenated_replaceQuotes (by decide) (unhyphenated_of_isWord hword)
  have hquote : Unhyphenated "\"" := by decide
  have hindent : Unhyphenated "    " := by decide
  simp only [unhyphenated_append]
  exact ⟨⟨⟨⟨hindent, unhyphenated_identifier _⟩, hopening⟩, ⟨hquote, hquoted⟩, hquote⟩, hclosing⟩

/-- The line of an edge is the one line with its arrow. -/
theorem edgeLines_edgeLine (h : edgeLine c v = .ok l) : edgeLines l = [l] := by
  obtain ⟨id, hid, hrest⟩ := Partial.bind_eq_ok.mp h
  obtain ⟨target, htarget, hl⟩ := Partial.bind_eq_ok.mp hrest
  obtain ⟨_, -, rfl⟩ := exists_eq_identifier hid
  obtain ⟨_, -, rfl⟩ := exists_eq_identifier htarget
  cases hl
  apply edgeLines_arrow
  · rw [String.toList_append, List.mem_append, not_or]
    exact ⟨by decide, not_mem_of_isWord fun _ => isWord_of_mem_identifier⟩
  · exact not_mem_of_isWord fun _ => isWord_of_mem_identifier

/-- In the line of a class the kind alone can bring in arrows. -/
theorem length_edgeLines_classLine (h : classLine c = .ok l) :
    (edgeLines l).length = (edgeLines (" " ++ c.kind.display)).length := by
  obtain ⟨id, hid, hl⟩ := Partial.bind_eq_ok.mp h
  obtain ⟨_, -, rfl⟩ := exists_eq_identifier hid
  cases hl
  apply length_edgeLines_append
  · exact unhyphenated_append.mpr ⟨by decide, unhyphenated_identifier _⟩
  · rw [String.toList_append, List.mem_append, not_or]
    exact ⟨by decide, not_mem_of_isWord fun _ => isWord_of_mem_identifier⟩

theorem unhyphenated_styleLine : ∀ l ∈ kindStyles.map styleLine, Unhyphenated l := by
  have hparts : ∀ k ∈ kindStyles, Unhyphenated k.kind ∧ Unhyphenated k.style := by decide
  refine List.forall_mem_map.mpr fun k hk => ?_
  obtain ⟨hkind, hstyle⟩ := hparts k hk
  unfold styleLine
  rw [unhyphenated_append, unhyphenated_append, unhyphenated_append]
  exact ⟨⟨⟨by decide, hkind⟩, by decide⟩, hstyle⟩

theorem unhyphenated_classHead (hname : v.IsWordText) (h : classHead v = .ok l) :
    Unhyphenated l := by
  obtain ⟨s, rfl, hword⟩ := hname
  have hl : l = "class " ++ s := by
    cases h
    exact if_pos (identifier_eq_self hword)
  rw [hl, unhyphenated_append]
  exact ⟨by decide, unhyphenated_of_isWord hword⟩

theorem unhyphenated_fieldLine (hname : c.name.IsWordText) (h : fieldLine c = .ok l) :
    Unhyphenated l := by
  obtain ⟨s, hs, hword⟩ := hname
  unfold fieldLine at h
  rw [hs] at h
  cases h
  have hname := unhyphenated_of_isWord hword
  have hlower : Unhyphenated (Text.lower s) := fun hmem =>
    hname (Text.mem_of_mem_lower (by decide) (by decide) hmem)
  simp only [unhyphenated_append]
  exact ⟨⟨⟨by decide, hlower⟩, by decide⟩, hname⟩

theorem unhyphenated_resourceLines {lines : List String} (hname : c.name.IsWordText)
    (h : resourceLines c = .ok lines) : ∀ l ∈ lines, Unhyphenated l := by
  obtain ⟨head, hhead, hlines⟩ := Partial.bind_eq_ok.mp h
  cases hlines
  have hclass := unhyphenated_classHead hname hhead
  rw [List.forall_mem_cons, unhyphenated_append]
  exact ⟨⟨hclass, by decide⟩, by decide⟩

theorem referenceLine_eq (hc : c.name.IsWordText) (ht : t.name.IsWordText) :
    referenceLine c t = .ok (c.name.display ++ " --> " ++ t.name.display) := by
  obtain ⟨s, hs, hword⟩ := hc
  obtain ⟨s', hs', hword'⟩ := ht
  unfold referenceLine
  rw [hs, hs', display_text, display_text]
  conv_rhs => rw [← identifier_eq_self hword, ← identifier_eq_self hword']
  rfl

theorem edgeLines_reference (hc : c.name.IsWordText) (ht : t.name.IsWordText) :
    edgeLines (c.name.display ++ " --> " ++ t.name.display) =
      [c.name.display ++ " --> " ++ t.name.display] := by
  obtain ⟨s, hs, hword⟩ := hc
  obtain ⟨s', hs', hword'⟩ := ht
  rw [hs, hs']
  exact edgeLines_arrow (not_mem_of_isWord hword) (not_mem_of_isWord hword')

end Diagram

def Problem.isUnknownTarget : Problem → Bool
  | unknownTarget _ _ => true
  | _ => false

namespace Design

open Diagram

def links (d : Design) : List (Component × Json) :=
  d.components.flatMap fun c => c.connections.map fun v => (c, v)

/-- The connections that lead to components, in the order of all of them. -/
def resolved (d : Design) : List (Component × Component) :=
  d.links.filterMap fun e => (d.find? e.2).map fun t => (e.1, t)

structure NamedInWords (d : Design) : Prop where
  name : d.name.IsWordText
  id : ∀ c ∈ d.components, c.id.IsText
  components : ∀ c ∈ d.components, c.name.IsWordText

variable {d : Design}

theorem flatMap_targets_eq_resolved :
    (d.components.flatMap fun c => (d.targets c).map fun t => (c, t)) = d.resolved := by
  unfold resolved links targets
  rw [List.filterMap_flatMap]
  simp only [List.filterMap_map, List.map_filterMap, Function.comp_def]

theorem dangling_eq_map_filter (ids : List Key) :
    d.dangling ids = (d.links.filter fun e => !ids.any e.2.hasKey).map fun e =>
      .unknownTarget e.1.name e.2 := by
  unfold dangling links
  rw [List.filter_flatMap, List.map_flatMap]
  simp only [List.filter_map, List.map_map, Function.comp_def]

theorem mem_components_of_mem_resolved {e : Component × Component} (h : e ∈ d.resolved) :
    e.1 ∈ d.components ∧ e.2 ∈ d.components := by
  rw [← flatMap_targets_eq_resolved] at h
  obtain ⟨c, hc, he⟩ := List.mem_flatMap.mp h
  obtain ⟨t, ht, rfl⟩ := List.mem_map.mp he
  exact ⟨hc, mem_of_mem_targets ht⟩

/-- An id is known to the validation just when the diagram finds its component. -/
theorem any_hasKey_eq_isSome (hid : ∀ c ∈ d.components, c.id.IsText) {v : Json} (hv : v.IsAtom) :
    (Ordered.keys d.nodes).any v.hasKey = (d.find? v).isSome := by
  rw [Bool.eq_iff_iff, any_hasKey_iff (fun c hc => (hid c hc).isAtom) hv, find?,
    List.find?_isSome]
  refine exists_congr fun e => and_congr_right fun he => ?_
  obtain ⟨s, hs⟩ := hid e he
  rw [beq_def, hs]
  simp [isNan]

theorem length_filterMap_add_filter {α β : Type} {f : α → Option β} {p : α → Bool} {as : List α}
    (h : ∀ a ∈ as, p a = (f a).isNone) :
    (as.filterMap f).length + (as.filter p).length = as.length := by
  induction as with
  | nil => rfl
  | cons a as ih =>
    rw [List.forall_mem_cons] at h
    have hrest := ih h.2
    cases hfa : f a with
    | none =>
      rw [List.filterMap_cons_none hfa, List.filter_cons_of_pos (by simp [h.1, hfa]),
        List.length_cons, List.length_cons]
      omega
    | some b =>
      rw [List.filterMap_cons_some hfa, List.filter_cons_of_neg (by simp [h.1, hfa]),
        List.length_cons, List.length_cons]
      omega

/-- Each connection leads to a component or is a problem. -/
theorem length_links (hid : ∀ c ∈ d.components, c.id.IsText) (hlinked : d.Linked) :
    d.links.length = d.resolved.length + (d.dangling (Ordered.keys d.nodes)).length := by
  rw [dangling_eq_map_filter, List.length_map]
  refine (length_filterMap_add_filter fun e he => ?_).symm
  obtain ⟨c, hc, he⟩ := List.mem_flatMap.mp he
  obtain ⟨v, hv, rfl⟩ := List.mem_map.mp he
  rw [any_hasKey_eq_isSome hid (hlinked c hc v hv)]
  cases d.find? v <;> rfl

/-- The problems with connections are those of the connections that lead nowhere. -/
theorem countP_problems {ps : List Problem} (h : d.problems = .ok ps) :
    ps.countP (·.isUnknownTarget) = (d.dangling (Ordered.keys d.nodes)).length := by
  obtain ⟨hlabelled, hlinked⟩ := exists_problems_iff.mp ⟨ps, h⟩
  obtain ⟨shared, -, hrest⟩ := Partial.bind_eq_ok.mp h
  obtain ⟨graph, hgraph, hps⟩ := Partial.bind_eq_ok.mp hrest
  rw [graph_eq_ok fun c hc => ⟨hlabelled.id c hc, hlinked c hc⟩] at hgraph
  cases hgraph
  cases hps
  have hall : ∀ p ∈ d.dangling (Ordered.keys d.nodes), p.isUnknownTarget = true := by
    rw [dangling_eq_map_filter, List.forall_mem_map]
    exact fun _ _ => rfl
  have hshared : (if shared = [] then [] else [Problem.duplicateNames shared]).countP
      (·.isUnknownTarget) = 0 := by
    split <;> rfl
  have hcircular : (if d.nodes.hasCycle then [Problem.circular] else []).countP
      (·.isUnknownTarget) = 0 := by
    split <;> rfl
  rw [List.countP_append, List.countP_append, hshared, hcircular, Nat.add_zero, Nat.zero_add]
  exact List.countP_eq_length.mpr hall

theorem length_edgeLines_classes {cs : List Component} {classes : List String}
    (h : cs.mapM classLine = .ok classes) : (classes.flatMap edgeLines).length =
      (cs.flatMap fun c => edgeLines (" " ++ c.kind.display)).length := by
  have hlengths : cs.map (fun c => (edgeLines (" " ++ c.kind.display)).length) =
      classes.map fun l => (edgeLines l).length := by
    rw [← List.forall₂_eq_eq_eq, List.forall₂_map_left_iff, List.forall₂_map_right_iff]
    exact (Partial.mapM_eq_ok.mp h).imp fun c l hl => (length_edgeLines_classLine hl).symm
  rw [List.length_flatMap, List.length_flatMap, hlengths]

/-- Mermaid has an edge for each connection, and lines with an arrow that kinds bring in. -/
theorem length_edgeLines_mermaid (hname : ∀ c ∈ d.components, c.name.IsWordText) {s : String}
    (h : d.mermaid = .ok s) : (edgeLines s).length = d.links.length +
      (d.components.flatMap fun c => edgeLines (" " ++ c.kind.display)).length := by
  obtain ⟨lines, hlines, rfl⟩ := Partial.map_eq_ok.mp h
  obtain ⟨nodes, hnodes, hrest⟩ := Partial.bind_eq_ok.mp hlines
  obtain ⟨edges, hedges, hrest⟩ := Partial.bind_eq_ok.mp hrest
  obtain ⟨classes, hclasses, hlines⟩ := Partial.bind_eq_ok.mp hrest
  cases hlines
  have hnodeLines : nodes.flatMap edgeLines = [] := by
    refine flatMap_edgeLines_eq_nil fun l hl => ?_
    obtain ⟨c, hc, hline⟩ := Partial.exists_of_mem_mapM hnodes hl
    exact unhyphenated_nodeLine (hname c hc) hline
  have hedgeLines : edges.flatMap edgeLines = edges := by
    refine flatMap_edgeLines_eq_self fun l hl => ?_
    obtain ⟨e, -, hline⟩ := Partial.exists_of_mem_mapM hedges hl
    exact edgeLines_edgeLine hline
  have hedgeCount : edges.length = d.links.length := (Partial.mapM_eq_ok.mp hedges).length_eq.symm
  have hstyles : (kindStyles.map styleLine).flatMap edgeLines = [] :=
    flatMap_edgeLines_eq_nil unhyphenated_styleLine
  have hfence : ["\x60\x60\x60mermaid", "graph TD"].flatMap edgeLines = [] :=
    flatMap_edgeLines_eq_nil (by decide)
  have hblank : [""].flatMap edgeLines = [] := flatMap_edgeLines_eq_nil (by decide)
  have hend : ["\x60\x60\x60"].flatMap edgeLines = [] := flatMap_edgeLines_eq_nil (by decide)
  rw [edgeLines_joinLines (by simp)]
  simp only [List.flatMap_append, hfence, hnodeLines, hedgeLines, hblank, hstyles, hend,
    List.nil_append, List.append_nil, List.length_append, hedgeCount,
    length_edgeLines_classes hclasses]

theorem unhyphenated_objectLines (hname : ∀ c ∈ d.components, c.name.IsWordText) {c : Component}
    (hc : c ∈ d.components) {lines : List String} (h : d.objectLines c = .ok lines) :
    ∀ l ∈ lines, Unhyphenated l := by
  obtain ⟨head, hhead, hrest⟩ := Partial.bind_eq_ok.mp h
  obtain ⟨fields, hfields, hlines⟩ := Partial.bind_eq_ok.mp hrest
  cases hlines
  have hclass := unhyphenated_classHead (hname c hc) hhead
  have hfield : ∀ l ∈ fields, Unhyphenated l := by
    intro l hl
    obtain ⟨r, hr, hline⟩ := Partial.exists_of_mem_mapM hfields hl
    exact unhyphenated_fieldLine (hname r (mem_of_mem_targetsOfKind hr)) hline
  have hstart : ∀ l ∈ [head ++ " \x7b", "  +id: UID"], Unhyphenated l := by
    rw [List.forall_mem_cons, unhyphenated_append]
    exact ⟨⟨hclass, by decide⟩, by decide⟩
  rw [List.forall_mem_append, List.forall_mem_append]
  exact ⟨⟨hstart, hfield⟩, by decide⟩

theorem NamedInWords.referenceLines_eq (h : d.NamedInWords) : d.referenceLines =
    .ok (d.resolved.map fun e => e.1.name.display ++ " --> " ++ e.2.name.display) := by
  unfold referenceLines
  rw [flatMap_targets_eq_resolved]
  refine Partial.mapM_eq_map fun e he => ?_
  obtain ⟨hsource, htarget⟩ := mem_components_of_mem_resolved he
  exact referenceLine_eq (h.components _ hsource) (h.components _ htarget)

/-- PlantUML has the edges of the connections to components. -/
theorem NamedInWords.edgeLines_plantUml (h : d.NamedInWords) : ∃ s, d.plantUml = .ok s ∧
    edgeLines s = d.resolved.map fun e => e.1.name.display ++ " --> " ++ e.2.name.display := by
  obtain ⟨s, hs⟩ := exists_plantUml_of_names fun c hc => (h.components c hc).isText
  refine ⟨s, hs, ?_⟩
  obtain ⟨lines, hlines, rfl⟩ := Partial.map_eq_ok.mp hs
  obtain ⟨objects, hobjects, hrest⟩ := Partial.bind_eq_ok.mp hlines
  obtain ⟨resources, hresources, hrest⟩ := Partial.bind_eq_ok.mp hrest
  obtain ⟨references, hreferences, hlines⟩ := Partial.bind_eq_ok.mp hrest
  cases hlines
  rw [h.referenceLines_eq] at hreferences
  cases hreferences
  have hstart : ["@startuml", "title " ++ d.name.display, ""].flatMap edgeLines = [] := by
    obtain ⟨name, hname, hword⟩ := h.name
    have htitle : Unhyphenated ("title " ++ d.name.display) := by
      rw [hname, unhyphenated_append]
      exact ⟨by decide, unhyphenated_of_isWord hword⟩
    refine flatMap_edgeLines_eq_nil ?_
    rw [List.forall_mem_cons, List.forall_mem_cons]
    exact ⟨by decide, htitle, by decide⟩
  have hobjectLines : objects.flatten.flatMap edgeLines = [] := by
    refine flatMap_edgeLines_eq_nil fun l hl => ?_
    obtain ⟨lines, hlines, hl⟩ := List.mem_flatten.mp hl
    obtain ⟨c, hc, hmade⟩ := Partial.exists_of_mem_mapM hobjects hlines
    exact unhyphenated_objectLines h.components (List.mem_of_mem_filter hc) hmade l hl
  have hresourceLines : resources.flatten.flatMap edgeLines = [] := by
    refine flatMap_edgeLines_eq_nil fun l hl => ?_
    obtain ⟨lines, hlines, hl⟩ := List.mem_flatten.mp hl
    obtain ⟨c, hc, hmade⟩ := Partial.exists_of_mem_mapM hresources hlines
    exact unhyphenated_resourceLines (h.components c (List.mem_of_mem_filter hc)) hmade l hl
  have hreferenceLines := flatMap_edgeLines_eq_self (List.forall_mem_map.mpr
    fun e (he : e ∈ d.resolved) =>
      have hparts := mem_components_of_mem_resolved he
      edgeLines_reference (h.components _ hparts.1) (h.components _ hparts.2))
  have hend : ["@enduml"].flatMap edgeLines = [] := flatMap_edgeLines_eq_nil (by decide)
  rw [edgeLines_joinLines (by simp)]
  simp only [List.flatMap_append, hstart, hobjectLines, hresourceLines, hreferenceLines, hend,
    List.nil_append, List.append_nil]

def bankOf (kind : String) (connections : List Json) (others : List Component) : Design where
  name := .text "Bank"
  description := .null
  components := {
    id := .text "a"
    kind := .text kind
    name := .text "Vault"
    x := .int 0
    y := .int 0
    connections := connections
    properties := [] } :: others

def coin : Component where
  id := .text "b"
  kind := .text "resource"
  name := .text "Coin"
  x := .int 0
  y := .int 0
  connections := [.text "a"]
  properties := []

theorem namedInWords_bankOf {kind : String} {connections : List Json} {others : List Component}
    (h : ∀ c ∈ others, c = coin) : (bankOf kind connections others).NamedInWords := by
  refine ⟨isWordText_text (by decide), ?_, ?_⟩
  · refine List.forall_mem_cons.mpr ⟨⟨"a", rfl⟩, fun c hc => ?_⟩
    rw [h c hc]
    exact ⟨"b", rfl⟩
  · refine List.forall_mem_cons.mpr ⟨isWordText_text (by decide), fun c hc => ?_⟩
    rw [h c hc]
    exact isWordText_text (by decide)

end Design

end MoveWorkbench
