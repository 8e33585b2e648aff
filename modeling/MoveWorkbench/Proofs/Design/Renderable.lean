import MoveWorkbench.Design.Mermaid
import MoveWorkbench.Design.MoveModule
import MoveWorkbench.Design.PlantUml
import MoveWorkbench.Proofs.Design.Problems

/-!
Designs that can be shown. When the ids, kinds and names of all components are texts, and all
connections are, too, then the problems of the design can be told and both diagrams can be drawn.
Code needs a name for its module besides: the one that is given, or the name of the design when
that is a text.
-/

namespace MoveWorkbench

open Json

/-- What a component is referred to by, and what it refers to, is text. -/
structure Component.Spelled (c : Component) : Prop where
  id : c.id.IsText
  kind : c.kind.IsText
  name : c.name.IsText
  connections : ∀ v ∈ c.connections, v.IsText

theorem Component.Exportable.spelled {c : Component} (h : c.Exportable) : c.Spelled := by
  refine ⟨h.id, h.kind, h.name, fun v hv => ?_⟩
  obtain ⟨ss, -, hss⟩ := h.connections
  rw [hss] at hv
  obtain ⟨s, -, rfl⟩ := List.mem_map.mp hv
  exact ⟨s, rfl⟩

def Design.Spelled (d : Design) : Prop := ∀ c ∈ d.components, c.Spelled

theorem Design.Exportable.spelled {d : Design} (h : d.Exportable) : d.Spelled :=
  fun c hc => (h.components c hc).spelled

theorem Json.exists_asText_iff {v : Json} {f : Fault} : (∃ s, v.asText f = .ok s) ↔ v.IsText := by
  cases v <;> simp [asText, IsText]

namespace Diagram

variable {v : Json} {c t : Component}

theorem exists_identifierOf_iff : (∃ s, identifierOf v = .ok s) ↔ v.IsText :=
  Partial.exists_map_eq_ok.trans exists_asText_iff

theorem exists_shapeOf_iff : (∃ shape, shapeOf v = .ok shape) ↔ v.IsAtom := by
  rw [← exists_atom_iff]
  unfold shapeOf
  cases v.atom with
  | error f => exact ⟨fun ⟨_, h⟩ => (nomatch h), fun ⟨_, h⟩ => (nomatch h)⟩
  | ok a => exact iff_of_true ⟨_, rfl⟩ ⟨a, rfl⟩

theorem exists_label_iff : (∃ s, label v = .ok s) ↔ v.IsText := by
  unfold label
  rw [Partial.exists_bind_eq_ok, ← exists_asText_iff]
  exact exists_congr fun s => and_iff_left ⟨_, rfl⟩

theorem exists_classHead (h : v.IsText) : ∃ s, classHead v = .ok s := by
  obtain ⟨s, rfl⟩ := h
  exact ⟨_, rfl⟩

theorem exists_nodeLine_iff :
    (∃ s, nodeLine c = .ok s) ↔ c.kind.IsAtom ∧ c.id.IsText ∧ c.name.IsText := by
  rw [← exists_shapeOf_iff, ← exists_identifierOf_iff, ← exists_label_iff]
  unfold nodeLine
  simp only [Partial.exists_bind_eq_ok]
  constructor
  · rintro ⟨shape, hshape, id, hid, name, hname, -⟩
    exact ⟨⟨shape, hshape⟩, ⟨id, hid⟩, name, hname⟩
  · rintro ⟨⟨shape, hshape⟩, ⟨id, hid⟩, name, hname⟩
    exact ⟨shape, hshape, id, hid, name, hname, _, rfl⟩

theorem exists_edgeLine_iff : (∃ s, edgeLine c v = .ok s) ↔ c.id.IsText ∧ v.IsText := by
  rw [← exists_identifierOf_iff, ← exists_identifierOf_iff]
  unfold edgeLine
  simp only [Partial.exists_bind_eq_ok]
  constructor
  · rintro ⟨id, hid, target, htarget, -⟩
    exact ⟨⟨id, hid⟩, target, htarget⟩
  · rintro ⟨⟨id, hid⟩, target, htarget⟩
    exact ⟨id, hid, target, htarget, _, rfl⟩

theorem exists_classLine_iff : (∃ s, classLine c = .ok s) ↔ c.id.IsText := by
  rw [← exists_identifierOf_iff]
  unfold classLine
  rw [Partial.exists_bind_eq_ok]
  exact exists_congr fun s => and_iff_left ⟨_, rfl⟩

theorem exists_fieldLine (h : c.name.IsText) : ∃ s, fieldLine c = .ok s := by
  obtain ⟨s, hs⟩ := h
  unfold fieldLine
  rw [hs]
  exact ⟨_, rfl⟩

theorem exists_resourceLines (h : c.name.IsText) : ∃ lines, resourceLines c = .ok lines := by
  obtain ⟨head, hhead⟩ := exists_classHead h
  unfold resourceLines
  rw [hhead]
  exact ⟨_, rfl⟩

theorem exists_referenceLine (hc : c.name.IsText) (ht : t.name.IsText) :
    ∃ s, referenceLine c t = .ok s := by
  obtain ⟨source, hsource⟩ := exists_identifierOf_iff.mpr hc
  obtain ⟨target, htarget⟩ := exists_identifierOf_iff.mpr ht
  unfold referenceLine
  rw [hsource, htarget]
  exact ⟨_, rfl⟩

end Diagram

namespace Design

open Diagram

variable {d : Design} {c : Component}

theorem mem_of_mem_targets {t : Component} (ht : t ∈ d.targets c) : t ∈ d.components := by
  obtain ⟨id, -, hid⟩ := List.mem_filterMap.mp ht
  exact List.mem_of_find?_eq_some hid

theorem mem_of_mem_targetsOfKind {kind : Json} {r : Component} (hr : r ∈ d.targetsOfKind c kind) :
    r ∈ d.components :=
  mem_of_mem_targets (List.mem_of_mem_filter hr)

theorem exists_mermaidEdges_iff : (∃ edges, d.mermaidEdges = .ok edges) ↔
    ∀ c ∈ d.components, ∀ v ∈ c.connections, c.id.IsText ∧ v.IsText := by
  unfold mermaidEdges
  rw [Partial.exists_mapM_eq_ok, List.forall_mem_flatMap]
  simp only [List.forall_mem_map, exists_edgeLine_iff]

/-- Mermaid can be drawn just when kinds can be looked up and everything else is text. -/
theorem exists_mermaid_iff : (∃ s, d.mermaid = .ok s) ↔ ∀ c ∈ d.components,
    c.kind.IsAtom ∧ c.id.IsText ∧ c.name.IsText ∧ ∀ v ∈ c.connections, v.IsText := by
  have hparts : (∃ s, d.mermaid = .ok s) ↔ (∃ nodes, d.components.mapM nodeLine = .ok nodes) ∧
      (∃ edges, d.mermaidEdges = .ok edges) ∧
        ∃ classes, d.components.mapM classLine = .ok classes := by
    unfold mermaid mermaidLines
    rw [Partial.exists_map_eq_ok]
    simp only [Partial.exists_bind_eq_ok]
    constructor
    · rintro ⟨nodes, hnodes, edges, hedges, classes, hclasses, -⟩
      exact ⟨⟨nodes, hnodes⟩, ⟨edges, hedges⟩, classes, hclasses⟩
    · rintro ⟨⟨nodes, hnodes⟩, ⟨edges, hedges⟩, classes, hclasses⟩
      exact ⟨nodes, hnodes, edges, hedges, classes, hclasses, _, rfl⟩
  rw [hparts, exists_mermaidEdges_iff, Partial.exists_mapM_eq_ok, Partial.exists_mapM_eq_ok]
  simp only [exists_nodeLine_iff, exists_classLine_iff]
  constructor
  · rintro ⟨hnodes, hedges, -⟩ c hc
    obtain ⟨hkind, hid, hname⟩ := hnodes c hc
    exact ⟨hkind, hid, hname, fun v hv => (hedges c hc v hv).2⟩
  · intro h
    refine ⟨fun c hc => ?_, fun c hc v hv => ?_, fun c hc => (h c hc).2.1⟩
    · obtain ⟨hkind, hid, hname, -⟩ := h c hc
      exact ⟨hkind, hid, hname⟩
    · exact ⟨(h c hc).2.1, (h c hc).2.2.2 v hv⟩

section PlantUml

variable (h : ∀ c ∈ d.components, c.name.IsText)
include h

theorem exists_objectLines (hc : c ∈ d.components) : ∃ lines, d.objectLines c = .ok lines := by
  obtain ⟨head, hhead⟩ := exists_classHead (h c hc)
  obtain ⟨fields, hfields⟩ := Partial.exists_mapM_eq_ok.mpr fun r
    (hr : r ∈ d.targetsOfKind c (.text "resource")) =>
      exists_fieldLine (h r (mem_of_mem_targetsOfKind hr))
  unfold objectLines
  rw [hhead, hfields]
  exact ⟨_, rfl⟩

theorem exists_referenceLines : ∃ lines, d.referenceLines = .ok lines := by
  refine Partial.exists_mapM_eq_ok.mpr fun e he => ?_
  obtain ⟨c, hc, he⟩ := List.mem_flatMap.mp he
  obtain ⟨t, ht, rfl⟩ := List.mem_map.mp he
  exact exists_referenceLine (h c hc) (h t (mem_of_mem_targets ht))

/-- For PlantUML the names have to be texts, and nothing else. -/
theorem exists_plantUml_of_names : ∃ s, d.plantUml = .ok s := by
  obtain ⟨objects, hobjects⟩ := Partial.exists_mapM_eq_ok.mpr fun c hc =>
    exists_objectLines h (List.mem_of_mem_filter (p := (·.kind == .text "object")) hc)
  obtain ⟨resources, hresources⟩ := Partial.exists_mapM_eq_ok.mpr fun c hc =>
    exists_resourceLines (h c (List.mem_of_mem_filter (p := (·.kind == .text "resource")) hc))
  obtain ⟨references, hreferences⟩ := exists_referenceLines h
  unfold plantUml plantUmlLines ofKind
  rw [hobjects, hresources, hreferences]
  exact ⟨_, rfl⟩

end PlantUml

namespace Spelled

variable (h : d.Spelled)
include h

theorem exists_problems : ∃ problems, d.problems = .ok problems := by
  refine exists_problems_iff.mpr ⟨?_, fun c hc v hv => ?_⟩
  · exact labelled_of_texts (fun c hc => (h c hc).id) fun c hc => (h c hc).name
  · obtain ⟨s, rfl⟩ := (h c hc).connections v hv
    exact ⟨.text s, rfl⟩

theorem exists_mermaid : ∃ s, d.mermaid = .ok s :=
  exists_mermaid_iff.mpr fun c hc =>
    ⟨(h c hc).kind.isAtom, (h c hc).id, (h c hc).name, (h c hc).connections⟩

theorem exists_plantUml : ∃ s, d.plantUml = .ok s :=
  exists_plantUml_of_names fun c hc => (h c hc).name

theorem exists_lowerName (hc : c ∈ d.components) : ∃ s, lowerName c.name = .ok s :=
  Partial.exists_map_eq_ok.mpr (exists_asText_iff.mpr (h c hc).name)

theorem exists_resourceFields (c : Component) : ∃ fields, d.resourceFields c = .ok fields := by
  refine Partial.exists_mapM_eq_ok.mpr fun r hr => ?_
  obtain ⟨s, hs⟩ := h.exists_lowerName (mem_of_mem_targetsOfKind hr)
  rw [hs]
  exact ⟨_, rfl⟩

theorem exists_objectItem (c : Component) : ∃ item, d.objectItem c = .ok item := by
  obtain ⟨fields, hfields⟩ := h.exists_resourceFields c
  unfold objectItem
  rw [hfields]
  exact ⟨_, rfl⟩

theorem exists_constructorItem (hc : c ∈ d.components) :
    ∃ item, d.constructorItem c = .ok item := by
  obtain ⟨name, hname⟩ := h.exists_lowerName hc
  obtain ⟨fields, hfields⟩ := h.exists_resourceFields c
  unfold constructorItem
  rw [hname, hfields]
  exact ⟨_, rfl⟩

theorem exists_entryItem (hc : c ∈ d.components) : ∃ item, entryItem c = .ok item := by
  obtain ⟨name, hname⟩ := h.exists_lowerName hc
  unfold entryItem
  rw [hname]
  exact ⟨_, rfl⟩

theorem exists_functionItems : ∃ items, d.functionItems = .ok items := by
  unfold functionItems
  cases hfunctions : d.ofKind (.text "function") with
  | nil =>
    exact Partial.exists_mapM_eq_ok.mpr fun c hc =>
      h.exists_constructorItem (List.mem_of_mem_filter hc)
  | cons f fs =>
    refine Partial.exists_mapM_eq_ok.mpr fun c hc => ?_
    rw [← hfunctions] at hc
    exact h.exists_entryItem (List.mem_of_mem_filter hc)

/-- Only the name of the module can be missing. -/
theorem exists_moveCode_iff_moduleName (options : CodeOptions) :
    (∃ code, d.moveCode options = .ok code) ↔
      ∃ name, d.moduleName options.moduleName = .ok name := by
  obtain ⟨objects, hobjects⟩ := Partial.exists_mapM_eq_ok.mpr fun c
    (_ : c ∈ d.ofKind (.text "object")) => h.exists_objectItem c
  obtain ⟨items, hitems⟩ := h.exists_functionItems
  unfold moveCode moveModule
  rw [hobjects, hitems]
  cases d.moduleName options.moduleName <;> simp [bind, Except.bind, pure, Except.pure]

end Spelled

theorem exists_moduleName_iff {given : Option String} :
    (∃ name, d.moduleName given = .ok name) ↔
      d.name.IsText ∨ ∃ name, given = some name ∧ name ≠ "" := by
  unfold moduleName
  cases hgiven : given.filter (· ≠ "") with
  | some name =>
    obtain ⟨hname, hne⟩ := Option.filter_eq_some_iff.mp hgiven
    exact iff_of_true ⟨name, rfl⟩ (.inr ⟨name, hname, of_decide_eq_true hne⟩)
  | none =>
    have hnone : ¬ ∃ name, given = some name ∧ name ≠ "" := by
      rintro ⟨name, rfl, hne⟩
      simp [hne] at hgiven
    rw [or_iff_left hnone, ← exists_asText_iff]
    exact Partial.exists_map_eq_ok

/-- Code can be made under a given name, or else under the name of the design if that is text. -/
theorem Spelled.exists_moveCode_iff (h : d.Spelled) (options : CodeOptions) :
    (∃ code, d.moveCode options = .ok code) ↔
      d.name.IsText ∨ ∃ name, options.moduleName = some name ∧ name ≠ "" :=
  (h.exists_moveCode_iff_moduleName options).trans exists_moduleName_iff

end Design

end MoveWorkbench
