import MoveWorkbench.Proofs.Design.Import
import MoveWorkbench.Proofs.Json.RoundTrip

/-!
Documents of designs are read back. The document of an exportable design is legible, its
components pass the checks of types, and what is made of their fields is the component itself, but
for a zero as a coordinate, which comes back as the double zero. So the content is the same: all
parts are equal, and coordinates are compared by their value as numbers.
-/

namespace MoveWorkbench

namespace Json

def quantity? : Json → Option Quantity
  | int n => some (.exact n)
  | float x => some (.ofDouble x)
  | _ => none

def SameNumber (v w : Json) : Prop := ∃ q, v.quantity? = some q ∧ w.quantity? = some q

end Json

/-- Components that differ at most in the way in which their coordinates are written. -/
structure Component.SameContent (c c' : Component) : Prop where
  id : c'.id = c.id
  kind : c'.kind = c.kind
  name : c'.name = c.name
  x : c.x.SameNumber c'.x
  y : c.y.SameNumber c'.y
  connections : c'.connections = c.connections
  properties : c'.properties = c.properties

structure Design.SameContent (d d' : Design) : Prop where
  name : d'.name = d.name
  description : d'.description = d.description
  components : List.Forall₂ Component.SameContent d.components d'.components

namespace Component

/-- A number is the same number as a coordinate. -/
theorem sameNumber_coordinate {v : Json} (h : v.IsNumber) : v.SameNumber (coordinate v) := by
  unfold coordinate Json.orElse
  split
  · cases h with
    | int h => exact ⟨_, rfl, rfl⟩
    | float x => exact ⟨_, rfl, rfl⟩
  · rename_i hzero
    refine ⟨.exact 0, ?_, by rw [Binary64.zero_eq]; rfl⟩
    cases h with
    | @int n h =>
      have hn : n = 0 := by simpa [Json.isTruthy] using hzero
      rw [hn]
      rfl
    | float x =>
      have hx : x.value? = some 0 := by simpa [Json.isTruthy, Binary64.isZero] using hzero
      cases x with
      | nan => cases hx
      | infinite => cases hx
      | negativeZero => rfl
      | real x hrep =>
        injection hx with hx
        subst hx
        rfl

def fields (c : Component) : Fields :=
  [("id", c.id), ("kind", c.kind), ("name", c.name), ("x", c.x), ("y", c.y),
    ("connections", .list c.connections),
    ("properties", .object (c.properties.map fun p => (p.1.fieldName, p.2)))]

/-- A component with the double zero in place of any zero as a coordinate. -/
def placed (c : Component) : Component := { c with x := coordinate c.x, y := coordinate c.y }

variable {c : Component}

theorem Exportable.sameContent_placed (h : c.Exportable) : c.SameContent c.placed :=
  ⟨rfl, rfl, rfl, sameNumber_coordinate h.x, sameNumber_coordinate h.y, rfl, rfl⟩

theorem Exportable.propertyFields (h : c.Exportable) :
    ∃ fs : Fields, Json.Legible (.object fs) ∧ c.properties = fs.map (fun f => (.text f.1, f.2)) ∧
      c.properties.map (fun p => (p.1.fieldName, p.2)) = fs := by
  obtain ⟨fs, hfs, hproperties⟩ := h.properties
  refine ⟨fs, hfs, hproperties, ?_⟩
  rw [hproperties, List.map_map]
  exact List.map_id fs

theorem Exportable.legible_toJson (h : c.Exportable) : c.toJson.Legible := by
  obtain ⟨ss, -, hconnections⟩ := h.connections
  obtain ⟨fs, hfs, -, hfields⟩ := h.propertyFields
  refine .object (by simp [Ordered.keys]) ?_
  simp only [List.forall_mem_cons, hconnections, hfields]
  exact ⟨h.id.legible, h.kind.legible, h.name.legible, h.x.legible, h.y.legible,
    Json.legible_texts ss, hfs, fun _ hf => absurd hf List.not_mem_nil⟩

/-- The fields of an exportable component have the types that are asked for. -/
theorem Exportable.wrongField?_fields (h : c.Exportable) :
    Design.wrongField? c.fields = none := by
  obtain ⟨i, hid⟩ := h.id
  obtain ⟨k, hkind⟩ := h.kind
  obtain ⟨n, hname⟩ := h.name
  obtain ⟨ss, -, hconnections⟩ := h.connections
  have htext (s : String) : FieldType.text.admits (.text s) = true := rfl
  have hnumber {v : Json} (hv : v.IsNumber) : FieldType.number.admits v = true := by
    cases hv <;> rfl
  have hlist : FieldType.textList.admits (.list (ss.map .text)) = true := by
    simp [FieldType.admits]
  have hobject (fs : Fields) : FieldType.object.admits (.object fs) = true := rfl
  simp [Design.wrongField?, Design.checkedFields, fields, Ordered.get?_cons, hid, hkind, hname,
    hconnections, htext, hnumber h.x, hnumber h.y, hlist, hobject]

/-- An exportable component is made of its fields. -/
theorem Exportable.ofFields_fields (h : c.Exportable) : ofFields c.fields = .ok c.placed := by
  obtain ⟨ss, hss, hconnections⟩ := h.connections
  obtain ⟨fs, -, hproperties, hfields⟩ := h.propertyFields
  obtain ⟨ts, -, hids, hsame⟩ := Json.connectionIds_texts ss
  rw [hsame hss] at hids
  have hget : Json.field c.fields "connections" = .list (ss.map .text) ∧
      Json.field c.fields "properties" = .object fs := by
    rw [← hconnections, ← hfields]
    exact ⟨rfl, rfl⟩
  unfold ofFields ofMembers
  rw [hget.1, hget.2, hids, Json.propertyMembers_object, ← hconnections, ← hproperties]
  rfl

end Component

namespace Design

def placed (d : Design) : Design := { d with components := d.components.map (·.placed) }

theorem Exportable.sameContent_placed {d : Design} (h : d.Exportable) : d.SameContent d.placed :=
  ⟨rfl, rfl, List.forall₂_map_right_iff.mpr
    (List.forall₂_same.mpr fun c hc => (h.components c hc).sameContent_placed)⟩

variable {r : StoredDesign}

theorem Exportable.legible_toJson (h : r.design.Exportable) : r.toJson.Legible := by
  have hcomponents : Json.Legible (.list (r.design.components.map (·.toJson))) := by
    refine .list fun v hv => ?_
    obtain ⟨c, hc, rfl⟩ := List.mem_map.mp hv
    exact (h.components c hc).legible_toJson
  refine .object (by simp [Ordered.keys]) ?_
  simp only [List.forall_mem_cons]
  exact ⟨.text _, h.name, h.description, hcomponents, .text _, .text _,
    fun _ hf => absurd hf List.not_mem_nil⟩

theorem mapM_objectFields? (cs : List Component) :
    (cs.map (·.toJson)).mapM objectFields? = some (cs.map (·.fields)) := by
  rw [← mapM_objectFields?_map, List.map_map]
  rfl

/-- An exportable design is made of its document. -/
theorem Exportable.ofDocument_toJson (h : r.design.Exportable) :
    ofDocument r.toJson = .ok r.design.placed := by
  have hcomponents : (r.design.components.map (·.fields)).mapM Component.ofFields =
      .ok (r.design.components.map (·.placed)) := by
    rw [Partial.mapM_eq_ok, List.forall₂_map_left_iff, List.forall₂_map_right_iff,
      List.forall₂_same]
    exact fun c hc => (h.components c hc).ofFields_fields
  have hchecked : wrongComponent? 0 (r.design.components.map (·.fields)) = none := by
    refine wrongComponent?_eq_none (fun fs hfs => ?_) 0
    obtain ⟨c, hc, rfl⟩ := List.mem_map.mp hfs
    exact (h.components c hc).wrongField?_fields
  have hlist : documentComponents? [("id", .text r.id), ("name", r.design.name),
      ("description", r.design.description),
      ("components", .list (r.design.components.map (·.toJson))),
      ("created_at", .text r.createdAt.text), ("updated_at", .text r.updatedAt.text)] =
      some (r.design.components.map (·.fields)) := by
    have hfield := mapM_objectFields? r.design.components
    cases hcs : r.design.components with
    | nil => rfl
    | cons c cs =>
      rw [hcs] at hfield
      exact hfield
  simp only [ofDocument, StoredDesign.toJson, objectFields?]
  rw [hlist]
  simp only [hchecked, hcomponents]
  rfl

/-- The text of an exportable design is read as this design. -/
theorem Exportable.ofText_document (h : r.design.Exportable) :
    ofText r.document = .ok r.design.placed := by
  unfold ofText StoredDesign.document
  rw [Json.ofText_toText h.legible_toJson]
  exact h.ofDocument_toJson

end Design

end MoveWorkbench
