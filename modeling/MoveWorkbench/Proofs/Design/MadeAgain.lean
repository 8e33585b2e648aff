import MoveWorkbench.Proofs.Design.Document

/-!
Components are made once and for all. What stands for no coordinate becomes a zero, and ids that
come again are left out, but what is left is taken over as it is. So a component that was made of
any fields is made again of its own parts, where properties may stand under keys of any kind. In a
document all keys are texts.
-/

namespace MoveWorkbench

/-- Ids of which none comes twice are all left. -/
theorem Atom.unique_unique (as : List Atom) : unique (unique as) = unique as :=
  Ordered.distinctBy_of_nodup (nodup_map_key_unique as) fun _ _ => List.not_mem_nil

namespace Json

theorem connectionIds_atoms (as : List Atom) :
    (list (as.map (·.toJson))).connectionIds = .ok ((Atom.unique as).map (·.toJson)) := by
  rw [connectionIds, orElse_list]
  unfold uniqueIds
  simp only [items, bind, Except.bind, mapM_atom_toJson, pure, Except.pure, Except.map]

/-- Connections that came from any value are taken over as they are. -/
theorem connectionIds_again {v : Json} {ids : List Json} (h : v.connectionIds = .ok ids) :
    (list ids).connectionIds = .ok ids := by
  obtain ⟨as, has, rfl⟩ := Partial.map_eq_ok.mp h
  obtain ⟨vs, -, hrest⟩ := Partial.bind_eq_ok.mp has
  obtain ⟨bs, -, hunique⟩ := Partial.bind_eq_ok.mp hrest
  cases hunique
  rw [connectionIds_atoms, Atom.unique_unique]

end Json

namespace Component

open Json

theorem coordinate_coordinate (v : Json) : coordinate (coordinate v) = coordinate v := by
  cases h : v.isTruthy <;> simp [coordinate, orElse, h]

variable {fs : Fields} {c : Component}

/-- Fields of which a component is made give its parts one by one. -/
theorem ofFields_eq_ok (h : ofFields fs = .ok c) :
    c.x = coordinate (field fs "x") ∧ c.y = coordinate (field fs "y") ∧
      (field fs "connections").connectionIds = .ok c.connections := by
  obtain ⟨ids, hids, hrest⟩ := Partial.bind_eq_ok.mp h
  obtain ⟨members, -, hmade⟩ := Partial.bind_eq_ok.mp hrest
  cases hmade
  exact ⟨rfl, rfl, hids⟩

theorem placed_of_ofFields (h : ofFields fs = .ok c) : c.placed = c := by
  obtain ⟨hx, hy, -⟩ := ofFields_eq_ok h
  unfold placed
  rw [hx, hy, coordinate_coordinate, coordinate_coordinate, ← hx, ← hy]

/-- Parts whose connections are ids that come once make the component itself, but for zeros. -/
theorem ofParts_parts (h : (list c.connections).connectionIds = .ok c.connections) :
    ofParts c.parts = .ok c.placed := by
  change ofMembers c.parts.plain (.ok c.properties) = _
  unfold ofMembers
  have hconnections : field c.parts.plain "connections" = .list c.connections := rfl
  rw [hconnections, h]
  rfl

/-- A component that was made of fields is made again of its parts. -/
theorem ofParts_of_ofFields (h : ofFields fs = .ok c) : ofParts c.parts = .ok c := by
  rw [ofParts_parts (connectionIds_again (ofFields_eq_ok h).2.2), placed_of_ofFields h]

/-- Where all keys of properties are texts, the fields in a document are the parts. -/
theorem ofJson_toJson (h : ∀ p ∈ c.properties, ∃ s, p.1 = .text s) :
    ofJson c.toJson = ofParts c.parts := by
  have hkeys : (c.properties.map fun p => (p.1.fieldName, p.2)).map
      (fun f => (Atom.text f.1, f.2)) = c.properties := by
    rw [List.map_map]
    refine (List.map_congr_left fun p hp => ?_).trans (List.map_id c.properties)
    obtain ⟨s, hs⟩ := h p hp
    exact Prod.ext (by simp [hs]) rfl
  change ofFields c.fields = _
  have hfield : field c.fields "properties" =
      .object (c.properties.map fun p => (p.1.fieldName, p.2)) := rfl
  unfold ofFields
  rw [hfield, propertyMembers_object, hkeys]
  rfl

end Component

namespace Design

variable {s : String} {d : Design}

/-- The components of a design that was read were all made of fields. -/
theorem exists_ofFields_of_ofText (h : ofText s = .ok d) :
    ∀ c ∈ d.components, ∃ fs, Component.ofFields fs = .ok c := by
  unfold ofText at h
  split at h
  · cases h
  · cases h
  · unfold ofDocument at h
    split at h
    · cases h
    · split at h
      · cases h
      · split at h
        · cases h
        · split at h
          · cases h
          · rename_i cs _ _ _ components hcomponents
            cases h
            intro c hc
            obtain ⟨fs, -, hfs⟩ := Partial.exists_of_mem_mapM hcomponents hc
            exact ⟨fs, hfs⟩

theorem placed_of_ofText (h : ofText s = .ok d) : d.placed = d := by
  have hcomponents : d.components.map (·.placed) = d.components := by
    refine (List.map_congr_left fun c hc => ?_).trans (List.map_id d.components)
    obtain ⟨fs, hfs⟩ := exists_ofFields_of_ofText h c hc
    exact Component.placed_of_ofFields hfs
  unfold placed
  rw [hcomponents]

/-- The document of a design that was read is read as this very design. -/
theorem ofText_document_of_ofText {r : StoredDesign} (h : ofText s = .ok r.design) :
    ofText r.document = .ok r.design := by
  rw [(exportable_of_ofText h).ofText_document, placed_of_ofText h]

end Design

end MoveWorkbench
