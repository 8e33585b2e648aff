import MoveWorkbench.Proofs.Design.Exportable

/-!
Whatever is imported can be exported. A document that is accepted has fields of the right
types, so nothing goes wrong when components are made of them, and the parts of the design
that comes out survive an export.
-/

namespace MoveWorkbench

namespace Json

theorem Legible.of_mem {fs : Fields} (h : Legible (.object fs)) {f : String × Json} (hf : f ∈ fs) :
    Legible f.2 := by
  cases h with
  | object _ hall => exact hall f hf

theorem Legible.of_get? {fs : Fields} (h : Legible (.object fs)) {name : String} {v : Json}
    (hv : Ordered.get? name fs = some v) : Legible v := by
  obtain ⟨l, hl, -⟩ := Ordered.exists_mem_of_get? hv
  exact h.of_mem hl

theorem Legible.field {fs : Fields} (h : Legible (.object fs)) (name : String) :
    Legible (field fs name) := by
  unfold Json.field
  cases hget : Ordered.get? name fs with
  | none => exact .null
  | some v => exact h.of_get? hget

theorem Legible.fieldOr {fs : Fields} (h : Legible (.object fs)) (name : String) {other : Json}
    (hother : Legible other) : Legible (fieldOr fs name other) := by
  unfold Json.fieldOr
  cases hget : Ordered.get? name fs with
  | none => exact hother
  | some v => exact h.of_get? hget

/-- A list whose items are texts is a list of texts. -/
theorem exists_texts {vs : List Json} (h : ∀ v ∈ vs, v.IsText) :
    ∃ ss : List String, vs = ss.map text := by
  induction vs with
  | nil => exact ⟨[], rfl⟩
  | cons v vs ih =>
    rw [List.forall_mem_cons] at h
    obtain ⟨s, rfl⟩ := h.1
    obtain ⟨ss, rfl⟩ := ih h.2
    exact ⟨s :: ss, rfl⟩

theorem Legible.of_mem_list {vs : List Json} (h : Legible (.list vs)) {v : Json} (hv : v ∈ vs) :
    Legible v := by
  cases h with
  | list hall => exact hall v hv

end Json

namespace FieldType

open Json

theorem isText_of_admits {v : Json} (h : text.admits v = true) : v.IsText := by
  cases v with
  | text s => exact ⟨s, rfl⟩
  | _ => cases h

theorem isNumber_of_admits {v : Json} (hv : v.Legible) (h : number.admits v = true) :
    OrNull IsNumber v := by
  cases hv with
  | null => exact .inl rfl
  | int hn => exact .inr (.int hn)
  | float x => exact .inr (.float x)
  | _ => cases h

theorem isTextList_of_admits {v : Json} (h : textList.admits v = true) : OrNull IsTextList v := by
  cases v with
  | null => exact .inl rfl
  | list vs =>
    obtain ⟨ss, rfl⟩ : ∃ ss : List String, vs = ss.map .text := by
      refine exists_texts fun v hv => ?_
      have htext := List.all_eq_true.mp h v hv
      cases v with
      | text s => exact ⟨s, rfl⟩
      | _ => cases htext
    exact .inr ⟨ss, rfl⟩
  | _ => cases h

theorem isBag_of_admits {v : Json} (hv : v.Legible) (h : object.admits v = true) :
    OrNull IsBag v := by
  cases v with
  | null => exact .inl rfl
  | object fs => exact .inr ⟨fs, rfl, hv⟩
  | _ => cases h

end FieldType

namespace Design

/-- A field that is there has the type that is asked for. -/
theorem admits_of_wrongField? {fs : Fields} (h : wrongField? fs = none) {name : String}
    {type : FieldType} (hmem : (name, type) ∈ checkedFields) {v : Json}
    (hv : Ordered.get? name fs = some v) : type.admits v = true := by
  have hnone := List.find?_eq_none.mp h (name, type) hmem
  simpa only [hv, Bool.not_eq_true', Bool.not_eq_false] using hnone

theorem wrongField?_of_wrongComponent? {cs : List Fields} {n : ℕ}
    (h : wrongComponent? n cs = none) : ∀ fs ∈ cs, wrongField? fs = none := by
  induction cs generalizing n with
  | nil => exact fun _ hfs => absurd hfs List.not_mem_nil
  | cons fs cs ih =>
    unfold wrongComponent? at h
    split at h
    · cases h
    · rename_i hfs
      exact List.forall_mem_cons.mpr ⟨hfs, ih h⟩

theorem wrongComponent?_eq_none {cs : List Fields} (h : ∀ fs ∈ cs, wrongField? fs = none)
    (n : ℕ) : wrongComponent? n cs = none := by
  induction cs generalizing n with
  | nil => rfl
  | cons fs cs ih =>
    rw [List.forall_mem_cons] at h
    rw [wrongComponent?, h.1]
    exact ih h.2 (n + 1)

end Design

namespace Component

open Json

theorem isNumber_coordinate {v : Json} (h : OrNull IsNumber v) : (coordinate v).IsNumber := by
  unfold coordinate orElse
  split
  · rename_i htruthy
    rcases h with rfl | h
    · cases htruthy
    · exact h
  · exact .float _

/-- Fields that pass the checks make a component that survives an export. -/
theorem exists_exportable_ofFields {fs : Fields} (hfs : Legible (.object fs))
    (h : Design.wrongField? fs = none) : ∃ c, ofFields fs = .ok c ∧ c.Exportable := by
  have hadmits {name : String} {type : FieldType} (hmem : (name, type) ∈ Design.checkedFields)
      {v : Json} (hv : Ordered.get? name fs = some v) : type.admits v = true :=
    Design.admits_of_wrongField? h hmem hv
  have htext {name : String} (hmem : (name, FieldType.text) ∈ Design.checkedFields) :
      (fieldOr fs name (.text "")).IsText := by
    unfold fieldOr
    cases hget : Ordered.get? name fs with
    | none => exact ⟨"", rfl⟩
    | some v => exact FieldType.isText_of_admits (hadmits hmem hget)
  have hnumber {name : String} (hmem : (name, FieldType.number) ∈ Design.checkedFields) :
      OrNull IsNumber (field fs name) := by
    unfold field
    cases hget : Ordered.get? name fs with
    | none => exact .inl rfl
    | some v => exact FieldType.isNumber_of_admits (hfs.of_get? hget) (hadmits hmem hget)
  have hconnections : OrNull IsTextList (field fs "connections") := by
    unfold field
    cases hget : Ordered.get? "connections" fs with
    | none => exact .inl rfl
    | some v => exact FieldType.isTextList_of_admits (hadmits (by decide) hget)
  have hproperties : OrNull IsBag (field fs "properties") := by
    unfold field
    cases hget : Ordered.get? "properties" fs with
    | none => exact .inl rfl
    | some v => exact FieldType.isBag_of_admits (hfs.of_get? hget) (hadmits (by decide) hget)
  obtain ⟨ss, hss, hids⟩ := exists_connectionIds hconnections
  obtain ⟨gs, hgs, hmembers⟩ := exists_propertyMembers hproperties
  refine ⟨⟨fieldOr fs "id" (.text ""), fieldOr fs "kind" (.text ""), fieldOr fs "name" (.text ""),
    coordinate (field fs "x"), coordinate (field fs "y"), ss.map .text,
    gs.map fun f => (.text f.1, f.2)⟩, ?_, ?_⟩
  · unfold ofFields ofMembers
    rw [hids, hmembers]
    rfl
  · exact ⟨htext (by decide), htext (by decide), htext (by decide),
      isNumber_coordinate (hnumber (by decide)), isNumber_coordinate (hnumber (by decide)),
      ⟨ss, hss, rfl⟩, ⟨gs, hgs, rfl⟩⟩

end Component

namespace Design

open Json

theorem eq_map_object {vs : List Json} {cs : List Fields}
    (h : vs.mapM objectFields? = some cs) : vs = cs.map .object := by
  induction vs generalizing cs with
  | nil =>
    rw [List.mapM_nil] at h
    cases h
    rfl
  | cons v vs ih =>
    rw [List.mapM_cons] at h
    obtain ⟨fs, hfs, h⟩ := Option.bind_eq_some_iff.mp h
    obtain ⟨rest, hrest, h⟩ := Option.bind_eq_some_iff.mp h
    cases h
    cases v with
    | object gs =>
      cases hfs
      rw [List.map_cons, ih hrest]
    | _ => cases hfs

theorem mapM_objectFields?_map (cs : List Fields) :
    (cs.map .object).mapM objectFields? = some cs := by
  induction cs with
  | nil => rfl
  | cons fs cs ih =>
    rw [List.map_cons, List.mapM_cons, ih]
    rfl

/-- The components of a legible document are legible. -/
theorem legible_of_documentComponents? {fs : Fields} (h : Legible (.object fs))
    {cs : List Fields} (hcs : documentComponents? fs = some cs) :
    ∀ c ∈ cs, Legible (.object c) := by
  have hlegible : ((field fs "components").orElse (.list [])).Legible := by
    unfold orElse
    split
    · exact h.field "components"
    · exact .list fun _ hv => absurd hv List.not_mem_nil
  unfold documentComponents? at hcs
  split at hcs
  · rename_i vs hvs
    rw [hvs] at hlegible
    intro c hc
    refine hlegible.of_mem_list ?_
    rw [eq_map_object hcs]
    exact List.mem_map_of_mem hc
  · cases hcs

theorem exists_exportable_mapM {cs : List Fields} (hlegible : ∀ c ∈ cs, Legible (.object c))
    (h : ∀ c ∈ cs, wrongField? c = none) :
    ∃ components, cs.mapM Component.ofFields = .ok components ∧
      ∀ c ∈ components, c.Exportable := by
  induction cs with
  | nil => exact ⟨[], rfl, fun _ hc => absurd hc List.not_mem_nil⟩
  | cons fs cs ih =>
    rw [List.forall_mem_cons] at hlegible h
    obtain ⟨c, hc, hexportable⟩ := Component.exists_exportable_ofFields hlegible.1 h.1
    obtain ⟨components, hcomponents, hall⟩ := ih hlegible.2 h.2
    exact ⟨c :: components, Partial.mapM_eq_ok.mpr (.cons hc (Partial.mapM_eq_ok.mp hcomponents)),
      List.forall_mem_cons.mpr ⟨hexportable, hall⟩⟩

/-- A legible document is refused, or has a design that survives an export. -/
theorem ofDocument_cases {v : Json} (hlegible : v.Legible) :
    (∃ problem, ofDocument v = .error (.refused problem)) ∨
      ∃ d, ofDocument v = .ok d ∧ d.Exportable := by
  unfold ofDocument
  split
  · exact .inl ⟨_, rfl⟩
  · rename_i fs hfs
    have hobject : v = .object fs := by
      cases v with
      | object gs =>
        cases hfs
        rfl
      | _ => cases hfs
    rw [hobject] at hlegible
    split
    · exact .inl ⟨_, rfl⟩
    · rename_i cs hcs
      split
      · exact .inl ⟨_, rfl⟩
      · rename_i hchecked
        obtain ⟨components, hcomponents, hall⟩ := exists_exportable_mapM
          (legible_of_documentComponents? hlegible hcs)
          (wrongField?_of_wrongComponent? hchecked)
        rw [hcomponents]
        exact .inr ⟨_, rfl, hlegible.fieldOr "name" (.text ""), hlegible.field "description", hall⟩

/-- A text is refused, or has a design that survives an export, or has an integer that is too
long to be read. -/
theorem ofText_cases (s : String) :
    (∃ problem, ofText s = .error (.refused problem)) ∨ (∃ d, ofText s = .ok d ∧ d.Exportable) ∨
      ofText s = .error (.stopped .tooManyDigits) ∧ Json.ofText s = .error .tooManyDigits := by
  unfold ofText
  cases hread : Json.ofText s with
  | error misreading =>
    cases misreading with
    | unexpected expected place => exact .inl ⟨_, rfl⟩
    | tooManyDigits => exact .inr (.inr ⟨rfl, rfl⟩)
  | ok v => exact (ofDocument_cases (legible_of_ofText hread)).imp_right .inl

/-- A design that was imported can be exported. -/
theorem exportable_of_ofText {s : String} {d : Design} (h : ofText s = .ok d) :
    d.Exportable := by
  rcases ofText_cases s with ⟨problem, hrefused⟩ | ⟨d', hd', hexportable⟩ | ⟨hstopped, -⟩
  · rw [hrefused] at h
    cases h
  · rw [hd'] at h
    cases h
    exact hexportable
  · rw [hstopped] at h
    cases h

end Design

end MoveWorkbench
