import MoveWorkbench.Design.Edit
import MoveWorkbench.Proofs.Partial

/-!
What edits leave, whether they are done or stopped. Each one leaves its own change of the
components and nothing else; only an update of the design itself changes name and
description, and it changes them even when it stops at the components.
-/

namespace MoveWorkbench

def Edited.left? : Edited → Option Design
  | missing => none
  | done d | stopped _ d => some d

namespace Component

open Json

/-- An update takes over plain fields, then connections, then properties. -/
theorem update_eq (c : Component) (updates : Fields) :
    c.update updates =
      match convert c.connections updates "connections" connectionIds with
      | .error f => ⟨c.updatePlain updates, some f⟩
      | .ok connections =>
        match convert c.properties updates "properties" propertyMembers with
        | .error f => ⟨{ c.updatePlain updates with connections }, some f⟩
        | .ok properties => ⟨{ c.updatePlain updates with connections, properties }, none⟩ := rfl

/-- What a converted field takes over has what `f` makes of any value of the field. -/
theorem convert_spec {α : Type} {P : α → Prop} {old : α} {updates : Fields} {name : String}
    {f : Json → Except Fault α} (hold : P old) (h : ∃ a, f (field updates name) = .ok a ∧ P a) :
    ∃ a, convert old updates name f = .ok a ∧ P a := by
  unfold convert field at *
  cases hget : Ordered.get? name updates with
  | none => exact ⟨old, rfl, hold⟩
  | some v =>
    rw [hget] at h
    exact h

/-- The id of a component is not updated. -/
theorem id_updateBy (c : Component) (updates : Json) :
    (c.updateBy updates).component.id = c.id := by
  cases updates with
  | object fs =>
    change (c.update fs).component.id = c.id
    rw [update_eq]
    split
    · rfl
    · split <;> rfl
  | _ =>
    unfold updateBy
    dsimp only
    split <;> rfl

end Component

namespace Design

variable {d d' : Design}

theorem left?_updateComponent {id updates : Json}
    (h : (d.updateComponent id updates).left? = some d') :
    d' = d.mapFirst id fun c => (c.updateBy updates).component := by
  unfold updateComponent at h
  split at h
  · cases h
  · dsimp only at h
    split at h
    · cases h
      rfl
    · cases h
      rfl

theorem left?_connect {source target : Json} (h : (d.connect source target).left? = some d') :
    d' = d.mapFirst source (·.connect target) := by
  unfold connect at h
  split at h
  · cases h
  · cases h
    rfl

theorem left?_disconnect {source target : Json}
    (h : (d.disconnect source target).left? = some d') :
    d' = d.mapFirst source (·.disconnect target) := by
  unfold disconnect at h
  split at h
  · cases h
  · cases h
    rfl

/-- A new component goes to the end, if its parts can be taken over. -/
theorem left?_add {id : String} {new : NewComponent} (h : (d.add id new).left? = some d') :
    d' = d ∨ ∃ connections properties, new.connections.connectionIds = .ok connections ∧
      new.properties.propertyMembers = .ok properties ∧
      d' = { d with components := d.components ++
        [⟨.text id, new.kind, new.name, new.x, new.y, connections, properties⟩] } := by
  unfold add at h
  split at h
  · rename_i connections properties hconnections hproperties
    cases h
    exact .inr ⟨connections, properties, hconnections, hproperties, rfl⟩
  · cases h
    exact .inl rfl
  · cases h
    exact .inl rfl

/-- An update takes over name and description, and then the components if they are given. -/
theorem update_eq (d : Design) (updates : Fields) :
    d.update updates =
      match Json.field updates "components" with
      | .null => .done (d.takeOver updates)
      | v =>
        match newComponents v with
        | .ok components => .done { d.takeOver updates with components }
        | .error f => .stopped f (d.takeOver updates) := rfl

/-- Components that can be made are taken over. -/
theorem update_of_newComponents {fs : Fields} {components : List Component}
    (h : newComponents (Json.field fs "components") = .ok components) :
    d.update fs = .done { d.takeOver fs with components } := by
  rw [update_eq]
  split
  · rename_i hnull
    rw [hnull] at h
    cases h
  · rw [h]

theorem left?_update {updates : Fields} (h : (d.update updates).left? = some d') :
    d' = d.takeOver updates ∨ ∃ components,
      newComponents (Json.field updates "components") = .ok components ∧
      d' = { d.takeOver updates with components } := by
  rw [update_eq] at h
  split at h
  · cases h
    exact .inl rfl
  · split at h
    · rename_i components hcomponents
      cases h
      exact .inr ⟨components, hcomponents, rfl⟩
    · cases h
      exact .inl rfl

section Components

variable {Q : Component → Prop}

theorem forall_mem_modifyFirst {cs : List Component} {f : Component → Component}
    (h : ∀ c ∈ cs, Q c) (hf : ∀ c, Q c → Q (f c)) (id : Json) :
    ∀ c ∈ modifyFirst id f cs, Q c := by
  induction cs with
  | nil => exact fun _ hc => absurd hc List.not_mem_nil
  | cons c cs ih =>
    rw [List.forall_mem_cons] at h
    unfold modifyFirst
    split
    · exact List.forall_mem_cons.mpr ⟨hf c h.1, h.2⟩
    · exact List.forall_mem_cons.mpr ⟨h.1, ih h.2⟩

theorem forall_mem_remove (h : ∀ c ∈ d.components, Q c) (hdisconnect : ∀ c id, Q c →
    Q (c.disconnect id)) (id : Json) :
    ∀ c ∈ (d.components.filter fun c => !c.id == id).map (·.disconnect id), Q c := by
  intro c hc
  obtain ⟨e, he, rfl⟩ := List.mem_map.mp hc
  exact hdisconnect e id (h e (List.mem_of_mem_filter he))

/-- Each component is changed or stays as it is. -/
theorem forall₂_modifyFirst {R : Component → Component → Prop} {f : Component → Component}
    (hrefl : ∀ c, R c c) (hf : ∀ c, R c (f c)) (id : Json) (cs : List Component) :
    List.Forall₂ R cs (modifyFirst id f cs) := by
  induction cs with
  | nil => exact .nil
  | cons c cs ih =>
    unfold modifyFirst
    split
    · exact .cons (hf c) (List.forall₂_same.mpr fun c _ => hrefl c)
    · exact .cons (hrefl c) ih

/-- The first component with another id is found as it was, the changed one as it is now. -/
theorem find?_mapFirst {f : Component → Component} (hf : ∀ c, (f c).id = c.id) (s t : String) :
    (d.mapFirst (.text s) f).find? (.text t) =
      if s = t then (d.find? (.text t)).map f else d.find? (.text t) := by
  unfold mapFirst find?
  dsimp only
  induction d.components with
  | nil => simp [modifyFirst]
  | cons c cs ih =>
    unfold modifyFirst
    by_cases hs : c.id == .text s
    · rw [if_pos hs]
      have hid : c.id = .text s := Json.beq_text.mp hs
      by_cases ht : s = t
      · subst ht
        simp [hf, hs]
      · have hne : (c.id == .text t) = false := by
          rw [← Bool.not_eq_true, Json.beq_text, hid]
          simpa using ht
        simp [hf, hne, ht]
    · rw [if_neg hs]
      by_cases ht : c.id == .text t
      · have hne : s ≠ t := by
          rintro rfl
          exact hs ht
        simp [ht, hne]
      · simp only [Bool.not_eq_true] at ht
        simp only [List.find?_cons, ht]
        exact ih

/-- Where no component has the id, none is changed. -/
theorem mapFirst_of_find?_eq_none {id : Json} (h : d.find? id = none)
    (f : Component → Component) : d.mapFirst id f = d := by
  have hsame : ∀ cs : List Component, cs.find? (·.id == id) = none →
      modifyFirst id f cs = cs := by
    intro cs hcs
    induction cs with
    | nil => rfl
    | cons c cs ih =>
      obtain ⟨hc, hrest⟩ := List.forall_mem_cons.mp (List.find?_eq_none.mp hcs)
      unfold modifyFirst
      rw [if_neg hc, ih (List.find?_eq_none.mpr hrest)]
  unfold mapFirst
  rw [hsame d.components h]

/-- Only the first component with the id is changed. -/
theorem modifyFirst_eq_self_iff {cs : List Component} {f : Component → Component} {id : Json}
    {c : Component} (hc : cs.find? (·.id == id) = some c) :
    modifyFirst id f cs = cs ↔ f c = c := by
  induction cs with
  | nil => cases hc
  | cons e cs ih =>
    rw [List.find?_cons] at hc
    unfold modifyFirst
    split at hc
    · rename_i he
      cases hc
      rw [if_pos he]
      simp
    · rename_i he
      rw [if_neg (by simp [he])]
      simpa using ih hc

end Components

end Design

end MoveWorkbench
