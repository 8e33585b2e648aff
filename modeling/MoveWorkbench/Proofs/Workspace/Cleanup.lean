import MoveWorkbench.Proofs.Workspace.Local
import MoveWorkbench.Proofs.Workspace.Removal

/-!
Removal of components. To remove an id takes away all components that have it, however many, and
all connections to it, from whatever components they come. All else stays as it was and where it
was: the other components with their other connections, and the other designs.
-/

namespace MoveWorkbench

open Json

/-- A component that has lost the connections to an id, and nothing else. -/
structure Component.Cleared (removed : Json) (c c' : Component) : Prop where
  id : c'.id = c.id
  kind : c'.kind = c.kind
  name : c'.name = c.name
  x : c'.x = c.x
  y : c'.y = c.y
  properties : c'.properties = c.properties
  connections : c'.connections = c.connections.filter fun v => !v == removed

theorem Component.cleared_disconnect (c : Component) (id : Json) : c.Cleared id (c.disconnect id) :=
  ⟨rfl, rfl, rfl, rfl, rfl, rfl, rfl⟩

namespace Design

structure Lacks (d : Design) (id : Json) : Prop where
  unused : ∀ c ∈ d.components, (c.id == id) = false
  unlinked : ∀ c ∈ d.components, ∀ v ∈ c.connections, (v == id) = false

/-- What is left of a design once an id is removed: the components that had another one, in their
order, each of them without the connections to the id. -/
structure Cleaned (removed : Json) (d d' : Design) : Prop where
  name : d'.name = d.name
  description : d'.description = d.description
  lacks : d'.Lacks removed
  components : List.Forall₂ (Component.Cleared removed)
    (d.components.filter fun c => !c.id == removed) d'.components

variable {d d' : Design} {id : Json}

/-- What is left when components with other ids are kept lacks the id once it is cleared from all
of them. -/
theorem lacks_of_cleared (h : List.Forall₂ (Component.Cleared id)
    (d.components.filter fun c => !c.id == id) d'.components) : d'.Lacks id := by
  constructor
  · intro c' hc'
    obtain ⟨c, hc, hcleared⟩ := Partial.exists_of_mem_forall₂ h hc'
    have hother := (List.mem_filter.mp hc).2
    rwa [Bool.not_eq_true', ← hcleared.id] at hother
  · intro c' hc' v hv
    obtain ⟨c, -, hcleared⟩ := Partial.exists_of_mem_forall₂ h hc'
    rw [hcleared.connections] at hv
    have hother := (List.mem_filter.mp hv).2
    rwa [Bool.not_eq_true'] at hother

theorem cleaned_of_remove (h : d.remove id = .done d') : Cleaned id d d' := by
  cases h
  have hcomponents : List.Forall₂ (Component.Cleared id)
      (d.components.filter fun c => !c.id == id) (d.without id).components := by
    rw [Design.without, List.forall₂_map_right_iff]
    exact List.forall₂_same.mpr fun c _ => c.cleared_disconnect id
  exact ⟨rfl, rfl, lacks_of_cleared hcomponents, hcomponents⟩

/-- A text is lacking where it is not the id of a component and not among the connections. -/
theorem lacks_text_iff {s : String} : d.Lacks (.text s) ↔
    ∀ c ∈ d.components, c.id ≠ .text s ∧ .text s ∉ c.connections := by
  constructor
  · intro h c hc
    refine ⟨fun hid => ?_, fun hlinked => ?_⟩
    · exact Bool.eq_false_iff.mp (h.unused c hc) (beq_text.mpr hid)
    · exact Bool.eq_false_iff.mp (h.unlinked c hc _ hlinked) (beq_text.mpr rfl)
  · intro h
    refine ⟨fun c hc => ?_, fun c hc v hv => ?_⟩
    · exact Bool.eq_false_iff.mpr fun hid => (h c hc).1 (beq_text.mp hid)
    · exact Bool.eq_false_iff.mpr fun heq => (h c hc).2 (beq_text.mp heq ▸ hv)

end Design

namespace Workspace

variable {w : Workspace}

/-- To remove an id from a stored design is always done; it cleans the design of the id and
touches nothing else that is stored. -/
theorem Reached.removal_cleans {allowed : Call → Prop} (h : Reached allowed w) {design : Json}
    {r : StoredDesign} (hr : w.addressed? design = some r) (id : Json) :
    ∃ r', (w.perform (.removeComponent design id)).1 = .ok (some r') ∧
      Design.Cleaned id r.design r'.design ∧
      Touched w (.removeComponent design id) r r' (w.perform (.removeComponent design id)).2 := by
  have hkept := h.wellKept
  obtain ⟨t, ht⟩ := hkept.clock
  obtain ⟨a, hatom, ha⟩ := exists_atom_of_addressed? hr
  have hperform : w.perform (.removeComponent design id) =
      (.ok (some { r with design := r.design.without id, updatedAt := t }),
        w.putDesign { r with design := r.design.without id, updatedAt := t }) := by
    simp only [perform, withId, atom, hatom, removeComponent, edit, ha, Design.remove, settle,
      now_eq ht]
    rfl
  have hedit : (Call.removeComponent design id).edit "" r.design = .done (r.design.without id) :=
    rfl
  rw [hperform]
  exact ⟨_, rfl, Design.cleaned_of_remove rfl, hkept.touched hr hedit (now_eq ht)⟩

/-- Two of three components have the id that is removed, and the third one connects to it. -/
theorem removal_cleans_vault :
    let call := Call.removeComponent (.text "design-0-000000000") (.text "b")
    ∃ r r', vaultWorkspace.addressed? (.text "design-0-000000000") = some r ∧
      r.design.components.length = 3 ∧ (vaultWorkspace.perform call).1 = .ok (some r') ∧
      r'.design.components.length = 1 ∧
      (∀ c ∈ r'.design.components, c.id ≠ .text "b" ∧ .text "b" ∉ c.connections) ∧
      Touched vaultWorkspace call r r' (vaultWorkspace.perform call).2 := by
  have hcounts : (vaultWorkspace.addressed? (.text "design-0-000000000")).map (fun r =>
      (r.design.components.length, (r.design.components.filter fun c => !c.id == .text "b").length))
      = some (3, 1) := by decide +kernel
  obtain ⟨r, hr, hlengths⟩ := Option.map_eq_some_iff.mp hcounts
  obtain ⟨hold, hkept⟩ := Prod.mk.inj hlengths
  obtain ⟨r', hdone, hcleaned, htouched⟩ := reached_vaultWorkspace.removal_cleans hr (.text "b")
  exact ⟨r, r', hr, hold, hdone, hcleaned.components.length_eq.symm.trans hkept,
    Design.lacks_text_iff.mp hcleaned.lacks, htouched⟩

end Workspace

end MoveWorkbench
