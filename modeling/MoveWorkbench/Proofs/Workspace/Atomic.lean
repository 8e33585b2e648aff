import MoveWorkbench.Proofs.Workspace.Export

/-!
What failed calls leave behind. A call fails by an id that is no atom, by a document that is
refused, or by values that cannot be taken over. The first two change nothing, and so do
values that a new component cannot take over. An update, however, takes its fields over one
after the other, and what it took over before it failed stays. So a failed call leaves all
designs as they were, unless it is an update whose fields before the failing one differ
from what was stored; the ids and their order never change.
-/

namespace MoveWorkbench

open Json

namespace Component

/-- Whether fields that an update takes over before it fails differ from what is there: those
that need no conversion, or the connections if it fails at the properties. -/
def Overwritten (c : Component) (updates : Fields) : Prop :=
  c.updatePlain updates ≠ c ∨ ∃ connections,
    convert c.connections updates "connections" connectionIds = .ok connections ∧
      connections ≠ c.connections

variable {c : Component}

/-- A failed update changes a component just when it overwrites a field. -/
theorem update_component_ne_iff {updates : Fields} (h : (c.update updates).fault ≠ none) :
    (c.update updates).component ≠ c ↔ c.Overwritten updates := by
  rw [update_eq] at h ⊢
  unfold Overwritten
  split at h
  · rename_i f hconnections
    rw [hconnections]
    simp
  · rename_i connections hconnections
    split at h
    · rw [hconnections]
      change { c.updatePlain updates with connections } ≠ c ↔ _
      have hsame : { c.updatePlain updates with connections } = c ↔
          c.updatePlain updates = c ∧ connections = c.connections := by
        constructor
        · intro heq
          have hc : connections = c.connections := congrArg Component.connections heq
          rw [hc] at heq
          exact ⟨heq, hc⟩
        · intro hparts
          obtain ⟨hc, rfl⟩ := hparts
          exact hc
      simp only [ne_eq, hsame, not_and_or, Except.ok.injEq]
      constructor
      · rintro (hne | hne)
        · exact .inl hne
        · exact .inr ⟨connections, rfl, hne⟩
      · rintro (hne | ⟨_, rfl, hne⟩)
        · exact .inl hne
        · exact .inr hne
    · exact absurd rfl h

/-- A value other than an object changes no component. -/
theorem updateBy_component {updates : Json} (h : ∀ fs, updates ≠ .object fs) :
    (c.updateBy updates).component = c := by
  unfold updateBy
  split
  · exact absurd rfl (h _)
  · split <;> rfl

end Component

namespace Design

def Overwritten (d : Design) (updates : Json) : Prop :=
  ∃ fs, updates = .object fs ∧ d.takeOver fs ≠ d

def ComponentOverwritten (d : Design) (id updates : Json) : Prop :=
  ∃ c fs, d.find? id = some c ∧ updates = .object fs ∧ c.Overwritten fs

variable {d d' : Design} {f : Fault}

theorem ne_iff_of_updateBy {updates : Json} (h : d.updateBy updates = .stopped f d') :
    d' ≠ d ↔ d.Overwritten updates := by
  cases updates with
  | object fs =>
    have hd : d' = d.takeOver fs := by
      simp only [updateBy, update_eq] at h
      split at h
      · cases h
      · split at h <;> cases h
        rfl
    subst hd
    constructor
    · exact fun hne => ⟨fs, rfl, hne⟩
    · intro hparts
      obtain ⟨_, hobject, hne⟩ := hparts
      cases hobject
      exact hne
  | _ =>
    cases h
    refine ⟨fun hne => absurd rfl hne, ?_⟩
    intro hparts
    obtain ⟨fs, hobject, -⟩ := hparts
    cases hobject

theorem eq_of_add {id : String} {new : NewComponent} (h : d.add id new = .stopped f d') :
    d' = d := by
  unfold add at h
  split at h <;> cases h <;> rfl

theorem ne_iff_of_updateComponent {id updates : Json}
    (h : d.updateComponent id updates = .stopped f d') :
    d' ≠ d ↔ d.ComponentOverwritten id updates := by
  unfold updateComponent at h
  split at h
  · cases h
  · rename_i c hc
    dsimp only at h
    split at h
    · rename_i e hfault
      cases h
      have hsame : d.mapFirst id (fun c => (c.updateBy updates).component) = d ↔
          (c.updateBy updates).component = c := by
        rw [← modifyFirst_eq_self_iff (f := fun c => (c.updateBy updates).component) hc]
        constructor
        · exact fun heq => congrArg Design.components heq
        · intro heq
          unfold mapFirst
          rw [heq]
      rw [ne_eq, hsame]
      unfold ComponentOverwritten
      rw [hc]
      cases updates with
      | object fs =>
        have hne : (c.update fs).fault ≠ none := by
          intro hnone
          rw [show (c.update fs).fault = _ from hfault] at hnone
          cases hnone
        rw [show (c.updateBy (.object fs)).component = (c.update fs).component from rfl, ← ne_eq,
          Component.update_component_ne_iff hne]
        constructor
        · exact fun hover => ⟨c, fs, rfl, rfl, hover⟩
        · intro hparts
          obtain ⟨_, _, heq, hobject, hover⟩ := hparts
          cases heq
          cases hobject
          exact hover
      | _ =>
        refine ⟨fun hne => absurd (Component.updateBy_component (by simp)) hne, ?_⟩
        intro hparts
        obtain ⟨_, _, -, hobject, -⟩ := hparts
        cases hobject
    · cases h

end Design

namespace Workspace

def addressed? (w : Workspace) (id : Json) : Option StoredDesign := id.atom?.bind w.design?

/-- Whether a call, when it fails, has taken over a field that differs from what is stored. -/
def Overwrites (w : Workspace) : Call → Prop
  | .updateDesign id updates => ∃ r ∈ w.addressed? id, r.design.Overwritten updates
  | .updateComponent id component updates =>
    ∃ r ∈ w.addressed? id, r.design.ComponentOverwritten component updates
  | _ => False

variable {w : Workspace}

/-- A design that is put back changes the store just when its content differs. -/
theorem WellKept.put_design_eq_iff (h : WellKept w) {a : Atom} {r : StoredDesign}
    (hr : w.design? a = some r) (d : Design) :
    w.designs.put (.text r.id) { r with design := d } = w.designs ↔ d = r.design := by
  have hget : w.designs.get? (.text r.id) = some r :=
    (Ordered.get?_congr (h.mem_of_design? hr).2 _).trans hr
  constructor
  · intro heq
    have hput := Store.get?_put_self w.designs (.text r.id) { r with design := d }
    rw [heq, hget] at hput
    injection hput with hput
    exact (congrArg StoredDesign.design hput).symm
  · rintro rfl
    exact congrArg Store.mk (Ordered.put_of_get? hget)

theorem WellKept.ids_put_design (h : WellKept w) {a : Atom} {r : StoredDesign}
    (hr : w.design? a = some r) (r' : StoredDesign) :
    (w.designs.put (.text r.id) r').ids = w.designs.ids := by
  have hget : w.designs.get? (.text r.id) = some r :=
    (Ordered.get?_congr (h.mem_of_design? hr).2 _).trans hr
  rw [Store.ids_put, Store.contains, hget]
  rfl

/-- Whether a failed answer leaves the ids as they were, and the designs too unless `P`. -/
def LeftUnless (w : Workspace) (P : Prop) (v : Workspace) : Prop :=
  v.designs.ids = w.designs.ids ∧ (v.designs = w.designs ↔ ¬ P)

theorem leftUnless_of_eq {P : Prop} {v : Workspace} (h : v.designs = w.designs) (hP : ¬ P) :
    LeftUnless w P v := ⟨by rw [h], ⟨fun _ => hP, fun _ => h⟩⟩

/-- A call about a design fails before it begins, or in what is done with the design. -/
theorem leftUnless_withId {P : Prop} {id : Json} {f : Atom → Answer (Option StoredDesign)}
    {failure : Failure} (hfail : (w.withId id f).1 = .error failure)
    (hnone : w.addressed? id = none → ¬ P)
    (h : ∀ a, (∀ r, w.design? a = some r → w.addressed? id = some r) →
      (f a).1 = .error failure → LeftUnless w P (f a).2) :
    LeftUnless w P (w.withId id f).2 := by
  unfold withId atom at *
  cases hatom : id.atom? with
  | none => exact leftUnless_of_eq rfl (hnone (by simp [addressed?, hatom]))
  | some a =>
    rw [hatom] at hfail
    exact h a (fun r hr => by simp [addressed?, hatom, hr]) hfail

/-- An edit fails only by stopping, and then leaves what it made of the design. -/
theorem WellKept.leftUnless_settle (h : WellKept w) {v : Workspace} {a : Atom}
    {r : StoredDesign} {P : Prop} {e : Edited} {failure : Failure} (hr : w.design? a = some r)
    (hdesigns : v.designs = w.designs) (hclock : v.clock = w.clock)
    (hfail : (v.settle r e).1 = .error failure)
    (he : ∀ f d, e = .stopped f d → (d ≠ r.design ↔ P)) : LeftUnless w P (v.settle r e).2 := by
  obtain ⟨t, ht⟩ := h.clock
  cases e with
  | missing => cases hfail
  | done d =>
    simp only [settle, now_eq (hclock.trans ht)] at hfail
    cases hfail
  | stopped f d =>
    have hput : (v.settle r (.stopped f d)).2.designs =
        w.designs.put (.text r.id) { r with design := d } := by
      simp only [settle, putDesign, hdesigns]
    refine ⟨?_, ?_⟩
    · rw [hput]
      exact h.ids_put_design hr _
    · rw [hput, h.put_design_eq_iff hr, ← he f d rfl, not_not]

theorem WellKept.leftUnless_edit (h : WellKept w) {a : Atom} {P : Prop} {f : Design → Edited}
    {failure : Failure} (hfail : (w.edit a f).1 = .error failure)
    (he : ∀ r, w.design? a = some r → ∀ e d, f r.design = .stopped e d → (d ≠ r.design ↔ P)) :
    LeftUnless w P (w.edit a f).2 := by
  unfold edit at *
  cases hr : w.design? a with
  | none =>
    rw [hr] at hfail
    cases hfail
  | some r =>
    rw [hr] at hfail
    exact h.leftUnless_settle hr rfl rfl hfail (he r hr)

/-- Calls that have nothing to overwrite leave the designs as they were when they fail. -/
theorem WellKept.leftUnless_edit_of_eq (h : WellKept w) {a : Atom} {f : Design → Edited}
    {failure : Failure} (hfail : (w.edit a f).1 = .error failure)
    (he : ∀ d e d', f d = .stopped e d' → d' = d) : LeftUnless w False (w.edit a f).2 :=
  h.leftUnless_edit hfail fun r _ e d hstop => ⟨fun hne => hne (he r.design e d hstop), False.elim⟩

/-- A failed call leaves the ids as they were, and the designs too unless it overwrites. -/
theorem Reached.leftUnless_of_error {allowed : Call → Prop} (h : Reached allowed w) (c : Call)
    {failure : Failure} (hfail : (w.perform c).1 = .error failure) :
    (w.perform c).2.designs.ids = w.designs.ids ∧
      ((w.perform c).2.designs = w.designs ↔ ¬ w.Overwrites c) := by
  have hkept := h.wellKept
  cases c with
  | createDesign name description =>
    obtain ⟨r, hr, -⟩ := hkept.exists_store ⟨name, description, []⟩
    simp only [perform, given, createDesign, hr] at hfail
    cases hfail
  | updateDesign id updates =>
    refine leftUnless_withId hfail ?_ fun a ha hfail => hkept.leftUnless_edit hfail ?_
    · rintro hnone ⟨r, hr, -⟩
      rw [hnone] at hr
      cases hr
    · intro r hr e d hstop
      rw [Design.ne_iff_of_updateBy hstop]
      simp only [Overwrites, ha r hr, Option.mem_some_iff, exists_eq_left']
  | addComponent id new =>
    refine leftUnless_withId hfail (fun _ => not_false) fun a ha hfail => ?_
    obtain ⟨t, ht⟩ := hkept.clock
    obtain ⟨millis, hid⟩ := exists_nextId ht "comp"
    unfold addComponent at *
    cases hr : w.design? a with
    | none =>
      rw [hr] at hfail
      cases hfail
    | some r =>
      simp only [hr, hid] at hfail ⊢
      refine hkept.leftUnless_settle (v := w.draw) hr rfl rfl hfail fun e d hstop => ?_
      exact ⟨fun hne => hne (Design.eq_of_add hstop), False.elim⟩
  | updateComponent id component updates =>
    refine leftUnless_withId hfail ?_ fun a ha hfail => hkept.leftUnless_edit hfail ?_
    · rintro hnone ⟨r, hr, -⟩
      rw [hnone] at hr
      cases hr
    · intro r hr e d hstop
      rw [Design.ne_iff_of_updateComponent hstop]
      simp only [Overwrites, ha r hr, Option.mem_some_iff, exists_eq_left']
  | removeComponent id component =>
    refine leftUnless_withId hfail (fun _ => not_false) fun a _ hfail =>
      hkept.leftUnless_edit_of_eq hfail fun d e d' hstop => ?_
    cases hstop
  | addConnection id source target =>
    refine leftUnless_withId hfail (fun _ => not_false) fun a _ hfail =>
      hkept.leftUnless_edit_of_eq hfail fun d e d' hstop => ?_
    unfold Design.connect at hstop
    split at hstop <;> cases hstop
  | removeConnection id source target =>
    refine leftUnless_withId hfail (fun _ => not_false) fun a _ hfail =>
      hkept.leftUnless_edit_of_eq hfail fun d e d' hstop => ?_
    unfold Design.disconnect at hstop
    split at hstop <;> cases hstop
  | importDesign document =>
    cases document with
    | text s =>
      simp only [perform, given, importDesign] at hfail ⊢
      cases hread : Design.ofText s with
      | error problem => exact leftUnless_of_eq rfl not_false
      | ok d =>
        obtain ⟨r, hr, -⟩ := hkept.exists_store d
        simp only [hread, hr] at hfail
        cases hfail
    | _ => exact leftUnless_of_eq rfl not_false

def bankWorkspace : Workspace :=
  ((fresh 0).perform (.createDesign (.text "Bank") .null)).2

def renameBank : Call :=
  .updateDesign (.text "design-0-000000000")
    (.object [("name", .text "Vault"), ("components", .int 5)])

theorem reached_bankWorkspace : Reached (fun _ => True) bankWorkspace :=
  .call (.fresh ⟨0, by decide⟩) trivial

theorem renameBank_fails : (bankWorkspace.perform renameBank).1 = .error (.fault .notIterable) := by
  obtain ⟨r, hr⟩ : ∃ r, bankWorkspace.design? (.text "design-0-000000000") = some r :=
    Option.isSome_iff_exists.mp (by decide +kernel)
  simp only [renameBank, perform, withId, atom, atom?, updateDesign, edit, hr]
  rfl

theorem leftUnless_of_error_renameBank :
    (bankWorkspace.perform renameBank).1 = .error (.fault .notIterable) ∧
      (bankWorkspace.perform renameBank).2.designs.ids = bankWorkspace.designs.ids ∧
      ((bankWorkspace.perform renameBank).2.designs = bankWorkspace.designs ↔
        ¬ bankWorkspace.Overwrites renameBank) :=
  ⟨renameBank_fails, reached_bankWorkspace.leftUnless_of_error renameBank renameBank_fails⟩

/-- The failed update has renamed the design. -/
theorem designs_ne_after_renameBank :
    Reached (fun _ => True) bankWorkspace ∧
      (bankWorkspace.perform renameBank).1 = .error (.fault .notIterable) ∧
      (bankWorkspace.perform renameBank).2.designs ≠ bankWorkspace.designs := by
  refine ⟨reached_bankWorkspace, renameBank_fails, fun heq => ?_⟩
  have hbefore : (bankWorkspace.designs.get? (.text "design-0-000000000")).any
      (fun r => r.design.name == .text "Bank") = true := by decide +kernel
  have hafter : ((bankWorkspace.perform renameBank).2.designs.get?
      (.text "design-0-000000000")).any (fun r => r.design.name == .text "Bank") = false := by
    decide +kernel
  rw [heq, hbefore] at hafter
  cases hafter

end Workspace

end MoveWorkbench
