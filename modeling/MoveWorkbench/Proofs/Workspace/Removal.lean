import MoveWorkbench.Proofs.Design.Sound
import MoveWorkbench.Proofs.Workspace.Outcome

/-!
Removals keep designs valid. Whether components or connections are removed, with ids of any
kind and from whatever designs, a design in which no problems were found has none afterwards,
and so it goes on for any number of removals.
-/

namespace MoveWorkbench

open Json

/-- What is taken away from a stored design: the components with an id together with the
connections to it, or one connection. -/
inductive Removal where
  | component (design id : Json)
  | connection (design source target : Json)

def Removal.call : Removal → Call
  | component design id => .removeComponent design id
  | connection design source target => .removeConnection design source target

/-- A removal leaves a sound design sound. -/
theorem Removal.sound (removal : Removal) {fresh : String} {d d' : Design} (h : d.Sound)
    (hleft : (removal.call.edit fresh d).left? = some d') : d'.Sound := by
  cases removal with
  | component design id =>
    cases hleft
    exact h.without id
  | connection design source target =>
    rw [Design.left?_disconnect hleft]
    exact h.mapFirst_disconnect source target

namespace Workspace

def afterRemovals (w : Workspace) (removals : List (Instant × Removal)) : Workspace :=
  removals.foldl (fun w p => ({ w with clock := p.1.micros }.perform p.2.call).2) w

variable {w : Workspace}

/-- No problems are found just in stored designs that are sound. -/
theorem validate_eq_nil_iff {id : Atom} :
    w.validate id = .ok [] ↔ ∃ r, w.design? id = some r ∧ r.design.Sound := by
  unfold validate
  cases w.design? id with
  | none => simp
  | some r => simp [Design.problems_eq_nil_iff]

theorem validate_of_passesFlat {id : Atom}
    (h : (w.design? id).any (·.design.passesFlat) = true) : w.validate id = .ok [] := by
  obtain ⟨r, hr, hpasses⟩ := (Option.any_eq_true _ _).mp h
  exact validate_eq_nil_iff.mpr ⟨r, hr, Design.sound_of_passesFlat hpasses⟩

theorem WellKept.validate_removal (h : WellKept w) {id : Atom} (hvalid : w.validate id = .ok [])
    (removal : Removal) : (w.perform removal.call).2.validate id = .ok [] := by
  obtain ⟨r, hr, hsound⟩ := validate_eq_nil_iff.mp hvalid
  obtain ⟨r', hr', hdesign⟩ := h.design?_perform hr removal.call
  refine validate_eq_nil_iff.mpr ⟨r', hr', ?_⟩
  rcases hdesign with hsame | ⟨fresh, hleft⟩
  · exact hsame ▸ hsound
  · exact removal.sound hsound hleft

/-- A design in which no problems are found has none after any run of removals. -/
theorem Reached.validate_afterRemovals {allowed : Call → Prop} (h : Reached allowed w) {id : Atom}
    (hvalid : w.validate id = .ok []) (removals : List (Instant × Removal)) :
    (w.afterRemovals removals).validate id = .ok [] := by
  have hkept := h.wellKept
  clear h
  induction removals generalizing w with
  | nil => exact hvalid
  | cons p removals ih =>
    have htick : WellKept { w with clock := p.1.micros } := ⟨⟨p.1, rfl⟩, hkept.key, hkept.drawn⟩
    exact ih (htick.validate_removal hvalid p.2) (htick.perform p.2.call)

def vaultWorkspace : Workspace :=
  (((fresh 0).perform (.createDesign (.text "Bank") .null)).2.perform
    (.updateDesign (.text "design-0-000000000") (.object [("components", .list [
      .object [("id", .text "a"), ("name", .text "Vault"), ("connections", .list [.text "b"])],
      .object [("id", .text "b"), ("name", .text "Coin")],
      .object [("id", .text "b"), ("name", .text "Gold")]])]))).2

theorem reached_vaultWorkspace : Reached (fun _ => True) vaultWorkspace :=
  .call (.call (.fresh ⟨0, by decide⟩) trivial) trivial

theorem validate_vaultWorkspace :
    vaultWorkspace.validate (.text "design-0-000000000") = .ok [] :=
  validate_of_passesFlat (by decide +kernel)

/-- Two components of one id are removed, and a connection of a component that is not there. -/
theorem validate_afterRemovals_vault :
    let removals : List (Instant × Removal) := [
      (⟨7, by decide⟩, .component (.text "design-0-000000000") (.text "b")),
      (⟨3, by decide⟩, .connection (.text "design-0-000000000") (.text "c") (.text "a"))]
    Reached (fun _ => True) vaultWorkspace ∧
      vaultWorkspace.validate (.text "design-0-000000000") = .ok [] ∧
      (vaultWorkspace.afterRemovals removals).validate (.text "design-0-000000000") = .ok [] :=
  ⟨reached_vaultWorkspace, validate_vaultWorkspace,
    reached_vaultWorkspace.validate_afterRemovals validate_vaultWorkspace _⟩

end Workspace

end MoveWorkbench
