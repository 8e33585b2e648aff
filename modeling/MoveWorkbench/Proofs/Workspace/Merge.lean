import MoveWorkbench.Proofs.Design.Merge
import MoveWorkbench.Proofs.Workspace.Links

/-!
Updates of stored designs, taken together. An update of a design or of a component and then
another one, at any times, leave what the merged update leaves; and an update that comes again
leaves what it left. Of the components only the first one with the id that is given is touched.
-/

namespace MoveWorkbench

open Json

def Part.call (p : Part) (id : Json) (updates : Fields) : Call :=
  match p with
  | design => .updateDesign id (.object updates)
  | component c => .updateComponent id c (.object updates)

namespace Workspace

def content (w : Workspace) (a : Atom) : Option Design := (w.design? a).map (·.design)

variable {w : Workspace} {p : Part} {id : Json} {a : Atom} {fs u v m : Fields}

theorem perform_call (w : Workspace) (p : Part) (ha : id.atom? = some a) (fs : Fields) :
    w.perform (p.call id fs) = w.edit a (p.edit fs) := by
  cases p <;> simp only [Part.call, perform, withId, atom, ha] <;> rfl

/-- An edit that does not stop is answered. -/
theorem WellKept.exists_edit_eq_ok (h : WellKept w) {f : Design → Edited}
    (hf : ∀ d, (∃ d', f d = .done d') ∨ f d = .missing) (a : Atom) :
    ∃ answer, (w.edit a f).1 = .ok answer := by
  obtain ⟨t, ht⟩ := h.clock
  unfold edit
  cases w.design? a with
  | none => exact ⟨none, rfl⟩
  | some r =>
    rcases hf r.design with ⟨d', hdone⟩ | hmissing
    · simp only [hdone, settle, now_eq ht]
      exact ⟨_, rfl⟩
    · simp only [hmissing, settle]
      exact ⟨_, rfl⟩

theorem WellKept.exists_call_eq_ok (h : WellKept w) (hfs : p.Takes fs) (ha : id.atom? = some a) :
    ∃ answer, (w.perform (p.call id fs)).1 = .ok answer := by
  rw [perform_call w p ha]
  exact h.exists_edit_eq_ok (fun d => (Part.edit_cases hfs d).imp (⟨_, ·⟩) And.left) a

/-- An update that can be taken over updates the design under its id, and no other one. -/
theorem WellKept.content_call (h : WellKept w) (hfs : p.Takes fs) (ha : id.atom? = some a)
    (b : Atom) : (w.perform (p.call id fs)).2.content b =
      (w.content b).map fun d => if a == b then p.updated fs d else d := by
  rw [perform_call w p ha, content, h.map_design?_edit (Part.edit_cases hfs), content,
    Option.map_map]
  rfl

/-- Two updates, the second one at any time, leave the content that the merged one makes. -/
theorem WellKept.content_calls (h : WellKept w) (hu : p.Takes u) (hv : p.Takes v)
    (hm : Merges p.lasting u v m) (ha : id.atom? = some a) (t : Instant) (b : Atom) :
    let first := w.perform (p.call id u)
    ({ first.2 with clock := t.micros }.perform (p.call id v)).2.content b =
      (w.content b).map fun d => if a == b then p.updated m d else d := by
  intro first
  have hfirst : first.2.content b = (w.content b).map fun d => if a == b then p.updated u d else d :=
    h.content_call hu ha b
  calc ({ first.2 with clock := t.micros }.perform (p.call id v)).2.content b
      = (first.2.content b).map fun d => if a == b then p.updated v d else d :=
        ((h.perform _).tick t).content_call hv ha b
    _ = (w.content b).map fun d => if a == b then p.updated m d else d := by
      -- a missing part stays missing, and the merged update leaves the design, too
      rw [hfirst, Option.map_map]
      by_cases hab : a == b <;> simp [hab, Function.comp_def, Part.updated_merge hu hv hm]

/-- An update of a stored design or of one of its components and then another one, at any times,
leave all designs with the content that the merged update leaves them with, and an update that
comes again leaves what is there. All of them are answered. Of the design that is addressed a
merged update of a component, and so any update, touches the first component with its id at most,
which keeps this id. -/
theorem Reached.updates_merge {allowed : Call → Prop} (h : Reached allowed w) {r : StoredDesign}
    (hr : w.addressed? id = some r) (p : Part) {u v m : Fields} (hu : p.Takes u) (hv : p.Takes v)
    (hm : Merges p.lasting u v m) (t t' : Instant) :
    let first := w.perform (p.call id u)
    let second := { first.2 with clock := t.micros }.perform (p.call id v)
    let again := { first.2 with clock := t.micros }.perform (p.call id u)
    let once := { w with clock := t'.micros }.perform (p.call id m)
    (∀ b, second.2.content b = once.2.content b) ∧
    (∀ b, again.2.content b = first.2.content b) ∧
    (∀ answer ∈ [first.1, second.1, again.1, once.1], ∃ r?, answer = .ok r?) ∧
    ∃ r', once.2.addressed? id = some r' ∧
      ∀ component, p = .component component →
        Design.FirstChanged component r.design r'.design := by
  intro first second again once
  have hkept := h.wellKept
  obtain ⟨a, ha, hra⟩ := exists_atom_of_addressed? hr
  have hm' := Part.takes_of_merges hu hv hm
  have hfirst : WellKept { first.2 with clock := t.micros } := (hkept.perform _).tick t
  have honce : WellKept { w with clock := t'.micros } := hkept.tick t'
  have hmerged (b : Atom) : once.2.content b =
      (w.content b).map fun d => if a == b then p.updated m d else d := honce.content_call hm' ha b
  refine ⟨fun b => ?_, fun b => ?_, ?_, ?_⟩
  · exact (hkept.content_calls hu hv hm ha t b).trans (hmerged b).symm
  · have hself := merges_self p.lasting u
    exact (hkept.content_calls hu hu hself ha t b).trans (hkept.content_call hu ha b).symm
  · simp only [List.forall_mem_cons, List.not_mem_nil, false_implies, implies_true, and_true]
    exact ⟨hkept.exists_call_eq_ok hu ha, hfirst.exists_call_eq_ok hv ha,
      hfirst.exists_call_eq_ok hu ha, honce.exists_call_eq_ok hm' ha⟩
  · have hsome : once.2.content a = some (p.updated m r.design) := by
      rw [hmerged, content, hra]
      simp
    obtain ⟨r', hr', hdesign⟩ := Option.map_eq_some_iff.mp hsome
    refine ⟨r', by rw [addressed?_eq ha, hr'], fun component hp => ?_⟩
    subst hp
    rw [hdesign]
    exact Part.firstChanged_updated hm' r.design

def twinVaults : Workspace := (bankWorkspace.perform (Part.design.call (.text "design-0-000000000")
  [("components", .list [.object [("id", .text "vault"), ("kind", .text "module")],
    .object [("id", .text "vault"), ("name", .text "Twin")]])])).2

def furnish : Fields := [("kind", .text "object"), ("x", .int 3), ("colour", .text "red"),
  ("connections", .list [.text "coin", .text "coin"])]

def rename : Fields := [("kind", .null), ("name", .text "Safe"), ("connections", .null)]

theorem takes_furnish : (Part.component (.text "vault")).Takes furnish :=
  ⟨.inr ⟨["coin", "coin"], rfl⟩, .inl rfl⟩

theorem takes_rename : (Part.component (.text "vault")).Takes rename := ⟨.inl rfl, .inl rfl⟩

theorem updates_merge_twinVaults :
    let key : Json := .text "design-0-000000000"
    let part := Part.component (.text "vault")
    let m := merge part.lasting furnish rename
    let first := twinVaults.perform (part.call key furnish)
    let second := { first.2 with clock := 5 }.perform (part.call key rename)
    let again := { first.2 with clock := 5 }.perform (part.call key furnish)
    let once := { twinVaults with clock := 9 }.perform (part.call key m)
    (part.Takes furnish ∧ part.Takes rename ∧ Merges part.lasting furnish rename m) ∧
    (∀ b, second.2.content b = once.2.content b) ∧
    (∀ b, again.2.content b = first.2.content b) ∧
    (∃ r r', twinVaults.addressed? key = some r ∧ once.2.addressed? key = some r' ∧
      Design.FirstChanged (.text "vault") r.design r'.design) ∧
    (once.2.addressed? key).any (fun r => r.design.components.map (fun c =>
      (c.kind.display, c.name.display, c.connections.length)) ==
        [("object", "Safe", 0), ("", "Twin", 0)]) := by
  intro key part m first second again once
  have hsome : (twinVaults.addressed? key).isSome := by decide +kernel
  obtain ⟨r, hr⟩ := Option.isSome_iff_exists.mp hsome
  have hm := merges_merge part.lasting furnish rename
  obtain ⟨hmerged, hagain, -, r', hr', hchanged⟩ :=
    Reached.updates_merge (.call reached_bankWorkspace trivial) hr part takes_furnish takes_rename
      hm ⟨5, by decide⟩ ⟨9, by decide⟩
  exact ⟨⟨takes_furnish, takes_rename, hm⟩, hmerged, hagain,
    ⟨r, r', hr, hr', hchanged _ rfl⟩, by decide +kernel⟩

end Workspace

end MoveWorkbench
