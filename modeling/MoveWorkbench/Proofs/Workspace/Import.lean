import MoveWorkbench.Proofs.Design.Import
import MoveWorkbench.Proofs.Design.Renderable
import MoveWorkbench.Proofs.Json.LongNumber
import MoveWorkbench.Proofs.Workspace.Outcome

/-!
Imports. In a workspace that is well kept an import stores the design of the text behind all
others, or refuses the text, and is stopped by nothing but an integer of too many digits. What
was imported can be shown in every way, but code needs a name for its module, which only a
design with a text for its name has.
-/

namespace MoveWorkbench.Workspace

variable {w : Workspace} {text : String} {r : StoredDesign}

/-- A new design comes behind all others, under an id that is drawn for it. -/
theorem WellKept.store_eq (h : WellKept w) (d : Design) : ∃ r, w.store d =
    (.ok r, { w with
      designs := ⟨w.designs.entries ++ [(.text r.id, r)]⟩
      drawn := w.drawn + 1 }) := by
  obtain ⟨t, ht⟩ := h.clock
  obtain ⟨r, hstore, -⟩ := h.filed.store_eq h.drawn ht d
  exact ⟨r, hstore⟩

/-- An import stores a design, refuses the text, or is stopped by a long number. -/
theorem WellKept.importDesign_cases (h : WellKept w) (text : String) :
    (∃ r, w.importDesign text = (.ok r, { w with
        designs := ⟨w.designs.entries ++ [(.text r.id, r)]⟩
        drawn := w.drawn + 1 })) ∨
      (∃ problem, w.importDesign text = (.error (.importRefused problem), w)) ∨
      w.importDesign text = (.error (.fault .tooManyDigits), w) ∧
        Json.ofText text = .error .tooManyDigits ∧ Json.HasLongRun text.toList := by
  unfold importDesign
  rcases Design.ofText_cases text with ⟨problem, hrefused⟩ | ⟨d, hd, -⟩ | ⟨hstopped, hread⟩
  · rw [hrefused]
    exact .inr (.inl ⟨problem, rfl⟩)
  · rw [hd]
    exact .inl (h.store_eq d)
  · rw [hstopped]
    exact .inr (.inr ⟨rfl, hread, Json.hasLongRun_of_ofText hread⟩)

theorem importDesign_of_tooManyDigits (w : Workspace)
    (h : Json.ofText text = .error .tooManyDigits) :
    w.importDesign text = (.error (.fault .tooManyDigits), w) := by
  unfold importDesign Design.ofText
  rw [h]
  rfl

/-- An import that is answered with a design has read it from the text. -/
theorem ofText_of_importDesign (h : (w.importDesign text).1 = .ok r) :
    Design.ofText text = .ok r.design := by
  unfold importDesign at h
  cases hread : Design.ofText text with
  | error problem =>
    rw [hread] at h
    cases h
  | ok d =>
    rw [hread] at h
    unfold store at h
    dsimp only at h
    split at h
    · cases h
      rfl
    · cases h
    · cases h

theorem design?_importDesign (h : (w.importDesign text).1 = .ok r) :
    (w.importDesign text).2.design? (.text r.id) = some r := by
  unfold importDesign at h ⊢
  split at h
  · cases h
  · exact design?_store h

/-- A design that was imported can be validated, drawn and exported, and so it stays as long as
it is stored as it was. Code can be made of it under any name but the empty one, and without a
name just when its own name is a text. -/
theorem importDesign_usable (h : (w.importDesign text).1 = .ok r) :
    (w.importDesign text).2.design? (.text r.id) = some r ∧
      ∀ (v : Workspace) (id : Atom), v.design? id = some r →
        (∃ problems, v.validate id = .ok problems) ∧ (∃ s, v.mermaid id = .ok s) ∧
        (∃ s, v.plantUml id = .ok s) ∧ (∃ s, v.exportDesign id = .ok s) ∧
        ∀ options : CodeOptions, (∃ code, v.moveCode id options = .ok code) ↔
          r.design.name.IsText ∨ ∃ name, options.moduleName = some name ∧ name ≠ "" := by
  have hspelled : r.design.Spelled :=
    (Design.exportable_of_ofText (ofText_of_importDesign h)).spelled
  refine ⟨design?_importDesign h, fun v id hr => ?_⟩
  have hrendered {f : StoredDesign → Except Fault String} (hf : ∃ s, f r = .ok s) :
      ∃ s, v.render id f = .ok s := by
    obtain ⟨s, hs⟩ := hf
    refine ⟨s, ?_⟩
    simp only [render, hr, hs, Failure.lift]
  refine ⟨?_, hrendered hspelled.exists_mermaid, hrendered hspelled.exists_plantUml,
    hrendered ⟨_, rfl⟩, fun options => ?_⟩
  · simpa only [validate, hr] using hspelled.exists_problems
  · rw [← hspelled.exists_moveCode_iff options]
    refine ⟨fun hcode => ?_, fun hcode => hrendered hcode⟩
    obtain ⟨code, hcode⟩ := hcode
    simp only [moveCode, render, hr] at hcode
    cases hmade : r.design.moveCode options with
    | error f =>
      rw [hmade] at hcode
      cases hcode
    | ok made => exact ⟨made, rfl⟩

def bankText : String := "\x7b\"name\": \"Bank\", \"components\": [\x7b\"name\": \"Vault\"\x7d]\x7d"

theorem importDesign_usable_bank :
    ∃ r, ((fresh 0).importDesign bankText).1 = .ok r ∧ r.design.name.IsText ∧
      ∀ (v : Workspace) (id : Atom), v.design? id = some r →
        (∃ problems, v.validate id = .ok problems) ∧ (∃ s, v.mermaid id = .ok s) ∧
        (∃ s, v.plantUml id = .ok s) ∧ (∃ s, v.exportDesign id = .ok s) ∧
        ∀ options : CodeOptions, ∃ code, v.moveCode id options = .ok code := by
  have hread : ((fresh 0).importDesign bankText).1.toOption.any
      (fun r => r.design.name == .text "Bank") = true := by decide +kernel
  cases himport : ((fresh 0).importDesign bankText).1 with
  | error f =>
    rw [himport] at hread
    cases hread
  | ok r =>
    rw [himport] at hread
    have hname : r.design.name.IsText := ⟨"Bank", Json.beq_text.mp hread⟩
    refine ⟨r, rfl, hname, fun v id hr => ?_⟩
    obtain ⟨hproblems, hmermaid, huml, hdocument, hcode⟩ := (importDesign_usable himport).2 v id hr
    exact ⟨hproblems, hmermaid, huml, hdocument, fun options => (hcode options).mpr (.inl hname)⟩

def fault? {α : Type} : Except Failure α → Option Fault
  | .error (.fault f) => some f
  | _ => none

theorem eq_error_of_fault? {α : Type} {x : Except Failure α} {f : Fault}
    (h : fault? x = some f) : x = .error (.fault f) := by
  unfold fault? at h
  split at h
  · rw [Option.some.inj h]
  · cases h

def namelessText : String := "\x7b\"name\": null\x7d"

/-- A design without a name is imported, but no code can be made of it. -/
theorem importDesign_nameless :
    ∃ r, ((fresh 0).importDesign namelessText).1 = .ok r ∧
      ((fresh 0).importDesign namelessText).2.moveCode (.text r.id) .default =
        .error (.fault .lacksOperation) := by
  have hrun : ((fresh 0).importDesign namelessText).1.toOption.any (fun r =>
      fault? (((fresh 0).importDesign namelessText).2.moveCode (.text r.id) .default) =
        some .lacksOperation) = true := by decide +kernel
  obtain ⟨r, hr, hfault⟩ := (Option.any_eq_true _ _).mp hrun
  exact ⟨r, Partial.toOption_eq_some.mp hr, eq_error_of_fault? (of_decide_eq_true hfault)⟩

end MoveWorkbench.Workspace
