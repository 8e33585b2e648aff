import MoveWorkbench.Proofs.Design.MadeAgain
import MoveWorkbench.Proofs.Workspace.Export
import MoveWorkbench.Proofs.Workspace.Import

/-!
Designs that are imported again and again. A design that was imported is exported as a document
that is read as this very design, so each import of it can be exported and imported in its turn, and
all of them are equal to the first.
-/

namespace MoveWorkbench.Workspace

variable {w : Workspace} {text : String} {r : StoredDesign}

/-- The last of `n` imports after that of `r`, each of the document of the design before. -/
def reimportTimes (w : Workspace) (r : StoredDesign) : ℕ → Answer StoredDesign
  | 0 => (.ok r, w)
  | n + 1 =>
    match reimportTimes w r n with
    | (.ok r', w') => w'.reimportDesign (.text r'.id)
    | stopped => stopped

theorem WellKept.importDesign (h : WellKept w) (text : String) :
    WellKept (w.importDesign text).2 := by
  obtain ⟨heffect, hclock⟩ := effect_perform w (.importDesign (.text text))
  exact h.effect hclock heffect

/-- A text is imported wherever it is read as a design. -/
theorem WellKept.exists_importDesign (h : WellKept w) {d : Design}
    (hd : Design.ofText text = .ok d) :
    ∃ r w', w.importDesign text = (.ok r, w') ∧ r.design = d := by
  obtain ⟨r, hstore, hdesign, -⟩ := h.exists_store d
  refine ⟨r, (w.importDesign text).2, ?_, hdesign⟩
  unfold Workspace.importDesign
  rw [hd]
  exact Prod.ext hstore rfl

/-- Where a design is stored that was read from a text, its document is imported as the same
design, which is stored beside it. -/
theorem WellKept.reimport (h : WellKept w) {id : Atom} (hr : w.design? id = some r)
    (hread : Design.ofText text = .ok r.design) :
    ∃ r' w', w.reimportDesign id = (.ok r', w') ∧ r'.design = r.design ∧ WellKept w' ∧
      w'.design? (.text r'.id) = some r' := by
  have hdocument := Design.ofText_document_of_ofText hread
  obtain ⟨r', w', himport, hdesign⟩ := h.exists_importDesign hdocument
  have hkept := h.importDesign r.document
  have hstored : (w.importDesign r.document).2.design? (.text r'.id) = some r' :=
    design?_importDesign (by rw [himport])
  rw [himport] at hkept hstored
  exact ⟨r', w', by rw [reimportDesign_eq_importDesign hr, himport], hdesign, hkept, hstored⟩

/-- However often a design is imported again, it stays what it was. -/
theorem WellKept.reimportTimes (h : WellKept w) (hr : w.design? (.text r.id) = some r)
    (hread : Design.ofText text = .ok r.design) (n : ℕ) :
    ∃ r' w', w.reimportTimes r n = (.ok r', w') ∧ r'.design = r.design ∧ WellKept w' ∧
      w'.design? (.text r'.id) = some r' := by
  induction n with
  | zero => exact ⟨r, w, rfl, rfl, h, hr⟩
  | succ n ih =>
    obtain ⟨r', w', hlast, hdesign, hkept, hstored⟩ := ih
    rw [← hdesign] at hread
    obtain ⟨r'', w'', hnext, hsame, hkept', hstored'⟩ := hkept.reimport hstored hread
    refine ⟨r'', w'', ?_, hsame.trans hdesign, hkept', hstored'⟩
    rw [Workspace.reimportTimes, hlast]
    exact hnext

/-- A component that is made of fields is made again of its parts, and so of its document where
the keys of its properties are texts; and a design that is imported stays what it was when it is
exported and imported any number of times. -/
theorem made_again :
    (∀ (fs : Fields) (c : Component), Component.ofFields fs = .ok c →
      Component.ofParts c.parts = .ok c) ∧
    (∀ c : Component, (∀ p ∈ c.properties, ∃ s, p.1 = .text s) →
      Component.ofJson c.toJson = Component.ofParts c.parts) ∧
    ∀ (allowed : Call → Prop) (w : Workspace) (text : String) (r : StoredDesign),
      Reached allowed w → (w.importDesign text).1 = .ok r →
      ∀ n, ∃ r' w', (w.importDesign text).2.reimportTimes r n = (.ok r', w') ∧
        r'.design = r.design ∧ Design.ofText r'.document = .ok r.design := by
  refine ⟨fun fs c => Component.ofParts_of_ofFields, fun c => Component.ofJson_toJson,
    fun allowed w text r hreached himport n => ?_⟩
  have hread := ofText_of_importDesign himport
  obtain ⟨r', w', hlast, hdesign, -, -⟩ := (hreached.wellKept.importDesign text).reimportTimes
    (design?_importDesign himport) hread n
  rw [← hdesign] at hread ⊢
  exact ⟨r', w', hlast, rfl, Design.ofText_document_of_ofText hread⟩

def lettersAndPairs : Fields := [("x", .text ""), ("y", .text "left"), ("connections", .text "aba"),
  ("properties", .list [.list [.int 1, .text "old"], .list [.bool true, .text "new"]])]

def madeOfLettersAndPairs : Component :=
  ⟨.text "", .text "", .text "", .float .zero, .text "left", [.text "a", .text "b"],
    [(.int 1, .text "new")]⟩

def asWritten : Component := { madeOfLettersAndPairs with properties := [(.text "1", .text "new")] }

theorem made_again_bank :
    Component.ofFields lettersAndPairs = .ok madeOfLettersAndPairs ∧
      Component.ofParts madeOfLettersAndPairs.parts = .ok madeOfLettersAndPairs ∧
      Component.ofJson asWritten.toJson = Component.ofParts asWritten.parts ∧
      ∃ r, ((fresh 0).importDesign bankText).1 = .ok r ∧ r.design.name = .text "Bank" ∧
        ∃ r' w', ((fresh 0).importDesign bankText).2.reimportTimes r 3 = (.ok r', w') ∧
          r'.design = r.design ∧ Design.ofText r'.document = .ok r.design := by
  have hmade : Component.ofFields lettersAndPairs = .ok madeOfLettersAndPairs := rfl
  have hread : ((fresh 0).importDesign bankText).1.toOption.any
      (fun r => r.design.name == .text "Bank") = true := by decide +kernel
  obtain ⟨r, hr, hname⟩ := (Option.any_eq_true _ _).mp hread
  have himport := Partial.toOption_eq_some.mp hr
  have hfresh : Reached (fun _ => True) (fresh 0) := .fresh ⟨0, by decide⟩
  refine ⟨hmade, made_again.1 _ _ hmade, made_again.2.1 _ ?_, r, himport, Json.beq_text.mp hname,
    made_again.2.2 _ _ _ _ hfresh himport 3⟩
  exact List.forall_mem_singleton.mpr ⟨"1", rfl⟩

end MoveWorkbench.Workspace
