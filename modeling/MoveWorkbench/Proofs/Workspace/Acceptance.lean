import MoveWorkbench.Proofs.Design.FieldRules
import MoveWorkbench.Proofs.Workspace.Import

/-!
Which documents are imported. An object is imported just when it lists components that obey all
rules for fields, or has none. Else it is refused and nothing is stored: either it has something
else in place of its components, or the first fault in the order of components and rules is named.
-/

namespace MoveWorkbench.Workspace

open Design

variable {w : Workspace} {text : String}

def Refuses (w : Workspace) (text message : String) : Prop :=
  ∃ problem : ImportProblem, w.importDesign text = (.error (.importRefused problem), w) ∧
    problem.message = message

theorem importDesign_of_ofDocument_eq_ok (h : WellKept w) {v : Json} {d : Design}
    (hread : Json.ofText text = .ok v) (hd : ofDocument v = .ok d) :
    ∃ r, (w.importDesign text).1 = .ok r := by
  obtain ⟨r, hstore⟩ := h.store_eq d
  refine ⟨r, ?_⟩
  unfold importDesign Design.ofText
  simp only [hread, hd, hstore]

theorem importDesign_of_ofDocument_eq_refused (w : Workspace) {v : Json} {problem : ImportProblem}
    (hread : Json.ofText text = .ok v) (hd : ofDocument v = .error (.refused problem)) :
    w.importDesign text = (.error (.importRefused problem), w) := by
  unfold importDesign Design.ofText
  simp only [hread, hd]
  rfl

/-- What is refused is not imported. -/
theorem Refuses.not_imported {message : String} (h : w.Refuses text message) :
    ¬ ∃ r, (w.importDesign text).1 = .ok r := by
  obtain ⟨problem, hrefused, -⟩ := h
  rintro ⟨r, hr⟩
  rw [hrefused] at hr
  cases hr

/-- An object is imported just when its components are well typed. Where it does not list any
objects, this is what it is refused for, and else for the first rule that is broken. -/
theorem Reached.importDesign_wellTyped {allowed : Call → Prop} (h : Reached allowed w) {fs : Fields}
    (hread : Json.ofText text = .ok (.object fs)) :
    ((∃ r, (w.importDesign text).1 = .ok r) ↔ ∃ cs, Lists fs cs ∧ ∀ c ∈ cs, WellTyped c) ∧
      ((¬ ∃ cs, Lists fs cs) → w.Refuses text "Design components must be a list of objects") ∧
      ∀ cs, Lists fs cs → (¬ ∀ c ∈ cs, WellTyped c) →
        (∃ i rule, FirstFault cs i rule) ∧
        ∀ i rule, FirstFault cs i rule → w.Refuses text (rule.complaint i) := by
  have hunlisted (hnone : ¬ ∃ cs, Lists fs cs) :
      w.Refuses text "Design components must be a list of objects" :=
    ⟨_, importDesign_of_ofDocument_eq_refused w hread (ofDocument_of_not_lists hnone), rfl⟩
  have hfaulty {cs : List Fields} (hcs : Lists fs cs) (i : ℕ) (rule : FieldRule)
      (hfault : FirstFault cs i rule) : w.Refuses text (rule.complaint i) := by
    obtain ⟨problem, hproblem, hmessage⟩ := hcs.ofDocument_of_firstFault hfault
    exact ⟨problem, importDesign_of_ofDocument_eq_refused w hread hproblem, hmessage⟩
  refine ⟨⟨fun himported => ?_, ?_⟩, hunlisted,
    fun cs hcs hwrong => ⟨exists_firstFault hwrong, hfaulty hcs⟩⟩
  · by_contra hnot
    by_cases hlists : ∃ cs, Lists fs cs
    · obtain ⟨cs, hcs⟩ := hlists
      obtain ⟨i, rule, hfault⟩ := exists_firstFault fun htyped => hnot ⟨cs, hcs, htyped⟩
      exact (hfaulty hcs i rule hfault).not_imported himported
    · exact (hunlisted hlists).not_imported himported
  · rintro ⟨cs, hcs, htyped⟩
    obtain ⟨d, hd⟩ := hcs.ofDocument_of_wellTyped (Json.legible_of_ofText hread) htyped
    exact importDesign_of_ofDocument_eq_ok h.wellKept hread hd

def listing (cs : List Fields) : Fields := [("components", .list (cs.map .object))]

theorem legible_listing {cs : List Fields} (h : ∀ c ∈ cs, Json.Legible (.object c)) :
    Json.Legible (.object (listing cs)) :=
  .object (List.nodup_singleton _)
    (List.forall_mem_singleton.mpr (.list (List.forall_mem_map.mpr h)))

def coinFields : Fields := [("name", .text "Coin"), ("x", .null)]

def faultyVault : Fields := [("connections", .list [.int 1]), ("y", .bool true), ("name", .null)]

theorem legible_coinFields : Json.Legible (.object coinFields) :=
  .object (by decide) (by
    simp only [coinFields, List.forall_mem_cons]
    exact ⟨.text _, .null, fun _ hf => absurd hf List.not_mem_nil⟩)

theorem legible_faultyVault : Json.Legible (.object faultyVault) :=
  .object (by decide) (by
    simp only [faultyVault, List.forall_mem_cons]
    exact ⟨.list (List.forall_mem_singleton.mpr (.int (by decide))), .bool _, .null,
      fun _ hf => absurd hf List.not_mem_nil⟩)

/-- Of the faults of the vault the one of its name is told. -/
theorem importDesign_wellTyped_vault :
    (∃ r, ((fresh 0).importDesign (Json.object (listing [coinFields])).toText).1 = .ok r) ∧
      (fresh 0).Refuses (Json.object (listing [coinFields, faultyVault])).toText
        "Component 1: 'name' must be a string" := by
  have hcoin : WellTyped coinFields := wrongField?_eq_none_iff.mp rfl
  have hvault : FirstBroken faultyVault ⟨"name", "a string", Json.IsText⟩ := firstBroken_iff.mpr rfl
  have hwrong : ¬ ∀ c ∈ [coinFields, faultyVault], WellTyped c := fun hall =>
    absurd (wrongField?_eq_none_iff.mpr (hall faultyVault (by simp))) (by decide)
  have hfresh : Reached (fun _ => True) (fresh 0) := .fresh ⟨0, by decide⟩
  have hsound := Json.ofText_toText
    (legible_listing (List.forall_mem_singleton.mpr legible_coinFields))
  have hfaulty := Json.ofText_toText (legible_listing (List.forall_mem_cons.mpr
    ⟨legible_coinFields, List.forall_mem_singleton.mpr legible_faultyVault⟩))
  refine ⟨(hfresh.importDesign_wellTyped hsound).1.mpr
    ⟨[coinFields], .listed rfl, List.forall_mem_singleton.mpr hcoin⟩, ?_⟩
  have hblamed := ((hfresh.importDesign_wellTyped hfaulty).2.2 _ (.listed rfl) hwrong).2
  exact hblamed 1 _
    ⟨[coinFields], faultyVault, [], rfl, rfl, List.forall_mem_singleton.mpr hcoin, hvault⟩

end MoveWorkbench.Workspace
