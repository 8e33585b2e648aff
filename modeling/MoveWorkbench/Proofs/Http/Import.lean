import MoveWorkbench.Proofs.Http.Server
import MoveWorkbench.Proofs.Workspace.Atomic
import MoveWorkbench.Proofs.Workspace.Import

/-!
Requests for imports. A text that is refused is answered with the words for the problem, and
nothing is changed by it.
-/

namespace MoveWorkbench

namespace Http

def importOf (headers : List (String × String)) (body : Body) : Request :=
  ⟨"POST", "/api/designer/import", headers, body⟩

def Brings (body : Body) (text : String) : Prop :=
  ∃ v fs, Payload.ofBody body = .value v ∧ Form.imports.fill v = .ok fs ∧
    textOf fs "design_json" = text

theorem brings_json (text : String) :
    Brings (.json (.object [("design_json", .text text)])) text :=
  ⟨_, _, rfl, rfl, rfl⟩

/-- A text that is handed over is to be imported. -/
theorem dispatch_importOf {body : Body} {text : String} (h : Brings body text)
    (headers : List (String × String)) :
    server.dispatch (importOf headers body) = .call (.importDesign text) := by
  obtain ⟨v, fs, hbody, hfill, rfl⟩ := h
  have hroute : Route.ofPath? "/api/designer/import" = some .imports := by decide
  have hcall : dispatch (importOf headers body) =
      Form.imports.call (fun fs => .importDesign (textOf fs "design_json")) (.ofBody body) := by
    unfold dispatch importOf
    simp only [hroute]
    rfl
  change dispatch (importOf headers body) = _
  simp only [hcall, hbody, Form.call, hfill]

/-- What an import that is asked for is answered, and what it leaves. -/
theorem handle_importDesign {F : Framework} {r : Request} {text : String}
    (h : F.dispatch r = .call (.importDesign text)) (w : Workspace) :
    F.handle w r = (F.render (Result.of .design (w.importDesign text).1),
      (w.importDesign text).2) := by
  simp only [Framework.handle, h]
  rfl

end Http

namespace Workspace

open Http

variable {allowed : Call → Prop} {w : Workspace}

/-- An import stores just one design, behind all others, or refuses the text in words and leaves
all as it is. Otherwise an integer is met in the text that is too long to be read, so that more
digits stand one after another there than are read; then the import is broken off, and leaves
all as it is, too. -/
theorem Reached.imports_or_refuses (h : Reached allowed w) (text : String) :
    (∃ r, w.importDesign text = (.ok r, { w with
        designs := ⟨w.designs.entries ++ [(.text r.id, r)]⟩
        drawn := w.drawn + 1 })) ∨
      (∃ problem, w.importDesign text = (.error (.importRefused problem), w) ∧
        ∀ F : Framework, F.Lawful → ∀ r, F.dispatch r = .call (.importDesign text) →
          F.handle w r = (.answer 400 (.object [("detail", .text problem.message)]), w)) ∨
      w.importDesign text = (.error (.fault .tooManyDigits), w) ∧
        Json.ofText text = .error .tooManyDigits ∧ Json.HasLongRun text.toList := by
  rcases h.wellKept.importDesign_cases text with himported | ⟨problem, hrefused⟩ | hstopped
  · exact .inl himported
  · refine .inr (.inl ⟨problem, hrefused, fun F hF r hr => ?_⟩)
    rw [handle_importDesign hr, hrefused]
    exact congrArg (·, w) (hF.refused 400 problem.message)
  · exact .inr (.inr hstopped)

/-- A list is no design. -/
theorem imports_or_refuses_list :
    ∃ problem, bankWorkspace.importDesign "[]" = (.error (.importRefused problem), bankWorkspace) ∧
      server.handle bankWorkspace (importOf [] (.json (.object [("design_json", .text "[]")]))) =
        (.answer 400 (.object [("detail", .text problem.message)]), bankWorkspace) := by
  have hanswer : (bankWorkspace.importDesign "[]").1.toOption.isNone ∧
      fault? (bankWorkspace.importDesign "[]").1 = none := by decide +kernel
  rcases reached_bankWorkspace.imports_or_refuses "[]" with
    ⟨r, hr⟩ | ⟨problem, hrefused, hreply⟩ | ⟨hstopped, -⟩
  · rw [hr] at hanswer
    cases hanswer.1
  · exact ⟨problem, hrefused, hreply server server_lawful _ (dispatch_importOf (brings_json "[]") [])⟩
  · rw [hstopped] at hanswer
    cases hanswer.2

def longNumber : String := String.ofList (List.replicate (Json.maxDigits + 1) '1')

theorem ofText_longNumber : Json.ofText longNumber = .error .tooManyDigits := by
  have hones : ∀ d ∈ List.replicate (Json.maxDigits + 1) '1', d.isDigit = true := by
    intro d hd
    rw [List.eq_of_mem_replicate hd]
    rfl
  unfold longNumber
  rw [List.replicate_succ] at hones ⊢
  refine Json.ofText_of_digits (by decide) hones ?_
  rw [List.length_cons, List.length_replicate]
  exact Nat.lt_succ_self _

/-- An import of a number that is too long is broken off, and so is the request for it. -/
theorem importDesign_longNumber :
    bankWorkspace.importDesign longNumber = (.error (.fault .tooManyDigits), bankWorkspace) ∧
      server.handle bankWorkspace
        (importOf [] (.json (.object [("design_json", .text longNumber)]))) =
        (.crashed .tooManyDigits, bankWorkspace) := by
  have himport := importDesign_of_tooManyDigits bankWorkspace ofText_longNumber
  refine ⟨himport, ?_⟩
  rw [handle_importDesign (dispatch_importOf (brings_json longNumber) []), himport]
  rfl

end Workspace

end MoveWorkbench
