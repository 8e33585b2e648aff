import MoveWorkbench.Proofs.Http.Server
import MoveWorkbench.Proofs.Http.Served

/-!
Answers to validations. In a workspace that serves requests a validation answers with the
problems of the design, or with the problem that there is none, as long as ids and names are
atoms and names that come again are texts. An update of a whole design takes over ids and
names of any kind; where one of them does not fit, the validation is broken off.
-/

namespace MoveWorkbench.Http

def validated (problems : List Problem) : Reply :=
  .answer 200 (Result.success (Problem.report problems))

theorem arePlain_messages (problems : List Problem) :
    Json.arePlain (problems.map fun p => .text p.message) = true := by
  induction problems with
  | nil => rfl
  | cons p problems ih => simp only [List.map_cons, Json.arePlain, Json.isPlain, ih, Bool.and_true]

/-- Problems are told in texts. -/
theorem isPlain_report (problems : List Problem) :
    (Result.success (Problem.report problems)).isPlain = true := by
  simp [Result.success, Problem.report, Json.isPlain, Json.fieldsPlain, Json.isPublic,
    arePlain_messages]

variable {F : Framework} {w : Workspace} {id : String}

theorem Framework.Lawful.handle_validation (hF : F.Lawful) (hid : IsSegment id)
    (headers : List (String × String)) (body : Body) :
    (F.handle w ((Lookup.validation id).request headers body)).1 =
      match w.validate (.text id) with
      | .ok problems => validated problems
      | .error f => F.render (.raised f) := by
  have hsegment : ∀ s ∈ (Lookup.validation id).id?, IsSegment s := by
    simpa [Lookup.id?] using hid
  simp only [Framework.handle, hF.lookup _ hsegment, Endpoint.run, Lookup.answer]
  cases w.validate (.text id) with
  | ok problems => exact hF.plain _ (isPlain_report problems)
  | error f => rfl

/-- A stored design is validated when it is labelled, and so is a missing one. -/
theorem Served.exists_validate_iff (h : Served F w) {a : Atom} :
    (∃ problems, w.validate a = .ok problems) ↔
      ∀ r, w.design? a = some r → r.design.Labelled := by
  unfold Workspace.validate
  cases hr : w.design? a with
  | none => simp
  | some r =>
    have hlinked : r.design.Linked := h.reached.linked hr
    simp only [Design.exists_problems_iff, hlinked, and_true, Option.some.injEq, forall_eq']

/-- A validation answers with the problems when the design is labelled or missing, and is
broken off when it is not. -/
theorem Served.validation (hF : F.Lawful) (h : Served F w) (hid : IsSegment id)
    (headers : List (String × String)) (body : Body) :
    let reply := (F.handle w ((Lookup.validation id).request headers body)).1
    ((∀ r, w.design? (.text id) = some r → r.design.Labelled) →
      ∃ problems, w.validate (.text id) = .ok problems ∧ reply = validated problems) ∧
    ((∃ r, w.design? (.text id) = some r ∧ ¬ r.design.Labelled) →
      ∃ f, w.validate (.text id) = .error f ∧ reply.status = 500) := by
  intro reply
  have hreply := hF.handle_validation (w := w) hid headers body
  constructor
  · intro hlabelled
    obtain ⟨problems, hproblems⟩ := h.exists_validate_iff.mpr hlabelled
    rw [hproblems] at hreply
    exact ⟨problems, hproblems, hreply⟩
  · rintro ⟨r, hr, hnot⟩
    cases hvalidate : w.validate (.text id) with
    | ok problems => exact absurd (h.exists_validate_iff.mp ⟨problems, hvalidate⟩ r hr) hnot
    | error f =>
      rw [hvalidate] at hreply
      exact ⟨f, rfl, (congrArg Reply.status hreply).trans (hF.raised f)⟩

def bankServed (name : Json) : Workspace :=
  let created := (server.handle (.fresh 0)
    ⟨"POST", "/api/designer/design", [], .json (.object [("name", .text "Bank")])⟩).2
  (server.handle created ⟨"PUT", "/api/designer/design/design-0-000000000", [],
    .json (.object [("components", .list [.object [("name", name)]])])⟩).2

theorem served_bankServed (name : Json) : Served server (bankServed name) :=
  ((Served.fresh ⟨0, by decide⟩).request _).request _

theorem isSegment_bank : IsSegment "design-0-000000000" := ⟨by decide, by decide⟩

theorem validation_bankServed :
    ∃ problems, (bankServed (.text "Vault")).validate (.text "design-0-000000000") = .ok problems ∧
      (server.handle (bankServed (.text "Vault"))
        ((Lookup.validation "design-0-000000000").request [] .empty)).1 = validated problems := by
  have hvalidation := (served_bankServed (.text "Vault")).validation server_lawful isSegment_bank
    [] .empty
  refine hvalidation.1 fun r hr => ?_
  have htexts : ((bankServed (.text "Vault")).design? (.text "design-0-000000000")).all
      (fun r => r.design.components.all fun c =>
        FieldType.text.admits c.id && FieldType.text.admits c.name) = true := by decide +kernel
  rw [hr, Option.all_some, List.all_eq_true] at htexts
  simp only [Bool.and_eq_true] at htexts
  exact Design.labelled_of_texts (fun c hc => FieldType.isText_of_admits (htexts c hc).1)
    fun c hc => FieldType.isText_of_admits (htexts c hc).2

/-- A list in place of a name keeps a design from being validated. -/
theorem validation_crashed_of_list_name :
    Served server (bankServed (.list [.int 1])) ∧ ∀ headers body,
      (server.handle (bankServed (.list [.int 1]))
        ((Lookup.validation "design-0-000000000").request headers body)).1 =
          .crashed .unhashable := by
  refine ⟨served_bankServed _, fun headers body => ?_⟩
  rw [server_lawful.handle_validation isSegment_bank headers body]
  have hfault : (match (bankServed (.list [.int 1])).validate (.text "design-0-000000000") with
      | .ok _ => false
      | .error f => f = .unhashable) = true := by decide +kernel
  split at hfault
  · cases hfault
  · rw [of_decide_eq_true hfault]
    rfl

end MoveWorkbench.Http
