import MoveWorkbench.Proofs.Http.Server
import MoveWorkbench.Proofs.Workspace.Atomic

/-!
Requests that are refused. A status from 400 to 499 says that a request cannot be served as it
is: it leads nowhere, does not fit, or is about something that is not there. None of that
changes a workspace, in whatever state it is. What is answered once something has changed is a
record, or a failure that is not the client's.
-/

namespace MoveWorkbench

namespace Workspace

variable {w : Workspace} {α : Type}

/-- An answer with a record or a fault, or else one that leaves a workspace as it is. -/
def Sparing (w : Workspace) (a : Answer (Option α)) : Prop :=
  (∃ r, a.1 = .ok (some r)) ∨ (∃ f, a.1 = .error (.fault f)) ∨ a.2 = w

theorem sparing_given_store (d : Design) : w.Sparing (given (w.store d)) := by
  unfold store
  split
  · exact .inl ⟨_, rfl⟩
  · exact .inr (.inl ⟨_, rfl⟩)
  · exact .inr (.inl ⟨_, rfl⟩)

/-- An edit that misses something changes nothing, if nothing was changed for it before. -/
theorem sparing_settle {v : Workspace} {e : Edited} (h : e = .missing → v = w)
    (r : StoredDesign) : w.Sparing (v.settle r e) := by
  cases e with
  | missing => exact .inr (.inr (h rfl))
  | stopped f d => exact .inr (.inl ⟨f, rfl⟩)
  | done d =>
    unfold settle
    dsimp only
    split
    · exact .inr (.inl ⟨_, rfl⟩)
    · exact .inl ⟨_, rfl⟩

theorem sparing_edit (a : Atom) (f : Design → Edited) : w.Sparing (w.edit a f) := by
  unfold edit
  split
  · exact .inr (.inr rfl)
  · exact sparing_settle (fun _ => rfl) _

/-- The id for a component is drawn once the design is there, and then nothing is missing. -/
theorem sparing_addComponent (a : Atom) (new : Design.NewComponent) :
    w.Sparing (w.addComponent a new) := by
  unfold addComponent
  split
  · exact .inr (.inr rfl)
  · split
    · exact .inr (.inl ⟨_, rfl⟩)
    · refine sparing_settle (fun hmissing => ?_) _
      unfold Design.add at hmissing
      split at hmissing <;> cases hmissing

theorem sparing_given_importDesign (text : String) : w.Sparing (given (w.importDesign text)) := by
  unfold importDesign
  split
  · exact .inr (.inr rfl)
  · exact sparing_given_store _

theorem sparing_given_analyze (code : String) : w.Sparing (given (w.analyze code)) := by
  unfold analyze
  split
  · exact .inr (.inl ⟨_, rfl⟩)
  · dsimp only
    split
    · exact .inl ⟨_, rfl⟩
    · exact .inr (.inl ⟨_, rfl⟩)
    · exact .inr (.inl ⟨_, rfl⟩)

end Workspace

namespace Http

open Workspace

def Reply.Refuses (r : Reply) : Prop := 400 ≤ r.status ∧ r.status < 500

def Harmless (w : Workspace) (o : Result × Workspace) : Prop :=
  ∀ status detail, o.1 = .refused status detail → o.2 = w

variable {F : Framework} {w : Workspace} {α : Type} {result : α → Result}

theorem harmless_same (r : Result) : Harmless w (r, w) := fun _ _ _ => rfl

/-- A record is data and a fault breaks the request off; neither is a refusal. -/
theorem harmless_found (hresult : ∀ r status detail, result r ≠ .refused status detail)
    {a : Answer (Option α)} (h : w.Sparing a) (missing : String) :
    Harmless w (Endpoint.outcome (Result.found result missing) a) := by
  obtain ⟨answer, left⟩ := a
  intro status detail hrefused
  rcases h with ⟨r, rfl⟩ | ⟨f, rfl⟩ | hleft
  · exact absurd hrefused (hresult r status detail)
  · cases hrefused
  · exact hleft

theorem harmless_of (hresult : ∀ r status detail, result r ≠ .refused status detail)
    {a : Answer α} (h : w.Sparing (given a)) :
    Harmless w (Endpoint.outcome (Result.of result) a) := by
  obtain ⟨answer, left⟩ := a
  intro status detail hrefused
  cases answer with
  | ok r => exact absurd hrefused (hresult r status detail)
  | error failure =>
    rcases h with ⟨r, hr⟩ | ⟨f, hf⟩ | hleft
    · cases hr
    · cases hf
      cases hrefused
    · exact hleft

theorem harmless_run (w : Workspace) (e : Endpoint) : Harmless w (e.run w) := by
  have hanalysis (a : Analysis) (status : ℕ) (detail : String) :
      Result.analysis a ≠ .refused status detail := by simp [Result.analysis, Result.ok]
  have hdesign (r : StoredDesign) (status : ℕ) (detail : String) :
      Result.design r ≠ .refused status detail := by simp
  cases e with
  | analyze code => exact harmless_of hanalysis (sparing_given_analyze code)
  | createDesign => exact harmless_of hdesign (sparing_given_store _)
  | updateDesign => exact harmless_found hdesign (sparing_edit _ _) _
  | addComponent => exact harmless_found hdesign (sparing_addComponent _ _) _
  | updateComponent => exact harmless_found hdesign (sparing_edit _ _) _
  | removeComponent => exact harmless_found hdesign (sparing_edit _ _) _
  | addConnection => exact harmless_found hdesign (sparing_edit _ _) _
  | removeConnection => exact harmless_found hdesign (sparing_edit _ _) _
  | importDesign text => exact harmless_of hdesign (sparing_given_importDesign text)
  | _ => exact harmless_same _

/-- Of what an endpoint comes to, only a refusal is shown with the status of one. -/
theorem Framework.Lawful.exists_refused (hF : F.Lawful) {result : Result}
    (h : (F.render result).Refuses) : ∃ status detail, result = .refused status detail := by
  have hdata {v : Json} (hv : result.value? = some v) : False := by
    unfold Reply.Refuses at h
    rcases hF.data hv with ⟨body, hbody, -⟩ | hstatus
    · rw [hbody, Reply.status] at h
      omega
    · omega
  cases result with
  | data v => exact (hdata rfl).elim
  | design r => exact (hdata rfl).elim
  | refused status detail => exact ⟨status, detail, rfl⟩
  | failed =>
    rw [Reply.Refuses, hF.failed] at h
    omega
  | raised f =>
    rw [Reply.Refuses, hF.raised] at h
    omega

/-- What is called with the method that only asks is a lookup. -/
theorem Endpoint.exists_look_of_method {e : Endpoint} (h : e.method = "GET") :
    ∃ l, e = look l := by
  cases e with
  | look l => exact ⟨l, rfl⟩
  | _ => simp [method] at h

/-- A request that is refused leaves the workspace as it is, and so does every request with the
method that only asks. -/
theorem handle_eq_of_refuses (hF : F.Lawful) (w : Workspace) (r : Request)
    (h : (F.handle w r).1.Refuses ∨ r.method = "GET") : (F.handle w r).2 = w := by
  unfold Framework.handle at h ⊢
  cases hdispatch : F.dispatch r with
  | reply reply => rfl
  | call e =>
    rw [hdispatch] at h
    rcases h with hrefuses | hget
    · obtain ⟨status, detail, hrefused⟩ := hF.exists_refused hrefuses
      exact harmless_run w e status detail hrefused
    · obtain ⟨l, rfl⟩ := Endpoint.exists_look_of_method ((hF.method hdispatch).symm.trans hget)
      rfl

def coinForNobody : Request :=
  ⟨"POST", "/api/designer/design/design-1-000000000/component", [], .json (.object [
    ("kind", .text "object"), ("name", .text "Coin"), ("x", .int 1), ("y", .int 2)])⟩

theorem handle_eq_of_refuses_coin :
    (server.handle bankWorkspace coinForNobody).1.status = 404 ∧
      (server.handle bankWorkspace coinForNobody).2 = bankWorkspace := by
  have hstatus : (server.handle bankWorkspace coinForNobody).1.status = 404 := by decide +kernel
  refine ⟨hstatus, handle_eq_of_refuses server_lawful bankWorkspace coinForNobody (.inl ?_)⟩
  rw [Reply.Refuses, hstatus]
  decide

end Http

end MoveWorkbench
