import MoveWorkbench.Proofs.Http.Refusal
import MoveWorkbench.Proofs.Json.Numeral
import MoveWorkbench.Proofs.Workspace.Outcome

/-!
Records that are read after they are written. A request that is answered with the record it has
written leaves just this record in the workspace: to ask for it by its id is answered in the same
way, and whatever is asked about other records is answered as before.
-/

namespace MoveWorkbench

namespace Workspace

/-- An id that is drawn has no slashes when its tag has none. -/
theorem slash_not_mem_idText {tag : String} (htag : '/' ∉ tag.toList) (t : ℤ) (n : ℕ) :
    '/' ∉ (idText tag t n).toList := by
  have htime : '/' ∉ (toString t).toList := by
    rw [Json.toList_toString_int]
    intro hmem
    unfold Json.signed at hmem
    have hdigit : '/' ∉ Nat.toDigits 10 t.natAbs := fun hmem =>
      Json.isDigit_ne (Json.isDigit_of_mem_toDigits hmem) rfl rfl
    split at hmem
    · rcases List.mem_cons.mp hmem with heq | hmem
      · cases heq
      · exact hdigit hmem
    · exact hdigit hmem
  have hnumber : '/' ∉ Text.padZeros 9 (Text.digitsIn 36 n) := by
    intro hmem
    obtain ⟨d, hd, heq⟩ := Text.mem_padZeros_digitsIn (by omega) 9 n hmem
    have hall : ∀ k < 36, '/' ≠ Text.digitChar k := by decide
    exact hall d hd heq
  unfold idText
  simp only [String.toList_append, String.toList_ofList, List.mem_append, not_or]
  exact ⟨⟨⟨⟨htag, by decide⟩, htime⟩, by decide⟩, hnumber⟩

end Workspace

namespace Http

open Workspace

theorem isSegment_of_nextId {w : Workspace} {tag id : String} (htag : '/' ∉ tag.toList)
    (h : w.nextId tag = .ok id) : IsSegment id := by
  obtain ⟨t, rfl⟩ := exists_eq_idText h
  refine ⟨fun hempty => ?_, slash_not_mem_idText htag t w.drawn⟩
  have hlist := congrArg String.toList hempty
  simp [idText] at hlist

inductive Record where
  | design (id : String)
  | analysis (id : String)
  deriving DecidableEq

namespace Record

def id : Record → String
  | design id | analysis id => id

def lookup : Record → Lookup
  | design id => .design id
  | analysis id => .analysis id

def Same (w v : Workspace) : Record → Prop
  | design id => v.design? (.text id) = w.design? (.text id)
  | analysis id => v.analysis? (.text id) = w.analysis? (.text id)

theorem isSegment_of_lookup {record : Record} (h : IsSegment record.id) :
    ∀ id ∈ record.lookup.id?, IsSegment id := by
  cases record <;> simpa [lookup, Lookup.id?, id] using h

end Record

def Lookup.record? : Lookup → Option Record
  | health => none
  | analysis id | report id => some (.analysis id)
  | design id | mermaid id | plantUml id | validation id | document id => some (.design id)

def Endpoint.written? : Endpoint → Option (String → Record)
  | analyze _ => some .analysis
  | createDesign _ _ | updateDesign _ _ | addComponent _ _ | updateComponent _ _ _
  | removeComponent _ _ | addConnection _ _ _ | removeConnection _ _ _ | importDesign _ =>
    some .design
  | look _ | compare _ _ | transactionEstimate _ | moveCode _ _ _ _ => none

variable {F : Framework} {w v : Workspace}

/-- What a lookup is answered depends on the record that it is about, and on nothing else. -/
theorem answer_congr {l : Lookup} (h : ∀ record, l.record? = some record → record.Same w v) :
    l.answer v = l.answer w := by
  cases l with
  | health => rfl
  | analysis id =>
    have hsame : v.analysis? (.text id) = w.analysis? (.text id) := h _ rfl
    simp only [Lookup.answer, hsame]
  | report id =>
    have hsame : v.analysis? (.text id) = w.analysis? (.text id) := h _ rfl
    simp only [Lookup.answer, Workspace.report, hsame]
  | design id =>
    have hsame : v.design? (.text id) = w.design? (.text id) := h _ rfl
    simp only [Lookup.answer, hsame]
  | mermaid id =>
    have hsame : v.design? (.text id) = w.design? (.text id) := h _ rfl
    simp only [Lookup.answer, Workspace.mermaid, Workspace.render, hsame]
  | plantUml id =>
    have hsame : v.design? (.text id) = w.design? (.text id) := h _ rfl
    simp only [Lookup.answer, Workspace.plantUml, Workspace.render, hsame]
  | validation id =>
    have hsame : v.design? (.text id) = w.design? (.text id) := h _ rfl
    simp only [Lookup.answer, validate, hsame]
  | document id =>
    have hsame : v.design? (.text id) = w.design? (.text id) := h _ rfl
    simp only [Lookup.answer, exportDesign, Workspace.render, hsame]

def Result.Fails : Result → Prop
  | data _ | design _ => False
  | refused status _ => status ≠ 200
  | failed | raised _ => True

theorem Framework.Lawful.status_ne_of_fails (hF : F.Lawful) {result : Result} (h : result.Fails) :
    (F.render result).status ≠ 200 := by
  cases result with
  | data v => exact h.elim
  | design r => exact h.elim
  | refused status detail =>
    rw [hF.refused]
    exact h
  | failed =>
    rw [hF.failed]
    decide
  | raised f =>
    rw [hF.raised]
    decide

theorem fails_refused {status : ℕ} (h : status ≠ 200) (detail : String) :
    (Result.refused status detail).Fails := h

/-- An outcome that can be read back: when it is no failure it shows a record which is left to be
looked up, and every other record is left as it was. -/
def Readable (w : Workspace) (record : String → Record) (o : Result × Workspace) : Prop :=
  o.1.Fails ∨ ∃ value id, o.1.value? = some value ∧ IsSegment (record id).id ∧
    value.at? ["data", "id"] = some (.text id) ∧ (record id).lookup.answer o.2 = o.1 ∧
      ∀ other, other ≠ record id → other.Same w o.2

theorem text_beq_text {s t : String} : (Atom.text s == .text t) = true ↔ s = t := by
  rw [Atom.beq_iff]
  exact ⟨fun h => by injection h, congrArg Key.text⟩

theorem at?_success_toJson (r : StoredDesign) :
    (Result.success r.toJson).at? ["data", "id"] = some (.text r.id) := by
  simp [Result.success, Json.at?, StoredDesign.toJson]

theorem at?_success_analysis {a : Analysis} {id : String} (ha : a.id = .text id) :
    (Result.success a.toJson).at? ["data", "id"] = some (.text id) := by
  simp [Result.success, Json.at?, Analysis.toJson, ha, Atom.toJson]

/-- A design that is put into a workspace is left to be looked up. -/
theorem readable_putDesign {r : StoredDesign} (hid : IsSegment r.id)
    (hdesigns : v.designs = w.designs) (hanalyses : v.analyses = w.analyses) :
    Readable w .design (.design r, v.putDesign r) := by
  refine .inr ⟨_, r.id, rfl, hid, at?_success_toJson r, ?_, fun other hother => ?_⟩
  · simp only [Record.lookup, Lookup.answer, design?_putDesign, BEq.rfl, if_true, Result.ofDesign,
      Result.found]
  · cases other with
    | design id =>
      have hne : ¬ (Atom.text r.id == .text id) = true := by
        rw [text_beq_text]
        exact fun heq => hother (heq ▸ rfl)
      change (v.putDesign r).design? _ = w.design? _
      rw [design?_putDesign, if_neg hne, Workspace.design?, hdesigns]
      rfl
    | analysis id =>
      change v.analyses.get? _ = w.analyses.get? _
      rw [hanalyses]

/-- An analysis that is put into a workspace is left to be looked up. -/
theorem readable_putAnalysis {a : Analysis} {id : String} (ha : a.id = .text id)
    (hid : IsSegment id) (hdesigns : v.designs = w.designs) (hanalyses : v.analyses = w.analyses) :
    Readable w .analysis (.analysis a, v.putAnalysis a) := by
  have hget (other : Atom) : (v.putAnalysis a).analysis? other =
      if Atom.text id == other then some a else w.analysis? other := by
    have hsame : w.analysis? other = v.analysis? other := by
      rw [Workspace.analysis?, ← hanalyses]
      rfl
    rw [← ha, hsame]
    exact v.analyses.get?_put a.id a other
  refine .inr ⟨_, id, rfl, hid, at?_success_analysis ha, ?_, fun other hother => ?_⟩
  · simp only [Record.lookup, Lookup.answer, hget, BEq.rfl, if_true, Result.found]
  · cases other with
    | design id =>
      change v.designs.get? _ = w.designs.get? _
      rw [hdesigns]
    | analysis other =>
      have hne : ¬ (Atom.text id == .text other) = true := by
        rw [text_beq_text]
        exact fun heq => hother (heq ▸ rfl)
      change (v.putAnalysis a).analysis? _ = w.analysis? _
      rw [hget, if_neg hne]

theorem readable_store (d : Design) :
    Readable w .design (Endpoint.outcome (.of .design) (w.store d)) := by
  unfold store
  split
  · rename_i t id _ hid
    exact readable_putDesign (r := ⟨id, d, t, t⟩) (isSegment_of_nextId (by decide) hid) rfl rfl
  · exact .inl trivial
  · exact .inl trivial

theorem readable_importDesign (text : String) :
    Readable w .design (Endpoint.outcome (.of .design) (w.importDesign text)) := by
  unfold importDesign
  split
  · rename_i problem _
    cases problem with
    | refused problem => exact .inl (fails_refused (by decide) _)
    | stopped f => exact .inl trivial
  · exact readable_store _

theorem readable_settle {r : StoredDesign} (hid : IsSegment r.id)
    (hdesigns : v.designs = w.designs) (hanalyses : v.analyses = w.analyses) (missing : String)
    (e : Edited) :
    Readable w .design (Endpoint.outcome (.ofDesign missing) (v.settle r e)) := by
  cases e with
  | missing => exact .inl (fails_refused (by decide) _)
  | stopped f d => exact .inl trivial
  | done d =>
    unfold settle
    dsimp only
    split
    · exact .inl trivial
    · rename_i t _
      exact readable_putDesign (r := { r with design := d, updatedAt := t }) hid hdesigns hanalyses

theorem readable_edit (h : w.Filed) {id : String} (hid : IsSegment id) (missing : String)
    (f : Design → Edited) :
    Readable w .design (Endpoint.outcome (.ofDesign missing) (w.edit (.text id) f)) := by
  unfold edit
  split
  · exact .inl (fails_refused (by decide) _)
  · rename_i r hr
    exact readable_settle ((h.id_eq hr).symm ▸ hid) rfl rfl missing _

theorem readable_addComponent (h : w.Filed) {id : String} (hid : IsSegment id) (missing : String)
    (new : Design.NewComponent) :
    Readable w .design (Endpoint.outcome (.ofDesign missing) (w.addComponent (.text id) new)) := by
  unfold addComponent
  split
  · exact .inl (fails_refused (by decide) _)
  · rename_i r hr
    split
    · exact .inl trivial
    · exact readable_settle ((h.id_eq hr).symm ▸ hid) rfl rfl missing _

theorem readable_analyze (code : String) :
    Readable w .analysis (Endpoint.outcome (.of .analysis) (w.analyze code)) := by
  unfold analyze
  split
  · exact .inl trivial
  · dsimp only
    split
    · rename_i id t hid _
      exact readable_putAnalysis rfl (isSegment_of_nextId (by decide) hid) rfl rfl
    · exact .inl trivial
    · exact .inl trivial

theorem readable_run (h : w.Filed) {e : Endpoint} (hsegments : ∀ id ∈ e.segments, IsSegment id)
    {record : String → Record} (hwritten : e.written? = some record) :
    Readable w record (e.run w) := by
  cases e with
  | analyze code =>
    cases hwritten
    exact readable_analyze code
  | createDesign =>
    cases hwritten
    exact readable_store _
  | importDesign text =>
    cases hwritten
    exact readable_importDesign text
  | addComponent id new =>
    cases hwritten
    exact readable_addComponent h (hsegments id (by simp [Endpoint.segments])) _ _
  | look | compare | transactionEstimate | moveCode => cases hwritten
  | updateDesign id | updateComponent id | removeComponent id | addConnection id
  | removeConnection id =>
    cases hwritten
    exact readable_edit h (hsegments id (by simp [Endpoint.segments])) _ _

def Reply.Shows (reply : Reply) (id : String) : Prop :=
  ∃ body, reply = .answer 200 body ∧ body.at? ["data", "id"] = some (.text id)

/-- Whether a request only asks, and not about a record. -/
def Framework.Elsewhere (F : Framework) (q : Request) (record : Record) : Prop :=
  q.method = "GET" ∧ ∀ l, F.dispatch q = .call (.look l) → l.record? ≠ some record

/-- What is asked for elsewhere is answered the same, if all other records are the same. -/
theorem Framework.Lawful.handle_eq_of_elsewhere (hF : F.Lawful) {q : Request} {record : Record}
    (hq : F.Elsewhere q record) (hsame : ∀ other, other ≠ record → other.Same w v) :
    (F.handle v q).1 = (F.handle w q).1 := by
  obtain ⟨hget, helse⟩ := hq
  unfold Framework.handle
  cases hdispatch : F.dispatch q with
  | reply reply => rfl
  | call e =>
    obtain ⟨l, rfl⟩ := Endpoint.exists_look_of_method ((hF.method hdispatch).symm.trans hget)
    have hanswer : l.answer v = l.answer w := answer_congr fun other hother =>
      hsame other fun heq => helse l hdispatch (heq ▸ hother)
    simp only [Endpoint.run, hanswer]

/-- A request that is to create, change or delete is answered with a success only by an endpoint.
Where this writes a record, the reply shows a record with an id: to ask for the record by this id
is answered in just the same way, and whatever is asked about other records is answered as
before. -/
theorem reads_written (hF : F.Lawful) (h : w.Filed) {r : Request}
    (hmethod : r.method ∈ ["POST", "PUT", "DELETE"]) (hstatus : (F.handle w r).1.status = 200) :
    ∃ e, F.dispatch r = .call e ∧ ∀ record, e.written? = some record →
      ∃ id, (F.handle w r).1.Shows id ∧
        (∀ headers body, (F.handle (F.handle w r).2
          ((record id).lookup.request headers body)).1 = (F.handle w r).1) ∧
        ∀ q, F.Elsewhere q (record id) → (F.handle (F.handle w r).2 q).1 = (F.handle w q).1 := by
  cases hdispatch : F.dispatch r with
  | reply reply =>
    simp only [Framework.handle, hdispatch] at hstatus
    exact absurd hstatus (hF.own hdispatch hmethod)
  | call e =>
    have hhandle : F.handle w r = (F.render (e.run w).1, (e.run w).2) := by
      simp only [Framework.handle, hdispatch]
    rw [hhandle] at hstatus ⊢
    refine ⟨e, rfl, fun record hwritten => ?_⟩
    rcases readable_run h (hF.segment hdispatch) hwritten with
      hfails | ⟨value, id, hvalue, hid, hat, hanswer, hothers⟩
    · exact absurd hstatus (hF.status_ne_of_fails hfails)
    · rcases hF.data hvalue with ⟨body, hbody, htexts⟩ | hbroken
      · refine ⟨id, ⟨body, hbody, htexts _ _ (by decide) hat⟩, fun headers b => ?_, fun q hq =>
          hF.handle_eq_of_elsewhere hq hothers⟩
        have hlookup := hF.lookup _ (Record.isSegment_of_lookup hid) headers b
        simp only [Framework.handle, hlookup]
        exact congrArg F.render hanswer
      · rw [hbroken] at hstatus
        cases hstatus

def coinForBank : Request :=
  ⟨"POST", "/api/designer/design/design-0-000000000/component", [], .json (.object [
    ("kind", .text "object"), ("name", .text "Coin"), ("x", .int 1), ("y", .int 2)])⟩

/-- The design shows the coin and is looked up with the coin. -/
theorem reads_written_coin : ∃ id,
    (server.handle bankWorkspace coinForBank).1.Shows id ∧
      ∀ headers body, (server.handle (server.handle bankWorkspace coinForBank).2
        ((Lookup.design id).request headers body)).1 =
          (server.handle bankWorkspace coinForBank).1 := by
  have hstatus : (server.handle bankWorkspace coinForBank).1.status = 200 := by decide +kernel
  have hadds : (match server.dispatch coinForBank with
      | .call (.addComponent _ _) => true
      | _ => false) = true := by decide +kernel
  obtain ⟨e, he, hreads⟩ := reads_written server_lawful reached_bankWorkspace.filed
    (by decide) hstatus
  rw [he] at hadds
  have hwritten : e.written? = some .design := by
    split at hadds
    · rename_i heq
      cases heq
      rfl
    · cases hadds
  obtain ⟨id, hshows, hread, -⟩ := hreads .design hwritten
  exact ⟨id, hshows, hread⟩

end Http

end MoveWorkbench
