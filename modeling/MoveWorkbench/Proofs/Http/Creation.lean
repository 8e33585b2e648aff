import MoveWorkbench.Proofs.Http.Served

/-!
Creation never overwrites. Actions, requests, imports of what is stored, deletions and sweeps
follow one another, and the clock may be moved anywhere in between; what never happens is that a
record is put under an id that was not drawn. All ids that are drawn then differ, and each record
that is made comes to the end of its store, after all that was there.
-/

namespace MoveWorkbench

namespace Store

variable {α : Type}

theorem entries_sweptAt_subset (s : Store α) (stamp : α → Instant) (maxAge : Span) (clock : ℤ) :
    (s.sweptAt stamp maxAge clock).entries ⊆ s.entries := by
  unfold sweptAt
  split
  · rename_i swept hswept
    obtain ⟨cutoff, rfl⟩ := Workspace.exists_cutoff_of_sweep hswept
    exact List.filter_subset_self _
  · exact List.Subset.refl _

/-- The sweeper only takes records away. -/
theorem entries_runSweeper_subset (stamp : α → Instant) (interval : ℤ) (maxAge : Span) (n : ℕ)
    (clock : ℤ) (s : Store α) :
    (runSweeper stamp interval maxAge n clock s).store.entries ⊆ s.entries := by
  induction n generalizing clock s with
  | zero => exact List.Subset.refl _
  | succ n ih => exact List.Subset.trans (ih _ _) (entries_sweptAt_subset s stamp maxAge _)

end Store

namespace Http

open Workspace

variable {w : Workspace} {turn : Turn} {l : Ledger}

theorem Task.drawsOne {v : Workspace} {tag? : Option String} (h : Task w tag? v) :
    w.DrawsOne v tag? := by
  cases h with
  | none => exact .inl rfl
  | call => exact drawsOne_perform w _
  | analyze code => exact drawsOne_analyze w code

theorem Task.numbered {v : Workspace} {tag? : Option String} (h : Task w tag? v)
    (hw : w.Numbered) : v.Numbered := by
  cases h with
  | none => exact hw
  | call => exact hw.perform _
  | analyze code => exact hw.analyze code

/-- To import what is stored comes down to a call, or changes nothing. -/
theorem task_reimport (w : Workspace) (id : Atom) :
    Task w (some "design") (w.reimportDesign id).2 := by
  unfold reimportDesign
  split
  · exact .none _
  · exact .call (c := .importDesign (.text _)) trivial

namespace Turn

theorem drawsOne_leave (w : Workspace) (turn : Turn) : w.DrawsOne (turn.leave w) turn.tag? := by
  cases turn with
  | act action => exact drawsOne_act w action
  | request F r => exact (task_handle F w r).drawsOne
  | reimport id => exact (task_reimport w id).drawsOne
  | drawId tag => exact .inr ⟨rfl, rfl⟩
  | _ => exact .inl rfl

theorem numbered_leave (h : w.Numbered) (turn : Turn) : (turn.leave w).Numbered := by
  cases turn with
  | act action => exact h.act action
  | request F r => exact (task_handle F w r).numbered h
  | reimport id => exact (task_reimport w id).numbered h
  | drawId tag => exact h.subset (List.Subset.refl _) (List.Subset.refl _) (Nat.le_succ _)
  | advance micros => exact h.subset (List.Subset.refl _) (List.Subset.refl _) (Nat.le_refl _)
  | deleteDesign id =>
    exact h.subset (List.filter_subset_self _) (List.Subset.refl _) (Nat.le_refl _)
  | deleteAnalysis id =>
    exact h.subset (List.Subset.refl _) (List.filter_subset_self _) (Nat.le_refl _)
  | keepDesigns interval maxAge rounds =>
    exact h.subset (Store.entries_runSweeper_subset _ _ _ _ _ _) (List.Subset.refl _)
      (Nat.le_refl _)
  | keepAnalyses interval maxAge rounds =>
    exact h.subset (List.Subset.refl _) (Store.entries_runSweeper_subset _ _ _ _ _ _)
      (Nat.le_refl _)

/-- An id that is drawn has the next number, which is used up then. -/
theorem exists_of_drawn? {id : String} (h : turn.drawn? w = some id) :
    (∃ tag t, id = idText tag t w.drawn) ∧ (turn.leave w).drawn = w.drawn + 1 := by
  unfold drawn? at h
  split at h
  · cases h
  · rename_i hmoved
    obtain ⟨tag, -, hid⟩ := Option.bind_eq_some_iff.mp h
    obtain ⟨t, ht⟩ := exists_eq_idText (Partial.toOption_eq_some.mp hid)
    exact ⟨⟨tag, t, ht⟩, ((drawsOne_leave w turn).resolve_left hmoved).1⟩

end Turn

namespace Ledger

/-- What holds at the beginning and is kept by each turn holds after any run. -/
theorem run_induction {P : Ledger → Prop} (clock : ℤ) (hopened : P (opened clock))
    (hafter : ∀ l turn, P l → P (l.after turn)) (turns : List Turn) : P (run clock turns) := by
  have hfold (l : Ledger) (hl : P l) : P (turns.foldl after l) := by
    induction turns generalizing l with
    | nil => exact hl
    | cons turn turns ih => exact ih (l.after turn) (hafter l turn hl)
  exact hfold _ hopened

structure Kept (l : Ledger) : Prop where
  numbered : l.workspace.Numbered
  nodup : l.ids.Nodup
  below : ∀ id ∈ l.ids, ∃ tag t n, id = idText tag t n ∧ n < l.workspace.drawn

theorem kept_opened (clock : ℤ) : Kept (opened clock) where
  numbered := ⟨fun _ he => absurd he List.not_mem_nil, fun _ he => absurd he List.not_mem_nil,
    fun _ he => absurd he List.not_mem_nil⟩
  nodup := List.nodup_nil
  below _ hid := absurd hid List.not_mem_nil

theorem Kept.after (h : Kept l) (turn : Turn) : Kept (l.after turn) := by
  have hnumbered := turn.numbered_leave h.numbered
  have hle : l.workspace.drawn ≤ (turn.leave l.workspace).drawn := by
    rcases turn.drawsOne_leave l.workspace with heq | ⟨heq, -⟩ <;> omega
  have hbelow : ∀ id ∈ l.ids, ∃ tag t n, id = idText tag t n ∧
      n < (turn.leave l.workspace).drawn := by
    intro id hid
    obtain ⟨tag, t, n, hnumber, hn⟩ := h.below id hid
    exact ⟨tag, t, n, hnumber, by omega⟩
  unfold Ledger.after
  cases hdrawn : turn.drawn? l.workspace with
  | none => exact ⟨hnumbered, h.nodup, hbelow⟩
  | some id =>
    obtain ⟨⟨tag, t, hid⟩, hmoved⟩ := Turn.exists_of_drawn? hdrawn
    refine ⟨hnumbered, List.nodup_cons.mpr ⟨fun hmem => ?_, h.nodup⟩,
      List.forall_mem_cons.mpr ⟨⟨tag, t, _, hid, by dsimp only; omega⟩, hbelow⟩⟩
    -- the ids that were drawn before have lower numbers
    obtain ⟨tag', t', n, hnumber, hn⟩ := h.below id hmem
    rw [hid] at hnumber
    exact absurd (idText_number_injective hnumber) (by omega)

theorem kept_run (clock : ℤ) (turns : List Turn) : Kept (run clock turns) :=
  run_induction clock (kept_opened clock) (fun _ turn hkept => hkept.after turn) turns

/-- A call that makes a design: where that is possible, the answer is a record under the id that
is drawn, which was not there, and it comes to the end of the designs while all else stays.
Elsewhere nothing is stored. -/
def MakesDesign (l : Ledger) (c : Call) (possible : Prop) : Prop :=
  let w := l.workspace
  (possible ∧ ∃ r, w.act (.call c) =
      (.design (.ok (some r)), { w.draw with designs := w.designs.followedBy (.text r.id) r }) ∧
    w.designs.contains (.text r.id) = false ∧ (l.after (.act (.call c))).ids = r.id :: l.ids) ∨
  ¬ possible ∧ ∃ f, w.act (.call c) = (.design (.error f), w)

def MakesAnalysis (l : Ledger) (code : String) (possible : Prop) : Prop :=
  let w := l.workspace
  (possible ∧ ∃ a id, w.act (.analyze code) =
      (.analysis (.ok a), { w.draw with analyses := w.analyses.followedBy (.text id) a }) ∧
    a.id = .text id ∧ w.analyses.contains (.text id) = false ∧
      (l.after (.act (.analyze code))).ids = id :: l.ids) ∨
  ¬ possible ∧ ∃ f n, w.act (.analyze code) = (.analysis (.error f), { w with drawn := n })

/-- A call that adds a component: the component comes last and has the id that is drawn, or the
call is not answered with a design. -/
def AddsComponent (l : Ledger) (id : Json) (new : Design.NewComponent) : Prop :=
  let call := Call.addComponent id new
  (∃ r fresh, (l.workspace.perform call).1 = .ok (some r) ∧
    r.design.components.getLast?.map (·.id) = some (.text fresh) ∧
      (l.after (.act (.call call))).ids = fresh :: l.ids) ∨
  ∀ r, (l.workspace.perform call).1 ≠ .ok (some r)

/-- A turn that draws an id adds it to those that were drawn. -/
theorem ids_after {tag id : String} (htag : turn.tag? = some tag)
    (hid : l.workspace.nextId tag = .ok id)
    (hmoved : (turn.leave l.workspace).drawn = l.workspace.drawn + 1) :
    (l.after turn).ids = id :: l.ids := by
  have hdrawn : turn.drawn? l.workspace = some id := by
    unfold Turn.drawn?
    rw [if_neg (by omega), htag, Option.bind_some, hid]
    rfl
  rw [Ledger.after, hdrawn]
  rfl

theorem addsComponent (l : Ledger) (id : Json) (new : Design.NewComponent) :
    l.AddsComponent id new := by
  rcases l.workspace.addComponent_cases id new with ⟨r, fresh, hr, hid, hmoved, hlast⟩ | hnone
  · exact .inl ⟨r, fresh, hr, hlast, ids_after rfl hid hmoved⟩
  · exact .inr hnone

theorem Kept.makesDesign_of_store (h : Kept l) {c : Call} {d : Design}
    (hc : l.workspace.perform c = given (l.workspace.store d)) (htag : c.tag? = some "design") :
    l.MakesDesign c l.workspace.InCalendar := by
  by_cases hin : l.workspace.InCalendar
  · obtain ⟨t, ht⟩ := hin
    obtain ⟨r, hstore, hid⟩ := h.numbered.filed.store_eq h.numbered.designs ht d
    have hact : l.workspace.act (.call c) = (.design (.ok (some r)),
        { l.workspace.draw with
          designs := l.workspace.designs.followedBy (.text r.id) r }) := by
      simp only [act, hc, hstore]
      rfl
    refine .inl ⟨⟨t, ht⟩, r, hact, h.numbered.contains_design hid, ids_after htag hid ?_⟩
    simp only [Turn.leave, hact]
    rfl
  · obtain ⟨f, hf⟩ := exists_now_of_not_inCalendar hin
    refine .inr ⟨hin, .fault f, ?_⟩
    simp only [act, hc, store, hf]
    rfl

theorem Kept.makesDesign_import (h : Kept l) (text : String) :
    l.MakesDesign (.importDesign (.text text))
      (l.workspace.InCalendar ∧ ∃ d, Design.ofText text = .ok d) := by
  cases hread : Design.ofText text with
  | ok d =>
    have hc : l.workspace.perform (.importDesign (.text text)) = given (l.workspace.store d) := by
      simp only [perform, importDesign, hread]
    have hmakes := h.makesDesign_of_store hc rfl
    simpa using hmakes
  | error problem =>
    refine .inr ⟨by simp, .ofImport problem, ?_⟩
    simp only [act, perform, importDesign, hread]
    rfl

theorem Kept.makesAnalysis (h : Kept l) (code : String) :
    l.MakesAnalysis code
      (l.workspace.InCalendar ∧ ∃ found, Analysis.examine code = .ok found) := by
  cases hfound : Analysis.examine code with
  | error f =>
    refine .inr ⟨by simp, .fault f, l.workspace.drawn, ?_⟩
    simp only [act, Workspace.analyze, hfound]
  | ok found =>
    by_cases hin : l.workspace.InCalendar
    · obtain ⟨t, ht⟩ := hin
      obtain ⟨a, id, hanalyze, ha, hid⟩ := h.numbered.analyze_eq ht hfound
      have hact : l.workspace.act (.analyze code) = (.analysis (.ok a),
          { l.workspace.draw with
            analyses := l.workspace.analyses.followedBy (.text id) a }) := by
        simp only [act, hanalyze]
      refine .inl ⟨⟨⟨t, ht⟩, found, rfl⟩, a, id, hact, ha, h.numbered.contains_analysis hid,
        ids_after rfl hid ?_⟩
      simp only [Turn.leave, hact]
      rfl
    · obtain ⟨f, n, hanalyze⟩ := exists_analyze_eq_error hin code
      refine .inr ⟨fun hboth => hin hboth.1, f, n, ?_⟩
      simp only [act, hanalyze]

/-- In any run all ids that are drawn differ, whatever the clock showed; so what is made by a
call or an analysis comes to the end of its store, and nothing that was there is lost. -/
theorem run_never_overwrites (clock : ℤ) (turns : List Turn) :
    let l := run clock turns
    l.ids.Nodup ∧
      (∀ name description,
        l.MakesDesign (.createDesign name description) l.workspace.InCalendar) ∧
      (∀ text, l.MakesDesign (.importDesign (.text text))
        (l.workspace.InCalendar ∧ ∃ d, Design.ofText text = .ok d)) ∧
      (∀ code, l.MakesAnalysis code
        (l.workspace.InCalendar ∧ ∃ found, Analysis.examine code = .ok found)) ∧
      ∀ id new, l.AddsComponent id new := by
  have hkept := kept_run clock turns
  exact ⟨hkept.nodup, fun _ _ => hkept.makesDesign_of_store rfl rfl, hkept.makesDesign_import,
    hkept.makesAnalysis, addsComponent _⟩

/-- The number of an id goes on when the clock goes back. -/
example : (run 1000000 [
    .act (.call (.createDesign (.text "Bank") .null)),
    .advance (-3000000),
    .act (.analyze "")]).ids = ["gas--2000-000000001", "design-1000-000000000"] := by
  decide +kernel

end Ledger

end Http

end MoveWorkbench
