import MoveWorkbench.Proofs.Workspace.Session

/-!
Creation. All ids in a workspace have numbers that were used up, whatever the clock showed when
they were drawn. So nothing is stored yet under the id that is drawn for a new record, and the
record comes to the end of its store.
-/

namespace MoveWorkbench

namespace Workspace

/-- Whether a workspace comes from another one so that at most one id was drawn, which has a tag
then. -/
def DrawsOne (w v : Workspace) (tag? : Option String) : Prop :=
  v.drawn = w.drawn ∨ v.drawn = w.drawn + 1 ∧ tag?.isSome = true

variable {w : Workspace} {tag? : Option String}

theorem drawsOne_withId {id : Json} {f : Atom → Answer (Option StoredDesign)}
    (h : ∀ a, w.DrawsOne (f a).2 tag?) : w.DrawsOne (w.withId id f).2 tag? := by
  unfold withId
  split
  · exact h _
  · exact .inl rfl

theorem drawsOne_edit (a : Atom) (f : Design → Edited) : w.DrawsOne (w.edit a f).2 tag? := by
  unfold edit
  split
  · exact .inl rfl
  · exact .inl (drawn_settle _ _ _)

theorem drawsOne_store (d : Design) : w.DrawsOne (w.store d).2 (some "design") := by
  unfold store
  split
  · exact .inr ⟨rfl, rfl⟩
  · exact .inl rfl
  · exact .inr ⟨rfl, rfl⟩

theorem drawsOne_perform (w : Workspace) (c : Call) : w.DrawsOne (w.perform c).2 c.tag? := by
  cases c with
  | createDesign name description => exact drawsOne_store _
  | updateDesign id updates => exact drawsOne_withId fun a => drawsOne_edit a _
  | addComponent id new =>
    refine drawsOne_withId fun a => ?_
    unfold addComponent
    split
    · exact .inl rfl
    · split
      · exact .inr ⟨rfl, rfl⟩
      · exact .inr ⟨drawn_settle _ _ _, rfl⟩
  | updateComponent id component updates => exact drawsOne_withId fun a => drawsOne_edit a _
  | removeComponent id component => exact drawsOne_withId fun a => drawsOne_edit a _
  | addConnection id source target => exact drawsOne_withId fun a => drawsOne_edit a _
  | removeConnection id source target => exact drawsOne_withId fun a => drawsOne_edit a _
  | importDesign document =>
    cases document with
    | text s =>
      change w.DrawsOne (given (w.importDesign s)).2 _
      unfold importDesign
      split
      · exact .inl rfl
      · exact drawsOne_store _
    | _ => exact .inl rfl

theorem drawsOne_analyze (w : Workspace) (code : String) :
    w.DrawsOne (w.analyze code).2 (some "gas") := by
  unfold analyze
  split
  · exact .inl rfl
  · dsimp only
    split <;> exact .inr ⟨rfl, rfl⟩

theorem drawsOne_act (w : Workspace) (action : Action) :
    w.DrawsOne (w.act action).2 action.tag? := by
  cases action with
  | call c => exact drawsOne_perform w c
  | analyze code => exact drawsOne_analyze w code
  | ask q => exact .inl rfl
  | setClock t => exact .inl rfl
  | sweepDesigns maxAge at? =>
    rcases w.act_sweepDesigns maxAge at? with ⟨n, cutoff, hact⟩ | ⟨f, hact⟩ <;>
      exact .inl (by rw [hact])
  | sweepAnalyses maxAge at? =>
    rcases w.act_sweepAnalyses maxAge at? with ⟨n, cutoff, hact⟩ | ⟨f, hact⟩ <;>
      exact .inl (by rw [hact])

/-- How records are filed while all their ids are drawn ones: the designs under their ids, and
each id has a number that was used up. -/
structure Numbered (w : Workspace) : Prop where
  filed : w.Filed
  designs : ∀ e ∈ w.designs.entries, ∃ t n, e.2.id = idText "design" t n ∧ n < w.drawn
  analyses : ∀ e ∈ w.analyses.entries, ∃ t n, e.1 = .text (idText "gas" t n) ∧ n < w.drawn

/-- What is left when records are taken away is numbered still. -/
theorem Numbered.subset {v : Workspace} (h : w.Numbered)
    (hdesigns : v.designs.entries ⊆ w.designs.entries)
    (hanalyses : v.analyses.entries ⊆ w.analyses.entries) (hdrawn : w.drawn ≤ v.drawn) :
    v.Numbered := by
  refine ⟨fun e he => h.filed e (hdesigns he), fun e he => ?_, fun e he => ?_⟩
  · obtain ⟨t, n, hid, hn⟩ := h.designs e (hdesigns he)
    exact ⟨t, n, hid, by omega⟩
  · obtain ⟨t, n, hid, hn⟩ := h.analyses e (hanalyses he)
    exact ⟨t, n, hid, by omega⟩

theorem Numbered.perform (h : w.Numbered) (c : Call) : (w.perform c).2.Numbered := by
  have heffect := (effect_perform w c).1
  refine ⟨h.filed.effect heffect, h.filed.exists_number h.designs heffect, ?_⟩
  rw [analyses_perform]
  intro e he
  obtain ⟨t, n, hid, hn⟩ := h.analyses e he
  exact ⟨t, n, hid, lt_of_lt_of_le hn (drawn_le_perform w c)⟩

theorem Numbered.putAnalysis (h : w.Numbered) {id : String} (hid : w.nextId "gas" = .ok id)
    {a : Analysis} (ha : a.id = .text id) : (w.draw.putAnalysis a).Numbered := by
  have hdraw : w.draw.Numbered :=
    h.subset (List.Subset.refl _) (List.Subset.refl _) (Nat.le_succ _)
  refine ⟨hdraw.filed, hdraw.designs, fun e he => ?_⟩
  rcases Ordered.mem_put he with he | ⟨hkey, -⟩
  · exact hdraw.analyses e he
  · obtain ⟨t, rfl⟩ := exists_eq_idText hid
    rw [ha] at hkey
    exact ⟨t, w.drawn, Atom.eq_text_of_beq hkey, Nat.lt_succ_self _⟩

theorem Numbered.analyze (h : w.Numbered) (code : String) : (w.analyze code).2.Numbered := by
  have hdraw : w.draw.Numbered :=
    h.subset (List.Subset.refl _) (List.Subset.refl _) (Nat.le_succ _)
  unfold Workspace.analyze
  split
  · exact h
  · dsimp only
    split
    · rename_i hid _
      exact h.putAnalysis hid rfl
    · exact hdraw
    · exact hdraw

theorem Numbered.act (h : w.Numbered) (action : Action) : (w.act action).2.Numbered := by
  cases action with
  | call c => exact h.perform c
  | analyze code => exact h.analyze code
  | ask q => exact h
  | setClock t => exact h.subset (List.Subset.refl _) (List.Subset.refl _) (Nat.le_refl _)
  | sweepDesigns maxAge at? =>
    rcases w.act_sweepDesigns maxAge at? with ⟨n, cutoff, hact⟩ | ⟨f, hact⟩ <;> rw [hact]
    · exact h.subset (List.filter_subset_self _) (List.Subset.refl _) (Nat.le_refl _)
    · exact h
  | sweepAnalyses maxAge at? =>
    rcases w.act_sweepAnalyses maxAge at? with ⟨n, cutoff, hact⟩ | ⟨f, hact⟩ <;> rw [hact]
    · exact h.subset (List.Subset.refl _) (List.filter_subset_self _) (Nat.le_refl _)
    · exact h

theorem Numbered.contains_design (h : w.Numbered) {tag id : String}
    (hid : w.nextId tag = .ok id) : w.designs.contains (.text id) = false :=
  h.filed.contains_nextId h.designs hid

theorem Numbered.contains_analysis (h : w.Numbered) {tag id : String}
    (hid : w.nextId tag = .ok id) : w.analyses.contains (.text id) = false :=
  contains_nextId (fun e he => ⟨"gas", h.analyses e he⟩) hid

/-- At an instant of the calendar the analysis of a text comes to the end of the analyses, under
the id that is drawn for it. -/
theorem Numbered.analyze_eq (h : w.Numbered) {t : Instant} (ht : w.clock = t.micros)
    {code : String} {found : List Estimate × List Finding × Summary}
    (hfound : Analysis.examine code = .ok found) :
    ∃ a id, w.analyze code =
        (.ok a, { w.draw with analyses := w.analyses.followedBy (.text id) a }) ∧
      a.id = .text id ∧ w.nextId "gas" = .ok id := by
  obtain ⟨millis, hid⟩ := exists_nextId ht "gas"
  refine ⟨analysisRecord (.text (idText "gas" millis w.drawn)) code found t, _, ?_, rfl, hid⟩
  unfold Workspace.analyze
  rw [now_eq ht, hid, hfound]
  dsimp only
  rw [← Store.put_eq_followedBy (h.contains_analysis hid)]
  rfl

def InCalendar (w : Workspace) : Prop := ∃ t : Instant, w.clock = t.micros

theorem exists_now_of_not_inCalendar (h : ¬ w.InCalendar) : ∃ f, w.now = .error f := by
  cases hnow : w.now with
  | error f => exact ⟨f, rfl⟩
  | ok t => exact absurd ⟨t, (now_eq_ok.mp hnow).symm⟩ h

/-- Without an instant of the calendar no analysis is stored. -/
theorem exists_analyze_eq_error (h : ¬ w.InCalendar) (code : String) :
    ∃ f n, w.analyze code = (.error f, { w with drawn := n }) := by
  obtain ⟨f, hf⟩ := exists_now_of_not_inCalendar h
  unfold analyze
  rw [hf]
  split
  · exact ⟨_, w.drawn, rfl⟩
  · cases w.nextId "gas" with
    | ok id => exact ⟨_, w.drawn + 1, rfl⟩
    | error f => exact ⟨_, w.drawn + 1, rfl⟩

/-- A component that is added is the last one of its design and has the id that is drawn. -/
theorem addComponent_cases (w : Workspace) (id : Json) (new : Design.NewComponent) :
    (∃ r fresh, (w.perform (.addComponent id new)).1 = .ok (some r) ∧
      w.nextId "comp" = .ok fresh ∧ (w.perform (.addComponent id new)).2.drawn = w.drawn + 1 ∧
      r.design.components.getLast?.map (·.id) = some (.text fresh)) ∨
    ∀ r, (w.perform (.addComponent id new)).1 ≠ .ok (some r) := by
  simp only [perform, withId]
  cases id.atom with
  | error f => exact .inr fun r h => by cases h
  | ok a =>
    unfold addComponent
    dsimp only
    cases w.design? a with
    | none => exact .inr fun r h => by cases h
    | some r =>
      cases hid : w.nextId "comp" with
      | error f => exact .inr fun r h => by cases h
      | ok fresh =>
        dsimp only
        unfold Design.add
        split
        · unfold settle
          dsimp only
          split
          · exact .inr fun r h => by cases h
          · exact .inl ⟨_, fresh, rfl, rfl, rfl, by simp⟩
        · exact .inr fun r h => by cases h
        · exact .inr fun r h => by cases h

end Workspace

end MoveWorkbench
