import MoveWorkbench.Proofs.Design.Edit
import MoveWorkbench.Proofs.Ordered
import MoveWorkbench.Proofs.Workspace.Ids
import MoveWorkbench.Workspace.Analyses
import MoveWorkbench.Workspace.Call

/-!
Runs of a workspace. Between calls the clock may be set to any instant, old designs may be
swept and other work may draw ids. A call stores one new design, or leaves one stored design
with another content, or changes no design at all. So what every call preserves holds in all
workspaces that are reached.
-/

namespace MoveWorkbench

namespace Store

variable {α : Type}

def followedBy (s : Store α) (id : Atom) (record : α) : Store α := ⟨s.entries ++ [(id, record)]⟩

theorem put_eq_followedBy {s : Store α} {id : Atom} (h : s.contains id = false) (record : α) :
    s.put id record = s.followedBy id record := by
  have hnone : Ordered.get? id s.entries = none := by
    rw [← Option.not_isSome_iff_eq_none]
    exact Bool.eq_false_iff.mp h
  exact congrArg Store.mk (Ordered.put_of_get?_eq_none hnone record)

end Store

namespace Call

/-- What a call makes of the design it is about. A new component gets the id `fresh`. -/
def edit (c : Call) (fresh : String) (d : Design) : Edited :=
  match c with
  | createDesign _ _ | importDesign _ => .missing
  | updateDesign _ updates => d.updateBy updates
  | addComponent _ new => d.add fresh new
  | updateComponent _ component updates => d.updateComponent component updates
  | removeComponent _ component => d.remove component
  | addConnection _ source target => d.connect source target
  | removeConnection _ source target => d.disconnect source target

inductive Makes : Call → Design → Prop where
  | created (name description : Json) : Makes (createDesign name description) ⟨name, description, []⟩
  | imported {s : String} {d : Design} (h : Design.ofText s = .ok d) :
    Makes (importDesign (.text s)) d

/-- A property that all designs keep which a call makes or edits. -/
structure Preserves (c : Call) (P : Design → Prop) : Prop where
  makes : ∀ d, c.Makes d → P d
  edits : ∀ fresh d d', P d → (c.edit fresh d).left? = some d' → P d'

end Call

namespace Workspace

inductive Reached (allowed : Call → Prop) : Workspace → Prop where
  | fresh (t : Instant) : Reached allowed (fresh t.micros)
  | call {w : Workspace} {c : Call} (h : Reached allowed w) (hc : allowed c) :
    Reached allowed (w.perform c).2
  | tick {w : Workspace} (h : Reached allowed w) (t : Instant) :
    Reached allowed { w with clock := t.micros }
  | sweep {w : Workspace} (h : Reached allowed w) (cutoff : Instant) :
    Reached allowed { w with designs := w.designs.since (·.updatedAt) cutoff }
  | aside {w : Workspace} (h : Reached allowed w) (analyses : Store Analysis) (n : ℕ) :
    Reached allowed { w with analyses := analyses, drawn := w.drawn + n }

/-- What a call may do to the designs of a workspace. -/
inductive Effect (w : Workspace) (c : Call) : Store StoredDesign → ℕ → Prop where
  | none {n : ℕ} (hn : w.drawn ≤ n) : Effect w c w.designs n
  | stored {d : Design} {id : String} (t : Instant) (hd : c.Makes d)
    (hid : w.nextId "design" = .ok id) :
    Effect w c (w.designs.put (.text id) ⟨id, d, t, t⟩) (w.drawn + 1)
  | edited {a : Atom} {r : StoredDesign} {fresh : String} {d : Design} {n : ℕ} (t : Instant)
    (hr : w.design? a = some r) (hd : (c.edit fresh r.design).left? = some d)
    (hn : w.drawn ≤ n) :
    Effect w c (w.designs.put (.text r.id) { r with design := d, updatedAt := t }) n

variable {w : Workspace} {c : Call}

theorem effect_settle {v : Workspace} {a : Atom} {r : StoredDesign} {fresh : String}
    (hdesigns : v.designs = w.designs) (hdrawn : w.drawn ≤ v.drawn) (hr : w.design? a = some r) :
    Effect w c (v.settle r (c.edit fresh r.design)).2.designs
        (v.settle r (c.edit fresh r.design)).2.drawn ∧
      (v.settle r (c.edit fresh r.design)).2.clock = v.clock := by
  cases hedit : c.edit fresh r.design with
  | missing => exact ⟨by simpa [settle, hdesigns] using .none hdrawn, rfl⟩
  | stopped f d =>
    refine ⟨?_, rfl⟩
    have h := Effect.edited (c := c) r.updatedAt hr (by rw [hedit]; rfl) hdrawn
    simpa only [settle, putDesign, hdesigns] using h
  | done d =>
    unfold settle
    dsimp only
    split
    · refine ⟨?_, rfl⟩
      have h := Effect.edited (c := c) r.updatedAt hr (by rw [hedit]; rfl) hdrawn
      simpa only [putDesign, hdesigns] using h
    · rename_i t _
      refine ⟨?_, rfl⟩
      have h := Effect.edited (c := c) t hr (by rw [hedit]; rfl) hdrawn
      simpa only [putDesign, hdesigns] using h

theorem effect_store {d : Design} (hd : c.Makes d) :
    Effect w c (w.store d).2.designs (w.store d).2.drawn ∧ (w.store d).2.clock = w.clock := by
  unfold store
  split
  · rename_i t id hnow hid
    exact ⟨.stored t hd hid, rfl⟩
  · exact ⟨.none (le_refl _), rfl⟩
  · exact ⟨.none (Nat.le_succ _), rfl⟩

theorem effect_withId {id : Json} {f : Atom → Answer (Option StoredDesign)}
    (h : ∀ a, Effect w c (f a).2.designs (f a).2.drawn ∧ (f a).2.clock = w.clock) :
    Effect w c (w.withId id f).2.designs (w.withId id f).2.drawn ∧
      (w.withId id f).2.clock = w.clock := by
  unfold withId
  split
  · exact h _
  · exact ⟨.none (le_refl _), rfl⟩

theorem effect_edit (fresh : String) (a : Atom) :
    Effect w c (w.edit a (c.edit fresh)).2.designs (w.edit a (c.edit fresh)).2.drawn ∧
      (w.edit a (c.edit fresh)).2.clock = w.clock := by
  unfold edit
  split
  · exact ⟨.none (le_refl _), rfl⟩
  · rename_i r hr
    exact effect_settle rfl (le_refl _) hr

/-- A call stores one design, edits one, or changes none. -/
theorem effect_perform (w : Workspace) (c : Call) :
    Effect w c (w.perform c).2.designs (w.perform c).2.drawn ∧
      (w.perform c).2.clock = w.clock := by
  cases c with
  | createDesign name description => exact effect_store (.created name description)
  | updateDesign id updates => exact effect_withId (effect_edit "")
  | addComponent id new =>
    refine effect_withId fun a => ?_
    unfold addComponent
    split
    · exact ⟨.none (le_refl _), rfl⟩
    · rename_i r hr
      split
      · exact ⟨.none (Nat.le_succ _), rfl⟩
      · exact effect_settle (v := w.draw) (c := .addComponent id new) rfl (Nat.le_succ _) hr
  | updateComponent id component updates => exact effect_withId (effect_edit "")
  | removeComponent id component => exact effect_withId (effect_edit "")
  | addConnection id source target => exact effect_withId (effect_edit "")
  | removeConnection id source target => exact effect_withId (effect_edit "")
  | importDesign document =>
    cases document with
    | text s =>
      simp only [perform, given, importDesign]
      split
      · exact ⟨.none (le_refl _), rfl⟩
      · rename_i d hd
        exact effect_store (.imported hd)
    | _ => exact ⟨.none (le_refl _), rfl⟩

theorem drawn_settle (v : Workspace) (r : StoredDesign) (edited : Edited) :
    (v.settle r edited).2.drawn = v.drawn := by
  cases edited with
  | missing => rfl
  | stopped f d => rfl
  | done d =>
    unfold settle
    dsimp only
    split <;> rfl

theorem analyses_settle (r : StoredDesign) (e : Edited) :
    (w.settle r e).2.analyses = w.analyses := by
  cases e with
  | missing => rfl
  | stopped f d => rfl
  | done d =>
    unfold settle
    dsimp only
    split <;> rfl

theorem analyses_edit (a : Atom) (f : Design → Edited) :
    (w.edit a f).2.analyses = w.analyses := by
  unfold edit
  split
  · rfl
  · exact analyses_settle _ _

theorem analyses_store (d : Design) :
    (w.store d).2.analyses = w.analyses := by
  unfold store
  split <;> rfl

/-- Calls are about designs, and leave the analyses alone. -/
theorem analyses_perform (w : Workspace) (c : Call) :
    (w.perform c).2.analyses = w.analyses := by
  have hwith (id : Json) {f : Atom → Answer (Option StoredDesign)}
      (hf : ∀ a, (f a).2.analyses = w.analyses) : (w.withId id f).2.analyses = w.analyses := by
    unfold withId
    split
    · exact hf _
    · rfl
  cases c with
  | createDesign name description => exact analyses_store _
  | updateDesign id updates => exact hwith id fun a => analyses_edit _ _
  | addComponent id new =>
    refine hwith id fun a => ?_
    unfold addComponent
    split
    · rfl
    · split
      · rfl
      · exact analyses_settle _ _
  | updateComponent id component updates => exact hwith id fun a => analyses_edit _ _
  | removeComponent id component => exact hwith id fun a => analyses_edit _ _
  | addConnection id source target => exact hwith id fun a => analyses_edit _ _
  | removeConnection id source target => exact hwith id fun a => analyses_edit _ _
  | importDesign document =>
    cases document with
    | text s =>
      change (given (w.importDesign s)).2.analyses = _
      unfold importDesign
      split
      · rfl
      · exact analyses_store _
    | _ => rfl

/-- To analyze a text may draw an id, and leaves the designs alone. -/
theorem exists_analyze_eq (w : Workspace) (code : String) : ∃ (analyses : Store Analysis) (n : ℕ),
    (w.analyze code).2 = { w with analyses := analyses, drawn := w.drawn + n } := by
  unfold Workspace.analyze
  split
  · exact ⟨w.analyses, 0, rfl⟩
  · dsimp only
    split
    · exact ⟨_, 1, rfl⟩
    · exact ⟨w.analyses, 1, rfl⟩
    · exact ⟨w.analyses, 1, rfl⟩

/-- What is stored after a call was there before it, or is put under its id by the call: under
the id that is drawn, or under that of a stored design. -/
theorem mem_effect {designs : Store StoredDesign} {n : ℕ} (heffect : Effect w c designs n)
    {e : Atom × StoredDesign} (he : e ∈ designs.entries) :
    e ∈ w.designs.entries ∨ e.1 = .text e.2.id ∧
      (w.nextId "design" = .ok e.2.id ∧ w.drawn < n ∨
        ∃ a r, w.design? a = some r ∧ e.2.id = r.id) := by
  cases heffect with
  | none hn => exact .inl he
  | stored t hd hid =>
    rcases Ordered.mem_put he with he | ⟨hkey, hvalue⟩
    · exact .inl he
    · rw [hvalue]
      exact .inr ⟨Atom.eq_text_of_beq hkey, .inl ⟨hid, Nat.lt_succ_self _⟩⟩
  | edited t hr hd hn =>
    rcases Ordered.mem_put he with he | ⟨hkey, hvalue⟩
    · exact .inl he
    · rw [hvalue]
      exact .inr ⟨Atom.eq_text_of_beq hkey, .inr ⟨_, _, hr, rfl⟩⟩

theorem drawn_le_of_effect {designs : Store StoredDesign} {n : ℕ}
    (heffect : Effect w c designs n) : w.drawn ≤ n := by
  cases heffect with
  | none hn => exact hn
  | stored => exact Nat.le_succ _
  | edited t hr hd hn => exact hn

theorem drawn_le_perform (w : Workspace) (c : Call) : w.drawn ≤ (w.perform c).2.drawn :=
  drawn_le_of_effect (effect_perform w c).1

def Filed (w : Workspace) : Prop := ∀ e ∈ w.designs.entries, e.1 = .text e.2.id

theorem Filed.mem_of_design? (h : w.Filed) {a : Atom} {r : StoredDesign}
    (hr : w.design? a = some r) :
    (Atom.text r.id, r) ∈ w.designs.entries ∧ (Atom.text r.id == a) = true := by
  obtain ⟨l, hl, hkey⟩ := Ordered.exists_mem_of_get? hr
  have hid : l = .text r.id := h _ hl
  rw [hid] at hl hkey
  exact ⟨hl, hkey⟩

theorem Filed.id_eq (h : w.Filed) {id : String} {r : StoredDesign}
    (hr : w.design? (.text id) = some r) : r.id = id := by
  have htext := Atom.eq_text_of_beq (h.mem_of_design? hr).2
  injection htext

theorem Filed.effect {w' : Workspace} {n : ℕ} (h : w.Filed)
    (heffect : Effect w c w'.designs n) : w'.Filed := by
  intro e he
  rcases mem_effect heffect he with hold | ⟨hkey, -⟩
  · exact h e hold
  · exact hkey

/-- The ids of designs keep to have numbers that were used up. -/
theorem Filed.exists_number {designs : Store StoredDesign} {n : ℕ} (h : w.Filed)
    (hdrawn : ∀ e ∈ w.designs.entries, ∃ t k, e.2.id = idText "design" t k ∧ k < w.drawn)
    (heffect : Effect w c designs n) :
    ∀ e ∈ designs.entries, ∃ t k, e.2.id = idText "design" t k ∧ k < n := by
  have hle := drawn_le_of_effect heffect
  have hlater : ∀ e ∈ w.designs.entries, ∃ t k, e.2.id = idText "design" t k ∧ k < n := by
    intro e he
    obtain ⟨t, k, hid, hk⟩ := hdrawn e he
    exact ⟨t, k, hid, by omega⟩
  intro e he
  rcases mem_effect heffect he with hold | ⟨-, ⟨hid, hlt⟩ | ⟨a, r, hr, hid⟩⟩
  · exact hlater e hold
  · obtain ⟨t, ht⟩ := exists_eq_idText hid
    exact ⟨t, w.drawn, ht, hlt⟩
  · rw [hid]
    exact hlater _ (h.mem_of_design? hr).1

/-- Nothing is stored under the id that is drawn next. -/
theorem contains_nextId {α : Type} {s : Store α} {tag id : String}
    (hs : ∀ e ∈ s.entries, ∃ tag t n, e.1 = .text (idText tag t n) ∧ n < w.drawn)
    (hid : w.nextId tag = .ok id) : s.contains (.text id) = false := by
  rw [← Bool.not_eq_true]
  intro hthere
  obtain ⟨r, hr⟩ := Option.isSome_iff_exists.mp hthere
  obtain ⟨key, hmem, hkey⟩ := Ordered.exists_mem_of_get? hr
  obtain ⟨tag', t', n, hn, hlt⟩ := hs _ hmem
  obtain ⟨t, rfl⟩ := exists_eq_idText hid
  have htext := hn.symm.trans (Atom.eq_text_of_beq hkey)
  injection htext with htext
  exact absurd (idText_number_injective htext) (by omega)

theorem Filed.contains_nextId (h : w.Filed)
    (hdrawn : ∀ e ∈ w.designs.entries, ∃ t k, e.2.id = idText "design" t k ∧ k < w.drawn)
    {tag id : String} (hid : w.nextId tag = .ok id) : w.designs.contains (.text id) = false := by
  refine Workspace.contains_nextId (fun e he => ?_) hid
  obtain ⟨t, k, hnumber, hk⟩ := hdrawn e he
  exact ⟨"design", t, k, by rw [h e he, hnumber], hk⟩

/-- At an instant of the calendar a design comes to the end of the designs, under the id that is
drawn for it. -/
theorem Filed.store_eq (h : w.Filed)
    (hdrawn : ∀ e ∈ w.designs.entries, ∃ t k, e.2.id = idText "design" t k ∧ k < w.drawn)
    {t : Instant} (ht : w.clock = t.micros) (d : Design) :
    ∃ r, w.store d = (.ok r, { w.draw with designs := w.designs.followedBy (.text r.id) r }) ∧
      w.nextId "design" = .ok r.id := by
  obtain ⟨millis, hid⟩ := exists_nextId ht "design"
  refine ⟨⟨idText "design" millis w.drawn, d, t, t⟩, ?_, hid⟩
  unfold store
  rw [now_eq ht, hid]
  simp only [putDesign]
  rw [← Store.put_eq_followedBy (h.contains_nextId hdrawn hid)]
  rfl

/-- How designs are kept: the clock shows an instant, and each design is stored under its
id, which was drawn. -/
structure WellKept (w : Workspace) : Prop where
  clock : ∃ t : Instant, w.clock = t.micros
  key : ∀ e ∈ w.designs.entries, e.1 = .text e.2.id
  drawn : ∀ e ∈ w.designs.entries, ∃ t n, e.2.id = idText "design" t n ∧ n < w.drawn

theorem WellKept.filed (h : WellKept w) : w.Filed := h.key

theorem WellKept.mem_of_design? (h : WellKept w) {a : Atom} {r : StoredDesign}
    (hr : w.design? a = some r) :
    (Atom.text r.id, r) ∈ w.designs.entries ∧ (Atom.text r.id == a) = true :=
  h.filed.mem_of_design? hr

/-- The id that is drawn next is none of those stored. -/
theorem WellKept.id_ne_nextId (h : WellKept w) {id : String} (hid : w.nextId "design" = .ok id) :
    ∀ e ∈ w.designs.entries, e.2.id ≠ id := by
  obtain ⟨t, rfl⟩ := exists_eq_idText hid
  intro e he heq
  obtain ⟨_, n, hn, hlt⟩ := h.drawn e he
  rw [hn] at heq
  exact absurd (idText_number_injective heq) (by omega)

theorem WellKept.effect {w' : Workspace} (h : WellKept w) (hclock : w'.clock = w.clock)
    (heffect : Effect w c w'.designs w'.drawn) : WellKept w' := by
  obtain ⟨t, ht⟩ := h.clock
  exact ⟨⟨t, hclock.trans ht⟩, h.filed.effect heffect, h.filed.exists_number h.drawn heffect⟩

theorem WellKept.tick (h : WellKept w) (t : Instant) : WellKept { w with clock := t.micros } :=
  ⟨⟨t, rfl⟩, h.key, h.drawn⟩

theorem WellKept.sweep (h : WellKept w) (cutoff : Instant) :
    WellKept { w with designs := w.designs.since (·.updatedAt) cutoff } :=
  ⟨h.clock, fun e he => h.key e (List.mem_of_mem_filter he),
    fun e he => h.drawn e (List.mem_of_mem_filter he)⟩

theorem WellKept.aside (h : WellKept w) (analyses : Store Analysis) (n : ℕ) :
    WellKept { w with analyses := analyses, drawn := w.drawn + n } := by
  refine ⟨h.clock, h.key, fun e he => ?_⟩
  obtain ⟨t, k, hid, hk⟩ := h.drawn e he
  exact ⟨t, k, hid, by dsimp only; omega⟩

/-- A workspace that is reached keeps its designs in order. -/
theorem Reached.wellKept {allowed : Call → Prop} (h : Reached allowed w) : WellKept w := by
  induction h with
  | fresh t =>
    exact ⟨⟨t, rfl⟩, fun _ he => absurd he List.not_mem_nil, fun _ he => absurd he List.not_mem_nil⟩
  | @call w c _ _ ih =>
    obtain ⟨heffect, hclock⟩ := effect_perform w c
    exact ih.effect hclock heffect
  | tick _ t ih => exact ih.tick t
  | sweep _ cutoff ih => exact ih.sweep cutoff
  | aside _ analyses n ih => exact ih.aside analyses n

theorem forall_designs_effect {P : Design → Prop} {designs : Store StoredDesign} {n : ℕ}
    (hP : c.Preserves P) (h : ∀ e ∈ w.designs.entries, P e.2.design)
    (heffect : Effect w c designs n) : ∀ e ∈ designs.entries, P e.2.design := by
  intro e he
  cases heffect with
  | none => exact h e he
  | stored t hd =>
    rcases Ordered.mem_put he with he | ⟨-, hvalue⟩
    · exact h e he
    · rw [hvalue]
      exact hP.makes _ hd
  | edited t hr hd =>
    rcases Ordered.mem_put he with he | ⟨-, hvalue⟩
    · exact h e he
    · obtain ⟨l, hl, -⟩ := Ordered.exists_mem_of_get? hr
      rw [hvalue]
      exact hP.edits _ _ _ (h _ hl) hd

theorem Reached.filed {allowed : Call → Prop} (h : Reached allowed w) : w.Filed :=
  h.wellKept.filed

/-- What every allowed call preserves holds of all stored designs. -/
theorem Reached.forall_designs {allowed : Call → Prop} {P : Design → Prop}
    (hP : ∀ c, allowed c → c.Preserves P) (h : Reached allowed w) :
    ∀ e ∈ w.designs.entries, P e.2.design := by
  induction h with
  | fresh t => exact fun _ he => absurd he List.not_mem_nil
  | @call w c _ hc ih => exact forall_designs_effect (hP c hc) ih (effect_perform w c).1
  | tick _ t ih => exact ih
  | sweep _ cutoff ih => exact fun e he => ih e (List.mem_of_mem_filter he)
  | aside _ analyses n ih => exact ih

end Workspace

end MoveWorkbench
