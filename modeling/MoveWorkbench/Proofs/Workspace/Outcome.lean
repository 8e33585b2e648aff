import MoveWorkbench.Proofs.Workspace.Atomic

/-!
What becomes of one call as a whole. A call is refused, or makes a new design, or is about a
stored one, where it misses something, stops on the way or is done. These cases tell the
answer together with the workspace that is left, so whatever all calls do or keep can be read
off them.
-/

namespace MoveWorkbench

open Json

namespace Call

def address? : Call → Option Json
  | createDesign _ _ | importDesign _ => none
  | updateDesign id _ | addComponent id _ | updateComponent id _ _ | removeComponent id _
  | addConnection id _ _ | removeConnection id _ _ => some id

/-- The id of the component that has to be there for a call to be done. -/
def component? : Call → Option Json
  | updateComponent _ component _ => some component
  | addConnection _ source _ | removeConnection _ source _ => some source
  | _ => none

/-- The number of ids that a call draws for what it adds to a design. -/
def draws : Call → ℕ
  | addComponent _ _ => 1
  | _ => 0

/-- An edit misses nothing but the component that has to be there. -/
theorem edit_eq_missing_iff {c : Call} {id : Json} (hc : c.address? = some id) {fresh : String}
    {d : Design} : c.edit fresh d = .missing ↔
      ∃ component, c.component? = some component ∧ d.find? component = none := by
  cases c with
  | createDesign => cases hc
  | importDesign => cases hc
  | updateDesign _ updates =>
    refine iff_of_false (fun h => ?_) (by simp [component?])
    cases updates with
    | object fs =>
      simp only [edit, Design.updateBy, Design.update_eq] at h
      split at h
      · cases h
      · split at h <;> cases h
    | _ => cases h
  | addComponent _ new =>
    refine iff_of_false (fun h => ?_) (by simp [component?])
    simp only [edit, Design.add] at h
    split at h <;> cases h
  | updateComponent _ component updates =>
    simp only [edit, component?, Option.some.injEq, exists_eq_left', Design.updateComponent]
    cases d.find? component with
    | none => simp
    | some e =>
      dsimp only
      split <;> simp
  | removeComponent =>
    refine iff_of_false (fun h => ?_) (by simp [component?])
    cases h
  | addConnection _ source target =>
    simp only [edit, component?, Option.some.injEq, exists_eq_left', Design.connect]
    cases d.find? source <;> simp
  | removeConnection _ source target =>
    simp only [edit, component?, Option.some.injEq, exists_eq_left', Design.disconnect]
    cases d.find? source <;> simp

end Call

namespace Order

variable {σ : Type}

def address? : Order σ → Option Json
  | call c => c.address?
  | updateWith id _ _ => some id

def target? (o : Order σ) : Option Atom := o.address?.bind (·.atom?)

def component? : Order σ → Option Json
  | call c => c.component?
  | updateWith _ _ _ => none

def draws : Order σ → ℕ
  | call c => c.draws
  | updateWith _ _ _ => 0

def edit (o : Order Component.Supply) (fresh : String) (d : Design) : Edited :=
  match o with
  | call c => c.edit fresh d
  | updateWith _ updates supplies => d.updateWith updates supplies

theorem edit_eq_missing_iff {o : Order Component.Supply} {id : Json} (ho : o.address? = some id)
    {fresh : String} {d : Design} : o.edit fresh d = .missing ↔
      ∃ component, o.component? = some component ∧ d.find? component = none := by
  cases o with
  | call c => exact Call.edit_eq_missing_iff ho
  | updateWith _ updates supplies =>
    refine iff_of_false (fun h => ?_) (by simp [component?])
    simp only [edit, Design.updateWith, Design.refill] at h
    split at h <;> cases h

end Order

theorem Store.get?_put {α : Type} (s : Store α) (id : Atom) (r : α) (a : Atom) :
    (s.put id r).get? a = if id == a then some r else s.get? a := by
  split
  · rename_i heq
    exact (Ordered.get?_congr heq _).symm.trans (Store.get?_put_self s id r)
  · rename_i hne
    exact Store.get?_put_of_ne (Bool.eq_false_iff.mpr hne) s r

namespace Workspace

def drawFor (w : Workspace) (c : Call) : Workspace := { w with drawn := w.drawn + c.draws }

/-- What becomes of a call: the answer and the workspace that is left. -/
inductive Outcome (w : Workspace) (c : Call) : Answer (Option StoredDesign) → Prop where
  | refused (failure : Failure) : Outcome w c (.error failure, w)
  | made {d : Design} {id : String} {t : Instant} (hd : c.Makes d) (ht : w.now = .ok t)
    (hid : w.nextId "design" = .ok id) :
    Outcome w c (.ok (some ⟨id, d, t, t⟩), w.draw.putDesign ⟨id, d, t, t⟩)
  | unknown {id : Json} (hc : c.address? = some id) (hr : w.addressed? id = none) :
    Outcome w c (.ok none, w)
  | missing {id : Json} {r : StoredDesign} {fresh : String} (hc : c.address? = some id)
    (hr : w.addressed? id = some r) (hedit : c.edit fresh r.design = .missing) :
    Outcome w c (.ok none, w)
  | stopped {id : Json} {r : StoredDesign} {fresh : String} {f : Fault} {d : Design}
    (hc : c.address? = some id) (hr : w.addressed? id = some r)
    (hedit : c.edit fresh r.design = .stopped f d) :
    Outcome w c (.error (.fault f), (w.drawFor c).putDesign { r with design := d })
  | done {id : Json} {r : StoredDesign} {fresh : String} {d : Design} {t : Instant}
    (hc : c.address? = some id) (hr : w.addressed? id = some r)
    (hedit : c.edit fresh r.design = .done d) (ht : w.now = .ok t) :
    Outcome w c (.ok (some { r with design := d, updatedAt := t }),
      (w.drawFor c).putDesign { r with design := d, updatedAt := t })

variable {w : Workspace} {c : Call}

theorem addressed?_eq {id : Json} {a : Atom} (h : id.atom? = some a) :
    w.addressed? id = w.design? a := by
  simp [addressed?, h]

/-- A call that makes a design is not refused for want of time or of an id. -/
theorem WellKept.outcome_store (h : WellKept w) {d : Design} (hd : c.Makes d) :
    Outcome w c (given (w.store d)) := by
  obtain ⟨t, ht⟩ := h.clock
  obtain ⟨millis, hid⟩ := exists_nextId ht "design"
  have hmade := Outcome.made hd (now_eq ht) hid
  unfold store
  rw [now_eq ht, hid]
  exact hmade

/-- What an edit makes of a design is stored together with the time, if it is done. -/
theorem WellKept.outcome_settle (h : WellKept w) {id : Json} {r : StoredDesign} {fresh : String}
    (hc : c.address? = some id) (hr : w.addressed? id = some r)
    (hdraws : c.edit fresh r.design = .missing → c.draws = 0) :
    Outcome w c ((w.drawFor c).settle r (c.edit fresh r.design)) := by
  obtain ⟨t, ht⟩ := h.clock
  cases hedit : c.edit fresh r.design with
  | missing =>
    have hsame : w.drawFor c = w := by
      unfold drawFor
      rw [hdraws hedit]
      rfl
    rw [hsame]
    exact .missing hc hr hedit
  | stopped f d => exact .stopped hc hr hedit
  | done d =>
    have hnow : (w.drawFor c).now = .ok t := now_eq ht
    have hdone := Outcome.done hc hr hedit (now_eq ht)
    simpa only [settle, hnow] using hdone

/-- Nothing is done by an id that is no atom. -/
theorem outcome_withId {id : Json} {f : Atom → Answer (Option StoredDesign)}
    (h : ∀ a, id.atom? = some a → Outcome w c (f a)) : Outcome w c (w.withId id f) := by
  unfold withId atom
  cases hatom : id.atom? with
  | none => exact .refused _
  | some a => exact h a hatom

/-- A call that draws no ids edits the design under the id that it is about. -/
theorem WellKept.outcome_edit (h : WellKept w) {id : Json} (hc : c.address? = some id)
    (hdraws : c.draws = 0) (fresh : String) :
    Outcome w c (w.withId id fun a => w.edit a (c.edit fresh)) := by
  have hsame : w.drawFor c = w := by
    unfold drawFor
    rw [hdraws]
    rfl
  refine outcome_withId fun a ha => ?_
  unfold edit
  cases hr : w.design? a with
  | none => exact .unknown hc (by rw [addressed?_eq ha, hr])
  | some r =>
    have hsettle : Outcome w c ((w.drawFor c).settle r (c.edit fresh r.design)) :=
      h.outcome_settle hc (by rw [addressed?_eq ha, hr]) fun _ => hdraws
    rwa [hsame] at hsettle

theorem WellKept.outcome_addComponent (h : WellKept w) (id : Json) (new : Design.NewComponent) :
    Outcome w (.addComponent id new) (w.withId id fun a => w.addComponent a new) := by
  obtain ⟨t, ht⟩ := h.clock
  obtain ⟨millis, hid⟩ := exists_nextId ht "comp"
  refine outcome_withId fun a ha => ?_
  unfold addComponent
  rw [hid]
  cases hr : w.design? a with
  | none => exact .unknown (c := .addComponent id new) rfl (by rw [addressed?_eq ha, hr])
  | some r =>
    refine h.outcome_settle (c := .addComponent id new) rfl (by rw [addressed?_eq ha, hr])
      fun hedit => ?_
    obtain ⟨_, hcomponent, -⟩ := (Call.edit_eq_missing_iff rfl).mp hedit
    cases hcomponent

/-- What becomes of a call in a workspace that is well kept. -/
theorem WellKept.outcome (h : WellKept w) (c : Call) : Outcome w c (w.perform c) := by
  cases c with
  | createDesign name description => exact h.outcome_store (.created name description)
  | updateDesign id updates => exact h.outcome_edit rfl rfl ""
  | addComponent id new => exact h.outcome_addComponent id new
  | updateComponent id component updates => exact h.outcome_edit rfl rfl ""
  | removeComponent id component => exact h.outcome_edit rfl rfl ""
  | addConnection id source target => exact h.outcome_edit rfl rfl ""
  | removeConnection id source target => exact h.outcome_edit rfl rfl ""
  | importDesign document =>
    cases document with
    | text s =>
      change Outcome w _ (given (w.importDesign s))
      unfold importDesign
      cases hread : Design.ofText s with
      | error problem => exact .refused _
      | ok d => exact h.outcome_store (.imported hread)
    | _ => exact .refused _

theorem WellKept.perform (h : WellKept w) (c : Call) : WellKept (w.perform c).2 := by
  obtain ⟨heffect, hclock⟩ := effect_perform w c
  exact h.effect hclock heffect

theorem Filed.of_putDesign (h : w.Filed) (r : StoredDesign) : (w.putDesign r).Filed := by
  intro e he
  rcases Ordered.mem_put he with he | ⟨hkey, hvalue⟩
  · exact h e he
  · rw [hvalue]
    exact Atom.eq_text_of_beq hkey

theorem WellKept.of_putDesign (h : WellKept w) {a : Atom} {r r' : StoredDesign}
    (hr : w.design? a = some r) (hid : r'.id = r.id) : WellKept (w.putDesign r') := by
  obtain ⟨hmem, -⟩ := h.mem_of_design? hr
  refine ⟨h.clock, h.filed.of_putDesign r', fun e he => ?_⟩
  rcases Ordered.mem_put he with he | ⟨-, hvalue⟩
  · exact h.drawn e he
  · rw [hvalue, hid]
    exact h.drawn _ hmem

theorem WellKept.of_edit (h : WellKept w) (a : Atom) (f : Design → Edited) :
    WellKept (w.edit a f).2 := by
  obtain ⟨t, ht⟩ := h.clock
  unfold edit
  cases hr : w.design? a with
  | none => exact h
  | some r =>
    simp only [settle, now_eq ht]
    cases f r.design with
    | missing => exact h
    | stopped f d => exact h.of_putDesign hr rfl
    | done d => exact h.of_putDesign hr rfl

theorem WellKept.of_obey (h : WellKept w) (o : Order Component.Supply) : WellKept (w.obey o).2 := by
  cases o with
  | call c => exact h.perform c
  | updateWith id updates supplies =>
    unfold obey withId
    dsimp only
    split
    · exact h.of_edit _ _
    · exact h

theorem design?_putDesign (w : Workspace) (r : StoredDesign) (a : Atom) :
    (w.putDesign r).design? a = if Atom.text r.id == a then some r else w.design? a :=
  w.designs.get?_put _ r a

/-- A design that is stored as a new one is found under its id. -/
theorem design?_store {d : Design} {r : StoredDesign} (h : (w.store d).1 = .ok r) :
    (w.store d).2.design? (.text r.id) = some r := by
  unfold store at h ⊢
  split at h
  · cases h
    exact Store.get?_put_self _ _ _
  · cases h
  · cases h

theorem exists_atom_of_addressed? {id : Json} {r : StoredDesign} (hr : w.addressed? id = some r) :
    ∃ a, id.atom? = some a ∧ w.design? a = some r := Option.bind_eq_some_iff.mp hr

/-- An id finds the design that is stored under it, and that one only. -/
theorem WellKept.design?_eq (h : WellKept w) {id : Json} {r : StoredDesign}
    (hr : w.addressed? id = some r) : w.design? (.text r.id) = some r := by
  obtain ⟨a, -, ha⟩ := exists_atom_of_addressed? hr
  exact (Ordered.get?_congr (h.mem_of_design? ha).2 _).trans ha

/-- A stored design stays stored under its id, as it was or as an edit leaves it. -/
theorem WellKept.design?_perform (h : WellKept w) {a : Atom} {r : StoredDesign}
    (hr : w.design? a = some r) (c : Call) :
    ∃ r', (w.perform c).2.design? a = some r' ∧
      (r'.design = r.design ∨ ∃ fresh, (c.edit fresh r.design).left? = some r'.design) := by
  have hsame : ∃ r', w.design? a = some r' ∧
      (r'.design = r.design ∨ ∃ fresh, (c.edit fresh r.design).left? = some r'.design) :=
    ⟨r, hr, .inl rfl⟩
  have hput {id : Json} {s s' : StoredDesign} {fresh : String} (hs : w.addressed? id = some s)
      (hid : s'.id = s.id) (hleft : (c.edit fresh s.design).left? = some s'.design) :
      ∃ r', ((w.drawFor c).putDesign s').design? a = some r' ∧
        (r'.design = r.design ∨ ∃ fresh, (c.edit fresh r.design).left? = some r'.design) := by
    rw [design?_putDesign]
    split
    · rename_i heq
      have hsr : w.design? (.text s.id) = w.design? a := Ordered.get?_congr (hid ▸ heq) _
      rw [h.design?_eq hs, hr] at hsr
      injection hsr with hsr
      exact ⟨s', rfl, .inr ⟨fresh, hsr ▸ hleft⟩⟩
    · exact hsame
  have houtcome := h.outcome c
  generalize w.perform c = answer at houtcome ⊢
  cases houtcome with
  | refused => exact hsame
  | unknown => exact hsame
  | missing => exact hsame
  | stopped hc hs hedit => exact hput hs rfl (by rw [hedit]; rfl)
  | done hc hs hedit => exact hput hs rfl (by rw [hedit]; rfl)
  | made hd ht hid =>
    rw [design?_putDesign]
    split
    · rename_i heq
      -- a new design is stored under an id of its own
      obtain ⟨hmem, hkey⟩ := h.mem_of_design? hr
      have hids := (Atom.beq_iff.mp heq).trans (Atom.beq_iff.mp hkey).symm
      injection hids with hids
      exact absurd hids.symm (h.id_ne_nextId hid _ hmem)
    · exact hsame

end Workspace

end MoveWorkbench
