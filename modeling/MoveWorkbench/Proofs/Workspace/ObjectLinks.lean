import MoveWorkbench.Proofs.Workspace.ConnectionRule
import MoveWorkbench.Proofs.Workspace.Studio

/-!
Rules about the connections of objects. An order changes objects one by one, and makes new ones of
values; it is all the same which designs list them. So a property of connections that is kept when
they are converted, added and taken out holds of all objects of a studio, shared or not, if it
holds of those that are made outside of designs.
-/

namespace MoveWorkbench

/-- Orders that set connections by values with `Lists`, and add single ones with `Adds`. -/
def Order.Connects (Lists Adds : Json → Prop) : Order Handed → Prop
  | call c => c.Connects Lists Adds
  | updateWith _ _ handed => ∀ v, Handed.value v ∈ handed → v.ConnectsBy Lists

theorem Heap.forall_mem_modify {Q : Component → Prop} {heap : Heap} (h : ∀ c ∈ heap, Q c)
    {f : Component → Component} (hf : ∀ c, Q c → Q (f c)) (address : ℕ) :
    ∀ c ∈ heap.modify address f, Q c := by
  intro c hc
  obtain ⟨a, ha⟩ := List.mem_iff_getElem?.mp hc
  rw [List.getElem?_modify] at ha
  obtain ⟨c₀, hc₀, rfl⟩ := Option.map_eq_some_iff.mp ha
  have hQ : Q c₀ := h c₀ (List.mem_of_getElem? hc₀)
  split
  · exact hf c₀ hQ
  · exact hQ

def Redrawn.Leaves (Q : Component → Prop) : Redrawn → Prop
  | missing => True
  | done heap _ | stopped _ heap _ => ∀ c ∈ heap, Q c

namespace Outline

variable {Q : Component → Prop} {heap : Heap} (h : ∀ c ∈ heap, Q c) (o : Outline)
include h

theorem leaves_refill (updates : Fields) {placed : Except Fault (Heap × List ℕ)}
    (hplaced : ∀ p, placed = .ok p → ∀ c ∈ p.1, Q c) : (o.refill heap updates placed).Leaves Q := by
  cases placed with
  | error f => exact h
  | ok p => exact hplaced p rfl

theorem leaves_revise (id : Json) {f : Component → Component} (hf : ∀ c, Q c → Q (f c)) :
    (o.revise heap id f).Leaves Q := by
  unfold revise
  split
  · trivial
  · exact Heap.forall_mem_modify h hf _

end Outline

namespace ConnectionRule

variable {P : List Json → Prop} {Lists Adds : Json → Prop} (rule : ConnectionRule P Lists Adds)
  {heap : Heap} (h : ∀ c ∈ heap, P c.connections) {o : Outline}
include rule h

theorem of_place {handed : List Handed} (hv : ∀ v, .value v ∈ handed → v.ConnectsBy Lists)
    {placed : Heap × List ℕ} (hplaced : heap.place handed = .ok placed) :
    ∀ c ∈ placed.1, P c.connections := by
  induction handed generalizing heap placed with
  | nil =>
    cases hplaced
    exact h
  | cons x handed ih =>
    have hrest : ∀ v, .value v ∈ handed → v.ConnectsBy Lists := fun v hmem =>
      hv v (List.mem_cons_of_mem _ hmem)
    cases x with
    | object address =>
      obtain ⟨placed', hplaced', hlast⟩ := Partial.bind_eq_ok.mp hplaced
      cases hlast
      have hkept := ih h hrest hplaced'
      exact hkept
    | value v =>
      obtain ⟨c, hc, hnext⟩ := Partial.bind_eq_ok.mp hplaced
      obtain ⟨placed', hplaced', hlast⟩ := Partial.bind_eq_ok.mp hnext
      cases hlast
      have hmade : P c.connections := rule.of_ofJson (hv v List.mem_cons_self) hc
      have hkept := ih (List.forall_mem_append.mpr ⟨h, List.forall_mem_singleton.mpr hmade⟩) hrest
        hplaced'
      exact hkept

theorem leaves_updateBy {updates : Json} (hu : ∀ fs vs, updates = .object fs →
      (Json.field fs "components").items = .ok vs → ∀ v ∈ vs, v.ConnectsBy Lists) :
    (o.updateBy heap updates).Leaves fun c => P c.connections := by
  cases updates with
  | object fs =>
    have hitems : ∀ p, ((Json.field fs "components").items.bind fun vs =>
        heap.place (vs.map .value)) = .ok p → ∀ c ∈ p.1, P c.connections := by
      intro p hp
      obtain ⟨vs, hvs, hplaced⟩ := Partial.bind_eq_ok.mp hp
      refine rule.of_place h (fun v hv => ?_) hplaced
      obtain ⟨u, hmem, heq⟩ := List.mem_map.mp hv
      injection heq with heq
      exact heq ▸ hu fs vs rfl hvs u hmem
    unfold Outline.updateBy
    dsimp only
    split
    · exact h
    · exact o.leaves_refill h fs hitems
  | _ => exact h

theorem leaves_add {id : String} {new : Design.NewComponent} (hnew : Lists new.connections) :
    (o.add heap id new).Leaves fun c => P c.connections := by
  unfold Outline.add
  split
  · rename_i connections properties hconnections _
    have hadded : P connections := rule.converted hnew hconnections
    exact List.forall_mem_append.mpr ⟨h, List.forall_mem_singleton.mpr hadded⟩
  · exact h
  · exact h

theorem leaves_updateComponent (id : Json) {updates : Json} (hu : updates.ConnectsBy Lists) :
    (o.updateComponent heap id updates).Leaves fun c => P c.connections := by
  unfold Outline.updateComponent
  split
  · trivial
  · rename_i address _
    have hleft := Heap.forall_mem_modify h (fun _ => rule.updateBy hu) address
    dsimp only
    split
    · exact hleft
    · exact hleft

theorem leaves_remove (id : Json) : (o.remove heap id).Leaves fun c => P c.connections := by
  have hfold : ∀ addresses : List ℕ, ∀ heap : Heap, (∀ c ∈ heap, P c.connections) →
      ∀ c ∈ addresses.foldl (fun left address => left.modify address (·.disconnect id)) heap,
        P c.connections := by
    intro addresses
    induction addresses with
    | nil => exact fun _ h => h
    | cons address addresses ih =>
      exact fun heap h => ih _ (Heap.forall_mem_modify h (fun _ => rule.disconnect id) address)
  exact hfold _ heap h

end ConnectionRule

namespace Studio

variable {Q : Component → Prop} {s : Studio}

theorem forall_mem_heap_settle (h : ∀ c ∈ s.heap, Q c) (r : HeldDesign) {x : Redrawn}
    (hx : x.Leaves Q) : ∀ c ∈ (s.settle r x).2.heap, Q c := by
  cases x with
  | missing => exact h
  | stopped => exact hx
  | done =>
    unfold settle
    dsimp only
    split <;> exact hx

theorem forall_mem_heap_withId (h : ∀ c ∈ s.heap, Q c) (id : Json) {f : Atom → Answer}
    (hf : ∀ a, ∀ c ∈ (f a).2.heap, Q c) : ∀ c ∈ (s.withId id f).2.heap, Q c := by
  unfold withId
  split
  · exact hf _
  · exact h

theorem forall_mem_heap_edit (h : ∀ c ∈ s.heap, Q c) (a : Atom) {f : Outline → Heap → Redrawn}
    (hf : ∀ o, (f o s.heap).Leaves Q) : ∀ c ∈ (s.edit a f).2.heap, Q c := by
  unfold edit
  split
  · exact h
  · exact forall_mem_heap_settle h _ (hf _)

theorem forall_mem_heap_editUnder (h : ∀ c ∈ s.heap, Q c) (id : Json) {f : Outline → Heap → Redrawn}
    (hf : ∀ o, (f o s.heap).Leaves Q) : ∀ c ∈ (s.withId id fun a => s.edit a f).2.heap, Q c :=
  forall_mem_heap_withId h id fun a => forall_mem_heap_edit h a hf

theorem forall_mem_heap_store (h : ∀ c ∈ s.heap, Q c) {d : Design} (hd : ∀ c ∈ d.components, Q c) :
    ∀ c ∈ (s.store d).2.heap, Q c := by
  unfold store
  split
  · exact List.forall_mem_append.mpr ⟨h, hd⟩
  · exact h
  · exact h

end Studio

namespace ConnectionRule

variable {P : List Json → Prop} {Lists Adds : Json → Prop} (rule : ConnectionRule P Lists Adds)
include rule

theorem objects_addComponent {s : Studio} (h : ∀ c ∈ s.heap, P c.connections) (a : Atom)
    {new : Design.NewComponent} (hnew : Lists new.connections) :
    ∀ c ∈ (s.addComponent a new).2.heap, P c.connections := by
  unfold Studio.addComponent
  split
  · exact h
  · split
    · exact h
    · exact Studio.forall_mem_heap_settle (s := s.draw) h _ (rule.leaves_add h hnew)

/-- What holds of the connections of all objects is kept by the orders that are allowed. -/
theorem objects_perform {s : Studio} (h : ∀ c ∈ s.heap, P c.connections) {o : Order Handed}
    (ho : o.Connects Lists Adds) : ∀ c ∈ (s.perform o).2.heap, P c.connections := by
  cases o with
  | updateWith id updates handed =>
    refine Studio.forall_mem_heap_editUnder h id fun o => ?_
    exact o.leaves_refill h updates fun p hp => rule.of_place h ho hp
  | call c =>
    cases c with
    | createDesign name description =>
      exact Studio.forall_mem_heap_store h fun _ hc => absurd hc List.not_mem_nil
    | importDesign document =>
      cases document with
      | text t =>
        change ∀ c ∈ (s.importDesign t).2.heap, P c.connections
        unfold Studio.importDesign
        split
        · exact h
        · rename_i d hd
          exact Studio.forall_mem_heap_store h (rule.of_ofText hd)
      | _ => exact h
    | addComponent id new =>
      exact Studio.forall_mem_heap_withId h id fun a => rule.objects_addComponent h a ho
    | updateDesign id updates =>
      exact Studio.forall_mem_heap_editUnder h id fun o => rule.leaves_updateBy h ho
    | updateComponent id component updates =>
      exact Studio.forall_mem_heap_editUnder h id fun o => rule.leaves_updateComponent h component ho
    | removeComponent id component =>
      exact Studio.forall_mem_heap_editUnder h id fun o => rule.leaves_remove h component
    | addConnection id source target =>
      exact Studio.forall_mem_heap_editUnder h id fun o =>
        o.leaves_revise h source fun _ hP => rule.connect hP ho
    | removeConnection id source target =>
      exact Studio.forall_mem_heap_editUnder h id fun o =>
        o.leaves_revise h source fun _ hP => rule.disconnect target hP

/-- In a studio that is reached by allowed orders a rule holds of all objects, if it holds of those
that were made outside of designs. -/
theorem objects_reached {allowed : Studio → Order Handed → Prop} {made : Component → Prop}
    (hallowed : ∀ s o, allowed s o → o.Connects Lists Adds)
    (hmade : ∀ c, made c → P c.connections) {s : Studio} (h : Studio.Reached allowed made s) :
    ∀ c ∈ s.heap, P c.connections := by
  induction h with
  | fresh t => exact fun _ hc => absurd hc List.not_mem_nil
  | perform _ ho ih => exact rule.objects_perform ih (hallowed _ _ ho)
  | construct _ hc ih =>
    exact List.forall_mem_append.mpr ⟨ih, List.forall_mem_singleton.mpr (hmade _ hc)⟩
  | tick _ _ ih => exact ih
  | sweep _ _ ih => exact ih
  | aside _ _ _ ih => exact ih

end ConnectionRule

/-- What holds of all objects holds of all components that designs list. -/
theorem Studio.forall_mem_components {Q : Component → Prop} {s : Studio} (h : ∀ c ∈ s.heap, Q c) :
    ∀ e ∈ s.seen.designs.entries, ∀ c ∈ e.2.design.components, Q c := by
  intro e he c hc
  obtain ⟨e₀, -, rfl⟩ := List.mem_map.mp he
  obtain ⟨a, -, ha⟩ := List.mem_filterMap.mp hc
  exact h c (List.mem_of_getElem? ha)

end MoveWorkbench
