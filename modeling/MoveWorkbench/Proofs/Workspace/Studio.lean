import MoveWorkbench.Proofs.Workspace.Objects
import MoveWorkbench.Proofs.Workspace.Outcome

/-!
Studios in which each design owns its components. As long as no object is handed over that another
design lists, no two designs have an object in common, and then a studio answers and changes as
the workspace does that it is by value. An order touches the objects of the design that it is
about, and those that are handed over; all others stay as they are.
-/

namespace MoveWorkbench

namespace Order

def handed : Order Handed → List ℕ
  | call _ => []
  | updateWith _ _ handed => Handed.addresses handed

def seen (heap : Heap) : Order Handed → Order Component.Supply
  | call c => call c
  | updateWith id updates handed => updateWith id updates (Handed.supplies heap handed)

@[simp] theorem address?_seen (heap : Heap) (o : Order Handed) :
    (o.seen heap).address? = o.address? := by
  cases o <;> rfl

@[simp] theorem target?_seen (heap : Heap) (o : Order Handed) :
    (o.seen heap).target? = o.target? := by
  cases o <;> rfl

/-- By value an order is the same as long as the objects are that it hands over. -/
theorem seen_congr {heap left : Heap} {o : Order Handed}
    (h : ∀ a ∈ o.handed, left[a]? = heap[a]?) : o.seen left = o.seen heap := by
  cases o with
  | call c => rfl
  | updateWith id updates handed => exact congrArg _ (Handed.supplies_congr h)

end Order

namespace Studio

variable {s : Studio} {target : Option Atom} {given : List ℕ}

/-- Each design is stored under its id and lists objects that are there, and no two designs list
the same one. -/
structure Exclusive (s : Studio) : Prop where
  distinct : Ordered.Distinct s.designs.entries
  key : ∀ e ∈ s.designs.entries, e.1 = .text e.2.id
  whole : ∀ e ∈ s.designs.entries, s.heap.Whole e.2.outline.components
  apart : ∀ e ∈ s.designs.entries, ∀ e' ∈ s.designs.entries, ∀ a ∈ e.2.outline.components,
    a ∈ e'.2.outline.components → e.1 = e'.1

/-- Whether objects may be handed over for a design: they are there, each is named once, and no
other design lists one of them. -/
structure Free (s : Studio) (target : Option Atom) (given : List ℕ) : Prop where
  whole : s.heap.Whole given
  own : ∀ e ∈ s.designs.entries, ∀ a ∈ e.2.outline.components, a ∈ given → target = some e.1

/-- An answer that is by value the answer of a workspace. Objects that the target does not list
stay as they are, and no design comes to list one that is neither new nor handed over for it. -/
structure Mirrors (s : Studio) (target : Option Atom) (given : List ℕ) (x : Answer)
    (y : MoveWorkbench.Answer (Option StoredDesign)) : Prop where
  answer : x.1 = y.1
  left : x.2.seen = y.2
  exclusive : x.2.Exclusive
  grown : s.heap.length ≤ x.2.heap.length
  frame : ∀ a < s.heap.length,
    (∀ e ∈ s.designs.entries, a ∈ e.2.outline.components → target ≠ some e.1) →
      x.2.heap[a]? = s.heap[a]?
  own : ∀ e ∈ x.2.designs.entries, ∀ a ∈ e.2.outline.components, s.heap.length ≤ a ∨
    target = some e.1 ∧ a ∈ given ∨
      ∃ e₀ ∈ s.designs.entries, e₀.1 = e.1 ∧ a ∈ e₀.2.outline.components

theorem free_nil (s : Studio) (target : Option Atom) : s.Free target [] :=
  ⟨⟨List.nodup_nil, fun _ ha => absurd ha List.not_mem_nil⟩,
    fun _ _ _ _ ha => absurd ha List.not_mem_nil⟩

/-- An object that no design lists may be handed over. -/
theorem free_singleton {a : ℕ} (ha : a < s.heap.length)
    (hunlisted : ∀ e ∈ s.designs.entries, a ∉ e.2.outline.components) : s.Free target [a] := by
  refine ⟨⟨List.nodup_singleton a, List.forall_mem_singleton.mpr ha⟩, fun e he b hb hgiven => ?_⟩
  rw [List.mem_singleton.mp hgiven] at hb
  exact absurd hb (hunlisted e he)

theorem free_append_iff {given given' : List ℕ} : s.Free target (given ++ given') ↔
    s.Free target given ∧ s.Free target given' ∧ given.Disjoint given' := by
  constructor
  · intro h
    obtain ⟨hleft, hright, hdisjoint⟩ := List.nodup_append'.mp h.whole.nodup
    obtain ⟨hthere, hthere'⟩ := List.forall_mem_append.mp h.whole.there
    exact ⟨⟨⟨hleft, hthere⟩, fun e he a ha hgiven =>
        h.own e he a ha (List.mem_append_left _ hgiven)⟩,
      ⟨⟨hright, hthere'⟩, fun e he a ha hgiven =>
        h.own e he a ha (List.mem_append_right _ hgiven)⟩, hdisjoint⟩
  · rintro ⟨h, h', hdisjoint⟩
    refine ⟨⟨List.nodup_append'.mpr ⟨h.whole.nodup, h'.whole.nodup, hdisjoint⟩,
      List.forall_mem_append.mpr ⟨h.whole.there, h'.whole.there⟩⟩, fun e he a ha hgiven => ?_⟩
    rcases List.mem_append.mp hgiven with hgiven | hgiven
    · exact h.own e he a ha hgiven
    · exact h'.own e he a ha hgiven

/-- Objects that no design lists may be handed over for any design. -/
theorem Free.of_none (h : s.Free none given) : s.Free target given :=
  ⟨h.whole, fun e he a ha hgiven => by cases h.own e he a ha hgiven⟩

theorem design?_seen (s : Studio) (a : Atom) :
    s.seen.design? a = (s.designs.get? a).map (·.seen s.heap) :=
  Ordered.get?_map (fun r : HeldDesign => r.seen s.heap) a s.designs.entries

namespace Mirrors

variable {target' : Option Atom} {given' : List ℕ} {x : Answer}
  {y : MoveWorkbench.Answer (Option StoredDesign)} (h : Mirrors s target given x y)
include h

/-- What may be handed over may still be handed over after other objects were. -/
theorem free (hfree : s.Free target' given') (hdisjoint : given'.Disjoint given) :
    x.2.Free target' given' := by
  refine ⟨⟨hfree.whole.nodup, fun a ha => ?_⟩, fun e he a ha hgiven => ?_⟩
  · exact Nat.lt_of_lt_of_le (hfree.whole.there a ha) h.grown
  · rcases h.own e he a ha with hle | ⟨-, hother⟩ | ⟨e₀, he₀, hkey, ha₀⟩
    · exact absurd (hfree.whole.there a hgiven) (Nat.not_lt.mpr hle)
    · exact absurd hother (hdisjoint hgiven)
    · rw [← hkey]
      exact hfree.own e₀ he₀ a ha₀ hgiven

/-- What may be handed over for another design stays as it is. -/
theorem getElem?_eq (hfree : s.Free target' given') (hapart : ∀ a ∈ target', target ≠ some a)
    {a : ℕ} (ha : a ∈ given') : x.2.heap[a]? = s.heap[a]? :=
  h.frame a (hfree.whole.there a ha) fun e he hlisted => hapart e.1 (hfree.own e he a hlisted ha)

end Mirrors

namespace Exclusive

variable (h : s.Exclusive)
include h

theorem mem_of_get? {a : Atom} {r : HeldDesign} (hr : s.designs.get? a = some r) :
    (Atom.text r.id, r) ∈ s.designs.entries ∧ a = .text r.id := by
  obtain ⟨l, hl, hkey⟩ := Ordered.exists_mem_of_get? hr
  have hid : l = .text r.id := h.key _ hl
  subst hid
  exact ⟨hl, Atom.eq_text_of_beq (by rwa [BEq.comm])⟩

theorem filed : s.seen.Filed := by
  intro e he
  obtain ⟨e₀, he₀, rfl⟩ := List.mem_map.mp he
  exact h.key e₀ he₀

theorem draw : s.draw.Exclusive := ⟨h.distinct, h.key, h.whole, h.apart⟩

/-- A design is put into a studio with other objects, if it is by value put and if the objects
that changed or that it comes to list are its own. -/
theorem put {listed : List ℕ} {left : Heap} {r : HeldDesign}
    (hkeeps : Keeps s.heap listed given left r.outline.components)
    (hown : ∀ e ∈ s.designs.entries, ∀ a ∈ e.2.outline.components, a ∈ listed ∨ a ∈ given →
      e.1 = .text r.id) :
    (s.put left r).seen = s.seen.putDesign (r.seen left) ∧ (s.put left r).Exclusive := by
  have hother : ∀ e ∈ s.designs.entries, (e.1 == Atom.text r.id) = false →
      ∀ a ∈ e.2.outline.components, a < s.heap.length ∧ a ∉ listed ∧ a ∉ given := by
    intro e he hne a ha
    refine ⟨(h.whole e he).there a ha, fun hlisted => ?_, fun hgiven => ?_⟩
    · simp [hown e he a ha (.inl hlisted)] at hne
    · simp [hown e he a ha (.inr hgiven)] at hne
  constructor
  · have hseen : ∀ e ∈ s.designs.entries, (e.1 == Atom.text r.id) = false →
        e.2.seen left = e.2.seen s.heap := by
      intro e he hne
      have hsame : e.2.outline.components.filterMap (left[·]?) =
          e.2.outline.components.filterMap (s.heap[·]?) := Heap.filterMap_congr fun a ha =>
        hkeeps.frame a (hother e he hne a ha).1 (hother e he hne a ha).2.1
      simp only [HeldDesign.seen, Outline.seen, hsame]
    have hput := h.distinct.map_put (f := (HeldDesign.seen · s.heap)) (g := (·.seen left)) hseen r
    exact congrArg (fun entries => { s.seen with designs := ⟨entries⟩ }) hput
  · refine ⟨h.distinct.put _ _, fun e he => ?_, fun e he => ?_, fun e he e' he' a ha ha' => ?_⟩
    · rcases h.distinct.mem_put he with ⟨he, -⟩ | ⟨hkey, hvalue⟩
      · exact h.key e he
      · rw [hvalue]
        exact Atom.eq_text_of_beq hkey
    · rcases h.distinct.mem_put he with ⟨he, hne⟩ | ⟨-, hvalue⟩
      · exact ⟨(h.whole e he).nodup, fun a ha =>
          Nat.lt_of_lt_of_le (hother e he hne a ha).1 hkeeps.grown⟩
      · rw [hvalue]
        exact hkeeps.whole
    · -- what the design lists now is none of the objects of another one
      have hapart : ∀ e ∈ s.designs.entries, (e.1 == Atom.text r.id) = false →
          ∀ a ∈ e.2.outline.components, a ∉ r.outline.components := by
        intro e he hne a ha hnow
        obtain ⟨hlt, hlisted, hgiven⟩ := hother e he hne a ha
        rcases hkeeps.own a hnow with hold | hold | hle
        · exact hlisted hold
        · exact hgiven hold
        · omega
      rcases h.distinct.mem_put he with ⟨he, hne⟩ | ⟨hkey, hvalue⟩ <;>
        rcases h.distinct.mem_put he' with ⟨he', hne'⟩ | ⟨hkey', hvalue'⟩
      · exact h.apart e he e' he' a ha ha'
      · rw [hvalue'] at ha'
        exact absurd ha' (hapart e he hne a ha)
      · rw [hvalue] at ha
        exact absurd ha (hapart e' he' hne' a ha')
      · rw [Atom.eq_text_of_beq hkey, Atom.eq_text_of_beq hkey']

theorem mirrors_same (answer : Except Failure (Option StoredDesign)) :
    Mirrors s target given (answer, s) (answer, s.seen) where
  answer := rfl
  left := rfl
  exclusive := h
  grown := Nat.le_refl _
  frame _ _ _ := rfl
  own e he _ ha := .inr (.inr ⟨e, he, rfl, ha⟩)

/-- A design that was stored is put, with its objects as an edit of them left them. -/
theorem mirrors_put {left : Heap} {r : HeldDesign} (hr : (Atom.text r.id, r) ∈ s.designs.entries)
    (r' : HeldDesign) (hid : r'.id = r.id) (hgiven : s.Free (some (.text r.id)) given)
    (hkeeps : Keeps s.heap r.outline.components given left r'.outline.components)
    (answer : Except Failure (Option StoredDesign)) :
    Mirrors s (some (.text r.id)) given (answer, s.put left r')
      (answer, s.seen.putDesign (r'.seen left)) := by
  obtain ⟨hseen, hexclusive⟩ := h.put hkeeps fun e he a ha hown => by
    rw [hid]
    rcases hown with hlisted | hhanded
    · exact h.apart e he _ hr a ha hlisted
    · exact (Option.some.inj (hgiven.own e he a ha hhanded)).symm
  refine ⟨rfl, hseen, hexclusive, hkeeps.grown, fun a hlt ha => ?_, fun e he a ha => ?_⟩
  · exact hkeeps.frame a hlt fun hlisted => ha _ hr hlisted rfl
  · rcases h.distinct.mem_put he with ⟨he, -⟩ | ⟨hkey, hvalue⟩
    · exact .inr (.inr ⟨e, he, rfl, ha⟩)
    · have hkey' : Atom.text r.id = e.1 := by rw [Atom.eq_text_of_beq hkey, hid]
      rw [hvalue] at ha
      rcases hkeeps.own a ha with hold | hhanded | hle
      · exact .inr (.inr ⟨_, hr, hkey', hold⟩)
      · exact .inr (.inl ⟨congrArg some hkey', hhanded⟩)
      · exact .inl hle

theorem mirrors_settle {r : HeldDesign} (hr : (Atom.text r.id, r) ∈ s.designs.entries)
    (hgiven : s.Free (some (.text r.id)) given) {redrawn : Redrawn} {edited : Edited}
    (hfollows : Follows s.heap r.outline.components given redrawn edited) :
    Mirrors s (some (.text r.id)) given (s.settle r redrawn)
      (s.seen.settle (r.seen s.heap) edited) := by
  cases hfollows with
  | missing => exact h.mirrors_same _
  | @stopped f left outline d hd hkeeps =>
    subst hd
    exact h.mirrors_put hr { r with outline } rfl hgiven hkeeps _
  | @done left outline d hd hkeeps =>
    subst hd
    unfold settle Workspace.settle
    cases s.seen.now with
    | error f => exact h.mirrors_put hr { r with outline } rfl hgiven hkeeps _
    | ok t => exact h.mirrors_put hr { r with outline, updatedAt := t } rfl hgiven hkeeps _

theorem mirrors_edit {a : Atom} {f : Outline → Heap → Redrawn} {g : Design → Edited}
    (hgiven : s.Free (some a) given)
    (hfollows : ∀ o : Outline, s.heap.Whole o.components →
      Follows s.heap o.components given (f o s.heap) (g (o.seen s.heap))) :
    Mirrors s (some a) given (s.edit a f) (s.seen.edit a g) := by
  unfold edit Workspace.edit
  rw [design?_seen]
  cases hr : s.designs.get? a with
  | none => exact h.mirrors_same _
  | some r =>
    obtain ⟨hmem, rfl⟩ := h.mem_of_get? hr
    exact h.mirrors_settle hmem hgiven (hfollows _ (h.whole _ hmem))

theorem mirrors_draw (answer : Except Failure (Option StoredDesign)) :
    Mirrors s target given (answer, s.draw) (answer, s.seen.draw) :=
  ⟨rfl, rfl, h.draw, Nat.le_refl _, fun _ _ _ => rfl, fun e he _ ha => .inr (.inr ⟨e, he, rfl, ha⟩)⟩

theorem mirrors_addComponent (a : Atom) (new : Design.NewComponent) :
    Mirrors s (some a) [] (s.addComponent a new) (s.seen.addComponent a new) := by
  unfold addComponent Workspace.addComponent
  rw [design?_seen]
  cases hr : s.designs.get? a with
  | none => exact h.mirrors_same _
  | some r =>
    obtain ⟨hmem, rfl⟩ := h.mem_of_get? hr
    simp only [Option.map_some]
    cases s.seen.nextId "comp" with
    | error f => exact h.mirrors_draw _
    | ok component =>
      have hfollows : Follows s.heap r.outline.components [] (r.outline.add s.heap component new)
          ((r.outline.seen s.heap).add component new) :=
        Outline.follows_add (h.whole _ hmem) component new
      have hmirrors := h.draw.mirrors_settle hmem (free_nil s.draw _) hfollows
      exact ⟨hmirrors.answer, hmirrors.left, hmirrors.exclusive, hmirrors.grown, hmirrors.frame,
        hmirrors.own⟩

/-- The objects of a new design are new. -/
theorem mirrors_store (d : Design) :
    Mirrors s none [] (s.store d) (Workspace.given (s.seen.store d)) := by
  unfold store Workspace.store
  cases s.seen.now with
  | error f => exact h.mirrors_same _
  | ok t =>
    cases s.seen.nextId "design" with
    | error f => exact h.mirrors_draw _
    | ok id =>
      let made := s.heap.make d.components
      let r : HeldDesign := ⟨id, ⟨d.name, d.description, made.2⟩, t, t⟩
      have hr : r.seen made.1 = ⟨id, d, t, t⟩ := by
        simp only [r, made, HeldDesign.seen, Outline.seen, Heap.make, Heap.filterMap_range']
      have hkeeps : Keeps s.heap [] [] made.1 r.outline.components := Keeps.make s.heap d.components
      obtain ⟨hseen, hexclusive⟩ := h.draw.put hkeeps fun _ _ _ _ hown => by simp at hown
      rw [hr] at hseen
      refine ⟨?_, hseen, hexclusive, hkeeps.grown, fun a hlt _ => ?_, fun e he a ha => ?_⟩
      · exact congrArg (fun r => Except.ok (some r)) hr
      · exact List.getElem?_append_left hlt
      · rcases h.distinct.mem_put he with ⟨he, -⟩ | ⟨-, hvalue⟩
        · exact .inr (.inr ⟨e, he, rfl, ha⟩)
        · rw [hvalue] at ha
          exact .inl (List.mem_range'_1.mp ha).1

theorem mirrors_importDesign (text : String) :
    Mirrors s none [] (s.importDesign text) (Workspace.given (s.seen.importDesign text)) := by
  unfold importDesign Workspace.importDesign
  cases Design.ofText text with
  | error problem => exact h.mirrors_same _
  | ok d => exact h.mirrors_store d

theorem mirrors_withId {id : Json} {f : Atom → Answer}
    {g : Atom → MoveWorkbench.Answer (Option StoredDesign)}
    (hfg : ∀ a, id.atom? = some a → Mirrors s (some a) given (f a) (g a)) :
    Mirrors s id.atom? given (s.withId id f) (s.seen.withId id g) := by
  unfold withId Workspace.withId Json.atom
  cases ha : id.atom? with
  | none => exact h.mirrors_same _
  | some a => exact hfg a ha

/-- An edit that hands over no objects. -/
theorem mirrors_edit_nil (id : Json) {f : Outline → Heap → Redrawn} {g : Design → Edited}
    (hfollows : ∀ o : Outline, s.heap.Whole o.components →
      Follows s.heap o.components [] (f o s.heap) (g (o.seen s.heap))) :
    Mirrors s id.atom? [] (s.withId id fun a => s.edit a f)
      (s.seen.withId id fun a => s.seen.edit a g) :=
  h.mirrors_withId fun _ _ => h.mirrors_edit (free_nil s _) hfollows

theorem mirrors_call (c : Call) :
    Mirrors s (Order.call c : Order Handed).target? [] (s.call c) (s.seen.perform c) := by
  cases c with
  | createDesign name description => exact h.mirrors_store ⟨name, description, []⟩
  | updateDesign id updates =>
    exact h.mirrors_edit_nil id fun _ ho => Outline.follows_updateBy ho updates
  | addComponent id new => exact h.mirrors_withId fun a _ => h.mirrors_addComponent a new
  | updateComponent id component updates =>
    exact h.mirrors_edit_nil id fun _ ho => Outline.follows_updateComponent ho component updates
  | removeComponent id component =>
    exact h.mirrors_edit_nil id fun _ ho => Outline.follows_remove ho component
  | addConnection id source target =>
    exact h.mirrors_edit_nil id fun _ ho => Outline.follows_connect ho source target
  | removeConnection id source target =>
    exact h.mirrors_edit_nil id fun _ ho => Outline.follows_disconnect ho source target
  | importDesign document =>
    cases document with
    | text t => exact h.mirrors_importDesign t
    | _ => exact h.mirrors_same _

/-- An order whose objects may be handed over is answered as it is by value. -/
theorem mirrors {o : Order Handed} (hfree : s.Free o.target? o.handed) :
    Mirrors s o.target? o.handed (s.perform o) (s.seen.obey (o.seen s.heap)) := by
  cases o with
  | call c => exact h.mirrors_call c
  | updateWith id updates handed =>
    refine h.mirrors_withId fun a ha => ?_
    have htarget : (Order.updateWith id updates handed).target? = some a := ha
    rw [htarget] at hfree
    exact h.mirrors_edit hfree fun _ ho => Outline.follows_updateWith ho updates hfree.whole

/-- An object that is made is in no design. -/
theorem construct (c : Component) :
    (s.construct c).seen = s.seen ∧ (s.construct c).Exclusive := by
  constructor
  · refine congrArg (fun entries => { s.seen with designs := ⟨entries⟩ }) ?_
    refine List.map_congr_left fun e he => ?_
    have hsame : e.2.outline.components.filterMap ((s.heap ++ [c])[·]?) =
        e.2.outline.components.filterMap (s.heap[·]?) := Heap.filterMap_congr fun a ha =>
      List.getElem?_append_left ((h.whole e he).there a ha)
    simp only [Studio.construct, HeldDesign.seen, Outline.seen, hsame]
  · refine ⟨h.distinct, h.key, fun e he => ⟨(h.whole e he).nodup, fun a ha => ?_⟩, h.apart⟩
    have hlt := (h.whole e he).there a ha
    change a < (s.heap ++ [c]).length
    rw [List.length_append]
    omega

end Exclusive

theorem settle_of_none {r : HeldDesign} {x : Redrawn} (hnone : (s.settle r x).1 = .ok none) :
    x = .missing := by
  cases x with
  | missing => rfl
  | stopped => cases hnone
  | done =>
    unfold settle at hnone
    dsimp only at hnone
    split at hnone <;> cases hnone

theorem edit_of_none {a : Atom} {f : Outline → Heap → Redrawn}
    (hnone : (s.edit a f).1 = .ok none) : (s.edit a f).2 = s := by
  unfold edit at hnone ⊢
  cases hr : s.designs.get? a with
  | none => rfl
  | some r =>
    simp only [hr] at hnone
    simp only [settle_of_none hnone, settle]

theorem addComponent_of_none {a : Atom} {new : Design.NewComponent}
    (hnone : (s.addComponent a new).1 = .ok none) : (s.addComponent a new).2 = s := by
  unfold addComponent at hnone ⊢
  cases hr : s.designs.get? a with
  | none => rfl
  | some r =>
    simp only [hr] at hnone
    split at hnone
    · cases hnone
    · have hmissing := settle_of_none hnone
      unfold Outline.add at hmissing
      split at hmissing <;> cases hmissing

theorem store_ne_none (d : Design) : (s.store d).1 ≠ .ok none := by
  unfold store
  split <;> exact fun hnone => by cases hnone

theorem withId_of_none {id : Json} {f : Atom → Answer}
    (hf : ∀ a, (f a).1 = .ok none → (f a).2 = s) (hnone : (s.withId id f).1 = .ok none) :
    (s.withId id f).2 = s := by
  unfold withId at hnone ⊢
  split
  · rename_i a ha
    rw [ha] at hnone
    exact hf a hnone
  · rfl

/-- An order that is answered with nothing changes nothing, whatever objects are shared. -/
theorem perform_of_none {o : Order Handed} (hnone : (s.perform o).1 = .ok none) :
    (s.perform o).2 = s := by
  cases o with
  | updateWith id updates handed => exact withId_of_none (fun _ => edit_of_none) hnone
  | call c =>
    cases c with
    | createDesign name description => exact absurd hnone (store_ne_none _)
    | addComponent id new => exact withId_of_none (fun _ => addComponent_of_none) hnone
    | importDesign document =>
      cases document with
      | text t =>
        change (s.importDesign t).1 = .ok none at hnone
        unfold importDesign at hnone
        split at hnone
        · cases hnone
        · exact absurd hnone (store_ne_none _)
      | _ => rfl
    | _ => exact withId_of_none (fun _ => edit_of_none) hnone

/-- The studios that are reached by orders and by making objects, where a studio allows for some
orders only. -/
inductive Reached (allowed : Studio → Order Handed → Prop) (made : Component → Prop) :
    Studio → Prop where
  | fresh (t : Instant) : Reached allowed made (of (.fresh t.micros))
  | perform {s : Studio} {o : Order Handed} (h : Reached allowed made s) (ho : allowed s o) :
    Reached allowed made (s.perform o).2
  | construct {s : Studio} {c : Component} (h : Reached allowed made s) (hc : made c) :
    Reached allowed made (s.construct c)
  | tick {s : Studio} (h : Reached allowed made s) (t : Instant) :
    Reached allowed made { s with clock := t.micros }
  | sweep {s : Studio} (h : Reached allowed made s) (cutoff : Instant) :
    Reached allowed made { s with designs := s.designs.since (·.updatedAt) cutoff }
  | aside {s : Studio} (h : Reached allowed made s) (analyses : Store Analysis) (n : ℕ) :
    Reached allowed made { s with analyses := analyses, drawn := s.drawn + n }

theorem Exclusive.sweep (h : s.Exclusive) (cutoff : Instant) :
    ({ s with designs := s.designs.since (·.updatedAt) cutoff } : Studio).seen =
        { s.seen with designs := s.seen.designs.since (·.updatedAt) cutoff } ∧
      ({ s with designs := s.designs.since (·.updatedAt) cutoff } : Studio).Exclusive := by
  constructor
  · have hfilter := List.filter_map (f := fun e : Atom × HeldDesign => (e.1, e.2.seen s.heap))
      (p := fun e => ¬ e.2.updatedAt < cutoff) (l := s.designs.entries)
    exact congrArg (fun entries => { s.seen with designs := ⟨entries⟩ }) hfilter.symm
  · refine ⟨h.distinct.filter _, fun e he => ?_, fun e he => ?_, fun e he e' he' => ?_⟩
    · exact h.key e (List.mem_of_mem_filter he)
    · exact h.whole e (List.mem_of_mem_filter he)
    · exact h.apart e (List.mem_of_mem_filter he) e' (List.mem_of_mem_filter he')

variable {allowed : Studio → Order Handed → Prop} {made : Component → Prop}

/-- As long as no object is handed over that another design lists, designs own their objects, and
by value they are well kept. -/
theorem Reached.exclusive (hfree : ∀ s o, allowed s o → s.Free o.target? o.handed)
    (h : Reached allowed made s) : s.Exclusive ∧ s.seen.WellKept := by
  induction h with
  | fresh t =>
    have hnone : ∀ e, e ∉ (of (.fresh t.micros)).designs.entries := fun e he =>
      absurd he List.not_mem_nil
    refine ⟨⟨List.Pairwise.nil, fun e he => ?_, fun e he => ?_, fun e he => ?_⟩, ?_⟩
    · exact absurd he (hnone e)
    · exact absurd he (hnone e)
    · exact absurd he (hnone e)
    · have hfresh : Workspace.Reached (fun _ => True) (.fresh t.micros) := .fresh t
      exact hfresh.wellKept
  | @perform s o _ ho ih =>
    obtain ⟨hexclusive, hkept⟩ := ih
    have hmirrors := hexclusive.mirrors (hfree s o ho)
    exact ⟨hmirrors.exclusive, hmirrors.left ▸ hkept.of_obey _⟩
  | @construct s c _ _ ih =>
    obtain ⟨hseen, hexclusive⟩ := ih.1.construct c
    exact ⟨hexclusive, hseen ▸ ih.2⟩
  | tick _ t ih =>
    obtain ⟨hexclusive, hkept⟩ := ih
    exact ⟨⟨hexclusive.distinct, hexclusive.key, hexclusive.whole, hexclusive.apart⟩, hkept.tick t⟩
  | sweep _ cutoff ih =>
    obtain ⟨hseen, hexclusive⟩ := ih.1.sweep cutoff
    exact ⟨hexclusive, hseen ▸ ih.2.sweep cutoff⟩
  | aside _ analyses n ih =>
    obtain ⟨hexclusive, hkept⟩ := ih
    exact ⟨⟨hexclusive.distinct, hexclusive.key, hexclusive.whole, hexclusive.apart⟩,
      hkept.aside analyses n⟩

def fillBank : Call :=
  .updateDesign (.text "design-0-000000000") (.object [("components",
    .list [.object [("id", .text "vault"), ("name", .text "Vault")]])])

def bankAndShop : Studio :=
  let s := ((of (.fresh 0)).perform (.call (.createDesign (.text "Bank") .null))).2
  let s := (s.perform (.call (.createDesign (.text "Shop") .null))).2
  (s.perform (.call fillBank)).2

theorem reached_bankAndShop (hcreate : ∀ s name, allowed s (.call (.createDesign name .null)))
    (hfill : ∀ s, allowed s (.call fillBank)) : Reached allowed made bankAndShop :=
  .perform (.perform (.perform (.fresh ⟨0, by decide⟩) (hcreate _ _)) (hcreate _ _)) (hfill _)

/-- The shop is given the vault of the bank, and both list it then. -/
def sharedVault : Studio :=
  (bankAndShop.perform (.updateWith (.text "design-0-000000001") [] [.object 0])).2

end Studio

end MoveWorkbench
