import Mathlib.Data.List.Nodup
import MoveWorkbench.Proofs.Design.Edit
import MoveWorkbench.Workspace.Studio

/-!
Edits of objects. An edit of a design whose components are objects, each of them listed once, is
by value the edit of the design. It changes no objects but those that the design lists, and it
lists no others afterwards but those that were handed over and new ones.
-/

namespace MoveWorkbench

namespace Heap

structure Whole (heap : Heap) (addresses : List ℕ) : Prop where
  nodup : addresses.Nodup
  there : ∀ a ∈ addresses, a < heap.length

variable {heap : Heap} {as : List ℕ} {a b : ℕ} {f : Component → Component} {id : Json}

theorem getElem?_modify_of_ne (h : b ≠ a) : (heap.modify a f)[b]? = heap[b]? := by
  simp [h.symm]

theorem filterMap_congr {left : Heap} (h : ∀ a ∈ as, left[a]? = heap[a]?) :
    as.filterMap (left[·]?) = as.filterMap (heap[·]?) :=
  List.filterMap_congr h

/-- The first component with an id stands at the first address of an object with the id. -/
theorem find?_filterMap (heap : Heap) (as : List ℕ) (id : Json) :
    (as.filterMap (heap[·]?)).find? (·.id == id) =
      (as.find? (heap.hasId id)).bind (heap[·]?) := by
  induction as with
  | nil => rfl
  | cons a as ih =>
    cases hc : heap[a]? with
    | none =>
      have hid : heap.hasId id a = false := by simp [hasId, hc]
      rw [List.filterMap_cons_none hc, List.find?_cons_of_neg (by simp [hid]), ih]
    | some c =>
      have hid : heap.hasId id a = (c.id == id) := by simp [hasId, hc]
      rw [List.filterMap_cons_some hc, List.find?_cons, List.find?_cons, hid]
      split
      · exact hc.symm
      · exact ih

/-- To change the first object with an id is to change the first component with it. -/
theorem filterMap_modify (has : as.Nodup) (ha : as.find? (heap.hasId id) = some a) :
    as.filterMap ((heap.modify a f)[·]?) = Design.modifyFirst id f (as.filterMap (heap[·]?)) := by
  induction as with
  | nil => cases ha
  | cons b as ih =>
    obtain ⟨hb, has⟩ := List.nodup_cons.mp has
    rw [List.find?_cons] at ha
    split at ha
    · rename_i hid
      cases ha
      obtain ⟨c, hc, hcid⟩ : ∃ c, heap[a]? = some c ∧ (c.id == id) = true := by
        simpa [hasId, Option.any_eq_true] using hid
      have hchanged : (heap.modify a f)[a]? = some (f c) := by simp [hc]
      have hrest : as.filterMap ((heap.modify a f)[·]?) = as.filterMap (heap[·]?) :=
        filterMap_congr fun b hmem => getElem?_modify_of_ne fun heq => hb (heq ▸ hmem)
      rw [List.filterMap_cons_some hchanged, List.filterMap_cons_some hc, hrest]
      simp [Design.modifyFirst, hcid]
    · rename_i hid
      have hne : b ≠ a := fun heq => hb (heq ▸ List.mem_of_find?_eq_some ha)
      have hsame : (heap.modify a f)[b]? = heap[b]? := getElem?_modify_of_ne hne
      cases hc : heap[b]? with
      | none =>
        rw [List.filterMap_cons_none (hsame.trans hc), List.filterMap_cons_none hc, ih has ha]
      | some c =>
        have hcid : (c.id == id) = false := by simpa [hasId, hc] using hid
        rw [List.filterMap_cons_some (hsame.trans hc), List.filterMap_cons_some hc, ih has ha]
        simp [Design.modifyFirst, hcid]

/-- Objects that are listed are changed once, and no others. -/
theorem getElem?_foldl_modify (has : as.Nodup) (heap : Heap) (b : ℕ) :
    (as.foldl (fun left a => left.modify a f) heap)[b]? =
      if b ∈ as then (heap[b]?).map f else heap[b]? := by
  induction as generalizing heap with
  | nil => simp
  | cons a as ih =>
    obtain ⟨ha, has⟩ := List.nodup_cons.mp has
    rw [List.foldl_cons, ih has]
    by_cases hb : b = a
    · subst hb
      simp [ha]
    · simp [hb, getElem?_modify_of_ne hb]

theorem length_foldl_modify (heap : Heap) (as : List ℕ) :
    (as.foldl (fun left a => left.modify a f) heap).length = heap.length := by
  induction as generalizing heap with
  | nil => rfl
  | cons a as ih => rw [List.foldl_cons, ih, List.length_modify]

/-- Components that are made are found at their addresses. -/
theorem filterMap_range' (heap : Heap) (cs : List Component) :
    (List.range' heap.length cs.length).filterMap ((heap ++ cs)[·]?) = cs := by
  induction cs generalizing heap with
  | nil => rfl
  | cons c cs ih =>
    have hfound : (heap ++ c :: cs)[heap.length]? = some c := by simp
    have hrest := ih (heap ++ [c])
    rw [List.length_append, List.append_assoc] at hrest
    rw [List.length_cons, List.range'_succ, List.filterMap_cons_some hfound]
    exact congrArg (c :: ·) hrest

end Heap

namespace Handed

def addresses (handed : List Handed) : List ℕ :=
  handed.filterMap fun
    | value _ => none
    | object a => some a

def supply? (heap : Heap) : Handed → Option Component.Supply
  | value v => some (.value v)
  | object a => (heap[a]?).map .ready

def supplies (heap : Heap) (handed : List Handed) : List Component.Supply :=
  handed.filterMap (·.supply? heap)

theorem supplies_congr {heap left : Heap} {handed : List Handed}
    (h : ∀ a ∈ addresses handed, left[a]? = heap[a]?) :
    supplies left handed = supplies heap handed := by
  refine List.filterMap_congr fun x hx => ?_
  cases x with
  | value v => rfl
  | object a =>
    have ha : a ∈ addresses handed := List.mem_filterMap.mpr ⟨_, hx, rfl⟩
    simp only [supply?, h a ha]

theorem supplies_map_value (heap : Heap) (vs : List Json) :
    supplies heap (vs.map value) = vs.map .value := by
  simp [supplies, List.filterMap_map, supply?]

theorem addresses_map_value (vs : List Json) : addresses (vs.map value) = [] := by
  simp [addresses, List.filterMap_map]

end Handed

namespace Heap

/-- How objects are placed: those that are there stay as they are, new ones come after them, and
what is listed is handed over or new. -/
inductive Places (heap : Heap) (given : List ℕ) :
    Except Fault (Heap × List ℕ) → Except Fault (List Component) → Prop where
  | failed (f : Fault) : Places heap given (.error f) (.error f)
  | placed {made : List Component} {as : List ℕ} (whole : (heap ++ made).Whole as)
    (own : ∀ a ∈ as, a ∈ given ∨ heap.length ≤ a) :
    Places heap given (.ok (heap ++ made, as)) (.ok (as.filterMap ((heap ++ made)[·]?)))

theorem Places.cons_object {heap : Heap} {given : List ℕ} {a : ℕ} {c : Component}
    (hc : heap[a]? = some c) (ha : a ∉ given) {placed : Except Fault (Heap × List ℕ)}
    {components : Except Fault (List Component)} (h : Places heap given placed components) :
    Places heap (a :: given) (placed.map fun p => (p.1, a :: p.2))
      (components.map fun cs => c :: cs) := by
  have hlt : a < heap.length := (List.getElem?_eq_some_iff.mp hc).1
  cases h with
  | failed f => exact .failed f
  | @placed made as whole own =>
    have hfound : (heap ++ made)[a]? = some c := by rw [List.getElem?_append_left hlt, hc]
    have hnew : a ∉ as := by
      intro hmem
      rcases own a hmem with hgiven | hle
      · exact ha hgiven
      · omega
    have hcomponents : (a :: as).filterMap ((heap ++ made)[·]?) =
        c :: as.filterMap ((heap ++ made)[·]?) := List.filterMap_cons_some hfound
    simp only [Except.map, ← hcomponents]
    refine .placed ⟨List.nodup_cons.mpr ⟨hnew, whole.nodup⟩, ?_⟩ ?_
    · refine List.forall_mem_cons.mpr ⟨?_, whole.there⟩
      rw [List.length_append]
      omega
    · refine List.forall_mem_cons.mpr ⟨.inl List.mem_cons_self, fun b hb => ?_⟩
      exact (own b hb).imp_left (List.mem_cons_of_mem a)

theorem Places.cons_value {heap : Heap} {given : List ℕ} (hgiven : ∀ a ∈ given, a < heap.length)
    {c : Component} {placed : Except Fault (Heap × List ℕ)}
    {components : Except Fault (List Component)}
    (h : Places (heap ++ [c]) given placed components) :
    Places heap given (placed.map fun p => (p.1, heap.length :: p.2))
      (components.map fun cs => c :: cs) := by
  cases h with
  | failed f => exact .failed f
  | @placed made as whole own =>
    have hmade : heap ++ [c] ++ made = heap ++ c :: made := by simp
    rw [hmade] at whole
    have hfound : (heap ++ c :: made)[heap.length]? = some c := by simp
    have hbehind : ∀ b ∈ as, b ∈ given ∨ heap.length + 1 ≤ b := by simpa using own
    have hnew : heap.length ∉ as := by
      intro hmem
      rcases hbehind _ hmem with hold | hle
      · exact absurd (hgiven _ hold) (Nat.lt_irrefl _)
      · omega
    have hcomponents : (heap.length :: as).filterMap ((heap ++ c :: made)[·]?) =
        c :: as.filterMap ((heap ++ c :: made)[·]?) := List.filterMap_cons_some hfound
    simp only [Except.map, hmade, ← hcomponents]
    refine .placed ⟨List.nodup_cons.mpr ⟨hnew, whole.nodup⟩, ?_⟩ ?_
    · refine List.forall_mem_cons.mpr ⟨?_, whole.there⟩
      simp
    · refine List.forall_mem_cons.mpr ⟨.inr (Nat.le_refl _), fun b hb => ?_⟩
      exact (hbehind b hb).imp_right Nat.le_of_succ_le

/-- What is handed over is placed as it is by value. -/
theorem places_place {heap : Heap} {handed : List Handed}
    (h : heap.Whole (Handed.addresses handed)) :
    Places heap (Handed.addresses handed) (heap.place handed)
      ((Handed.supplies heap handed).mapM (·.component)) := by
  induction handed generalizing heap with
  | nil =>
    have hnone := @Places.placed heap [] [] [] ⟨List.nodup_nil, by simp⟩ (by simp)
    rwa [List.append_nil] at hnone
  | cons x handed ih =>
    cases x with
    | object a =>
      obtain ⟨hnodup, hthere⟩ := h
      obtain ⟨ha, hrest⟩ := List.nodup_cons.mp hnodup
      obtain ⟨hlt, hbelow⟩ := List.forall_mem_cons.mp hthere
      have hc : heap[a]? = some heap[a] := List.getElem?_eq_getElem hlt
      have hsupplies : Handed.supplies heap (.object a :: handed) =
          .ready heap[a] :: Handed.supplies heap handed :=
        List.filterMap_cons_some (by simp only [Handed.supply?, hc, Option.map_some])
      rw [hsupplies, List.mapM_cons]
      exact (ih ⟨hrest, hbelow⟩).cons_object hc ha
    | value v =>
      change heap.Whole (Handed.addresses handed) at h
      have hsupplies : Handed.supplies heap (.value v :: handed) =
          .value v :: Handed.supplies heap handed := List.filterMap_cons_some rfl
      rw [hsupplies, List.mapM_cons]
      simp only [place, Component.Supply.component]
      cases Component.ofJson v with
      | error f => exact .failed f
      | ok c =>
        have hwhole : Whole (heap ++ [c]) (Handed.addresses handed) := by
          refine ⟨h.nodup, fun a ha => ?_⟩
          have hlt := h.there a ha
          rw [List.length_append]
          omega
        have hsame : Handed.supplies (heap ++ [c]) handed = Handed.supplies heap handed :=
          Handed.supplies_congr fun a ha => List.getElem?_append_left (h.there a ha)
        have hplaces := ih hwhole
        rw [hsame] at hplaces
        exact hplaces.cons_value h.there

end Heap

/-- How an edit keeps objects: those that are not listed stay as they are, and what is listed
afterwards was listed before, handed over or made. -/
structure Keeps (heap : Heap) (listed given : List ℕ) (left : Heap) (after : List ℕ) : Prop where
  grown : heap.length ≤ left.length
  frame : ∀ a < heap.length, a ∉ listed → left[a]? = heap[a]?
  own : ∀ a ∈ after, a ∈ listed ∨ a ∈ given ∨ heap.length ≤ a
  whole : left.Whole after

/-- An edit of objects that is by value an edit of a design. -/
inductive Follows (heap : Heap) (listed given : List ℕ) : Redrawn → Edited → Prop where
  | missing : Follows heap listed given .missing .missing
  | done {left : Heap} {o : Outline} {d : Design} (hd : o.seen left = d)
    (h : Keeps heap listed given left o.components) :
    Follows heap listed given (.done left o) (.done d)
  | stopped (f : Fault) {left : Heap} {o : Outline} {d : Design} (hd : o.seen left = d)
    (h : Keeps heap listed given left o.components) :
    Follows heap listed given (.stopped f left o) (.stopped f d)

variable {heap : Heap} {o : Outline} {given : List ℕ} {id : Json}

theorem Keeps.same (h : heap.Whole o.components) :
    Keeps heap o.components given heap o.components :=
  ⟨Nat.le_refl _, fun _ _ _ => rfl, fun _ ha => .inl ha, h⟩

/-- New objects are made, and a design lists them all. -/
theorem Keeps.make (heap : Heap) (cs : List Component) :
    Keeps heap [] [] (heap.make cs).1 (heap.make cs).2 := by
  have hmade : ∀ a ∈ (heap.make cs).2, heap.length ≤ a ∧ a < (heap.make cs).1.length := by
    intro a ha
    change _ ∧ a < (heap ++ cs).length
    rw [List.length_append]
    exact List.mem_range'_1.mp ha
  refine ⟨?_, fun a hlt _ => List.getElem?_append_left hlt,
    fun a ha => .inr (.inr (hmade a ha).1), List.nodup_range', fun a ha => (hmade a ha).2⟩
  change _ ≤ (heap ++ cs).length
  rw [List.length_append]
  omega

theorem Keeps.modify (h : heap.Whole o.components) {a : ℕ} (ha : a ∈ o.components)
    (f : Component → Component) :
    Keeps heap o.components given (heap.modify a f) o.components where
  grown := by simp
  frame b _ hb := Heap.getElem?_modify_of_ne fun heq => hb (heq ▸ ha)
  own _ hb := .inl hb
  whole := ⟨h.nodup, by simpa using h.there⟩

namespace Outline

theorem find?_seen (o : Outline) (heap : Heap) (id : Json) :
    (o.seen heap).find? id = (o.find? heap id).bind (heap[·]?) :=
  Heap.find?_filterMap heap o.components id

theorem seen_modify (h : heap.Whole o.components) {a : ℕ} (ha : o.find? heap id = some a)
    (f : Component → Component) : o.seen (heap.modify a f) = (o.seen heap).mapFirst id f := by
  unfold seen Design.mapFirst
  rw [Heap.filterMap_modify h.nodup ha]

/-- The first component with an id, and its address, or no component and no address. -/
theorem find?_cases (h : heap.Whole o.components) (id : Json) :
    o.find? heap id = none ∧ (o.seen heap).find? id = none ∨
      ∃ a c, o.find? heap id = some a ∧ a ∈ o.components ∧ heap[a]? = some c ∧
        (o.seen heap).find? id = some c := by
  rw [o.find?_seen heap id]
  cases ha : o.find? heap id with
  | none => exact .inl ⟨rfl, rfl⟩
  | some a =>
    have hmem : a ∈ o.components := List.mem_of_find?_eq_some ha
    have hlt : a < heap.length := h.there a hmem
    have hc : heap[a]? = some heap[a] := List.getElem?_eq_getElem hlt
    exact .inr ⟨a, heap[a], rfl, hmem, hc, hc⟩

/-- To change the object that is the first component with an id is to change the component. -/
theorem follows_revise (h : heap.Whole o.components) (id : Json) (f : Component → Component) :
    Follows heap o.components given (o.revise heap id f)
      (match (o.seen heap).find? id with
      | none => .missing
      | some _ => .done ((o.seen heap).mapFirst id f)) := by
  unfold revise
  rcases o.find?_cases h id with ⟨hnone, hmissing⟩ | ⟨a, c, ha, hmem, -, hfound⟩
  · rw [hnone, hmissing]
    exact .missing
  · rw [ha, hfound]
    exact .done (seen_modify h ha f) (.modify h hmem f)

theorem follows_connect (h : heap.Whole o.components) (source target : Json) :
    Follows heap o.components given (o.connect heap source target)
      ((o.seen heap).connect source target) :=
  follows_revise h source (·.connect target)

theorem follows_disconnect (h : heap.Whole o.components) (source target : Json) :
    Follows heap o.components given (o.disconnect heap source target)
      ((o.seen heap).disconnect source target) :=
  follows_revise h source (·.disconnect target)

theorem follows_updateComponent (h : heap.Whole o.components) (id updates : Json) :
    Follows heap o.components given (o.updateComponent heap id updates)
      ((o.seen heap).updateComponent id updates) := by
  unfold updateComponent Design.updateComponent
  rcases o.find?_cases h id with ⟨hnone, hmissing⟩ | ⟨a, c, ha, hmem, hc, hfound⟩
  · rw [hnone, hmissing]
    exact .missing
  · simp only [ha, hfound, hc, Option.bind_some]
    cases (c.updateBy updates).fault with
    | none => exact .done (seen_modify h ha _) (.modify h hmem _)
    | some f => exact .stopped f (seen_modify h ha _) (.modify h hmem _)

/-- The objects that are left are those whose components have another id. -/
theorem filterMap_filter_hasId (heap : Heap) (as : List ℕ) (id : Json) :
    (as.filter fun a => !heap.hasId id a).filterMap (heap[·]?) =
      (as.filterMap (heap[·]?)).filter fun c => !c.id == id := by
  induction as with
  | nil => rfl
  | cons a as ih =>
    cases hc : heap[a]? with
    | none =>
      have hid : heap.hasId id a = false := by simp [Heap.hasId, hc]
      rw [List.filterMap_cons_none hc, List.filter_cons_of_pos (by simp [hid]),
        List.filterMap_cons_none hc, ih]
    | some c =>
      have hid : heap.hasId id a = (c.id == id) := by simp [Heap.hasId, hc]
      rw [List.filterMap_cons_some hc, List.filter_cons, List.filter_cons, hid]
      split
      · rw [List.filterMap_cons_some hc, ih]
      · exact ih

theorem follows_remove (h : heap.Whole o.components) (id : Json) :
    Follows heap o.components given (o.remove heap id) ((o.seen heap).remove id) := by
  unfold remove Design.remove
  have hnodup : (o.components.filter fun a => !heap.hasId id a).Nodup := h.nodup.filter _
  refine .done ?_ ⟨?_, fun a _ ha => ?_, fun a ha => ?_, hnodup, fun a ha => ?_⟩
  · simp only [seen, Design.mk.injEq, true_and]
    rw [← filterMap_filter_hasId, List.map_filterMap]
    refine List.filterMap_congr fun a ha => ?_
    rw [Heap.getElem?_foldl_modify hnodup, if_pos ha]
  · exact Nat.le_of_eq (Heap.length_foldl_modify heap _).symm
  · rw [Heap.getElem?_foldl_modify hnodup, if_neg (mt List.mem_of_mem_filter ha)]
  · exact .inl (List.mem_of_mem_filter ha)
  · rw [Heap.length_foldl_modify]
    exact h.there a (List.mem_of_mem_filter ha)

theorem follows_add (h : heap.Whole o.components) (id : String) (new : Design.NewComponent) :
    Follows heap o.components given (o.add heap id new) ((o.seen heap).add id new) := by
  unfold add Design.add
  cases new.connections.connectionIds with
  | error f => exact .stopped f rfl (.same h)
  | ok connections =>
  cases new.properties.propertyMembers with
  | error f => exact .stopped f rfl (.same h)
  | ok properties =>
    have hsame : ∀ c : Component, o.components.filterMap ((heap ++ [c])[·]?) =
        o.components.filterMap (heap[·]?) := fun c =>
      Heap.filterMap_congr fun a ha => List.getElem?_append_left (h.there a ha)
    refine .done ?_ ⟨by simp, fun a ha _ => List.getElem?_append_left ha, fun a ha => ?_, ?_⟩
    · simp [seen, hsame]
    · rcases List.mem_append.mp ha with hold | hnew
      · exact .inl hold
      · exact .inr (.inr (Nat.le_of_eq (List.mem_singleton.mp hnew).symm))
    · constructor
      · refine List.nodup_append.mpr ⟨h.nodup, List.nodup_singleton _, fun a ha b hb => ?_⟩
        rw [List.mem_singleton.mp hb]
        exact Nat.ne_of_lt (h.there a ha)
      · refine List.forall_mem_append.mpr ⟨fun a ha => ?_, by simp⟩
        have hlt := h.there a ha
        rw [List.length_append]
        omega

/-- Components that are placed take the place of those that were there. -/
theorem follows_refill (h : heap.Whole o.components) (updates : Fields)
    {placed : Except Fault (Heap × List ℕ)} {components : Except Fault (List Component)}
    (hplaces : heap.Places given placed components) :
    Follows heap o.components given (o.refill heap updates placed)
      ((o.seen heap).refill updates components) := by
  cases hplaces with
  | failed f => exact .stopped f rfl (.same h)
  | @placed made as whole own =>
    refine .done rfl ⟨?_, fun a ha _ => List.getElem?_append_left ha, fun a ha => .inr (own a ha),
      whole⟩
    rw [List.length_append]
    omega

theorem follows_updateWith (h : heap.Whole o.components) (updates : Fields) {handed : List Handed}
    (hhanded : heap.Whole (Handed.addresses handed)) :
    Follows heap o.components (Handed.addresses handed) (o.updateWith heap updates handed)
      ((o.seen heap).updateWith updates (Handed.supplies heap handed)) :=
  follows_refill h updates (Heap.places_place hhanded)

/-- Values are placed as new objects. -/
theorem places_items (heap : Heap) (v : Json) :
    heap.Places [] (v.items.bind fun vs => heap.place (vs.map .value))
      (Design.newComponents v) := by
  unfold Design.newComponents
  cases v.items with
  | error f => exact .failed f
  | ok vs =>
    have hnone : Handed.addresses (vs.map .value) = [] := Handed.addresses_map_value vs
    have hwhole : heap.Whole (Handed.addresses (vs.map .value)) := by
      rw [hnone]
      exact ⟨List.nodup_nil, by simp⟩
    have hplaces := Heap.places_place hwhole
    rw [hnone, Handed.supplies_map_value] at hplaces
    have hmade : ((vs.map Component.Supply.value).mapM (·.component)) =
        vs.mapM Component.ofJson := by
      rw [List.mapM_map]
      rfl
    rw [hmade] at hplaces
    exact hplaces

theorem follows_updateBy (h : heap.Whole o.components) (updates : Json) :
    Follows heap o.components [] (o.updateBy heap updates) ((o.seen heap).updateBy updates) := by
  cases updates with
  | object fs =>
    simp only [updateBy, Design.updateBy, Design.update]
    cases Json.field fs "components" with
    | null => exact .done rfl (.same h)
    | _ => exact follows_refill h fs (places_items heap _)
  | _ => exact .stopped _ rfl (.same h)

end Outline

end MoveWorkbench
