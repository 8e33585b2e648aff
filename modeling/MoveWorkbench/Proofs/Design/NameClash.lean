import MoveWorkbench.Proofs.Design.ReadBack
import MoveWorkbench.Proofs.Design.Sound

/-!
Names that clash. A design without problems has components of different names, so the structs of
its module have different names, too. Functions and fields, however, are named in lower case, and
every object has a field `id`. So they clash just where lower case makes two names the same, or
makes `id` of one.
-/

namespace MoveWorkbench

open Json Text

namespace MoveModule

def Item.structName? : Item → Option String
  | object name _ | resource name => some name
  | constructor _ _ _ | entry _ _ => none

def Item.fieldNames : Item → List String
  | object _ fields | constructor _ _ fields => "id" :: fields.map (·.name)
  | resource _ => ["value"]
  | entry _ _ => []

def structNames (m : MoveModule) : List String := m.items.filterMap Item.structName?

/-- No two structs of a module have the same name, no two of its functions, and no two fields that
are listed together. A test stands in a module of its own. -/
structure ClashFree (m : MoveModule) : Prop where
  structs : m.structNames.Nodup
  functions : (m.functionNames false).Nodup
  fields : ∀ i ∈ m.items, i.fieldNames.Nodup

end MoveModule

def DifferInLower (names : List String) : Prop :=
  ∀ s ∈ names, ∀ t ∈ names, lower s = lower t → s = t

instance (names : List String) : Decidable (DifferInLower names) :=
  inferInstanceAs (Decidable (∀ s ∈ names, ∀ t ∈ names, lower s = lower t → s = t))

theorem nodup_map_lower_iff {names : List String} (h : names.Nodup) :
    (names.map lower).Nodup ↔ DifferInLower names := List.nodup_map_iff_inj_on h

namespace Design

def makers (d : Design) : List Component :=
  match d.ofKind (.text "function") with
  | [] => d.ofKind (.text "object")
  | functions => functions

def namesOf (cs : List Component) : List String := cs.map (·.name.display)

def resourceNames (d : Design) (c : Component) : List String :=
  namesOf (d.targetsOfKind c (.text "resource"))

structure KeptApart (d : Design) : Prop where
  functions : DifferInLower (namesOf d.makers)
  resources : ∀ c ∈ d.ofKind (.text "object"), DifferInLower (d.resourceNames c)
  id : ∀ c ∈ d.ofKind (.text "object"), ∀ s ∈ d.resourceNames c, lower s ≠ "id"

instance (d : Design) : Decidable d.KeptApart :=
  decidable_of_iff (DifferInLower (namesOf d.makers) ∧
      (∀ c ∈ d.ofKind (.text "object"), DifferInLower (d.resourceNames c)) ∧
      ∀ c ∈ d.ofKind (.text "object"), ∀ s ∈ d.resourceNames c, lower s ≠ "id")
    ⟨fun h => ⟨h.1, h.2.1, h.2.2⟩, fun h => ⟨h.functions, h.resources, h.id⟩⟩

variable {d : Design} {c : Component}

theorem makers_sublist (d : Design) : d.makers.Sublist d.components := by
  unfold makers
  split
  · exact List.filter_sublist
  · exact List.filter_sublist

/-- The names of a design without problems are different texts. -/
theorem Sound.nodup_namesOf (h : d.Sound) (htext : d.TextNamed) : (namesOf d.components).Nodup := by
  have hdistinct := List.pairwise_map.mp h.distinct
  refine List.pairwise_map.mpr (hdistinct.imp_of_mem fun {c e} hc he hagrees heq => ?_)
  obtain ⟨s, hs⟩ := htext c hc
  obtain ⟨t, ht⟩ := htext e he
  rw [hs, ht] at hagrees heq
  rw [Bool.eq_false_iff, Ne, agrees_text] at hagrees
  exact hagrees (congrArg Json.text heq)

/-- Two components of one name are the same. -/
theorem Sound.eq_of_display_eq (h : d.Sound) (htext : d.TextNamed) {e : Component}
    (hc : c ∈ d.components) (he : e ∈ d.components) (heq : c.name.display = e.name.display) :
    c = e := List.inj_on_of_nodup_map (h.nodup_namesOf htext) hc he heq

/-- The components that a component connects to have different names. -/
theorem Sound.nodup_resourceNames (h : d.Sound) (htext : d.TextNamed) (hc : c ∈ d.components)
    (honce : c.connections.Pairwise fun v w => v.agrees w = false) :
    (d.resourceNames c).Nodup := by
  have hfound {v : Json} {e : Component} (he : d.find? v = some e) :
      e ∈ d.components ∧ e.id.agrees v = true := by
    have hbeq := List.find?_some he
    rw [beq_def, Bool.and_eq_true] at hbeq
    exact ⟨List.mem_of_find?_eq_some he, hbeq.1⟩
  have htargets : (d.targets c).Pairwise fun e e' => e.name.display ≠ e'.name.display := by
    refine List.pairwise_filterMap.mpr (honce.imp_of_mem fun {v v'} hv hv' hne e he e' he' heq => ?_)
    obtain ⟨hmem, hid⟩ := hfound he
    obtain ⟨hmem', hid'⟩ := hfound he'
    obtain rfl := h.eq_of_display_eq htext hmem hmem' heq
    have hatom := h.linked c hc v hv
    have hatom' := h.linked c hc v' hv'
    rw [(h.id e hmem).agrees_iff hatom] at hid
    rw [(h.id e hmem).agrees_iff hatom'] at hid'
    rw [Bool.eq_false_iff, Ne, hatom.agrees_iff hatom'] at hne
    exact hne (hid.symm.trans hid')
  exact (htargets.sublist List.filter_sublist).map _ fun _ _ hne => hne

theorem Sound.nodup_namesOf_sublist (h : d.Sound) (htext : d.TextNamed) {cs : List Component}
    (hcs : cs.Sublist d.components) : (namesOf cs).Nodup :=
  (h.nodup_namesOf htext).sublist (hcs.map _)

theorem structNames_moduleOf (d : Design) (name : String) : (d.moduleOf name).structNames =
    namesOf (d.ofKind (.text "object")) ++ namesOf (d.ofKind (.text "resource")) := by
  have hitems : d.itemsOf.filterMap MoveModule.Item.structName? = [] := by
    unfold itemsOf
    split
    · rw [List.filterMap_map, List.filterMap_eq_nil_iff]
      exact fun _ _ => rfl
    · rw [List.filterMap_map, List.filterMap_eq_nil_iff]
      exact fun _ _ => rfl
  unfold MoveModule.structNames moduleOf
  rw [List.filterMap_append, List.filterMap_append, hitems, List.append_nil, List.filterMap_map,
    List.filterMap_map]
  exact congrArg₂ (· ++ ·) (congrFun List.filterMap_eq_map _) (congrFun List.filterMap_eq_map _)

/-- Structs have the names of different components. -/
theorem Sound.nodup_structNames (h : d.Sound) (htext : d.TextNamed) (name : String) :
    (d.moduleOf name).structNames.Nodup := by
  rw [structNames_moduleOf]
  refine List.nodup_append.mpr ⟨h.nodup_namesOf_sublist htext List.filter_sublist,
    h.nodup_namesOf_sublist htext List.filter_sublist, fun s hs t ht heq => ?_⟩
  obtain ⟨c, hc, rfl⟩ := List.mem_map.mp hs
  obtain ⟨e, he, rfl⟩ := List.mem_map.mp ht
  obtain ⟨hc, hobject⟩ := List.mem_filter.mp hc
  obtain ⟨he, hresource⟩ := List.mem_filter.mp he
  -- one component would have two kinds
  obtain rfl := h.eq_of_display_eq htext hc he heq
  rw [beq_text] at hobject hresource
  rw [hobject] at hresource
  injection hresource with hkind
  exact absurd hkind (by decide)

/-- Functions have different names just where their components differ in lower case. -/
theorem Sound.nodup_functionNames_iff (h : d.Sound) (htext : d.TextNamed) :
    d.functionNames.Nodup ↔ DifferInLower (namesOf d.makers) := by
  rw [← nodup_map_lower_iff (h.nodup_namesOf_sublist htext d.makers_sublist)]
  unfold functionNames makers namesOf
  cases d.ofKind (.text "function") with
  | nil =>
    have hprefix : Function.Injective ("create_" ++ ·) := fun s t heq =>
      (String.append_right_inj "create_").mp heq
    have hcreated : ((d.ofKind (.text "object")).map fun c => "create_" ++ lower c.name.display) =
        (((d.ofKind (.text "object")).map (·.name.display)).map lower).map ("create_" ++ ·) := by
      rw [List.map_map, List.map_map]
      rfl
    dsimp only
    rw [hcreated]
    exact List.nodup_map_iff hprefix
  | cons f fs =>
    rw [List.map_map]
    rfl

theorem fieldNames_fieldsOf (d : Design) (c : Component) :
    (d.fieldsOf c).map (·.name) = (d.resourceNames c).map lower := by
  unfold fieldsOf resourceNames namesOf
  rw [List.map_map, List.map_map]
  rfl

/-- The fields of an object have different names just where those of its resources differ in
lower case, and none of them is then `id`. -/
theorem Sound.nodup_fieldNames_iff (h : d.Sound) (htext : d.TextNamed) (hc : c ∈ d.components)
    (honce : c.connections.Pairwise fun v w => v.agrees w = false) :
    ("id" :: (d.fieldsOf c).map (·.name)).Nodup ↔
      DifferInLower (d.resourceNames c) ∧ ∀ s ∈ d.resourceNames c, lower s ≠ "id" := by
  rw [List.nodup_cons, fieldNames_fieldsOf,
    nodup_map_lower_iff (h.nodup_resourceNames htext hc honce), and_comm]
  simp

/-- All items list different fields when the objects do. -/
theorem forall_fieldNames_moduleOf {P : List String → Prop} (hvalue : P ["value"]) (hnil : P [])
    (d : Design) (name : String) :
    (∀ i ∈ (d.moduleOf name).items, P i.fieldNames) ↔
      ∀ c ∈ d.ofKind (.text "object"), P ("id" :: (d.fieldsOf c).map (·.name)) := by
  constructor
  · intro hall c hc
    exact hall (.object c.name.display (d.fieldsOf c))
      (List.mem_append_left _ (List.mem_append_left _ (List.mem_map_of_mem hc)))
  · intro hall
    refine List.forall_mem_append.mpr ⟨List.forall_mem_append.mpr ⟨?_, ?_⟩, ?_⟩
    · intro i hi
      obtain ⟨c, hc, rfl⟩ := List.mem_map.mp hi
      exact hall c hc
    · intro i hi
      obtain ⟨r, -, rfl⟩ := List.mem_map.mp hi
      exact hvalue
    · intro i hi
      unfold itemsOf at hi
      split at hi
      · obtain ⟨c, hc, rfl⟩ := List.mem_map.mp hi
        exact hall c hc
      · obtain ⟨c, -, rfl⟩ := List.mem_map.mp hi
        exact hnil

/-- The module of a design without problems has no clashes just where names are kept apart. -/
theorem Sound.clashFree_iff (h : d.Sound) (htext : d.TextNamed)
    (honce : ∀ c ∈ d.components, c.connections.Pairwise fun v w => v.agrees w = false)
    (name : String) : (d.moduleOf name).ClashFree ↔ d.KeptApart := by
  have hfunctions : ((d.moduleOf name).functionNames false).Nodup ↔
      DifferInLower (namesOf d.makers) := by
    rw [functionNames_moduleOf, ← h.nodup_functionNames_iff htext]
    simp
  have hfields : (∀ i ∈ (d.moduleOf name).items, i.fieldNames.Nodup) ↔
      ∀ c ∈ d.ofKind (.text "object"),
        DifferInLower (d.resourceNames c) ∧ ∀ s ∈ d.resourceNames c, lower s ≠ "id" := by
    rw [forall_fieldNames_moduleOf (by decide) List.nodup_nil]
    refine forall₂_congr fun c hc => ?_
    have hmem := List.mem_of_mem_filter hc
    exact h.nodup_fieldNames_iff htext hmem (honce c hmem)
  constructor
  · intro hfree
    have hall := hfields.mp hfree.fields
    exact ⟨hfunctions.mp hfree.functions, fun c hc => (hall c hc).1, fun c hc => (hall c hc).2⟩
  · intro hapart
    exact ⟨h.nodup_structNames htext name, hfunctions.mpr hapart.functions,
      hfields.mpr fun c hc => ⟨hapart.resources c hc, hapart.id c hc⟩⟩

end Design

end MoveWorkbench
