import MoveWorkbench.Proofs.Design.Edit
import MoveWorkbench.Proofs.Design.Problems
import MoveWorkbench.Proofs.Graph.Search

/-!
Designs without problems. Their names all differ, their connections lead to components, and
going along connections never comes back. A removal takes ids away from the components and
from the connections together, so it leaves no connection without a target, and it adds
neither names nor connections.
-/

namespace MoveWorkbench

namespace Json

def nodeKey (v : Json) : Key := (v.atom?.map (·.key)).getD .null

@[simp] theorem nodeKey_toJson (a : Atom) : a.toJson.nodeKey = a.key := by simp [nodeKey]

theorem IsAtom.key_eq {v : Json} (h : v.IsAtom) : v.key = .ok v.nodeKey := by
  obtain ⟨a, rfl⟩ := h
  rw [nodeKey_toJson]
  exact Partial.map_eq_ok.mpr ⟨a, atom_eq_ok.mpr rfl, rfl⟩

theorem IsAtom.agrees_iff {v w : Json} (hv : v.IsAtom) (hw : w.IsAtom) :
    v.agrees w = true ↔ v.nodeKey = w.nodeKey := by
  obtain ⟨a, rfl⟩ := hv
  obtain ⟨b, rfl⟩ := hw
  rw [nodeKey_toJson, nodeKey_toJson, agrees_toJson]

theorem hasKey_iff {v : Json} (hv : v.IsAtom) {k : Key} : v.hasKey k = true ↔ v.nodeKey = k := by
  obtain ⟨a, rfl⟩ := hv
  simp [hasKey]

/-- Whether an atom is equal to a value depends on its key alone. -/
theorem exists_keyTest (v : Json) :
    ∃ p : Key → Bool, ∀ w : Json, w.IsAtom → (w == v) = p w.nodeKey := by
  refine ⟨fun k => v.atom?.any (k = ·.key) && k ≠ .number .nan, ?_⟩
  rintro _ ⟨a, rfl⟩
  have hnan : isNan a.toJson = decide (a.key = .number .nan) := by
    cases a with
    | float x => cases x <;> rfl
    | _ => simp [isNan, Atom.toJson, Atom.key]
  have hagrees : a.toJson.agrees v = v.atom?.any (a.key = ·.key) := by
    cases hv : v.atom? with
    | none => cases a <;> cases v <;> simp_all [agrees, Atom.toJson, atom?]
    | some b =>
      have hb : v = b.toJson := atom_eq_ok.mp (by simp [atom, hv])
      rw [Bool.eq_iff_iff, hb, agrees_toJson]
      simp
  rw [nodeKey_toJson, beq_def, hnan, hagrees]
  simp

end Json

open Json

def Component.node (c : Component) : Key × List Key :=
  (c.id.nodeKey, c.connections.map nodeKey)

namespace Design

def nodes (d : Design) : Graph Key := d.components.map (·.node)

variable {d d' : Design}

theorem graph_eq_ok (h : ∀ c ∈ d.components, c.id.IsAtom ∧ ∀ v ∈ c.connections, v.IsAtom) :
    d.graph = .ok d.nodes := by
  unfold graph nodes
  rw [Partial.mapM_eq_ok, List.forall₂_map_right_iff, List.forall₂_same]
  intro c hc
  obtain ⟨hid, hlinked⟩ := h c hc
  have hkeys : c.connections.mapM Json.key = .ok (c.connections.map nodeKey) := by
    rw [Partial.mapM_eq_ok, List.forall₂_map_right_iff, List.forall₂_same]
    exact fun v hv => (hlinked v hv).key_eq
  exact Partial.bind_eq_ok.mpr ⟨_, hid.key_eq, Partial.bind_eq_ok.mpr ⟨_, hkeys, rfl⟩⟩

/-- A design has no problems: names differ, connections have targets, and there is no cycle. -/
structure Sound (d : Design) : Prop where
  id : ∀ c ∈ d.components, c.id.IsAtom
  name : ∀ c ∈ d.components, c.name.IsAtom
  linked : d.Linked
  distinct : (d.components.map (·.name)).Pairwise fun v w => v.agrees w = false
  known : ∀ c ∈ d.components, ∀ v ∈ c.connections, ∃ e ∈ d.components, e.id.agrees v = true
  acyclic : ¬ d.nodes.Cyclic

theorem repeated_eq_nil_iff {as : List Atom} :
    repeated as = [] ↔ as.Pairwise fun a b => a.key ≠ b.key := by
  rw [List.eq_nil_iff_forall_not_mem]
  exact forall_mem_repeated fun _ => False

/-- No name is shared just when all names differ. -/
theorem sharedNames_eq_nil_iff : d.sharedNames = .ok [] ↔
    (∀ c ∈ d.components, c.name.IsAtom) ∧
      (d.components.map (·.name)).Pairwise fun v w => v.agrees w = false := by
  have hnames {as : List Atom} (has : d.components.map (·.name) = as.map (·.toJson)) :
      repeated as = [] ↔ (d.components.map (·.name)).Pairwise fun v w => v.agrees w = false := by
    rw [repeated_eq_nil_iff, has, List.pairwise_map]
    simp only [ne_eq, ← agrees_toJson, Bool.not_eq_true]
  constructor
  · intro h
    have hatoms := (exists_sharedNames_iff.mp ⟨[], h⟩).1
    obtain ⟨as, has, hjoined⟩ := Partial.bind_eq_ok.mp h
    have hrepeated : repeated as = [] :=
      List.forall₂_nil_right_iff.mp (Partial.mapM_eq_ok.mp hjoined)
    exact ⟨hatoms, (hnames (mapM_names_eq_ok.mp has)).mp hrepeated⟩
  · intro h
    obtain ⟨hatoms, hdistinct⟩ := h
    obtain ⟨as, has⟩ := Partial.exists_mapM_eq_ok.mpr fun c hc => exists_atom_iff.mpr (hatoms c hc)
    have hrepeated := (hnames (mapM_names_eq_ok.mp has)).mpr hdistinct
    exact Partial.bind_eq_ok.mpr ⟨as, has, by rw [hrepeated]; rfl⟩

theorem dangling_eq_nil_iff {ids : List Key} :
    d.dangling ids = [] ↔ ∀ c ∈ d.components, ∀ v ∈ c.connections, ids.any v.hasKey = true := by
  simp [dangling, List.flatMap_eq_nil_iff, List.filter_eq_nil_iff]

/-- All connections are to ids of components. -/
theorem any_hasKey_iff (hid : ∀ c ∈ d.components, c.id.IsAtom) {v : Json} (hv : v.IsAtom) :
    (Ordered.keys d.nodes).any v.hasKey = true ↔ ∃ e ∈ d.components, e.id.agrees v = true := by
  have hkeys : Ordered.keys d.nodes = d.components.map (·.id.nodeKey) := by
    simp [Ordered.keys, nodes, Component.node]
  rw [hkeys, List.any_map, List.any_eq_true]
  refine exists_congr fun e => and_congr_right fun he => ?_
  rw [Function.comp_apply, hasKey_iff hv, (hid e he).agrees_iff hv]
  exact eq_comm

/-- A validation finds no problems just in sound designs. -/
theorem problems_eq_nil_iff : d.problems = .ok [] ↔ d.Sound := by
  constructor
  · intro h
    obtain ⟨hlabelled, hlinked⟩ := exists_problems_iff.mp ⟨[], h⟩
    obtain ⟨shared, hshared, hrest⟩ := Partial.bind_eq_ok.mp h
    obtain ⟨graph, hgraph, hproblems⟩ := Partial.bind_eq_ok.mp hrest
    rw [graph_eq_ok fun c hc => ⟨hlabelled.id c hc, hlinked c hc⟩] at hgraph
    injection hgraph with hgraph
    injection hproblems with hproblems
    subst hgraph
    simp only [List.append_eq_nil_iff] at hproblems
    obtain ⟨⟨hnames, hdangling⟩, hcycle⟩ := hproblems
    have hnil : shared = [] := by
      by_contra hne
      rw [if_neg hne] at hnames
      cases hnames
    refine ⟨hlabelled.id, hlabelled.name, hlinked, ?_, ?_, ?_⟩
    · exact (sharedNames_eq_nil_iff.mp (hnil ▸ hshared)).2
    · intro c hc v hv
      exact (any_hasKey_iff hlabelled.id (hlinked c hc v hv)).mp
        (dangling_eq_nil_iff.mp hdangling c hc v hv)
    · intro hcyclic
      rw [if_pos (Graph.hasCycle_iff.mpr hcyclic)] at hcycle
      cases hcycle
  · intro h
    have hgraph := graph_eq_ok fun c hc => ⟨h.id c hc, h.linked c hc⟩
    have hshared := sharedNames_eq_nil_iff.mpr ⟨h.name, h.distinct⟩
    have hdangling : d.dangling (Ordered.keys d.nodes) = [] :=
      dangling_eq_nil_iff.mpr fun c hc v hv =>
        (any_hasKey_iff h.id (h.linked c hc v hv)).mpr (h.known c hc v hv)
    have hcycle : ¬ d.nodes.hasCycle = true := fun hcyclic =>
      h.acyclic (Graph.hasCycle_iff.mp hcyclic)
    refine Partial.bind_eq_ok.mpr ⟨[], hshared, Partial.bind_eq_ok.mpr ⟨d.nodes, hgraph, ?_⟩⟩
    rw [if_pos rfl, if_neg hcycle, show d.nodes.map (·.1) = Ordered.keys d.nodes from rfl,
      hdangling]
    rfl

/-- A test that only designs without problems pass, of which no component connects to one that is
connected further. -/
def passesFlat (d : Design) : Bool :=
  d.components.all (fun c => c.id.atom?.isSome && c.name.atom?.isSome &&
    c.connections.all fun v => v.atom?.isSome && d.components.any (·.id.agrees v)) &&
  (d.components.map (·.name)).Pairwise (fun v w => v.agrees w = false) && d.nodes.Flat

theorem sound_of_passesFlat (h : d.passesFlat = true) : d.Sound := by
  simp only [passesFlat, Bool.and_eq_true, List.all_eq_true, List.any_eq_true,
    decide_eq_true_eq] at h
  obtain ⟨⟨hcomponents, hdistinct⟩, hflat⟩ := h
  exact ⟨fun c hc => isAtom_iff.mpr (hcomponents c hc).1.1,
    fun c hc => isAtom_iff.mpr (hcomponents c hc).1.2,
    fun c hc v hv => isAtom_iff.mpr ((hcomponents c hc).2 v hv).1, hdistinct,
    fun c hc v hv => ((hcomponents c hc).2 v hv).2, hflat.not_cyclic⟩

/-! What removals leave. -/

/-- A component that has lost nothing but connections. -/
structure Trimmed (c c' : Component) : Prop where
  id : c'.id = c.id
  name : c'.name = c.name
  connections : c'.connections ⊆ c.connections

theorem trimmed_disconnect (c : Component) (id : Json) : Trimmed c (c.disconnect id) :=
  ⟨rfl, rfl, fun _ hv => List.mem_of_mem_filter hv⟩

/-- A sound design stays sound when components are left out by their keys and connections
are left out too, among them all those to the components that are left out. -/
theorem Sound.of_trimmed (h : d.Sound) (keep : Key → Bool)
    (htrimmed : List.Forall₂ Trimmed (d.components.filter fun c => keep c.id.nodeKey) d'.components)
    (hkeep : ∀ c ∈ d'.components, ∀ v ∈ c.connections, keep v.nodeKey = true) : d'.Sound := by
  have hold : ∀ c' ∈ d'.components, ∃ c ∈ d.components, Trimmed c c' := by
    intro c' hc'
    obtain ⟨c, hc, htrim⟩ := Partial.exists_of_mem_forall₂ htrimmed hc'
    exact ⟨c, List.mem_of_mem_filter hc, htrim⟩
  have hid : ∀ c ∈ d'.components, c.id.IsAtom := by
    intro c' hc'
    obtain ⟨c, hc, htrim⟩ := hold c' hc'
    exact htrim.id ▸ h.id c hc
  have hlinked : d'.Linked := by
    intro c' hc' v hv
    obtain ⟨c, hc, htrim⟩ := hold c' hc'
    exact h.linked c hc v (htrim.connections hv)
  refine ⟨hid, ?_, hlinked, ?_, ?_, ?_⟩
  · intro c' hc'
    obtain ⟨c, hc, htrim⟩ := hold c' hc'
    exact htrim.name ▸ h.name c hc
  · have hnames : d'.components.map (·.name) =
        (d.components.filter fun c => keep c.id.nodeKey).map (·.name) := by
      rw [← List.forall₂_eq_eq_eq, List.forall₂_map_left_iff, List.forall₂_map_right_iff]
      exact (htrimmed.imp fun _ _ htrim => htrim.name).flip
    rw [hnames]
    exact h.distinct.sublist (List.filter_sublist.map _)
  · intro c' hc' v hv
    obtain ⟨c, hc, htrim⟩ := hold c' hc'
    obtain ⟨e, he, hagrees⟩ := h.known c hc v (htrim.connections hv)
    have hkey : e.id.nodeKey = v.nodeKey :=
      ((h.id e he).agrees_iff (hlinked c' hc' v hv)).mp hagrees
    have hkept : e ∈ d.components.filter fun c => keep c.id.nodeKey :=
      List.mem_filter.mpr ⟨he, by rw [hkey]; exact hkeep c' hc' v hv⟩
    obtain ⟨e', he', htrim'⟩ := Partial.exists_of_mem_forall₂ htrimmed.flip hkept
    exact ⟨e', he', by rw [htrim'.id]; exact hagrees⟩
  · refine fun hcyclic => h.acyclic (hcyclic.mono fun a b hedge => ?_)
    have hkept : Graph.Edge ((d.components.filter fun c => keep c.id.nodeKey).map (·.node)) a b := by
      refine Graph.Edge.of_forall₂ ?_ hedge
      unfold nodes
      rw [List.forall₂_map_left_iff, List.forall₂_map_right_iff]
      refine htrimmed.imp fun c c' htrim => ⟨by simp [Component.node, htrim.id], ?_⟩
      exact List.map_subset _ htrim.connections
    refine Graph.Edge.of_filter (p := keep) ?_
    rwa [nodes, List.filter_map]

def without (d : Design) (id : Json) : Design :=
  { d with components := (d.components.filter fun c => !c.id == id).map (·.disconnect id) }

theorem Sound.without (h : d.Sound) (id : Json) : (d.without id).Sound := by
  obtain ⟨p, hp⟩ := exists_keyTest id
  have hfilter : (d.components.filter fun c => !c.id == id) =
      d.components.filter fun c => !p c.id.nodeKey :=
    List.filter_congr fun c hc => by rw [hp c.id (h.id c hc)]
  refine h.of_trimmed (fun k => !p k) ?_ ?_
  · rw [Design.without, hfilter, List.forall₂_map_right_iff]
    exact List.forall₂_same.mpr fun c _ => trimmed_disconnect c id
  · intro c hc v hv
    obtain ⟨e, he, rfl⟩ := List.mem_map.mp hc
    obtain ⟨hv, hne⟩ := List.mem_filter.mp hv
    have hatom := h.linked e (List.mem_of_mem_filter he) v hv
    rwa [hp v hatom] at hne

theorem Sound.mapFirst_disconnect (h : d.Sound) (source target : Json) :
    (d.mapFirst source (·.disconnect target)).Sound := by
  refine h.of_trimmed (fun _ => true) ?_ fun _ _ _ _ => rfl
  rw [List.filter_true]
  exact forall₂_modifyFirst (fun c => ⟨rfl, rfl, fun _ hv => hv⟩)
    (fun c => trimmed_disconnect c target) source d.components

end Design

end MoveWorkbench
