import MoveWorkbench.Proofs.Design.Cycles
import MoveWorkbench.Proofs.Design.DiagramEdges
import MoveWorkbench.Proofs.Design.Repeated
import MoveWorkbench.Proofs.Workspace.Atomic

/-!
What a validation tells. Of a design whose names are texts it tells the names that come again, the
connections to ids that no component has, and whether there is a cycle, in this order and nothing
else. It does so just when ids and connections are values without parts: these are looked up among
others, and an update of a design takes over ids of any kind.
-/

namespace MoveWorkbench

open Json

namespace Design

/-- An id leads to what the first component that has it connects to. -/
def Leads (d : Design) (a b : Key) : Prop :=
  ∃ c, d.components.find? (·.id.nodeKey = a) = some c ∧ b ∈ c.connections.map nodeKey

def Circular (d : Design) : Prop := ∃ a, Relation.TransGen d.Leads a a

structure Keyed (d : Design) : Prop where
  id : ∀ c ∈ d.components, c.id.IsAtom
  linked : d.Linked

/-- Names differ, each connection is to the id of a component, and there is no cycle. -/
structure Valid (d : Design) : Prop where
  distinct : (d.components.map (·.name)).Nodup
  known : ∀ c ∈ d.components, ∀ v ∈ c.connections, ∃ e ∈ d.components, e.id.agrees v = true
  acyclic : ¬ d.Circular

/-- The problems of a design whose names are texts: the names that come again, if there are any;
the connections to ids that no component has, component by component; and a cycle, if there is
one. -/
structure Told (d : Design) (names shared : List String) (cycle : Bool) (ps : List Problem) :
    Prop where
  lists : ListsRepeated names shared
  circular : cycle = true ↔ d.Circular
  problems : ps = (if shared = [] then [] else [.duplicateNames shared]) ++
    (d.links.filter fun e => !d.components.any (·.id.agrees e.2)).map
      (fun e => .unknownTarget e.1.name e.2) ++
    (if cycle then [.circular] else [])

variable {d : Design} {names shared : List String} {cycle : Bool} {ps : List Problem}

/-- Names that are texts are shown as they are. -/
theorem map_name_of_texts (h : ∀ c ∈ d.components, c.name.IsText) :
    d.components.map (·.name) = (d.components.map (·.name.display)).map .text := by
  rw [List.map_map]
  refine List.map_congr_left fun c hc => ?_
  obtain ⟨s, hs⟩ := h c hc
  rw [Function.comp_apply, hs, display_text]

theorem forall_mem_links {P : Component × Json → Prop} :
    (∀ e ∈ d.links, P e) ↔ ∀ c ∈ d.components, ∀ v ∈ c.connections, P (c, v) := by
  simp only [links, List.forall_mem_flatMap, List.forall_mem_map]

theorem hasCycle_nodes_iff : d.nodes.hasCycle = true ↔ d.Circular := by
  have hedges : d.nodes.Edge = d.Leads := funext₂ fun _ _ => propext Graph.edge_map_iff
  rw [Graph.hasCycle_iff]
  exact exists_congr fun a => by rw [Graph.path_iff_transGen, hedges]

/-- The connections that are not known are those to ids that no component has. -/
theorem Keyed.dangling_eq (h : d.Keyed) : d.dangling (Ordered.keys d.nodes) =
    (d.links.filter fun e => !d.components.any (·.id.agrees e.2)).map fun e =>
      .unknownTarget e.1.name e.2 := by
  have hknown : ∀ e ∈ d.links, (!(Ordered.keys d.nodes).any e.2.hasKey) =
      !d.components.any (·.id.agrees e.2) := by
    rw [forall_mem_links]
    intro c hc v hv
    rw [Bool.eq_iff_iff.mpr ((any_hasKey_iff h.id (h.linked c hc v hv)).trans
      List.any_eq_true.symm)]
  rw [dangling_eq_map_filter, List.filter_congr hknown]

/-- The problems can be told just when ids and connections can be looked up. -/
theorem exists_problems_iff_keyed (hnames : d.components.map (·.name) = names.map .text) :
    (∃ ps, d.problems = .ok ps) ↔ d.Keyed := by
  have htexts : ∀ c ∈ d.components, c.name.IsText := by
    intro c hc
    have hname : c.name ∈ names.map .text := hnames ▸ List.mem_map_of_mem hc
    obtain ⟨s, -, hs⟩ := List.mem_map.mp hname
    exact ⟨s, hs.symm⟩
  rw [exists_problems_iff]
  constructor
  · rintro ⟨hlabelled, hlinked⟩
    exact ⟨hlabelled.id, hlinked⟩
  · intro h
    exact ⟨labelled_of_text_names h.id htexts, h.linked⟩

theorem Keyed.exists_told (h : d.Keyed) (hnames : d.components.map (·.name) = names.map .text) :
    ∃ shared cycle ps, d.problems = .ok ps ∧ d.Told names shared cycle ps := by
  obtain ⟨shared, hshared, hlists⟩ := exists_sharedNames_of_texts hnames
  have hgraph := graph_eq_ok fun c hc => ⟨h.id c hc, h.linked c hc⟩
  refine ⟨shared, d.nodes.hasCycle, _, Partial.bind_eq_ok.mpr ⟨shared, hshared,
    Partial.bind_eq_ok.mpr ⟨d.nodes, hgraph, rfl⟩⟩, hlists, hasCycle_nodes_iff, ?_⟩
  rw [← h.dangling_eq]
  rfl

/-- Nothing is told just of valid designs. -/
theorem Told.eq_nil_iff (h : d.Told names shared cycle ps)
    (hnames : d.components.map (·.name) = names.map .text) : ps = [] ↔ d.Valid := by
  have hshared : (if shared = [] then [] else [Problem.duplicateNames shared]) = [] ↔
      (d.components.map (·.name)).Nodup := by
    have hinjective : Function.Injective Json.text := fun _ _ heq => Json.text.inj heq
    rw [hnames, List.nodup_map_iff hinjective, ← h.lists.eq_nil_iff]
    by_cases hnil : shared = [] <;> simp [hnil]
  have hunknown : (d.links.filter fun e => !d.components.any (·.id.agrees e.2)) = [] ↔
      ∀ c ∈ d.components, ∀ v ∈ c.connections, ∃ e ∈ d.components, e.id.agrees v = true := by
    rw [List.filter_eq_nil_iff, forall_mem_links]
    simp only [Bool.not_eq_true', Bool.not_eq_false, List.any_eq_true]
  have hcycle : (if cycle then [Problem.circular] else []) = [] ↔ ¬ d.Circular := by
    rw [← h.circular]
    cases cycle <;> simp
  rw [h.problems, List.append_eq_nil_iff, List.append_eq_nil_iff, List.map_eq_nil_iff, hshared,
    hunknown, hcycle]
  constructor
  · rintro ⟨⟨hdistinct, hknown⟩, hacyclic⟩
    exact ⟨hdistinct, hknown, hacyclic⟩
  · intro hvalid
    exact ⟨⟨hvalid.distinct, hvalid.known⟩, hvalid.acyclic⟩

end Design

namespace Workspace

variable {w : Workspace} {id : Atom} {r : StoredDesign} {names : List String}

def bankHolding (parts : List (Json × String × List Json)) : Workspace :=
  (bankWorkspace.perform (.updateDesign (.text "design-0-000000000") (.object [("components",
    .list (parts.map fun p =>
      .object [("id", p.1), ("name", .text p.2.1), ("connections", .list p.2.2)]))]))).2

theorem reached_bankHolding (parts : List (Json × String × List Json)) :
    Reached (fun _ => True) (bankHolding parts) := .call reached_bankWorkspace trivial

def vaultsAndCoin : Workspace := bankHolding [
  (.text "a", "Vault", [.text "b", .text "x"]), (.text "b", "Coin", [.text "a"]),
  (.text "c", "Vault", [])]

end Workspace

end MoveWorkbench
