import MoveWorkbench.Http.Server
import MoveWorkbench.Proofs.Text.Lines

/-!
Paths that lead to routes. A path in which no part has a slash is taken apart into just
these parts, so the path of a lookup leads to where it is looked up; and the ids in a path have
no slashes.
-/

namespace MoveWorkbench

namespace Http

namespace Route

def ids : Route → List String
  | analysis id | analysisReport id | design id | components id | connections id | moveCode id
  | mermaid id | plantUml id | validation id | document id => [id]
  | component id c => [id, c]
  | _ => []

/-- A path of parts without slashes leads where its parts lead. -/
theorem ofPath?_of_parts {path first : String} {rest : List String} {route : Route}
    (hpath : path.toList = ['/'].intercalate ((first :: rest).map String.toList))
    (hslash : ∀ p ∈ first :: rest, '/' ∉ p.toList) (hroute : ofParts? (first :: rest) = some route) :
    ofPath? path = some route := by
  have hparts : parts path.toList = first :: rest := by
    unfold parts
    rw [hpath, List.map_cons, Text.split_intercalate_of_not_mem]
    · simp [Function.comp_def]
    · rw [← List.map_cons, List.forall_mem_map]
      exact hslash
  unfold ofPath?
  rw [hparts, hroute]

theorem isSegment_of_ofParts? {parts : List String} (hparts : ∀ p ∈ parts, '/' ∉ p.toList)
    {route : Route} (h : ofParts? parts = some route) : ∀ id ∈ route.ids, IsSegment id := by
  have hsegment {id : String} (hmem : id ∈ parts) (hne : id ≠ "") : IsSegment id :=
    ⟨hne, hparts id hmem⟩
  unfold ofParts? at h
  -- every route with an id is guarded by a test that the id is not empty
  split at h <;> (try split_ifs at h) <;> cases h <;>
    simp_all [ids]

theorem isSegment_of_ofPath? {path : String} {route : Route} (h : ofPath? path = some route) :
    ∀ id ∈ route.ids, IsSegment id := by
  have hslash (cs : List Char) : ∀ p ∈ parts cs, '/' ∉ p.toList := by
    intro p hp
    obtain ⟨part, hpart, rfl⟩ := List.mem_map.mp hp
    rw [String.toList_ofList]
    exact Text.not_mem_of_mem_split hpart
  unfold ofPath? at h
  split at h
  · rename_i heq
    cases h
    exact isSegment_of_ofParts? (hslash _) heq
  · exact isSegment_of_ofParts? (hslash _) h

end Route

namespace Lookup

def route : Lookup → Route
  | health => .health
  | analysis id => .analysis id
  | report id => .analysisReport id
  | design id => .design id
  | mermaid id => .mermaid id
  | plantUml id => .plantUml id
  | validation id => .validation id
  | document id => .document id

def parts : Lookup → List String
  | health => ["api", "health"]
  | analysis id => ["api", "gas", "analysis", id]
  | report id => ["api", "gas", "analysis", id, "report"]
  | design id => ["api", "designer", "design", id]
  | mermaid id => ["api", "designer", "design", id, "mermaid"]
  | plantUml id => ["api", "designer", "design", id, "plantuml"]
  | validation id => ["api", "designer", "design", id, "validate"]
  | document id => ["api", "designer", "design", id, "export"]

theorem path_eq_intercalate (l : Lookup) :
    l.path.toList = ['/'].intercalate (("" :: l.parts).map String.toList) := by
  cases l with
  | health => rfl
  | _ =>
    unfold path parts
    simp

theorem ofParts?_parts {l : Lookup} (h : ∀ id ∈ l.id?, IsSegment id) :
    Route.ofParts? ("" :: l.parts) = some l.route := by
  cases l with
  | health => rfl
  | _ => exact if_neg (h _ rfl).nonempty

theorem ofPath?_path {l : Lookup} (h : ∀ id ∈ l.id?, IsSegment id) :
    Route.ofPath? l.path = some l.route := by
  refine Route.ofPath?_of_parts l.path_eq_intercalate ?_ (ofParts?_parts h)
  cases l with
  | health => decide
  | _ => simp [parts, (h _ rfl).noSlash]

end Lookup

end Http

end MoveWorkbench
