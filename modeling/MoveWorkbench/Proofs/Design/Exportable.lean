import MoveWorkbench.Design.Document
import MoveWorkbench.Proofs.Json.Legible

/-!
Designs that survive an export. Their components have texts for id, kind and name, numbers
for coordinates, different texts for connections, and properties that are the fields of a
legible object. Values of these types are converted to such parts without a fault.
-/

namespace MoveWorkbench

namespace Json

def IsText (v : Json) : Prop := ∃ s, v = text s

inductive IsNumber : Json → Prop where
  | int {n : ℤ} (h : IsShort n) : IsNumber (int n)
  | float (x : Binary64) : IsNumber (float x)

def IsTextList (v : Json) : Prop := ∃ ss : List String, v = list (ss.map text)

def IsBag (v : Json) : Prop := ∃ fs, v = object fs ∧ Legible v

def OrNull (P : Json → Prop) (v : Json) : Prop := v = null ∨ P v

theorem IsText.legible {v : Json} (h : IsText v) : Legible v := by
  obtain ⟨s, rfl⟩ := h
  exact .text s

theorem IsNumber.legible {v : Json} (h : IsNumber v) : Legible v := by
  cases h with
  | int h => exact .int h
  | float x => exact .float x

theorem legible_texts (ss : List String) : Legible (list (ss.map text)) := by
  refine .list fun v hv => ?_
  obtain ⟨s, -, rfl⟩ := List.mem_map.mp hv
  exact .text s

end Json

namespace Component

/-- The parts of a component survive an export. -/
structure Exportable (c : Component) : Prop where
  id : c.id.IsText
  kind : c.kind.IsText
  name : c.name.IsText
  x : c.x.IsNumber
  y : c.y.IsNumber
  connections : ∃ ss : List String, ss.Nodup ∧ c.connections = ss.map .text
  properties : ∃ fs : Fields, Json.Legible (.object fs) ∧
    c.properties = fs.map fun f => (.text f.1, f.2)

end Component

structure Design.Exportable (d : Design) : Prop where
  name : d.name.Legible
  description : d.description.Legible
  components : ∀ c ∈ d.components, c.Exportable

/-! Conversions of connections and properties. -/

namespace Json

theorem orElse_list (vs : List Json) : (list vs).orElse (list []) = list vs := by
  cases vs <;> rfl

theorem mapM_atom_toJson (as : List Atom) : (as.map (·.toJson)).mapM Json.atom = .ok as := by
  rw [Partial.mapM_eq_ok, List.forall₂_map_left_iff, List.forall₂_same]
  intro a _
  cases a <;> rfl

theorem mapM_atom_texts (ss : List String) :
    (ss.map text).mapM Json.atom = .ok (ss.map Atom.text) := by
  rw [← mapM_atom_toJson, List.map_map]
  rfl

/-- Of several texts, each is left once; different ones are all left. -/
theorem unique_texts (ss : List String) :
    ∃ ts : List String, ts.Nodup ∧ Atom.unique (ss.map .text) = ts.map .text ∧
      (ss.Nodup → ts = ss) := by
  have hsub : (Atom.unique (ss.map .text)).Sublist (ss.map .text) :=
    Ordered.distinctBy_sublist Atom.key [] _
  obtain ⟨ts, hts, heq⟩ := List.sublist_map_iff.mp hsub
  have hkeys := Atom.nodup_map_key_unique (ss.map .text)
  rw [heq, List.map_map] at hkeys
  refine ⟨ts, hkeys.of_map, heq, fun hss => ?_⟩
  have hunique : Atom.unique (ss.map .text) = ss.map .text := by
    refine Ordered.distinctBy_of_nodup ?_ fun _ _ => List.not_mem_nil
    rw [List.map_map]
    exact hss.map fun s t h => by injection h
  rw [hunique] at heq
  exact ((List.map_injective_iff.mpr fun s t h => by injection h) heq).symm

theorem connectionIds_texts (ss : List String) :
    ∃ ts : List String, ts.Nodup ∧ (list (ss.map text)).connectionIds = .ok (ts.map text) ∧
      (ss.Nodup → ts = ss) := by
  obtain ⟨ts, hnodup, hunique, hsame⟩ := unique_texts ss
  refine ⟨ts, hnodup, ?_, hsame⟩
  rw [connectionIds, orElse_list]
  unfold uniqueIds
  simp only [items, bind, Except.bind, mapM_atom_texts, pure, Except.pure, hunique]
  simp [Except.map, Atom.toJson, Function.comp_def]

theorem connectionIds_null : null.connectionIds = .ok [] := rfl

theorem propertyMembers_object (fs : Fields) :
    (object fs).propertyMembers = .ok (fs.map fun f => (.text f.1, f.2)) := by
  cases fs <;> rfl

/-- Texts or nothing are taken over as connections without repetitions. -/
theorem exists_connectionIds {v : Json} (h : OrNull IsTextList v) :
    ∃ ss : List String, ss.Nodup ∧ v.connectionIds = .ok (ss.map text) := by
  rcases h with rfl | ⟨ss, rfl⟩
  · exact ⟨[], List.nodup_nil, connectionIds_null⟩
  · obtain ⟨ts, hnodup, hids, -⟩ := connectionIds_texts ss
    exact ⟨ts, hnodup, hids⟩

/-- The fields of an object or of nothing are taken over as properties. -/
theorem exists_propertyMembers {v : Json} (h : OrNull IsBag v) :
    ∃ fs : Fields, Legible (object fs) ∧
      v.propertyMembers = .ok (fs.map fun f => (.text f.1, f.2)) := by
  rcases h with rfl | ⟨fs, rfl, hfs⟩
  · exact ⟨[], .object List.nodup_nil fun _ hf => absurd hf List.not_mem_nil, rfl⟩
  · exact ⟨fs, hfs, propertyMembers_object fs⟩

end Json

end MoveWorkbench
