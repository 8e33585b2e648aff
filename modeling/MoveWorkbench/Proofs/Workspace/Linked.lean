import MoveWorkbench.Proofs.Design.Problems
import MoveWorkbench.Proofs.Workspace.ConnectionRule

/-!
Connections are ids. Whatever becomes the connections of a component is converted to ids
first, be it for a new component, for an update or in a document; only a connection that is
added by itself is taken as it comes. So where these are ids, all connections stay ids,
also when an update stops on the way.
-/

namespace MoveWorkbench

open Json

def Call.Linking : Call → Prop
  | addConnection _ _ target => target.IsAtom
  | _ => True

namespace Json

theorem isAtom_of_connectionIds {v : Json} {ids : List Json} (h : v.connectionIds = .ok ids) :
    ∀ w ∈ ids, w.IsAtom := by
  obtain ⟨as, -, rfl⟩ := Partial.map_eq_ok.mp h
  intro w hw
  obtain ⟨a, -, rfl⟩ := List.mem_map.mp hw
  exact ⟨a, rfl⟩

end Json

/-- Connections to ids stay ids. -/
theorem atomRule : ConnectionRule (fun vs => ∀ v ∈ vs, v.IsAtom) (fun _ => True) IsAtom where
  texts {ss} _ v hv := by
    obtain ⟨s, -, rfl⟩ := List.mem_map.mp hv
    exact ⟨.text s, rfl⟩
  converted _ h := isAtom_of_connectionIds h
  connect {c target} h htarget := by
    unfold Component.connect
    split
    · exact h
    · exact List.forall_mem_append.mpr ⟨h, List.forall_mem_singleton.mpr htarget⟩
  disconnect _ h := fun v hv => h v (List.mem_of_mem_filter hv)

theorem Call.Linking.connects {c : Call} (hc : c.Linking) :
    c.Connects (fun _ => True) IsAtom := by
  cases c with
  | updateDesign => exact fun _ _ _ _ _ _ _ _ => trivial
  | updateComponent => exact fun _ _ => trivial
  | addConnection => exact hc
  | _ => trivial

namespace Workspace

variable {w : Workspace}

theorem Reached.linked (h : Reached Call.Linking w) {id : Atom} {r : StoredDesign}
    (hr : w.design? id = some r) : r.design.Linked := by
  obtain ⟨l, hl, -⟩ := Ordered.exists_mem_of_get? hr
  exact atomRule.reached (fun _ hc => hc.connects) h _ hl

end Workspace

end MoveWorkbench
