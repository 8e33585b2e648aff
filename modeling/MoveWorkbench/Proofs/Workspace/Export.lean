import MoveWorkbench.Proofs.Design.Document
import MoveWorkbench.Proofs.Workspace.ConnectionRule

/-!
Export and import. Calls with arguments of the right types keep every design exportable,
and so does an import of any text at all. In a workspace that is reached by such calls the
document of a stored design is imported as a new design with the same content, and the
exported one stays as it is.
-/

namespace MoveWorkbench

open Json

/-- The fields of an update have the types of what they replace. Null and fields that are
not there are the same. -/
structure TypedUpdate (updates : Json) (fs : Fields) : Prop where
  object : updates = .object fs
  kind : OrNull IsText (field fs "kind")
  name : OrNull IsText (field fs "name")
  x : OrNull IsNumber (field fs "x")
  y : OrNull IsNumber (field fs "y")
  connections : OrNull IsTextList (field fs "connections")
  properties : OrNull IsBag (field fs "properties")

structure Design.NewComponent.Typed (new : Design.NewComponent) : Prop where
  kind : new.kind.IsText
  name : new.name.IsText
  x : new.x.IsNumber
  y : new.y.IsNumber
  connections : OrNull IsTextList new.connections
  properties : OrNull IsBag new.properties

/-- Calls whose arguments have the right types. None of them replaces all components of a
design at once. -/
def Call.WellTyped : Call → Prop
  | createDesign name description => name.IsText ∧ OrNull IsText description
  | updateDesign _ _ => False
  | addComponent id new => id.IsText ∧ new.Typed
  | updateComponent id component updates =>
    id.IsText ∧ component.IsText ∧ ∃ fs, TypedUpdate updates fs
  | removeComponent id component => id.IsText ∧ component.IsText
  | addConnection id source target => id.IsText ∧ source.IsText ∧ target.IsText
  | removeConnection id source target => id.IsText ∧ source.IsText ∧ target.IsText
  | importDesign document => document.IsText

namespace Component

variable {c : Component}

theorem keep_of_orNull {P : Json → Prop} {old : Json} {updates : Fields} {name : String}
    (hold : P old) (h : OrNull P (field updates name)) : P (keep old updates name) := by
  unfold keep
  split
  · exact hold
  · rename_i hne
    exact h.resolve_left hne

theorem Exportable.update {updates : Json} {fs : Fields} (h : c.Exportable)
    (hu : TypedUpdate updates fs) : (c.updateBy updates).component.Exportable := by
  rw [hu.object]
  obtain ⟨connections, hconnections, ss, hss, hids⟩ :=
    convert_spec (P := fun vs => ∃ ss : List String, ss.Nodup ∧ vs = ss.map text) h.connections (by
      obtain ⟨ss, hss, hids⟩ := exists_connectionIds hu.connections
      exact ⟨_, hids, ss, hss, rfl⟩)
  obtain ⟨properties, hproperties, gs, hgs, hmembers⟩ :=
    convert_spec (P := fun ps => ∃ fs : Fields, Legible (.object fs) ∧
      ps = fs.map fun f => (Atom.text f.1, f.2)) h.properties (by
      obtain ⟨gs, hgs, hmembers⟩ := exists_propertyMembers hu.properties
      exact ⟨_, hmembers, gs, hgs, rfl⟩)
  have hupdate : (c.updateBy (.object fs)).component =
      { c.updatePlain fs with connections := connections, properties := properties } := by
    simp only [updateBy, update_eq, hconnections, hproperties]
  rw [hupdate]
  exact ⟨h.id, keep_of_orNull h.kind hu.kind, keep_of_orNull h.name hu.name,
    keep_of_orNull h.x hu.x, keep_of_orNull h.y hu.y, ⟨ss, hss, hids⟩, ⟨gs, hgs, hmembers⟩⟩

theorem Exportable.disconnect (h : c.Exportable) (id : Json) : (c.disconnect id).Exportable :=
  { h with connections := textRule.disconnect id h.connections }

theorem Exportable.connect (h : c.Exportable) (s : String) :
    (c.connect (.text s)).Exportable := by
  have hconnections := textRule.connect h.connections ⟨s, rfl⟩
  unfold Component.connect at hconnections ⊢
  split
  · exact h
  · rename_i hnew
    rw [if_neg hnew] at hconnections
    exact { h with connections := hconnections }

end Component

namespace Call

open Design

/-- Calls of the right types keep designs exportable. -/
theorem WellTyped.preserves {c : Call} (hc : c.WellTyped) : c.Preserves Design.Exportable := by
  constructor
  · intro d hd
    cases hd with
    | created name description =>
      refine ⟨hc.1.legible, ?_, fun _ hc => absurd hc List.not_mem_nil⟩
      rcases hc.2 with rfl | hdescription
      · exact .null
      · exact hdescription.legible
    | imported h => exact exportable_of_ofText h
  · intro fresh d d' hd hleft
    cases c with
    | createDesign => cases hleft
    | importDesign => cases hleft
    | updateDesign => exact hc.elim
    | addComponent id new =>
      rcases left?_add hleft with rfl | ⟨connections, properties, hids, hmembers, rfl⟩
      · exact hd
      · have hnew := hc.2
        obtain ⟨ss, hss, hids'⟩ := exists_connectionIds hnew.connections
        obtain ⟨fs, hfs, hmembers'⟩ := exists_propertyMembers hnew.properties
        rw [hids] at hids'
        rw [hmembers] at hmembers'
        cases hids'
        cases hmembers'
        refine { hd with components := ?_ }
        rw [List.forall_mem_append]
        refine ⟨hd.components, ?_⟩
        rw [List.forall_mem_singleton]
        exact ⟨⟨fresh, rfl⟩, hnew.kind, hnew.name, hnew.x, hnew.y, ⟨ss, hss, rfl⟩, ⟨fs, hfs, rfl⟩⟩
    | updateComponent id component updates =>
      obtain ⟨fs, hfs⟩ := hc.2.2
      rw [left?_updateComponent hleft]
      exact { hd with
        components := forall_mem_modifyFirst hd.components (fun _ h => h.update hfs) component }
    | removeComponent id component =>
      cases hleft
      exact { hd with
        components := forall_mem_remove hd.components (fun _ id h => h.disconnect id) component }
    | addConnection id source target =>
      obtain ⟨s, rfl⟩ := hc.2.2
      rw [left?_connect hleft]
      exact { hd with
        components := forall_mem_modifyFirst hd.components (fun _ h => h.connect s) source }
    | removeConnection id source target =>
      rw [left?_disconnect hleft]
      exact { hd with
        components := forall_mem_modifyFirst hd.components (fun _ h => h.disconnect target) source }

end Call

namespace Workspace

variable {w : Workspace}

/-- A design can always be stored in a workspace that is well kept, under an id that none
of the stored designs has. -/
theorem WellKept.exists_store (h : WellKept w) (d : Design) :
    ∃ r, (w.store d).1 = .ok r ∧ r.design = d ∧
      (w.store d).2.designs = w.designs.put (.text r.id) r ∧
      ∀ e ∈ w.designs.entries, e.2.id ≠ r.id := by
  obtain ⟨t, ht⟩ := h.clock
  obtain ⟨millis, hid⟩ := exists_nextId ht "design"
  refine ⟨⟨idText "design" millis w.drawn, d, t, t⟩, ?_, rfl, ?_, h.id_ne_nextId hid⟩
  · simp only [store, now_eq ht, hid]
  · simp only [store, now_eq ht, hid]
    rfl

theorem reimportDesign_eq_importDesign {id : Atom} {r : StoredDesign}
    (hr : w.design? id = some r) : w.reimportDesign id = w.importDesign r.document := by
  simp only [reimportDesign, exportDesign, render, hr, Failure.lift]

/-- The document of a stored design is imported as a new design with the same content,
which is stored beside the exported one. -/
theorem Reached.exists_reimport (h : Reached Call.WellTyped w) {id : Atom} {r : StoredDesign}
    (hr : w.design? id = some r) :
    ∃ r', (w.reimportDesign id).1 = .ok r' ∧ r'.id ≠ r.id ∧
      r.design.SameContent r'.design ∧
      (w.reimportDesign id).2.design? (.text r'.id) = some r' ∧
      (w.reimportDesign id).2.design? id = some r := by
  have hkept := h.wellKept
  obtain ⟨hmem, hkey⟩ := hkept.mem_of_design? hr
  have hexportable : r.design.Exportable :=
    h.forall_designs (fun _ hc => hc.preserves) _ hmem
  obtain ⟨r', hstore, hdesign, hput, hfresh⟩ := hkept.exists_store r.design.placed
  have hreimport : w.reimportDesign id = w.store r.design.placed := by
    rw [reimportDesign_eq_importDesign hr, importDesign, hexportable.ofText_document]
  have hne : r'.id ≠ r.id := (hfresh _ hmem).symm
  rw [hreimport]
  refine ⟨r', hstore, hne, hdesign ▸ hexportable.sameContent_placed, ?_, ?_⟩
  · unfold design?
    rw [hput]
    exact Store.get?_put_self _ _ _
  · unfold design?
    rw [hput, Store.get?_put_of_ne ?_]
    · exact hr
    · apply Bool.eq_false_iff.mpr
      intro heq
      have hids : (Atom.text r'.id).key = (Atom.text r.id).key :=
        (Atom.beq_iff.mp heq).trans (Atom.beq_iff.mp hkey).symm
      injection hids with hids
      exact hne hids

def coin : Design.NewComponent :=
  ⟨.text "resource", .text "Coin", .int 0, .float .nan, .list [.text "vault", .text "vault"],
    .object [("tags", .list [.text "\u00e9", .null]), ("supply", .int 21)]⟩

def coinWorkspace : Workspace :=
  (((fresh 0).perform (.createDesign (.text "Bank") .null)).2.perform
    (.addComponent (.text "design-0-000000000") coin)).2

theorem exists_reimport_coin :
    ∃ r r', coinWorkspace.design? (.text "design-0-000000000") = some r ∧
      (coinWorkspace.reimportDesign (.text "design-0-000000000")).1 = .ok r' ∧ r'.id ≠ r.id ∧
      r.design.SameContent r'.design ∧
      (coinWorkspace.reimportDesign (.text "design-0-000000000")).2.design? (.text r'.id) =
        some r' ∧
      (coinWorkspace.reimportDesign (.text "design-0-000000000")).2.design?
        (.text "design-0-000000000") = some r := by
  have hcreate : (Call.createDesign (.text "Bank") .null).WellTyped :=
    ⟨⟨"Bank", rfl⟩, .inl rfl⟩
  have hbag : Json.Legible (.object [("tags", .list [.text "\u00e9", .null]), ("supply", .int 21)]) := by
    refine .object (by decide) ?_
    simp only [List.forall_mem_cons]
    refine ⟨.list ?_, .int (by decide), fun _ hf => absurd hf List.not_mem_nil⟩
    simp only [List.forall_mem_cons]
    exact ⟨.text _, .null, fun _ hv => absurd hv List.not_mem_nil⟩
  have hadd : (Call.addComponent (.text "design-0-000000000") coin).WellTyped :=
    ⟨⟨_, rfl⟩, ⟨_, rfl⟩, ⟨_, rfl⟩, .int (by decide), .float _, .inr ⟨["vault", "vault"], rfl⟩,
      .inr ⟨_, rfl, hbag⟩⟩
  have hreached : Reached Call.WellTyped coinWorkspace :=
    .call (.call (.fresh ⟨0, by decide⟩) hcreate) hadd
  obtain ⟨r, hr⟩ : ∃ r, coinWorkspace.design? (.text "design-0-000000000") = some r :=
    Option.isSome_iff_exists.mp (by decide +kernel)
  obtain ⟨r', hr'⟩ := hreached.exists_reimport hr
  exact ⟨r, r', hr, hr'⟩

end Workspace

end MoveWorkbench
