import MoveWorkbench.Proofs.Design.Import
import MoveWorkbench.Proofs.Design.LinkHistory
import MoveWorkbench.Proofs.Workspace.Run

/-!
Rules about connections. Connections come about in few ways: a value is converted to all of them,
for a new component, in an update or in a document, or a single one is added or taken out. A
property of connections that these ways keep is kept by all calls, as far as the values that are
converted and added are allowed.
-/

namespace MoveWorkbench

open Json

/-- A property of connections that is kept when values with `Lists` are converted to them and
values with `Adds` are added. -/
structure ConnectionRule (P : List Json → Prop) (Lists Adds : Json → Prop) : Prop where
  texts : ∀ {ss : List String}, ss.Nodup → P (ss.map text)
  converted : ∀ {v : Json} {ids : List Json}, Lists v → v.connectionIds = .ok ids → P ids
  connect : ∀ {c : Component} {target : Json}, P c.connections → Adds target →
    P (c.connect target).connections
  disconnect : ∀ {c : Component} (id : Json), P c.connections → P (c.disconnect id).connections

def Json.ConnectsBy (Lists : Json → Prop) (v : Json) : Prop :=
  ∀ fs, v = object fs → Lists (field fs "connections")

def Call.Connects (Lists Adds : Json → Prop) : Call → Prop
  | updateDesign _ updates => ∀ fs vs, updates = .object fs →
      (field fs "components").items = .ok vs → ∀ v ∈ vs, v.ConnectsBy Lists
  | addComponent _ new => Lists new.connections
  | updateComponent _ _ updates => updates.ConnectsBy Lists
  | addConnection _ _ target => Adds target
  | _ => True

namespace ConnectionRule

variable {P : List Json → Prop} {Lists Adds : Json → Prop} (rule : ConnectionRule P Lists Adds)
include rule

theorem of_ofJson {v : Json} (hv : v.ConnectsBy Lists) {c : Component}
    (h : Component.ofJson v = .ok c) : P c.connections := by
  cases v with
  | object fs =>
    obtain ⟨ids, hids, hrest⟩ := Partial.bind_eq_ok.mp h
    obtain ⟨members, -, hc⟩ := Partial.bind_eq_ok.mp hrest
    cases hc
    exact rule.converted (hv fs rfl) hids
  | _ => cases h

theorem of_newComponents {v : Json} (hv : ∀ vs, v.items = .ok vs → ∀ u ∈ vs, u.ConnectsBy Lists)
    {cs : List Component} (h : Design.newComponents v = .ok cs) : ∀ c ∈ cs, P c.connections := by
  obtain ⟨vs, hvs, hcs⟩ := Partial.bind_eq_ok.mp h
  intro c hc
  obtain ⟨u, hu, hcomponent⟩ := Partial.exists_of_mem_mapM hcs hc
  exact rule.of_ofJson (hv vs hvs u hu) hcomponent

theorem of_ofText {s : String} {d : Design} (h : Design.ofText s = .ok d) :
    ∀ c ∈ d.components, P c.connections := by
  intro c hc
  obtain ⟨ss, hss, hconnections⟩ := ((Design.exportable_of_ofText h).components c hc).connections
  rw [hconnections]
  exact rule.texts hss

/-- An update keeps the connections, or takes over others once they are converted. -/
theorem updateBy {updates : Json} (hu : updates.ConnectsBy Lists) {c : Component}
    (h : P c.connections) : P (c.updateBy updates).component.connections := by
  cases updates with
  | object fs =>
    change P (c.update fs).component.connections
    rw [Component.update_eq]
    split
    · exact h
    · rename_i ids hconvert
      have hids : P ids := by
        unfold Component.convert at hconvert
        split at hconvert
        · rename_i v hv
          have hlists := hu fs rfl
          rw [field, hv] at hlists
          exact rule.converted hlists hconvert
        · cases hconvert
          exact h
      split
      · exact hids
      · exact hids
  | _ =>
    unfold Component.updateBy
    dsimp only
    split
    · exact h
    · exact h

/-- What holds of the connections of all components is kept by the calls that are allowed. -/
theorem preserves {c : Call} (hc : c.Connects Lists Adds) :
    c.Preserves fun d => ∀ e ∈ d.components, P e.connections := by
  constructor
  · intro d hd
    cases hd with
    | created name description => exact fun _ hc => absurd hc List.not_mem_nil
    | imported h => exact rule.of_ofText h
  · intro fresh d d' hd hleft
    cases c with
    | createDesign => cases hleft
    | importDesign => cases hleft
    | updateDesign id updates =>
      cases updates with
      | object fs =>
        rcases Design.left?_update hleft with rfl | ⟨components, hcomponents, rfl⟩
        · exact hd
        · exact rule.of_newComponents (fun vs => hc fs vs rfl) hcomponents
      | _ =>
        cases hleft
        exact hd
    | addComponent id new =>
      rcases Design.left?_add hleft with rfl | ⟨connections, properties, hids, -, rfl⟩
      · exact hd
      · refine List.forall_mem_append.mpr ⟨hd, List.forall_mem_singleton.mpr ?_⟩
        exact rule.converted hc hids
    | updateComponent id component updates =>
      rw [Design.left?_updateComponent hleft]
      exact Design.forall_mem_modifyFirst hd (fun _ h => rule.updateBy hc h) component
    | removeComponent id component =>
      cases hleft
      exact Design.forall_mem_remove hd (fun _ id h => rule.disconnect id h) component
    | addConnection id source target =>
      rw [Design.left?_connect hleft]
      exact Design.forall_mem_modifyFirst hd (fun _ h => rule.connect h hc) source
    | removeConnection id source target =>
      rw [Design.left?_disconnect hleft]
      exact Design.forall_mem_modifyFirst hd (fun _ h => rule.disconnect target h) source

/-- What all allowed calls keep holds of all connections in a workspace that they reach. -/
theorem reached {allowed : Call → Prop} (hallowed : ∀ c, allowed c → c.Connects Lists Adds)
    {w : Workspace} (h : w.Reached allowed) :
    ∀ e ∈ w.designs.entries, ∀ c ∈ e.2.design.components, P c.connections :=
  h.forall_designs fun _ hc => rule.preserves (hallowed _ hc)

end ConnectionRule

/-- Connections to texts stay texts, each of them once. -/
theorem textRule : ConnectionRule (fun vs => ∃ ss : List String, ss.Nodup ∧ vs = ss.map .text)
    (OrNull IsTextList) IsText where
  texts {ss} hss := ⟨ss, hss, rfl⟩
  converted hv h := by
    obtain ⟨ss, hss, htexts⟩ := exists_connectionIds hv
    rw [h] at htexts
    injection htexts with htexts
    exact ⟨ss, hss, htexts⟩
  connect {c target} h htarget := by
    obtain ⟨ss, hss, hconnections⟩ := h
    obtain ⟨s, rfl⟩ := htarget
    exact ⟨_, LinkStep.nodup_apply hss ⟨s, true⟩, Component.connections_link hconnections ⟨s, true⟩⟩
  disconnect {c} id h := by
    obtain ⟨ss, hss, hconnections⟩ := h
    refine ⟨ss.filter fun s => !text s == id, hss.filter _, ?_⟩
    simp only [Component.disconnect, hconnections, List.filter_map]
    rfl

end MoveWorkbench
