import MoveWorkbench.Proofs.Workspace.Outcome

/-!
The ids of the components of a design. An edit leaves them as they are or takes some of them away,
or it adds at the end one that was drawn; only an update of the design itself, or a document,
brings along ids of its own. So the ids of a design differ as long as those differ that are brought
along together, and none of them is drawn later.
-/

namespace MoveWorkbench

open Json

def Json.Differing (vs : List Json) : Prop := vs.Pairwise fun v w => (v == w) = false

instance : DecidablePred Json.Differing :=
  fun vs => inferInstanceAs (Decidable (vs.Pairwise fun v w => (v == w) = false))

theorem Json.differing_append_text {vs : List Json} {s : String} :
    Differing (vs ++ [.text s]) ↔ Differing vs ∧ .text s ∉ vs := by
  have hlast : (∀ v ∈ vs, ∀ u ∈ [Json.text s], (v == u) = false) ↔ .text s ∉ vs := by
    simp only [List.mem_singleton, forall_eq, Bool.eq_false_iff, Ne, beq_text]
    exact ⟨fun h hmem => h _ hmem rfl, fun h v hv heq => h (heq ▸ hv)⟩
  unfold Differing
  rw [List.pairwise_append, hlast]
  exact ⟨fun h => ⟨h.1, h.2.2⟩, fun h => ⟨h.1, List.pairwise_singleton _ _, h.2⟩⟩

namespace Design

def ids (d : Design) : List Json := d.components.map (·.id)

variable {d : Design}

theorem ids_mapFirst {f : Component → Component} (hf : ∀ c, (f c).id = c.id) (id : Json) :
    (d.mapFirst id f).ids = d.ids := by
  have hsame : List.Forall₂ (fun c c' : Component => c'.id = c.id) d.components
      (modifyFirst id f d.components) :=
    forall₂_modifyFirst (R := fun c c' => c'.id = c.id) (fun _ => rfl) hf id d.components
  unfold ids
  rw [← List.forall₂_eq_eq_eq, List.forall₂_map_left_iff, List.forall₂_map_right_iff]
  exact hsame.flip

theorem ids_remove_sublist (d : Design) (id : Json) :
    (((d.components.filter fun c => !c.id == id).map (·.disconnect id)).map (·.id)).Sublist
      d.ids := by
  rw [List.map_map]
  exact List.filter_sublist.map Component.id

end Design

theorem Component.id_connect (c : Component) (id : Json) : (c.connect id).id = c.id := by
  unfold connect
  split <;> rfl

namespace Call

def broughtIds? : Call → Option (List Json)
  | updateDesign _ (.object fs) =>
    (Design.newComponents (field fs "components")).toOption.map (·.map (·.id))
  | importDesign (.text s) => (Design.ofText s).toOption.map (·.ids)
  | _ => none

variable {c : Call} {d d' : Design}

/-- A design that is made has no components, or those that the call brings along. -/
theorem Makes.ids (h : c.Makes d) : d.ids = [] ∨ c.broughtIds? = some d.ids := by
  cases h with
  | created name description => exact .inl rfl
  | imported h =>
    right
    simp only [broughtIds?, h]
    rfl

/-- Just updates of designs and documents bring along components. -/
theorem exists_of_broughtIds? {ids : List Json} (h : c.broughtIds? = some ids) :
    (∃ id fs components, c = updateDesign id (.object fs) ∧
        Design.newComponents (field fs "components") = .ok components ∧
        components.map (·.id) = ids) ∨
      ∃ s d, c = importDesign (.text s) ∧ Design.ofText s = .ok d ∧ d.ids = ids := by
  unfold broughtIds? at h
  split at h
  · rename_i id fs
    obtain ⟨components, hcomponents, hids⟩ := Option.map_eq_some_iff.mp h
    exact .inl ⟨id, fs, components, rfl, Partial.toOption_eq_some.mp hcomponents, hids⟩
  · rename_i s
    obtain ⟨d, hd, hids⟩ := Option.map_eq_some_iff.mp h
    exact .inr ⟨s, d, rfl, Partial.toOption_eq_some.mp hd, hids⟩
  · cases h

theorem Makes.address? (h : c.Makes d) : c.address? = none := by
  cases h <;> rfl

/-- An edit takes ids away, or adds the new one, or brings along all of them. -/
theorem ids_of_edit {fresh : String} (h : (c.edit fresh d).left? = some d') :
    d'.ids.Sublist d.ids ∨
      (∃ id new, c = addComponent id new) ∧ d'.ids = d.ids ++ [.text fresh] ∨
      c.broughtIds? = some d'.ids := by
  cases c with
  | createDesign => cases h
  | importDesign => cases h
  | updateDesign id updates =>
    cases updates with
    | object fs =>
      rcases Design.left?_update h with rfl | ⟨components, hcomponents, rfl⟩
      · exact .inl (List.Sublist.refl _)
      · right
        right
        simp only [broughtIds?, hcomponents]
        rfl
    | _ =>
      cases h
      exact .inl (List.Sublist.refl _)
  | addComponent id new =>
    rcases Design.left?_add h with rfl | ⟨connections, properties, -, -, rfl⟩
    · exact .inl (List.Sublist.refl _)
    · exact .inr (.inl ⟨⟨id, new, rfl⟩, List.map_append⟩)
  | updateComponent id component updates =>
    rw [Design.left?_updateComponent h, Design.ids_mapFirst (·.id_updateBy updates) component]
    exact .inl (List.Sublist.refl _)
  | removeComponent id component =>
    cases h
    exact .inl (Design.ids_remove_sublist d component)
  | addConnection id source target =>
    rw [Design.left?_connect h, Design.ids_mapFirst (·.id_connect target) source]
    exact .inl (List.Sublist.refl _)
  | removeConnection id source target =>
    rw [Design.left?_disconnect h, Design.ids_mapFirst (f := (·.disconnect target)) (fun _ => rfl)]
    exact .inl (List.Sublist.refl _)

end Call

namespace Workspace

/-- The ids of the components that a call brings into a workspace. What is meant for a design that
is not there is not brought in. -/
def brought? (w : Workspace) (c : Call) : Option (List Json) :=
  match c.address? with
  | none => c.broughtIds?
  | some id => (w.addressed? id).bind fun _ => c.broughtIds?

def drawn? (w : Workspace) : Call → Option String
  | .addComponent id _ => (w.addressed? id).bind fun _ => (w.nextId "comp").toOption
  | _ => none

/-- The workspaces that are reached by any calls, with the lists of ids that these brought in. No id
is drawn for a component that was brought in before. -/
inductive Supplied : Workspace → List (List Json) → Prop where
  | fresh (t : Instant) : Supplied (fresh t.micros) []
  | call {w : Workspace} {lists : List (List Json)} (h : Supplied w lists) (c : Call)
    (hdrawn : ∀ id ∈ w.drawn? c, ∀ ids ∈ lists, .text id ∉ ids) :
    Supplied (w.perform c).2 ((w.brought? c).toList ++ lists)
  | tick {w : Workspace} {lists : List (List Json)} (h : Supplied w lists) (t : Instant) :
    Supplied { w with clock := t.micros } lists
  | sweep {w : Workspace} {lists : List (List Json)} (h : Supplied w lists) (cutoff : Instant) :
    Supplied { w with designs := w.designs.since (·.updatedAt) cutoff } lists
  | aside {w : Workspace} {lists : List (List Json)} (h : Supplied w lists)
    (analyses : Store Analysis) (n : ℕ) :
    Supplied { w with analyses := analyses, drawn := w.drawn + n } lists

variable {w : Workspace} {lists : List (List Json)} {c : Call}

theorem Supplied.reached (h : Supplied w lists) : w.Reached fun _ => True := by
  induction h with
  | fresh t => exact .fresh t
  | call _ c _ ih => exact ih.call trivial
  | tick _ t ih => exact ih.tick t
  | sweep _ cutoff ih => exact ih.sweep cutoff
  | aside _ analyses n ih => exact ih.aside analyses n

/-- What an edit leaves is stored in place of what it was about. -/
theorem mem_settle {v : Workspace} {r : StoredDesign} {edited : Edited} {e : Atom × StoredDesign}
    (he : e ∈ (v.settle r edited).2.designs.entries) :
    e ∈ v.designs.entries ∨ edited.left? = some e.2.design := by
  have hput {r' : StoredDesign} {d : Design} (hleft : edited.left? = some d) (hd : r'.design = d)
      (he : e ∈ (v.putDesign r').designs.entries) :
      e ∈ v.designs.entries ∨ edited.left? = some e.2.design := by
    rcases Ordered.mem_put he with he | ⟨-, hvalue⟩
    · exact .inl he
    · exact .inr (by rw [hvalue, hd, hleft])
  cases edited with
  | missing => exact .inl he
  | stopped f d => exact hput rfl rfl he
  | done d =>
    unfold settle at he
    dsimp only at he
    split at he
    · exact hput rfl rfl he
    · exact hput rfl rfl he

theorem mem_store {d : Design} {e : Atom × StoredDesign}
    (he : e ∈ (w.store d).2.designs.entries) : e ∈ w.designs.entries ∨ e.2.design = d := by
  unfold store at he
  split at he
  · rcases Ordered.mem_put he with he | ⟨-, hvalue⟩
    · exact .inl he
    · exact .inr (by rw [hvalue])
  · exact .inl he
  · exact .inl he

theorem mem_edit {a : Atom} {f : Design → Edited} {e : Atom × StoredDesign}
    (he : e ∈ (w.edit a f).2.designs.entries) :
    e ∈ w.designs.entries ∨
      ∃ r, w.design? a = some r ∧ (f r.design).left? = some e.2.design := by
  unfold edit at he
  split at he
  · exact .inl he
  · rename_i r hr
    exact (mem_settle he).imp_right fun hleft => ⟨r, hr, hleft⟩

theorem mem_withId {id : Json} {f : Atom → Answer (Option StoredDesign)} {e : Atom × StoredDesign}
    {P : Prop} (he : e ∈ (w.withId id f).2.designs.entries)
    (h : ∀ a, id.atom? = some a → e ∈ (f a).2.designs.entries → e ∈ w.designs.entries ∨ P) :
    e ∈ w.designs.entries ∨ P := by
  unfold withId atom at he
  cases hatom : id.atom? with
  | none =>
    rw [hatom] at he
    exact .inl he
  | some a =>
    rw [hatom] at he
    exact h a hatom he

/-- A stored design was there before a call, or was made by it, or is what the call made of the
design that it is about, where a new component has the id that is drawn for it. -/
theorem mem_perform {e : Atom × StoredDesign} (he : e ∈ (w.perform c).2.designs.entries) :
    e ∈ w.designs.entries ∨ c.Makes e.2.design ∨
      ∃ id r fresh, c.address? = some id ∧ w.addressed? id = some r ∧
        (c.draws = 0 ∨ w.drawn? c = some fresh) ∧
        (c.edit fresh r.design).left? = some e.2.design := by
  have hedit {id : Json} (hc : c.address? = some id) (hdraws : c.draws = 0)
      (he : e ∈ (w.withId id fun a => w.edit a (c.edit "")).2.designs.entries) :
      e ∈ w.designs.entries ∨ c.Makes e.2.design ∨
        ∃ id r fresh, c.address? = some id ∧ w.addressed? id = some r ∧
          (c.draws = 0 ∨ w.drawn? c = some fresh) ∧
          (c.edit fresh r.design).left? = some e.2.design := by
    refine mem_withId he fun a ha he => (mem_edit he).imp_right fun hparts => .inr ?_
    obtain ⟨r, hr, hleft⟩ := hparts
    exact ⟨id, r, "", hc, (addressed?_eq ha).trans hr, .inl hdraws, hleft⟩
  cases c with
  | createDesign name description =>
    rcases mem_store he with hold | hd
    · exact .inl hold
    · rw [hd]
      exact .inr (.inl (.created name description))
  | updateDesign id updates => exact hedit rfl rfl he
  | addComponent id new =>
    refine mem_withId he fun a ha he => ?_
    unfold addComponent at he
    cases hr : w.design? a with
    | none =>
      rw [hr] at he
      exact .inl he
    | some r =>
      rw [hr] at he
      cases hid : w.nextId "comp" with
      | error f =>
        rw [hid] at he
        exact .inl he
      | ok fresh =>
        rw [hid] at he
        have hr : w.addressed? id = some r := (addressed?_eq ha).trans hr
        have hdrawn : w.drawn? (.addComponent id new) = some fresh := by
          simp only [drawn?, hr, hid]
          rfl
        exact (mem_settle he).imp_right fun hleft =>
          .inr ⟨id, r, fresh, rfl, hr, .inr hdrawn, hleft⟩
  | updateComponent id component updates => exact hedit rfl rfl he
  | removeComponent id component => exact hedit rfl rfl he
  | addConnection id source target => exact hedit rfl rfl he
  | removeConnection id source target => exact hedit rfl rfl he
  | importDesign document =>
    cases document with
    | text s =>
      simp only [perform, given, importDesign] at he
      cases hread : Design.ofText s with
      | error problem =>
        rw [hread] at he
        exact .inl he
      | ok d =>
        rw [hread] at he
        rcases mem_store he with hold | hd
        · exact .inl hold
        · rw [hd]
          exact .inr (.inl (.imported hread))
    | _ => exact .inl he

/-- The ids of a stored design were there before a call, or some of them were taken away, or the
one that is drawn was added, or all of them were brought in. -/
theorem ids_of_mem_perform {e : Atom × StoredDesign} (he : e ∈ (w.perform c).2.designs.entries) :
    e.2.design.ids = [] ∨ w.brought? c = some e.2.design.ids ∨
      ∃ old ∈ w.designs.entries, e.2.design.ids.Sublist old.2.design.ids ∨
        ∃ fresh, w.drawn? c = some fresh ∧
          e.2.design.ids = old.2.design.ids ++ [.text fresh] := by
  rcases mem_perform he with hold | hmade | ⟨id, r, fresh, hc, hr, hdrawn, hleft⟩
  · exact .inr (.inr ⟨e, hold, .inl (List.Sublist.refl _)⟩)
  · rcases hmade.ids with hnil | hbrought
    · exact .inl hnil
    · refine .inr (.inl ?_)
      unfold brought?
      rw [hmade.address?]
      exact hbrought
  · obtain ⟨a, -, ha⟩ := exists_atom_of_addressed? hr
    obtain ⟨l, hl, -⟩ := Ordered.exists_mem_of_get? ha
    rcases Call.ids_of_edit hleft with hsub | ⟨⟨_, _, rfl⟩, hids⟩ | hbrought
    · exact .inr (.inr ⟨_, hl, .inl hsub⟩)
    · exact .inr (.inr ⟨_, hl, .inr ⟨fresh, hdrawn.resolve_left Nat.one_ne_zero, hids⟩⟩)
    · refine .inr (.inl ?_)
      unfold brought?
      rw [hc]
      dsimp only
      rw [hr]
      exact hbrought

/-- The id that is drawn for a component has the next number, which is then used up. -/
theorem exists_of_drawn? {fresh : String} (h : w.drawn? c = some fresh) :
    (∃ t, fresh = idText "comp" t w.drawn) ∧ w.drawn < (w.perform c).2.drawn := by
  cases c with
  | addComponent id new =>
    obtain ⟨r, hr, hid⟩ := Option.bind_eq_some_iff.mp h
    obtain ⟨a, ha, hstored⟩ := exists_atom_of_addressed? hr
    have hnext := Partial.toOption_eq_some.mp hid
    have hperform : w.perform (.addComponent id new) =
        w.draw.settle r (r.design.add fresh new) := by
      simp only [perform, withId, atom, ha, addComponent, hstored, hnext]
    refine ⟨exists_eq_idText hnext, ?_⟩
    rw [hperform, drawn_settle]
    exact Nat.lt_succ_self _
  | _ => cases h

/-- Where the ids in a workspace come from: they were brought in, or they were drawn. -/
def Accounted (w : Workspace) (lists : List (List Json)) : Prop :=
  ∀ e ∈ w.designs.entries, ∀ v ∈ e.2.design.ids,
    (∃ ids ∈ lists, v ∈ ids) ∨ ∃ t n, v = .text (idText "comp" t n) ∧ n < w.drawn

theorem Accounted.perform (h : Accounted w lists) (c : Call) :
    Accounted (w.perform c).2 ((w.brought? c).toList ++ lists) := by
  have hlater {v : Json}
      (hv : (∃ ids ∈ lists, v ∈ ids) ∨ ∃ t n, v = .text (idText "comp" t n) ∧ n < w.drawn) :
      (∃ ids ∈ (w.brought? c).toList ++ lists, v ∈ ids) ∨
        ∃ t n, v = .text (idText "comp" t n) ∧ n < (w.perform c).2.drawn := by
    rcases hv with ⟨ids, hids, hv⟩ | ⟨t, n, hv, hn⟩
    · exact .inl ⟨ids, List.mem_append_right _ hids, hv⟩
    · exact .inr ⟨t, n, hv, lt_of_lt_of_le hn (drawn_le_perform w c)⟩
  intro e he v hv
  rcases ids_of_mem_perform he with hnil | hbrought | ⟨old, hold, hsub | ⟨fresh, hfresh, hids⟩⟩
  · rw [hnil] at hv
    cases hv
  · exact .inl ⟨_, by simp [hbrought], hv⟩
  · exact hlater (h old hold v (hsub.subset hv))
  · rw [hids] at hv
    rcases List.mem_append.mp hv with hv | hv
    · exact hlater (h old hold v hv)
    · obtain ⟨⟨t, rfl⟩, hlt⟩ := exists_of_drawn? hfresh
      exact .inr ⟨t, w.drawn, List.mem_singleton.mp hv, hlt⟩

theorem Supplied.accounted (h : Supplied w lists) : Accounted w lists := by
  induction h with
  | fresh t => exact fun _ he => absurd he List.not_mem_nil
  | call _ c _ ih => exact ih.perform c
  | tick _ t ih => exact ih
  | sweep _ cutoff ih => exact fun e he => ih e (List.mem_of_mem_filter he)
  | aside _ analyses n ih =>
    intro e he v hv
    refine (ih e he v hv).imp_right fun hparts => ?_
    obtain ⟨t, k, hv, hk⟩ := hparts
    exact ⟨t, k, hv, Nat.lt_add_right n hk⟩

/-- An id that is drawn is new in every design. -/
theorem Accounted.differing_append (h : Accounted w lists) {fresh : String}
    (hfresh : w.drawn? c = some fresh) (hnew : ∀ ids ∈ lists, .text fresh ∉ ids)
    {e : Atom × StoredDesign} (he : e ∈ w.designs.entries) (hdiffer : Differing e.2.design.ids) :
    Differing (e.2.design.ids ++ [.text fresh]) := by
  refine differing_append_text.mpr ⟨hdiffer, fun hv => ?_⟩
  rcases h e he _ hv with ⟨ids, hids, hmem⟩ | ⟨t, n, htext, hn⟩
  · exact hnew ids hids hmem
  · obtain ⟨⟨t', rfl⟩, -⟩ := exists_of_drawn? hfresh
    injection htext with htext
    exact absurd (idText_number_injective htext) (by omega)

/-- The ids of a design differ when those do that were brought in together. -/
theorem Supplied.forall_differing (h : Supplied w lists) (hlists : ∀ ids ∈ lists, Differing ids) :
    ∀ e ∈ w.designs.entries, Differing e.2.design.ids := by
  induction h with
  | fresh t => exact fun _ he => absurd he List.not_mem_nil
  | @call w lists hw c hdrawn ih =>
    obtain ⟨hbrought, hbefore⟩ := List.forall_mem_append.mp hlists
    intro e he
    rcases ids_of_mem_perform he with hnil | hnew | ⟨old, hold, hsub | ⟨fresh, hfresh, hids⟩⟩
    · rw [hnil]
      exact .nil
    · exact hbrought _ (by simp [hnew])
    · exact (ih hbefore old hold).sublist hsub
    · rw [hids]
      exact hw.accounted.differing_append hfresh (hdrawn fresh hfresh) hold (ih hbefore old hold)
  | tick _ t ih => exact ih hlists
  | sweep _ cutoff ih => exact fun e he => ih hlists e (List.mem_of_mem_filter he)
  | aside _ analyses n ih => exact ih hlists

/-- The ids that a call brings in are taken over as they are, whether they differ or not. -/
theorem WellKept.exists_of_brought? (h : WellKept w) {ids : List Json}
    (hbrought : w.brought? c = some ids) :
    ∃ r, (w.perform c).1 = .ok (some r) ∧ r.design.ids = ids := by
  unfold brought? at hbrought
  cases haddress : c.address? with
  | none =>
    rw [haddress] at hbrought
    rcases Call.exists_of_broughtIds? hbrought with ⟨_, _, _, rfl, -⟩ | ⟨s, d, rfl, hread, rfl⟩
    · cases haddress
    · obtain ⟨r, hr, rfl, -⟩ := h.exists_store d
      refine ⟨r, ?_, rfl⟩
      simp only [Workspace.perform, given, importDesign, hread, hr]
      rfl
  | some id =>
    rw [haddress] at hbrought
    obtain ⟨r, hr, hids⟩ := Option.bind_eq_some_iff.mp hbrought
    rcases Call.exists_of_broughtIds? hids with ⟨_, fs, components, rfl, hnew, rfl⟩ | ⟨_, _, rfl, -⟩
    · cases haddress
      obtain ⟨a, ha, hstored⟩ := exists_atom_of_addressed? hr
      obtain ⟨t, ht⟩ := h.clock
      refine ⟨⟨r.id, { r.design.takeOver fs with components }, r.createdAt, t⟩, ?_, rfl⟩
      simp only [Workspace.perform, withId, atom, ha, updateDesign, edit, hstored, Design.updateBy,
        Design.update_of_newComponents hnew, settle, now_eq ht]
    · cases haddress

/-- In every workspace that is reached the components of a design have different ids, as long as
the ids differ that were brought in together. What is brought in next is taken over as it is, so
that ids which are not different are then those of a design. -/
theorem Supplied.differing_ids (h : Supplied w lists) (hlists : ∀ ids ∈ lists, Differing ids) :
    (∀ e ∈ w.designs.entries, Differing e.2.design.ids) ∧
      ∀ c ids, w.brought? c = some ids →
        ∃ r, (w.perform c).1 = .ok (some r) ∧ r.design.ids = ids :=
  ⟨h.forall_differing hlists, fun _ _ => h.reached.wellKept.exists_of_brought?⟩

theorem Supplied.call_of_brought?_eq_none (h : Supplied w lists)
    (hdrawn : ∀ id ∈ w.drawn? c, ∀ ids ∈ lists, .text id ∉ ids) (hnone : w.brought? c = none) :
    Supplied (w.perform c).2 lists := by
  have hcall := h.call c hdrawn
  rwa [hnone] at hcall

def documentOf (id id' : String) : Call :=
  .importDesign (.text ("\x7b\"components\": [\x7b\"id\": \"" ++ id ++ "\"\x7d, \x7b\"id\": \"" ++ id'
    ++ "\"\x7d]\x7d"))

def addVault : Call :=
  .addComponent (.text "design-0-000000000")
    ⟨.text "object", .text "Vault", .int 0, .int 0, .null, .null⟩

theorem supplied_documentOf (id id' : String) :
    Supplied ((fresh 0).perform (documentOf id id')).2
      (((fresh 0).brought? (documentOf id id')).toList ++ []) :=
  (Supplied.fresh ⟨0, by decide⟩).call _ fun _ hdrawn => nomatch hdrawn

/-- A component is added to two that were brought in. -/
theorem differing_ids_addVault :
    let w := (((fresh 0).perform (documentOf "a" "b")).2.perform addVault).2
    ∃ lists, Supplied w lists ∧ (∀ ids ∈ lists, Differing ids) ∧
      (w.designs.entries.map fun e => e.2.design.ids.length) = [3] ∧
      (∀ e ∈ w.designs.entries, Differing e.2.design.ids) := by
  have hdrawn : ((fresh 0).perform (documentOf "a" "b")).2.drawn? addVault =
      some "comp-0-000000001" := by decide +kernel
  have hbefore : ∀ ids ∈ ((fresh 0).brought? (documentOf "a" "b")).toList ++ [],
      Differing (ids ++ [.text "comp-0-000000001"]) := by decide +kernel
  have hnew : ∀ id ∈ ((fresh 0).perform (documentOf "a" "b")).2.drawn? addVault,
      ∀ ids ∈ ((fresh 0).brought? (documentOf "a" "b")).toList ++ [], Json.text id ∉ ids := by
    intro id hid ids hids
    rw [hdrawn, Option.mem_some_iff] at hid
    exact hid ▸ (differing_append_text.mp (hbefore ids hids)).2
  have hnone (v : Workspace) : v.brought? addVault = none :=
    Option.bind_eq_none_iff.mpr fun _ _ => rfl
  have hsupplied := (supplied_documentOf "a" "b").call_of_brought?_eq_none hnew (hnone _)
  have hdiffer : ∀ ids ∈ ((fresh 0).brought? (documentOf "a" "b")).toList ++ [], Differing ids :=
    fun ids hids => (differing_append_text.mp (hbefore ids hids)).1
  exact ⟨_, hsupplied, hdiffer, by decide +kernel, (hsupplied.differing_ids hdiffer).1⟩

/-- Two components that are brought in with one id both stay. -/
theorem not_differing_documentOf :
    let w := ((fresh 0).perform (documentOf "a" "a")).2
    (∃ lists, Supplied w lists) ∧ ∃ e ∈ w.designs.entries, ¬ Differing e.2.design.ids :=
  ⟨⟨_, supplied_documentOf "a" "a"⟩, by decide +kernel⟩

end Workspace

end MoveWorkbench
