import MoveWorkbench.Proofs.Design.Edit
import MoveWorkbench.Proofs.Design.FieldRules

/-!
Updates taken together. Two updates one after the other come to one, whose fields are those of the
second one where it has them, and else those of the first one. What null means depends on the
field: where it leaves the old value, the field of the first update counts still; elsewhere null
clears, and takes the field of the first update away.
-/

namespace MoveWorkbench

namespace Json

/-- Whether `m` has the fields of `v`, and those of `u` where `v` has none or has null for one of
`lasting`, which null leaves as they are. -/
def Merges (lasting : List String) (u v m : Fields) : Prop :=
  ∀ name, Ordered.get? name m =
    match Ordered.get? name v with
    | none => Ordered.get? name u
    | some .null => if name ∈ lasting then Ordered.get? name u else some .null
    | some value => some value

def merge (lasting : List String) (u v : Fields) : Fields :=
  (v.filter fun f => match field v f.1 with
    | .null => f.1 ∉ lasting
    | _ => true) ++ u

/-- Connections are texts and properties are the fields of an object, as far as they are there
and not null. All other fields of a component are taken over as they are. -/
structure Takeable (fs : Fields) : Prop where
  connections : OrNull IsTextList (field fs "connections")
  properties : OrNull IsObject (field fs "properties")

def ListsTakeable (v : Json) : Prop :=
  ∃ vs, v = list vs ∧ ∀ e ∈ vs, ∃ fs, e = object fs ∧ Takeable fs

variable {lasting : List String} {u v m fs : Fields} {name : String}

theorem get?_append (k : String) (m n : Fields) :
    Ordered.get? k (m ++ n) = (Ordered.get? k m).or (Ordered.get? k n) := by
  unfold Ordered.get?
  rw [List.find?_append]
  cases m.find? (·.1 == k) <;> rfl

theorem merges_merge (lasting : List String) (u v : Fields) :
    Merges lasting u v (merge lasting u v) := by
  intro name
  have hfilter := Ordered.get?_filter_key (fun k => match field v k with
    | .null => decide (k ∉ lasting)
    | _ => true) name v
  rw [merge, get?_append, hfilter]
  cases hget : Ordered.get? name v with
  | none => simp
  | some value =>
    simp only [field, hget, Option.getD_some]
    cases value with
    | null => by_cases hname : name ∈ lasting <;> simp [hname]
    | _ => simp

/-- An update has the fields that it has when it comes once more. -/
theorem merges_self (lasting : List String) (u : Fields) : Merges lasting u u u := by
  intro name
  split
  · rfl
  · rename_i hnull
    rw [hnull, ite_self]
  · assumption

/-- A merged field is that of one update or of the other. -/
theorem Merges.field (h : Merges lasting u v m) (name : String) :
    field m name = field v name ∨ field m name = field u name := by
  unfold Json.field
  rw [h name]
  split
  · exact .inr rfl
  · rename_i hnull
    rw [hnull]
    split
    · exact .inr rfl
    · exact .inl rfl
  · rename_i value hvalue
    exact .inl (by rw [hvalue])

theorem Merges.orNull {P : Json → Prop} (h : Merges lasting u v m) {name : String}
    (hu : OrNull P (Json.field u name)) (hv : OrNull P (Json.field v name)) :
    OrNull P (Json.field m name) := by
  rcases h.field name with hname | hname
  · rwa [hname]
  · rwa [hname]

theorem Merges.takeable (h : Merges lasting u v m) (hu : Takeable u) (hv : Takeable v) :
    Takeable m where
  connections := h.orNull hu.connections hv.connections
  properties := h.orNull hu.properties hv.properties

theorem exists_members {v : Json} (h : OrNull IsObject v) : ∃ ps, v.propertyMembers = .ok ps := by
  rcases h with rfl | ⟨fs, rfl⟩
  · exact ⟨_, rfl⟩
  · exact ⟨_, propertyMembers_object fs⟩

end Json

open Json

variable {u v m fs : Fields} {name : String}

namespace Component

def lasting : List String := ["kind", "name", "x", "y"]

theorem keep_merge {lasting : List String} (h : Merges lasting u v m) (hname : name ∈ lasting)
    (old : Json) : keep (keep old u name) v name = keep old m name := by
  unfold keep field
  rw [h name]
  cases hget : Ordered.get? name v with
  | none => rfl
  | some value =>
    cases value with
    | null => simp [hname]
    | _ => rfl

/-- A field that null clears is converted once: as it is in the second update, or if it is not
there as it is in the first one. -/
theorem convert_merge {α : Type} {lasting : List String} {f : Json → Except Fault α}
    (h : Merges lasting u v m) (hname : name ∉ lasting) {old a : α}
    (hu : convert old u name f = .ok a) : convert a v name f = convert old m name f := by
  unfold convert at hu ⊢
  rw [h name]
  cases hget : Ordered.get? name v with
  | none => exact hu.symm
  | some value =>
    cases value with
    | null => simp [hname]
    | _ => rfl

theorem exists_convert {α : Type} {f : Json → Except Fault α} {a : α} (old : α)
    (h : f (field fs name) = .ok a) : ∃ b, convert old fs name f = .ok b := by
  obtain ⟨b, hb, -⟩ : ∃ b, convert old fs name f = .ok b ∧ True :=
    convert_spec trivial ⟨a, h, trivial⟩
  exact ⟨b, hb⟩

theorem updatePlain_merge (h : Merges lasting u v m) (c : Component) :
    (c.updatePlain u).updatePlain v = c.updatePlain m := by
  have hkeep (name : String) (hname : name ∈ lasting) (old : Json) := keep_merge h hname old
  simp only [updatePlain, hkeep "kind" (by decide), hkeep "name" (by decide),
    hkeep "x" (by decide), hkeep "y" (by decide)]

/-- What can be taken over is taken over without a fault. -/
theorem update_of_takeable (h : Takeable fs) (c : Component) : ∃ connections properties,
    convert c.connections fs "connections" connectionIds = .ok connections ∧
    convert c.properties fs "properties" propertyMembers = .ok properties ∧
    c.update fs = ⟨{ c.updatePlain fs with connections, properties }, none⟩ := by
  obtain ⟨ss, -, hss⟩ := exists_connectionIds h.connections
  obtain ⟨ps, hps⟩ := exists_members h.properties
  obtain ⟨connections, hconnections⟩ := exists_convert c.connections hss
  obtain ⟨properties, hproperties⟩ := exists_convert c.properties hps
  refine ⟨connections, properties, hconnections, hproperties, ?_⟩
  rw [update_eq, hconnections, hproperties]

/-- Two updates of a component come to their merged one. -/
theorem update_merge (hu : Takeable u) (hv : Takeable v) (h : Merges lasting u v m)
    (c : Component) : (c.update u).component.update v = c.update m := by
  obtain ⟨connections, properties, hconnections, hproperties, hfirst⟩ := update_of_takeable hu c
  have hids : convert connections v "connections" connectionIds =
      convert c.connections m "connections" connectionIds :=
    convert_merge h (by decide) hconnections
  have hmembers : convert properties v "properties" propertyMembers =
      convert c.properties m "properties" propertyMembers :=
    convert_merge h (by decide) hproperties
  have hplain : ({ c.updatePlain u with connections, properties } : Component).updatePlain v =
      { c.updatePlain m with connections, properties } := by
    rw [← updatePlain_merge h]
    rfl
  obtain ⟨connections', properties', hconnections', hproperties', hmerged⟩ :=
    update_of_takeable (h.takeable hu hv) c
  rw [hfirst, update_eq, hmerged]
  dsimp only
  rw [hids, hmembers, hconnections', hproperties', hplain]

end Component

namespace Design

def lasting : List String := ["name", "components"]

theorem mapFirst_mapFirst {f : Component → Component} (hf : ∀ c, (f c).id = c.id)
    (g : Component → Component) (id : Json) (d : Design) :
    (d.mapFirst id f).mapFirst id g = d.mapFirst id fun c => g (f c) := by
  have hfirst (cs : List Component) :
      modifyFirst id g (modifyFirst id f cs) = modifyFirst id (fun c => g (f c)) cs := by
    induction cs with
    | nil => rfl
    | cons c cs ih =>
      by_cases hc : c.id == id
      · simp [modifyFirst, hc, hf]
      · simp [modifyFirst, hc, ih]
  simp only [mapFirst, hfirst]

/-- The components before the first one with an id, and those after it, stay as they are. -/
theorem modifyFirst_append {id : Json} {f : Component → Component} {before after : List Component}
    {c : Component} (hbefore : ∀ e ∈ before, (e.id == id) = false) (hc : (c.id == id) = true) :
    modifyFirst id f (before ++ c :: after) = before ++ f c :: after := by
  induction before with
  | nil => simp [modifyFirst, hc]
  | cons e before ih =>
    obtain ⟨he, hrest⟩ := List.forall_mem_cons.mp hbefore
    simp [modifyFirst, he, ih hrest]

/-- At most the first component with an id differs, and it has its id still. -/
inductive FirstChanged (id : Json) (d : Design) : Design → Prop where
  | missing (h : d.find? id = none) : FirstChanged id d d
  | changed {before after : List Component} {c c' : Component}
    (hcomponents : d.components = before ++ c :: after)
    (hbefore : ∀ e ∈ before, (e.id == id) = false) (hc : (c.id == id) = true)
    (hid : c'.id = c.id) : FirstChanged id d { d with components := before ++ c' :: after }

theorem firstChanged_mapFirst {f : Component → Component} (hf : ∀ c, (f c).id = c.id) (id : Json)
    (d : Design) : FirstChanged id d (d.mapFirst id f) := by
  cases hfind : d.find? id with
  | none =>
    rw [mapFirst_of_find?_eq_none hfind]
    exact .missing hfind
  | some c =>
    obtain ⟨hc, before, after, hcomponents, hskipped⟩ := List.find?_eq_some_iff_append.mp hfind
    have hbefore : ∀ e ∈ before, (e.id == id) = false := fun e he => by simpa using hskipped e he
    rw [mapFirst, hcomponents, modifyFirst_append hbefore hc]
    exact .changed hcomponents hbefore hc (hf c)

/-- The components of an update that are listed can be made. -/
theorem exists_newComponents {v : Json} (h : ListsTakeable v) :
    ∃ cs, newComponents v = .ok cs := by
  obtain ⟨vs, rfl, hvs⟩ := h
  refine Partial.exists_mapM_eq_ok.mpr fun e he => ?_
  obtain ⟨fs, rfl, hfs⟩ := hvs e he
  obtain ⟨ss, -, hss⟩ := exists_connectionIds hfs.connections
  obtain ⟨ps, hps⟩ := exists_members hfs.properties
  exact ⟨_, Partial.bind_eq_ok.mpr ⟨_, hss, Partial.bind_eq_ok.mpr ⟨_, hps, rfl⟩⟩⟩

def componentsFrom (fs : Fields) (old : List Component) : Except Fault (List Component) :=
  match field fs "components" with
  | .null => .ok old
  | v => newComponents v

theorem update_of_componentsFrom {d : Design} {cs : List Component}
    (h : componentsFrom fs d.components = .ok cs) :
    d.update fs = .done { d.takeOver fs with components := cs } := by
  unfold componentsFrom at h
  split at h
  · rename_i hnull
    cases h
    rw [update_eq, hnull]
    rfl
  · exact update_of_newComponents h

theorem exists_componentsFrom (h : OrNull ListsTakeable (field fs "components"))
    (old : List Component) : ∃ cs, componentsFrom fs old = .ok cs := by
  unfold componentsFrom
  rcases h with hnull | hlists
  · rw [hnull]
    exact ⟨old, rfl⟩
  · obtain ⟨cs, hcs⟩ := exists_newComponents hlists
    split
    · exact ⟨old, rfl⟩
    · exact ⟨cs, hcs⟩

theorem componentsFrom_merge (h : Merges lasting u v m) {old cs : List Component}
    (hu : componentsFrom u old = .ok cs) : componentsFrom v cs = componentsFrom m old := by
  have hname : "components" ∈ lasting := by decide
  unfold componentsFrom field at *
  rw [h "components"]
  cases hget : Ordered.get? "components" v with
  | none => exact hu.symm
  | some value =>
    cases value with
    | null => simpa [hname] using hu.symm
    | _ => rfl

/-- Name and description are taken over one update after the other as from the merged one. -/
theorem takeOver_merge (h : Merges lasting u v m) (d : Design) (cs : List Component) :
    ({ d.takeOver u with components := cs } : Design).takeOver v =
      { d.takeOver m with components := cs } := by
  have hname := Component.keep_merge h (show "name" ∈ lasting by decide) d.name
  have hdescription : fieldOr v "description" (fieldOr u "description" d.description) =
      fieldOr m "description" d.description := by
    have hlasting : "description" ∉ lasting := by decide
    unfold fieldOr
    rw [h "description"]
    cases hget : Ordered.get? "description" v with
    | none => rfl
    | some value =>
      cases value with
      | null => simp [hlasting]
      | _ => rfl
  simp only [takeOver, hname, hdescription]

/-- Two updates of a design come to their merged one. -/
theorem update_merge (hu : OrNull ListsTakeable (field u "components"))
    (hv : OrNull ListsTakeable (field v "components")) (h : Merges lasting u v m) (d : Design) :
    ∃ d₁ d₂, d.update u = .done d₁ ∧ d₁.update v = .done d₂ ∧ d.update m = .done d₂ := by
  obtain ⟨cs, hcs⟩ := exists_componentsFrom hu d.components
  obtain ⟨ds, hds⟩ := exists_componentsFrom hv cs
  have hmerged : componentsFrom m d.components = .ok ds :=
    (componentsFrom_merge h hcs).symm.trans hds
  refine ⟨_, _, update_of_componentsFrom hcs, update_of_componentsFrom hds, ?_⟩
  rw [update_of_componentsFrom hmerged, takeOver_merge h]

/-- An update that can be taken over is done when the component is there. -/
theorem updateComponent_of_takeable (h : Takeable fs) (d : Design) (id : Json) :
    d.updateComponent id (.object fs) =
      if (d.find? id).isSome then .done (d.mapFirst id fun c => (c.update fs).component)
      else .missing := by
  unfold updateComponent
  cases d.find? id with
  | none => rfl
  | some c =>
    obtain ⟨connections, properties, -, -, hupdate⟩ := c.update_of_takeable h
    simp [Component.updateBy, hupdate]

end Design

inductive Part where
  | design
  | component (id : Json)

namespace Part

def lasting : Part → List String
  | design => Design.lasting
  | component _ => Component.lasting

/-- Whether the fields of an update have the types of what they replace, as far as they are
converted. Those that are not may have any. -/
def Takes : Part → Fields → Prop
  | design => fun fs => OrNull ListsTakeable (field fs "components")
  | component _ => Takeable

def edit (p : Part) (updates : Fields) (d : Design) : Edited :=
  match p with
  | design => d.updateBy (.object updates)
  | component id => d.updateComponent id (.object updates)

def updated (p : Part) (updates : Fields) (d : Design) : Design :=
  ((p.edit updates d).left?).getD d

variable {p : Part} {d d' : Design}

theorem updated_of_done (h : p.edit fs d = .done d') : p.updated fs d = d' := by
  rw [updated, h]
  rfl

theorem updated_component (h : Takeable fs) (id : Json) (d : Design) :
    (component id).updated fs d = d.mapFirst id fun c => (c.update fs).component := by
  unfold updated edit
  dsimp only
  rw [Design.updateComponent_of_takeable h]
  cases hfind : d.find? id with
  | none => exact (Design.mapFirst_of_find?_eq_none hfind _).symm
  | some c => rfl

/-- An update that can be taken over is done, unless its part is missing. -/
theorem edit_cases (h : p.Takes fs) (d : Design) :
    p.edit fs d = .done (p.updated fs d) ∨ p.edit fs d = .missing ∧ p.updated fs d = d := by
  cases p with
  | design =>
    obtain ⟨cs, hcs⟩ := Design.exists_componentsFrom h d.components
    have hdone : design.edit fs d = _ := Design.update_of_componentsFrom hcs
    exact .inl (by rw [updated_of_done hdone, hdone])
  | component id =>
    have hedit : (component id).edit fs d = _ := Design.updateComponent_of_takeable h d id
    cases hfind : d.find? id with
    | none =>
      rw [hfind] at hedit
      exact .inr ⟨hedit, by rw [updated, hedit]; rfl⟩
    | some c =>
      rw [hfind] at hedit
      exact .inl (by rw [updated_of_done hedit, hedit]; rfl)

theorem takes_of_merges (hu : p.Takes u) (hv : p.Takes v) (h : Merges p.lasting u v m) :
    p.Takes m := by
  cases p with
  | design => exact h.orNull hu hv
  | component id => exact h.takeable hu hv

/-- Two updates of a part come to their merged one. -/
theorem updated_merge (hu : p.Takes u) (hv : p.Takes v) (h : Merges p.lasting u v m)
    (d : Design) : p.updated v (p.updated u d) = p.updated m d := by
  cases p with
  | design =>
    obtain ⟨d₁, d₂, hfirst, hsecond, hmerged⟩ := Design.update_merge hu hv h d
    rw [updated_of_done (p := design) hfirst, updated_of_done (p := design) hsecond,
      updated_of_done (p := design) hmerged]
  | component id =>
    have hid (c : Component) : (c.update u).component.id = c.id := c.id_updateBy (.object u)
    rw [updated_component hu, updated_component hv, updated_component (h.takeable hu hv),
      Design.mapFirst_mapFirst hid]
    simp only [Component.update_merge hu hv h]

/-- The other components, and the id of the updated one, stay as they are. -/
theorem firstChanged_updated {id : Json} (h : (component id).Takes fs) (d : Design) :
    Design.FirstChanged id d ((component id).updated fs d) := by
  rw [updated_component h]
  exact Design.firstChanged_mapFirst (fun c => c.id_updateBy (.object fs)) id d

end Part

end MoveWorkbench
