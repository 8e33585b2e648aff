import MoveWorkbench.Design.Validation
import MoveWorkbench.Proofs.Design.Exportable
import MoveWorkbench.Proofs.Partial

/-!
When the problems of a design can be told. Ids, names and connections are looked up, so they
have to be atoms, and names that come more than once are put into a message, so they have to
be texts. Nothing else stands in the way.
-/

namespace MoveWorkbench

namespace Json

def IsAtom (v : Json) : Prop := ∃ a : Atom, v = a.toJson

theorem atom_eq_ok {v : Json} {a : Atom} : v.atom = .ok a ↔ v = a.toJson := by
  constructor
  · intro h
    cases v <;> cases h <;> rfl
  · rintro rfl
    cases a <;> rfl

theorem exists_atom_iff {v : Json} : (∃ a, v.atom = .ok a) ↔ v.IsAtom :=
  exists_congr fun _ => atom_eq_ok

theorem isAtom_iff {v : Json} : v.IsAtom ↔ v.atom?.isSome = true := by
  rw [← exists_atom_iff, Option.isSome_iff_exists]
  unfold atom
  cases v.atom? <;> simp

theorem exists_key_iff {v : Json} : (∃ k, v.key = .ok k) ↔ v.IsAtom := by
  rw [← exists_atom_iff]
  constructor
  · intro h
    obtain ⟨k, hk⟩ := h
    obtain ⟨a, ha, -⟩ := Partial.map_eq_ok.mp hk
    exact ⟨a, ha⟩
  · intro h
    obtain ⟨a, ha⟩ := h
    exact ⟨a.key, Partial.map_eq_ok.mpr ⟨a, ha, rfl⟩⟩

theorem IsText.isAtom {v : Json} (h : v.IsText) : v.IsAtom := by
  obtain ⟨s, rfl⟩ := h
  exact ⟨.text s, rfl⟩

/-- Atoms agree when they are the same id. -/
theorem agrees_toJson {a b : Atom} : a.toJson.agrees b.toJson = true ↔ a.key = b.key := by
  cases a <;> cases b <;> simp [agrees, Atom.toJson, atom?, Atom.beq_iff]

theorem isText_toJson {a : Atom} : a.toJson.IsText ↔ ∃ s, a.key = .text s := by
  cases a <;> simp [IsText, Atom.toJson, Atom.key]

end Json

def Component.Linked (c : Component) : Prop := ∀ v ∈ c.connections, v.IsAtom

namespace Design

open Json

/-- What holds of the keys that come again holds of all keys with a second place. -/
theorem forall_mem_repeatedFrom {P : Key → Prop} {seen repeated : List Key} {as : List Atom}
    (hrepeated : ∀ k ∈ repeated, P k) :
    (∀ a ∈ repeatedFrom seen repeated as, P a.key) ↔
      (∀ a ∈ as, a.key ∈ seen → P a.key) ∧ as.Pairwise fun a b => a.key = b.key → P a.key := by
  induction as generalizing seen repeated with
  | nil => simp [repeatedFrom]
  | cons a as ih =>
    rw [repeatedFrom, List.forall_mem_cons, List.pairwise_cons]
    split
    · rename_i hnew
      rw [List.forall_mem_cons]
      constructor
      · intro h
        obtain ⟨ha, hrest⟩ := h
        have hmore : ∀ k ∈ a.key :: repeated, P k := List.forall_mem_cons.mpr ⟨ha, hrepeated⟩
        obtain ⟨hseen, hpairs⟩ := (ih hmore).mp hrest
        exact ⟨⟨fun _ => ha, hseen⟩, fun _ _ _ => ha, hpairs⟩
      · intro h
        obtain ⟨⟨ha, hseen⟩, -, hpairs⟩ := h
        have hmore : ∀ k ∈ a.key :: repeated, P k :=
          List.forall_mem_cons.mpr ⟨ha hnew.1, hrepeated⟩
        exact ⟨ha hnew.1, (ih hmore).mpr ⟨hseen, hpairs⟩⟩
    · rename_i hold
      have ha : a.key ∈ seen → P a.key := by
        intro hmem
        have hagain : a.key ∈ repeated := by
          by_contra hnot
          exact hold ⟨hmem, hnot⟩
        exact hrepeated _ hagain
      rw [ih hrepeated]
      constructor
      · intro h
        obtain ⟨hseen, hpairs⟩ := h
        refine ⟨⟨ha, fun b hb hmem => hseen b hb (List.mem_cons_of_mem _ hmem)⟩, ?_, hpairs⟩
        intro b hb heq
        rw [heq]
        exact hseen b hb (heq ▸ List.mem_cons_self)
      · intro h
        obtain ⟨⟨-, hseen⟩, hhead, hpairs⟩ := h
        refine ⟨fun b hb hmem => ?_, hpairs⟩
        rcases List.mem_cons.mp hmem with heq | hmem
        · rw [heq]
          exact hhead b hb heq.symm
        · exact hseen b hb hmem

theorem forall_mem_repeated (P : Key → Prop) {as : List Atom} :
    (∀ a ∈ repeated as, P a.key) ↔ as.Pairwise fun a b => a.key = b.key → P a.key := by
  unfold repeated
  rw [forall_mem_repeatedFrom (fun _ hk => absurd hk List.not_mem_nil)]
  exact and_iff_right fun _ _ hmem => absurd hmem List.not_mem_nil

structure Labelled (d : Design) : Prop where
  id : ∀ c ∈ d.components, c.id.IsAtom
  name : ∀ c ∈ d.components, c.name.IsAtom
  shared : (d.components.map (·.name)).Pairwise fun v w => v.agrees w = true → v.IsText

def Linked (d : Design) : Prop := ∀ c ∈ d.components, c.Linked

variable {d : Design}

theorem labelled_of_text_names (hid : ∀ c ∈ d.components, c.id.IsAtom)
    (hname : ∀ c ∈ d.components, c.name.IsText) : d.Labelled := by
  refine ⟨hid, fun c hc => (hname c hc).isAtom, ?_⟩
  rw [List.pairwise_map]
  exact List.pairwise_of_forall_mem_list fun c hc _ _ _ => hname c hc

theorem labelled_of_texts (hid : ∀ c ∈ d.components, c.id.IsText)
    (hname : ∀ c ∈ d.components, c.name.IsText) : d.Labelled :=
  labelled_of_text_names (fun c hc => (hid c hc).isAtom) hname

theorem exists_joinable_iff {a : Atom} : (∃ s, joinable a = .ok s) ↔ ∃ s, a.key = .text s := by
  cases a <;> simp [joinable, Atom.key]

theorem mapM_names_eq_ok {cs : List Component} {as : List Atom} :
    cs.mapM (fun c => c.name.atom) = .ok as ↔ cs.map (·.name) = as.map (·.toJson) := by
  rw [Partial.mapM_eq_ok, ← List.forall₂_eq_eq_eq, List.forall₂_map_left_iff,
    List.forall₂_map_right_iff]
  simp only [atom_eq_ok]

theorem exists_sharedNames_iff : (∃ names, d.sharedNames = .ok names) ↔
    (∀ c ∈ d.components, c.name.IsAtom) ∧
      (d.components.map (·.name)).Pairwise fun v w => v.agrees w = true → v.IsText := by
  constructor
  · intro h
    obtain ⟨names, hnames⟩ := h
    obtain ⟨as, has, hjoined⟩ := Partial.bind_eq_ok.mp hnames
    have hatoms := Partial.exists_mapM_eq_ok.mp ⟨as, has⟩
    have htexts : ∀ a ∈ repeated as, ∃ s, a.key = .text s := fun a ha =>
      exists_joinable_iff.mp (Partial.exists_mapM_eq_ok.mp ⟨names, hjoined⟩ a ha)
    refine ⟨fun c hc => exists_atom_iff.mp (hatoms c hc), ?_⟩
    rw [mapM_names_eq_ok.mp has, List.pairwise_map]
    simp only [agrees_toJson, isText_toJson]
    exact (forall_mem_repeated fun k => ∃ s, k = .text s).mp htexts
  · intro h
    obtain ⟨hatoms, hpairs⟩ := h
    obtain ⟨as, has⟩ := Partial.exists_mapM_eq_ok.mpr fun c hc => exists_atom_iff.mpr (hatoms c hc)
    rw [mapM_names_eq_ok.mp has, List.pairwise_map] at hpairs
    simp only [agrees_toJson, isText_toJson] at hpairs
    have htexts : ∀ a ∈ repeated as, ∃ s, a.key = .text s :=
      (forall_mem_repeated fun k => ∃ s, k = .text s).mpr hpairs
    obtain ⟨names, hjoined⟩ := Partial.exists_mapM_eq_ok.mpr fun a ha =>
      exists_joinable_iff.mpr (htexts a ha)
    exact ⟨names, Partial.bind_eq_ok.mpr ⟨as, has, hjoined⟩⟩

theorem exists_graph_iff : (∃ graph, d.graph = .ok graph) ↔
    ∀ c ∈ d.components, c.id.IsAtom ∧ ∀ v ∈ c.connections, v.IsAtom := by
  unfold graph
  rw [Partial.exists_mapM_eq_ok]
  refine forall₂_congr fun c _ => ?_
  have hkeys : (∃ ks, c.connections.mapM Json.key = .ok ks) ↔ ∀ v ∈ c.connections, v.IsAtom := by
    simp only [Partial.exists_mapM_eq_ok, exists_key_iff]
  rw [← exists_key_iff, ← hkeys]
  constructor
  · intro h
    obtain ⟨entry, hentry⟩ := h
    obtain ⟨k, hk, hrest⟩ := Partial.bind_eq_ok.mp hentry
    obtain ⟨ks, hks, -⟩ := Partial.bind_eq_ok.mp hrest
    exact ⟨⟨k, hk⟩, ks, hks⟩
  · intro h
    obtain ⟨⟨k, hk⟩, ks, hks⟩ := h
    exact ⟨(k, ks), Partial.bind_eq_ok.mpr ⟨k, hk, Partial.bind_eq_ok.mpr ⟨ks, hks, rfl⟩⟩⟩

/-- The problems of a design can be told just when it is labelled and linked. -/
theorem exists_problems_iff : (∃ ps, d.problems = .ok ps) ↔ d.Labelled ∧ d.Linked := by
  have hparts : (∃ ps, d.problems = .ok ps) ↔
      (∃ names, d.sharedNames = .ok names) ∧ ∃ graph, d.graph = .ok graph := by
    constructor
    · intro h
      obtain ⟨ps, hps⟩ := h
      obtain ⟨names, hnames, hrest⟩ := Partial.bind_eq_ok.mp hps
      obtain ⟨graph, hgraph, -⟩ := Partial.bind_eq_ok.mp hrest
      exact ⟨⟨names, hnames⟩, graph, hgraph⟩
    · intro h
      obtain ⟨⟨names, hnames⟩, graph, hgraph⟩ := h
      exact ⟨_, Partial.bind_eq_ok.mpr ⟨names, hnames,
        Partial.bind_eq_ok.mpr ⟨graph, hgraph, rfl⟩⟩⟩
  rw [hparts, exists_sharedNames_iff, exists_graph_iff]
  constructor
  · intro h
    obtain ⟨⟨hname, hshared⟩, hgraph⟩ := h
    exact ⟨⟨fun c hc => (hgraph c hc).1, hname, hshared⟩, fun c hc => (hgraph c hc).2⟩
  · intro h
    obtain ⟨⟨hid, hname, hshared⟩, hlinked⟩ := h
    exact ⟨⟨hname, hshared⟩, fun c hc => ⟨hid c hc, hlinked c hc⟩⟩

end Design

end MoveWorkbench
