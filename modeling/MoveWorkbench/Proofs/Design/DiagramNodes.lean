import MoveWorkbench.Proofs.Design.DiagramEdges
import MoveWorkbench.Proofs.Json.Numeral
import MoveWorkbench.Proofs.Workspace.Ids

/-!
Nodes of diagrams. A diagram knows components by identifiers, where an underscore stands for each
character that no word has. So two texts have one identifier just when they are alike: where they
differ, both have an underscore or what no word has. Components are kept apart in Mermaid as long
as no two ids are alike, and in PlantUML as long as no two names are, and then each edge leads from
one component and to one. Ids that were drawn are alike only when they are equal.
-/

namespace MoveWorkbench

open Json

namespace Diagram

/-- A character that an identifier has an underscore for. -/
def Loose (c : Char) : Prop := Text.isWord c = false ∨ c = '_'

def Alike (s t : String) : Prop :=
  List.Forall₂ (fun a b => a = b ∨ Loose a ∧ Loose b) s.toList t.toList

variable {s t : String}

/-- The character that an identifier has for a character. -/
theorem ite_isWord_eq_iff (a b : Char) :
    (if Text.isWord a then a else '_') = (if Text.isWord b then b else '_') ↔
      a = b ∨ Loose a ∧ Loose b := by
  have hword : Text.isWord '_' = true := Text.isWord_underscore
  unfold Loose
  by_cases ha : Text.isWord a <;> by_cases hb : Text.isWord b <;> grind

theorem identifier_eq_iff : identifier s = identifier t ↔ Alike s t := by
  unfold identifier Alike
  rw [String.ofList_inj, ← List.forall₂_eq_eq_eq, List.forall₂_map_left_iff,
    List.forall₂_map_right_iff]
  simp only [ite_isWord_eq_iff]

theorem identifierOf_eq {v : Json} (h : v.IsText) :
    identifierOf v = .ok (identifier v.display) := by
  obtain ⟨s, rfl⟩ := h
  rfl

theorem identifierOf_eq_iff {v w : Json} (hv : v.IsText) (hw : w.IsText) :
    identifierOf v = identifierOf w ↔ Alike v.display w.display := by
  rw [identifierOf_eq hv, identifierOf_eq hw, Except.ok.injEq, identifier_eq_iff]

/-- Among values that are different texts, different ones have different identifiers just when
different ones are not alike. -/
theorem nodup_identifierOf_iff {α : Type} {f : α → Json} {as : List α}
    (htext : ∀ a ∈ as, (f a).IsText) (h : (as.map f).Nodup) :
    (as.map fun a => identifierOf (f a)).Nodup ↔
      ∀ a ∈ as, ∀ b ∈ as, Alike (f a).display (f b).display → a = b := by
  rw [List.nodup_map_iff_inj_on h.of_map]
  refine forall₂_congr fun a ha => forall₂_congr fun b hb => ?_
  rw [identifierOf_eq_iff (htext a ha) (htext b hb)]

def bearers {α : Type} (f : α → Json) (as : List α) (name : String) : List α :=
  as.filter fun a => identifierOf (f a) = .ok name

/-- Where identifiers differ, the one item that goes by its identifier is the item itself. -/
theorem bearers_eq_singleton {α : Type} {f : α → Json} {as : List α}
    (h : (as.map fun a => identifierOf (f a)).Nodup) {a : α} (ha : a ∈ as) {name : String}
    (hname : identifierOf (f a) = .ok name) : bearers f as name = [a] := by
  induction as with
  | nil => exact absurd ha List.not_mem_nil
  | cons b as ih =>
    rw [List.map_cons, List.nodup_cons] at h
    unfold bearers at ih ⊢
    rcases List.mem_cons.mp ha with rfl | ha
    · have hothers : as.filter (fun b => identifierOf (f b) = .ok name) = [] := by
        refine List.filter_eq_nil_iff.mpr fun b hb hsame => h.1 ?_
        rw [hname, ← of_decide_eq_true hsame]
        exact List.mem_map_of_mem hb
      rw [List.filter_cons_of_pos (by simpa using hname), hothers]
    · have hother : identifierOf (f b) ≠ .ok name := by
        intro hsame
        refine h.1 ?_
        rw [hsame, ← hname]
        exact List.mem_map_of_mem ha
      rw [List.filter_cons_of_neg (by simpa using hother)]
      exact ih h.2 ha

theorem bearers_eq_nil {α : Type} {f : α → Json} {as : List α} {name : String}
    (h : ∀ a ∈ as, identifierOf (f a) ≠ .ok name) : bearers f as name = [] :=
  List.filter_eq_nil_iff.mpr fun a ha hsame => h a ha (of_decide_eq_true hsame)

/-- Texts that have one and the same loose character at most are alike only when they are equal. -/
theorem Alike.eq_of_loose {c : Char} (h : Alike s t) (hs : ∀ a ∈ s.toList, Loose a → a = c)
    (ht : ∀ a ∈ t.toList, Loose a → a = c) : s = t := by
  rw [← String.toList_inj, ← List.forall₂_eq_eq_eq]
  have hsides := (List.forall₂_and_left _ _).mpr
    ⟨hs, ((List.forall₂_and_left _ _).mpr ⟨ht, h.flip⟩).flip⟩
  refine hsides.imp fun a b hab => ?_
  obtain ⟨ha, hb, hsame | ⟨hloose, hloose'⟩⟩ := hab
  · exact hsame
  · rw [ha hloose, hb hloose']

theorem not_loose_of_isAlphanum {c : Char} (h : c.isAlphanum = true ∧ c.toNat < 128) :
    ¬ Loose c := by
  rintro (hword | rfl)
  · rw [Text.isWord_of_isAlphanum h.1 h.2] at hword
    cases hword
  · exact absurd h.1 (by decide)

theorem not_loose_of_isDigit {c : Char} (h : c.isDigit = true) : ¬ Loose c := by
  have hplace : c.toNat ≤ 57 := (Char.isDigit_iff_toNat.mp h).2
  exact not_loose_of_isAlphanum ⟨by simp [Char.isAlphanum, h], by omega⟩

/-- In an id that was drawn for a component only hyphens are loose. -/
theorem eq_hyphen_of_loose (t : ℤ) (n : ℕ) :
    ∀ a ∈ (Workspace.idText "comp" t n).toList, Loose a → a = '-' := by
  have htag : ∀ a ∈ "comp".toList, Loose a → a = '-' := by
    have hletter : ∀ a ∈ "comp".toList, a.isAlphanum = true ∧ a.toNat < 128 := by decide
    exact fun a ha hloose => absurd hloose (not_loose_of_isAlphanum (hletter a ha))
  have hhyphen : ∀ a ∈ "-".toList, Loose a → a = '-' := fun a ha _ => List.mem_singleton.mp ha
  have htime : ∀ a ∈ (toString t).toList, Loose a → a = '-' := by
    have hdigits : ∀ a ∈ Nat.toDigits 10 t.natAbs, Loose a → a = '-' :=
      fun a ha hloose => absurd hloose (not_loose_of_isDigit (Json.isDigit_of_mem_toDigits ha))
    rw [Json.toList_toString_int]
    unfold signed
    split
    · exact List.forall_mem_cons.mpr ⟨fun _ => rfl, hdigits⟩
    · exact hdigits
  have hnumber : ∀ a ∈ Text.padZeros 9 (Text.digitsIn 36 n), Loose a → a = '-' := by
    have hdigit : ∀ k < 36, (Text.digitChar k).isAlphanum = true ∧
        (Text.digitChar k).toNat < 128 := by decide
    intro a ha hloose
    obtain ⟨k, hk, rfl⟩ := Text.mem_padZeros_digitsIn (by omega) 9 n ha
    exact absurd hloose (not_loose_of_isAlphanum (hdigit k hk))
  unfold Workspace.idText
  simp only [String.toList_append, String.toList_ofList, List.forall_mem_append]
  exact ⟨⟨⟨⟨htag, hhyphen⟩, htime⟩, hhyphen⟩, hnumber⟩

end Diagram

namespace Design

open Diagram

variable {d : Design}

/-- Different components have different nodes in Mermaid, and none of them is a node of an id that
nothing has. -/
structure NodesApart (d : Design) : Prop where
  components : (d.components.map fun c => identifierOf c.id).Nodup
  strangers : ∀ e ∈ d.links, d.find? e.2 = none →
    ∀ c ∈ d.components, identifierOf c.id ≠ identifierOf e.2

def ClassesApart (d : Design) : Prop := (d.components.map fun c => identifierOf c.name).Nodup

/-- All that the parts of a design are referred to by is text, and no two components have one id or
one name. -/
structure Distinguished (d : Design) : Prop where
  spelled : d.Spelled
  ids : (d.components.map (·.id)).Nodup
  names : (d.components.map (·.name)).Nodup

/-- A line with an edge from the one node of a component to the node of a connection, which is that
of the one component with the id, or of none. -/
def NodeEdge (d : Design) (e : Component × Json) (line : String) : Prop :=
  ∃ a b, line = "    " ++ a ++ " --> " ++ b ∧ bearers (·.id) d.components a = [e.1] ∧
    bearers (·.id) d.components b = (d.find? e.2).toList

def ClassEdge (d : Design) (e : Component × Component) (line : String) : Prop :=
  ∃ a b, line = a ++ " --> " ++ b ∧ bearers (·.name) d.components a = [e.1] ∧
    bearers (·.name) d.components b = [e.2]

theorem mem_components_of_mem_links {e : Component × Json} (h : e ∈ d.links) :
    e.1 ∈ d.components ∧ e.2 ∈ e.1.connections := by
  obtain ⟨c, hc, he⟩ := List.mem_flatMap.mp h
  obtain ⟨v, hv, rfl⟩ := List.mem_map.mp he
  exact ⟨hc, hv⟩

/-- Where nodes are kept apart, each edge of Mermaid leads from one component and to one. -/
theorem NodesApart.nodeEdge (h : d.NodesApart) (hspelled : d.Spelled) {e : Component × Json}
    (he : e ∈ d.links) {line : String} (hline : edgeLine e.1 e.2 = .ok line) :
    d.NodeEdge e line := by
  obtain ⟨hsource, hv⟩ := mem_components_of_mem_links he
  obtain ⟨a, ha, hrest⟩ := Partial.bind_eq_ok.mp hline
  obtain ⟨b, hb, hline⟩ := Partial.bind_eq_ok.mp hrest
  cases hline
  refine ⟨a, b, rfl, bearers_eq_singleton h.components hsource ha, ?_⟩
  cases hfind : d.find? e.2 with
  | none =>
    refine bearers_eq_nil fun c hc => ?_
    rw [← hb]
    exact h.strangers e he hfind c hc
  | some t =>
    unfold find? at hfind
    have hsame := List.find?_some hfind
    obtain ⟨s, hs⟩ := (hspelled _ hsource).connections _ hv
    rw [hs] at hsame
    refine bearers_eq_singleton h.components (List.mem_of_find?_eq_some hfind) ?_
    rw [beq_text.mp hsame, ← hs, hb]

theorem NodesApart.mermaidEdges (h : d.NodesApart) (hspelled : d.Spelled) :
    ∃ edges, d.mermaidEdges = .ok edges ∧ List.Forall₂ d.NodeEdge d.links edges := by
  obtain ⟨edges, hedges⟩ := exists_mermaidEdges_iff.mpr fun c hc v hv =>
    ⟨(hspelled c hc).id, (hspelled c hc).connections v hv⟩
  exact ⟨edges, hedges, (Partial.forall₂_of_mapM hedges).imp fun e line hline =>
    h.nodeEdge hspelled hline.1 hline.2⟩

/-- Where classes are kept apart, each edge of PlantUML leads from one component and to one. -/
theorem ClassesApart.referenceLines (h : d.ClassesApart) (hspelled : d.Spelled) :
    ∃ lines, d.referenceLines = .ok lines ∧ List.Forall₂ d.ClassEdge d.resolved lines := by
  obtain ⟨lines, hlines⟩ := exists_referenceLines fun c hc => (hspelled c hc).name
  have hmade := hlines
  unfold Design.referenceLines at hmade
  rw [flatMap_targets_eq_resolved] at hmade
  refine ⟨lines, hlines, (Partial.forall₂_of_mapM hmade).imp fun e line hline => ?_⟩
  obtain ⟨he, hline⟩ := hline
  obtain ⟨hsource, htarget⟩ := mem_components_of_mem_resolved he
  obtain ⟨a, ha, hrest⟩ := Partial.bind_eq_ok.mp hline
  obtain ⟨b, hb, hline⟩ := Partial.bind_eq_ok.mp hrest
  cases hline
  exact ⟨a, b, rfl, bearers_eq_singleton h hsource ha, bearers_eq_singleton h htarget hb⟩

/-- Components whose ids differ and were drawn have different nodes. -/
theorem nodup_nodes_of_drawn (h : (d.components.map (·.id)).Nodup)
    (hdrawn : ∀ c ∈ d.components, ∃ t n, c.id = .text (Workspace.idText "comp" t n)) :
    (d.components.map fun c => identifierOf c.id).Nodup := by
  have htext : ∀ c ∈ d.components, c.id.IsText := by
    intro c hc
    obtain ⟨t, n, hid⟩ := hdrawn c hc
    exact ⟨_, hid⟩
  refine (nodup_identifierOf_iff htext h).mpr fun c hc c' hc' halike => ?_
  obtain ⟨t, n, hid⟩ := hdrawn c hc
  obtain ⟨t', n', hid'⟩ := hdrawn c' hc'
  rw [hid, hid', display_text, display_text] at halike
  have hsame := halike.eq_of_loose (eq_hyphen_of_loose t n) (eq_hyphen_of_loose t' n')
  refine List.inj_on_of_nodup_map h hc hc' ?_
  rw [hid, hid', hsame]

/-- Of components with different ids and names, the nodes in Mermaid are kept apart just when no two
ids are alike and none is like the id of a connection to nothing, and the classes in PlantUML just
when no two names are alike. Then each edge leads from one component and to one. Nodes of ids that
were drawn are always kept apart from each other. -/
theorem Distinguished.apart_iff (h : d.Distinguished) :
    (d.NodesApart ↔
      (∀ c ∈ d.components, ∀ c' ∈ d.components, Alike c.id.display c'.id.display → c = c') ∧
        ∀ e ∈ d.links, d.find? e.2 = none →
          ∀ c ∈ d.components, ¬ Alike c.id.display e.2.display) ∧
    (d.NodesApart →
      ∃ edges, d.mermaidEdges = .ok edges ∧ List.Forall₂ d.NodeEdge d.links edges) ∧
    ((∀ c ∈ d.components, ∃ t n, c.id = .text (Workspace.idText "comp" t n)) →
      (d.components.map fun c => identifierOf c.id).Nodup) ∧
    (d.ClassesApart ↔
      ∀ c ∈ d.components, ∀ c' ∈ d.components, Alike c.name.display c'.name.display → c = c') ∧
    (d.ClassesApart →
      ∃ lines, d.referenceLines = .ok lines ∧ List.Forall₂ d.ClassEdge d.resolved lines) := by
  have hids := nodup_identifierOf_iff (fun c hc => (h.spelled c hc).id) h.ids
  have hnames := nodup_identifierOf_iff (fun c hc => (h.spelled c hc).name) h.names
  have hstranger {e : Component × Json} (he : e ∈ d.links) {c : Component}
      (hc : c ∈ d.components) :
      identifierOf c.id ≠ identifierOf e.2 ↔ ¬ Alike c.id.display e.2.display := by
    obtain ⟨hsource, hv⟩ := mem_components_of_mem_links he
    exact not_congr
      (identifierOf_eq_iff (h.spelled c hc).id ((h.spelled _ hsource).connections _ hv))
  refine ⟨?_, (·.mermaidEdges h.spelled), nodup_nodes_of_drawn h.ids, hnames,
    (·.referenceLines h.spelled)⟩
  constructor
  · intro hapart
    exact ⟨hids.mp hapart.components, fun e he hnone c hc =>
      (hstranger he hc).mp (hapart.strangers e he hnone c hc)⟩
  · intro halike
    exact ⟨hids.mpr halike.1, fun e he hnone c hc =>
      (hstranger he hc).mpr (halike.2 e he hnone c hc)⟩

def bankNamed (id id' name name' : String) : Design where
  name := .text "Bank"
  description := .null
  components := [
    ⟨.text id, .text "object", .text name, .int 0, .int 0, [.text id', .text "x"], []⟩,
    ⟨.text id', .text "resource", .text name', .int 0, .int 0, [], []⟩]

theorem distinguished_bankNamed {id id' name name' : String} (hid : id ≠ id')
    (hname : name ≠ name') : (bankNamed id id' name name').Distinguished := by
  refine ⟨?_, ?_, ?_⟩
  · refine List.forall_mem_cons.mpr ⟨⟨⟨id, rfl⟩, ⟨"object", rfl⟩, ⟨name, rfl⟩, ?_⟩,
      List.forall_mem_singleton.mpr ⟨⟨id', rfl⟩, ⟨"resource", rfl⟩, ⟨name', rfl⟩, ?_⟩⟩
    · exact List.forall_mem_cons.mpr ⟨⟨id', rfl⟩, List.forall_mem_singleton.mpr ⟨"x", rfl⟩⟩
    · exact fun v hv => absurd hv List.not_mem_nil
  · exact List.nodup_cons.mpr ⟨by simpa using hid, List.nodup_singleton _⟩
  · exact List.nodup_cons.mpr ⟨by simpa using hname, List.nodup_singleton _⟩

/-- Two ids and two names that are not alike. -/
theorem apart_iff_bank :
    let d := bankNamed "a-1" "b-1" "Gold Vault" "Gold Coin"
    d.Distinguished ∧ d.NodesApart ∧ d.ClassesApart ∧
      (∀ e ∈ d.links, d.find? e.2 = none → ∀ c ∈ d.components, ¬ Alike c.id.display e.2.display) ∧
      (∃ edges, d.mermaidEdges = .ok edges ∧ List.Forall₂ d.NodeEdge d.links edges) ∧
      ∃ lines, d.referenceLines = .ok lines ∧ List.Forall₂ d.ClassEdge d.resolved lines := by
  intro d
  have h : d.Distinguished := distinguished_bankNamed (by decide) (by decide)
  obtain ⟨hnodes, hedges, -, -, hlines⟩ := h.apart_iff
  have hapart : d.NodesApart := ⟨by decide +kernel, by decide +kernel⟩
  have hclasses : d.ClassesApart := by
    unfold ClassesApart
    decide +kernel
  exact ⟨h, hapart, hclasses, (hnodes.mp hapart).2, hedges hapart, hlines hclasses⟩

/-- Two ids that differ by a hyphen and an underscore are one node, and two names that differ by a
blank and an underscore are one class. -/
theorem not_apart_of_alike :
    let d := bankNamed "a-b" "a_b" "Gold Coin" "Gold_Coin"
    d.Distinguished ∧ ¬ d.NodesApart ∧ ¬ d.ClassesApart ∧
      bearers (·.id) d.components "a_b" = d.components ∧
      bearers (·.name) d.components "Gold_Coin" = d.components := by
  intro d
  have hnodes : ¬ (d.components.map fun c => identifierOf c.id).Nodup := by decide +kernel
  have hclasses : ¬ (d.components.map fun c => identifierOf c.name).Nodup := by decide +kernel
  exact ⟨distinguished_bankNamed (by decide) (by decide), fun h => hnodes h.components, hclasses,
    rfl, rfl⟩

end Design

end MoveWorkbench
