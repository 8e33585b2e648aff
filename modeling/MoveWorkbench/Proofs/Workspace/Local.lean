import MoveWorkbench.Proofs.Workspace.Studio

/-!
Edits of stored designs are local. An order about a design either finds that something is not
there and leaves all as it was, or it is done: then the design that it is about has the present
time, and all else that is stored is left alone. This takes that no object is handed over that
another design lists: two designs that share an object are both changed by an edit of it.
-/

namespace MoveWorkbench

namespace Workspace

open Json

/-- Whether what an order is about is not there: the design, or in it the component that the order
needs. -/
def Absent {σ : Type} (w : Workspace) (o : Order σ) (id : Json) : Prop :=
  w.addressed? id = none ∨
    ∃ r component, w.addressed? id = some r ∧ o.component? = some component ∧
      ∀ e ∈ r.design.components, (e.id == component) = false

/-- A workspace in which a design was replaced at the present time, and some ids were drawn. -/
structure Replaced (w : Workspace) (r r' : StoredDesign) (draws : ℕ) (left : Workspace) : Prop where
  id : r'.id = r.id
  createdAt : r'.createdAt = r.createdAt
  updatedAt : r'.updatedAt.micros = w.clock
  stored : left.design? (.text r.id) = some r'
  others : ∀ a, (Atom.text r.id == a) = false → left.design? a = w.design? a
  order : left.designs.ids = w.designs.ids
  analyses : left.analyses = w.analyses
  clock : left.clock = w.clock
  drawn : left.drawn = w.drawn + draws

structure Touched (w : Workspace) (c : Call) (r r' : StoredDesign) (left : Workspace) : Prop
    extends Replaced w r r' c.draws left where
  content : ∃ fresh, c.edit fresh r.design = .done r'.design

variable {w : Workspace} {id : Json} {r : StoredDesign}

/-- An edit misses something just when the component that it needs is not there. -/
theorem absent_iff {o : Order Component.Supply} (ho : o.address? = some id)
    (hr : w.addressed? id = some r) {fresh : String} :
    w.Absent o id ↔ o.edit fresh r.design = .missing := by
  rw [Order.edit_eq_missing_iff ho]
  have hfind (component : Json) : r.design.find? component = none ↔
      ∀ e ∈ r.design.components, (e.id == component) = false := by
    simp [Design.find?, List.find?_eq_none]
  simp only [Absent, hr, reduceCtorEq, false_or, Option.some.injEq, exists_and_left,
    exists_eq_left', hfind]

theorem WellKept.replaced (h : WellKept w) (hr : w.addressed? id = some r) (d : Design)
    {t : Instant} (ht : w.now = .ok t) (n : ℕ) :
    Replaced w r { r with design := d, updatedAt := t } n
      ({ w with drawn := w.drawn + n }.putDesign { r with design := d, updatedAt := t }) := by
  obtain ⟨a, -, ha⟩ := exists_atom_of_addressed? hr
  refine ⟨rfl, rfl, now_eq_ok.mp ht, ?_, ?_, h.ids_put_design ha _, rfl, rfl, rfl⟩
  · rw [design?_putDesign, if_pos BEq.rfl]
  · intro b hb
    rw [design?_putDesign, if_neg (by simp [hb])]
    rfl

theorem WellKept.touched (h : WellKept w) {c : Call} {fresh : String} {d : Design} {t : Instant}
    (hr : w.addressed? id = some r) (hedit : c.edit fresh r.design = .done d)
    (ht : w.now = .ok t) :
    Touched w c r { r with design := d, updatedAt := t }
      ((w.drawFor c).putDesign { r with design := d, updatedAt := t }) :=
  ⟨h.replaced hr d ht c.draws, fresh, hedit⟩

theorem withId_of_ok {id : Json} {f : Atom → Answer (Option StoredDesign)}
    {answer : Option StoredDesign} (hok : (w.withId id f).1 = .ok answer) :
    ∃ a, id.atom? = some a ∧ w.withId id f = f a := by
  unfold withId atom at hok ⊢
  cases ha : id.atom? with
  | none =>
    rw [ha] at hok
    cases hok
  | some a => exact ⟨a, rfl, rfl⟩

/-- An edit that does not fail finds no design, misses something in it, or replaces it. -/
theorem WellKept.none_or_replaced (h : WellKept w) {a : Atom} (ha : id.atom? = some a)
    {f : Design → Edited} {answer : Option StoredDesign} (hok : (w.edit a f).1 = .ok answer) :
    answer = none ∧ (w.addressed? id = none ∨
        ∃ r, w.addressed? id = some r ∧ f r.design = .missing) ∨
      ∃ r r', answer = some r' ∧ w.addressed? id = some r ∧ f r.design = .done r'.design ∧
        Replaced w r r' 0 (w.edit a f).2 := by
  obtain ⟨t, ht⟩ := h.clock
  have hnow : w.now = .ok t := now_eq ht
  rw [addressed?_eq ha]
  unfold edit at hok ⊢
  cases hr : w.design? a with
  | none =>
    simp only [hr] at hok
    cases hok
    exact .inl ⟨rfl, .inl rfl⟩
  | some r =>
    simp only [hr] at hok ⊢
    cases hedit : f r.design with
    | missing =>
      rw [hedit] at hok
      cases hok
      exact .inl ⟨rfl, .inr ⟨r, rfl, hedit⟩⟩
    | stopped fault d =>
      rw [hedit] at hok
      cases hok
    | done d =>
      simp only [hedit, settle, hnow] at hok ⊢
      cases hok
      exact .inr ⟨r, _, rfl, rfl, hedit, h.replaced ((addressed?_eq ha).trans hr) d hnow 0⟩

/-- An order that does not fail misses what it is about, or is done and replaces the design. -/
theorem WellKept.absent_or_replaced (h : WellKept w) {o : Order Component.Supply}
    (ho : o.address? = some id) {answer : Option StoredDesign} (hok : (w.obey o).1 = .ok answer) :
    answer = none ∧ w.Absent o id ∨
      ∃ r r', answer = some r' ∧ ¬ w.Absent o id ∧ w.addressed? id = some r ∧
        (∃ fresh, o.edit fresh r.design = .done r'.design) ∧
        Replaced w r r' o.draws (w.obey o).2 := by
  have hdone {r : StoredDesign} {fresh : String} {d : Design} (hr : w.addressed? id = some r)
      (hedit : o.edit fresh r.design = .done d) : ¬ w.Absent o id := by
    intro habsent
    rw [(absent_iff ho hr).mp habsent] at hedit
    cases hedit
  cases o with
  | call c =>
    have houtcome := h.outcome c
    change (w.perform c).1 = .ok answer at hok
    change _ ∨ ∃ r r', _ ∧ _ ∧ _ ∧ _ ∧ Replaced w r r' c.draws (w.perform c).2
    generalize w.perform c = outcome at hok houtcome ⊢
    cases houtcome with
    | refused => cases hok
    | made hd =>
      cases hd <;> cases ho
    | unknown hid hr =>
      cases hok
      obtain rfl := Option.some.inj (ho.symm.trans hid)
      exact .inl ⟨rfl, .inl hr⟩
    | missing hid hr hedit =>
      cases hok
      obtain rfl := Option.some.inj (ho.symm.trans hid)
      exact .inl ⟨rfl, (absent_iff ho hr).mpr hedit⟩
    | stopped => cases hok
    | done hid hr hedit ht =>
      cases hok
      obtain rfl := Option.some.inj (ho.symm.trans hid)
      exact .inr ⟨_, _, rfl, hdone hr hedit, hr, ⟨_, hedit⟩, h.replaced hr _ ht c.draws⟩
  | updateWith design updates supplies =>
    cases ho
    change (w.withId id fun a => w.edit a (·.updateWith updates supplies)).1 = .ok answer at hok
    change _ ∨ ∃ r r', _ ∧ _ ∧ _ ∧ _ ∧
      Replaced w r r' 0 (w.withId id fun a => w.edit a (·.updateWith updates supplies)).2
    obtain ⟨a, ha, hwith⟩ := withId_of_ok hok
    rw [hwith] at hok ⊢
    rcases h.none_or_replaced ha hok with ⟨rfl, hr | ⟨r, hr, hedit⟩⟩ | ⟨r, r', rfl, hr, hedit, hleft⟩
    · exact .inl ⟨rfl, .inl hr⟩
    · have hmissing : (Order.updateWith id updates supplies).edit "" r.design = .missing := hedit
      exact .inl ⟨rfl, (absent_iff rfl hr).mpr hmissing⟩
    · have hcontent : (Order.updateWith id updates supplies).edit "" r.design = .done r'.design :=
        hedit
      exact .inr ⟨r, r', rfl, hdone hr hcontent, hr, ⟨"", hcontent⟩, hleft⟩

end Workspace

namespace Studio

open Workspace

variable {s : Studio}

/-- What an order that is done leaves of a studio, in which it edits the design `r`. -/
structure Touched (s : Studio) (o : Order Handed) (r r' : StoredDesign) (left : Studio) : Prop
    extends Replaced s.seen r r' o.draws left.seen where
  content : ∃ fresh, (o.seen s.heap).edit fresh r.design = .done r'.design

/-- As long as no object is handed over that another design lists, an order about a design that
does not fail answers with nothing and changes nothing, or it answers with the design as it is now
and changes nothing else. It does the first just when what it is about is not there. -/
theorem Reached.absent_or_touched {allowed : Studio → Order Handed → Prop} {made : Component → Prop}
    (h : Reached allowed made s) (hfree : ∀ s o, allowed s o → s.Free o.target? o.handed)
    {o : Order Handed} (ho : s.Free o.target? o.handed) {id : Json} (hid : o.address? = some id)
    {answer : Option StoredDesign} (hok : (s.perform o).1 = .ok answer) :
    (answer = none ∧ s.seen.Absent o id ∧ (s.perform o).2 = s) ∨
      ∃ r r', answer = some r' ∧ ¬ s.seen.Absent o id ∧ s.seen.addressed? id = some r ∧
        Touched s o r r' (s.perform o).2 := by
  obtain ⟨hexclusive, hkept⟩ := h.exclusive hfree
  have hmirrors := hexclusive.mirrors ho
  have hobeyed := hkept.absent_or_replaced ((o.address?_seen s.heap).trans hid)
    (hmirrors.answer.symm.trans hok)
  have habsent : s.seen.Absent (o.seen s.heap) id ↔ s.seen.Absent o id := by
    cases o <;> exact Iff.rfl
  have hdraws : (o.seen s.heap).draws = o.draws := by
    cases o <;> rfl
  rw [habsent, hdraws, ← hmirrors.left] at hobeyed
  rcases hobeyed with ⟨rfl, hlacks⟩ | ⟨r, r', hanswer, hlacks, hr, hcontent, hreplaced⟩
  · exact .inl ⟨rfl, hlacks, perform_of_none hok⟩
  · exact .inr ⟨r, r', hanswer, hlacks, hr, hreplaced, hcontent⟩

def stockShop : Order Handed :=
  .updateWith (.text "design-0-000000001") []
    [.object 1, .value (.object [("id", .text "shelf"), ("connections", .list [.text "gold"])])]

def gold : Component := ⟨.text "gold", .text "resource", .text "Gold", .int 0, .int 0, [], []⟩

theorem absent_or_touched_stockShop :
    let s := bankAndShop.construct gold
    s.Free stockShop.target? stockShop.handed ∧ ∃ answer r,
      (s.perform stockShop).1 = .ok (some answer) ∧
        ¬ s.seen.Absent stockShop (.text "design-0-000000001") ∧
        s.seen.addressed? (.text "design-0-000000001") = some r ∧
        Touched s stockShop r answer (s.perform stockShop).2 := by
  intro s
  have hreached : Reached (fun s o => s.Free o.target? o.handed) (fun _ => True) s :=
    .construct (reached_bankAndShop (fun s _ => free_nil s _) fun s => free_nil s _) trivial
  have hunlisted : ∀ e ∈ s.designs.entries, 1 ∉ e.2.outline.components := by decide +kernel
  have hfree : s.Free stockShop.target? stockShop.handed :=
    free_singleton (by decide +kernel) hunlisted
  have hthere : (s.perform stockShop).1.toOption.join.isSome = true := by decide +kernel
  cases hok : (s.perform stockShop).1 with
  | error f =>
    rw [hok] at hthere
    cases hthere
  | ok answer =>
    rw [hok] at hthere
    rcases hreached.absent_or_touched (fun _ _ ho => ho) hfree rfl hok with
      ⟨rfl, -⟩ | ⟨r, r', rfl, hdone⟩
    · cases hthere
    · exact ⟨hfree, r', r, rfl, hdone⟩

def renameVault : Call :=
  .updateComponent (.text "design-0-000000000") (.text "vault") (.object [("name", .text "Safe")])

def hasComponentNamed (name : String) (r : StoredDesign) : Bool :=
  r.design.components.any (·.name == .text name)

def oddShelf : Studio :=
  (bankAndShop.perform (.call (.updateDesign (.text "design-0-000000001") (.object [("components",
    .list [.object [("id", .float .nan), ("name", .text "Shelf")]])])))).2

def renameShelf : Call :=
  .updateComponent (.text "design-0-000000001") (.float .nan) (.object [("name", .text "Rack")])

/-- Where the shop lists the vault of the bank, to rename it in the bank changes the shop. And a
component that is listed under an id that is no number is not found under it. -/
theorem shop_changes_with_bank :
    Reached (fun _ _ => True) (fun _ => True) sharedVault ∧
      renameVault.address? = some (.text "design-0-000000000") ∧
      (sharedVault.perform (.call renameVault)).1.toBool = true ∧
      (sharedVault.perform (.call renameVault)).2.seen.design? (.text "design-0-000000001") ≠
        sharedVault.seen.design? (.text "design-0-000000001") ∧
      Reached (fun s o => s.Free o.target? o.handed) (fun _ => False) oddShelf ∧
      (oddShelf.seen.design? (.text "design-0-000000001")).any
        (fun r => r.design.components.any (·.id.isNan)) = true ∧
      (oddShelf.perform (.call renameShelf)).1 = .ok none := by
  refine ⟨?_, rfl, by decide +kernel, fun heq => ?_, ?_, by decide +kernel, ?_⟩
  · exact .perform (reached_bankAndShop (fun _ _ => trivial) fun _ => trivial) trivial
  · have hbefore : (sharedVault.seen.design? (.text "design-0-000000001")).any
        (hasComponentNamed "Safe") = false := by decide +kernel
    have hafter : ((sharedVault.perform (.call renameVault)).2.seen.design?
        (.text "design-0-000000001")).any (hasComponentNamed "Safe") = true := by decide +kernel
    rw [heq, hbefore] at hafter
    cases hafter
  · exact .perform (reached_bankAndShop (fun s _ => free_nil s _) fun s => free_nil s _) (free_nil _ _)
  · have hnone : (oddShelf.perform (.call renameShelf)).1.toOption.map (·.isNone) = some true := by
      decide +kernel
    cases hok : (oddShelf.perform (.call renameShelf)).1 with
    | error f =>
      rw [hok] at hnone
      cases hnone
    | ok answer =>
      rw [hok] at hnone
      cases answer with
      | none => rfl
      | some r => cases hnone

end Studio

end MoveWorkbench
