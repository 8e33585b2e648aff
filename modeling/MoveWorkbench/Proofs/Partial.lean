import Mathlib.Data.List.Forall2
import MoveWorkbench.Fault

/-!
Computations that can fail, taken apart: a computation in steps gives a result just when
every step does, and one over a list just when it does so for every item.
-/

namespace MoveWorkbench.Partial

variable {ε α β : Type}

theorem bind_eq_ok {x : Except ε α} {f : α → Except ε β} {b : β} :
    x >>= f = .ok b ↔ ∃ a, x = .ok a ∧ f a = .ok b := by
  cases x with
  | error e => exact ⟨fun h => (nomatch h), fun ⟨_, h, _⟩ => (nomatch h)⟩
  | ok a =>
    constructor
    · exact fun h => ⟨a, rfl, h⟩
    · intro hparts
      obtain ⟨a, h, hf⟩ := hparts
      cases h
      exact hf

/-- Two steps give a result when the first one does and the second one does after it. -/
theorem exists_bind_eq_ok {x : Except ε α} {f : α → Except ε β} :
    (∃ b, x >>= f = .ok b) ↔ ∃ a, x = .ok a ∧ ∃ b, f a = .ok b := by
  constructor
  · intro h
    obtain ⟨b, hb⟩ := h
    obtain ⟨a, ha, hrest⟩ := bind_eq_ok.mp hb
    exact ⟨a, ha, b, hrest⟩
  · intro h
    obtain ⟨a, ha, b, hrest⟩ := h
    exact ⟨b, bind_eq_ok.mpr ⟨a, ha, hrest⟩⟩

theorem map_eq_ok {x : Except ε α} {f : α → β} {b : β} :
    x.map f = .ok b ↔ ∃ a, x = .ok a ∧ f a = b := by
  cases x with
  | error e => exact ⟨fun h => (nomatch h), fun ⟨_, h, _⟩ => (nomatch h)⟩
  | ok a => simp [Except.map]

theorem toOption_eq_some {x : Except ε α} {a : α} : x.toOption = some a ↔ x = .ok a := by
  cases x <;> simp [Except.toOption]

theorem exists_map_eq_ok {x : Except ε α} {f : α → β} :
    (∃ b, x.map f = .ok b) ↔ ∃ a, x = .ok a := by
  cases x <;> simp [Except.map]

theorem mapM_eq_ok {f : α → Except ε β} {as : List α} {bs : List β} :
    as.mapM f = .ok bs ↔ List.Forall₂ (fun a b => f a = .ok b) as bs := by
  induction as generalizing bs with
  | nil =>
    rw [List.mapM_nil, List.forall₂_nil_left_iff]
    constructor
    · exact fun h => by cases h; rfl
    · rintro rfl
      rfl
  | cons a as ih =>
    rw [List.mapM_cons, bind_eq_ok, List.forall₂_cons_left_iff]
    constructor
    · intro hparts
      obtain ⟨b, ha, hrest⟩ := hparts
      obtain ⟨bs', has, hbs⟩ := bind_eq_ok.mp hrest
      cases hbs
      exact ⟨b, bs', ha, ih.mp has, rfl⟩
    · intro hparts
      obtain ⟨b, bs', ha, has, rfl⟩ := hparts
      exact ⟨b, ha, bind_eq_ok.mpr ⟨bs', ih.mpr has, rfl⟩⟩

/-- Where every item has a result, the results are those of the items. -/
theorem mapM_eq_map {f : α → Except ε β} {g : α → β} {as : List α}
    (h : ∀ a ∈ as, f a = .ok (g a)) : as.mapM f = .ok (as.map g) := by
  rw [mapM_eq_ok, List.forall₂_map_right_iff, List.forall₂_same]
  exact h

theorem filterMap_toOption {f : α → Except ε β} {as : List α} {bs : List β}
    (h : as.mapM f = .ok bs) : as.filterMap (fun a => (f a).toOption) = bs := by
  rw [mapM_eq_ok] at h
  induction h with
  | nil => rfl
  | cons ha _ ih => rw [List.filterMap_cons, toOption_eq_some.mpr ha, ih]

/-- Items of related lists have partners that are related to them. -/
theorem exists_of_mem_forall₂ {R : α → β → Prop} {as : List α} {bs : List β}
    (h : List.Forall₂ R as bs) {b : β} (hb : b ∈ bs) : ∃ a ∈ as, R a b := by
  induction h with
  | nil => exact absurd hb List.not_mem_nil
  | @cons a b' as bs hab _ ih =>
    rcases List.mem_cons.mp hb with rfl | hb
    · exact ⟨a, List.mem_cons_self, hab⟩
    · obtain ⟨a', ha', hR⟩ := ih hb
      exact ⟨a', List.mem_cons_of_mem a ha', hR⟩

/-- The results over a list are those of its items, one by one. -/
theorem forall₂_of_mapM {f : α → Except ε β} {as : List α} {bs : List β}
    (h : as.mapM f = .ok bs) : List.Forall₂ (fun a b => a ∈ as ∧ f a = .ok b) as bs :=
  (List.forall₂_and_left _ _).mpr ⟨fun _ ha => ha, mapM_eq_ok.mp h⟩

/-- What is known of each result by its item is known of all of them. -/
theorem map_eq_map_of_mapM {γ : Type} {f : α → Except ε β} {g : β → γ} {k : α → γ} {as : List α}
    {bs : List β} (h : as.mapM f = .ok bs) (heq : ∀ a ∈ as, ∀ b, f a = .ok b → g b = k a) :
    bs.map g = as.map k := by
  rw [← List.forall₂_eq_eq_eq, List.forall₂_map_left_iff, List.forall₂_map_right_iff]
  exact ((forall₂_of_mapM h).imp fun a b hab => heq a hab.1 b hab.2).flip

/-- The results of items that are related, one by one, are related in the same way as they are. -/
theorem forall₂_mapM {α' β' : Type} {R : α → α' → Prop} {P : β → β' → Prop} {f : α → Except ε β}
    {f' : α' → Except ε β'} {as : List α} {as' : List α'} {bs : List β} {bs' : List β'}
    (h : List.Forall₂ R as as') (hbs : as.mapM f = .ok bs) (hbs' : as'.mapM f' = .ok bs')
    (hP : ∀ a a' b b', R a a' → f a = .ok b → f' a' = .ok b' → P b b') :
    List.Forall₂ P bs bs' := by
  rw [mapM_eq_ok] at hbs hbs'
  induction h generalizing bs bs' with
  | nil =>
    cases hbs
    cases hbs'
    exact .nil
  | cons hR _ ih =>
    obtain ⟨b, rest, hb, hrest, rfl⟩ := List.forall₂_cons_left_iff.mp hbs
    obtain ⟨b', rest', hb', hrest', rfl⟩ := List.forall₂_cons_left_iff.mp hbs'
    exact .cons (hP _ _ _ _ hR hb hb') (ih hrest hrest')

/-- Items that give the same give the same together. -/
theorem mapM_congr_forall₂ {α' : Type} {f : α → Except ε β} {f' : α' → Except ε β} {as : List α}
    {as' : List α'} (h : List.Forall₂ (fun a a' => f a = f' a') as as') :
    as.mapM f = as'.mapM f' := by
  induction h with
  | nil => rfl
  | cons hhead _ ih => rw [List.mapM_cons, List.mapM_cons, hhead, ih]

/-- Every result over a list is that of an item. -/
theorem exists_of_mem_mapM {f : α → Except ε β} {as : List α} {bs : List β}
    (h : as.mapM f = .ok bs) {b : β} (hb : b ∈ bs) : ∃ a ∈ as, f a = .ok b :=
  exists_of_mem_forall₂ (mapM_eq_ok.mp h) hb

/-- A computation over a list gives a result when it does so for every item. -/
theorem exists_mapM_eq_ok {f : α → Except ε β} {as : List α} :
    (∃ bs, as.mapM f = .ok bs) ↔ ∀ a ∈ as, ∃ b, f a = .ok b := by
  induction as with
  | nil => exact ⟨fun _ a ha => (nomatch ha), fun _ => ⟨[], rfl⟩⟩
  | cons a as ih =>
    rw [List.forall_mem_cons, ← ih]
    constructor
    · intro hparts
      obtain ⟨bs, h⟩ := hparts
      cases mapM_eq_ok.mp h with
      | cons ha has => exact ⟨⟨_, ha⟩, _, mapM_eq_ok.mpr has⟩
    · intro hparts
      obtain ⟨⟨b, ha⟩, bs, has⟩ := hparts
      exact ⟨b :: bs, mapM_eq_ok.mpr (.cons ha (mapM_eq_ok.mp has))⟩

end MoveWorkbench.Partial
