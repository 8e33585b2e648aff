import MoveWorkbench.Proofs.Workspace.Retention

/-!
Engines on offered stores. Whoever sets up an engine may offer it a store, and keeps hold of
that store: what the engine does can be told from it, and what its holder puts there the engine
finds. So here the offered store stands next to the engine's own one, and both are followed
through runs in which the engines act and the holder does deeds of its own. An engine that was
offered a record reads and writes the offered store from then on. One that was offered an empty
store does not, and nothing that it makes is ever found there.
-/

namespace MoveWorkbench

namespace Store

variable {α : Type}

theorem contains_put {s : Store α} {id : Atom} (h : s.contains id = true) (k : Atom) (r : α) :
    (s.put k r).contains id = true := by
  unfold contains at h ⊢
  by_cases hk : k == id
  · have hself : (s.put k r).get? id = some r :=
      (Ordered.get?_congr hk _).symm.trans (get?_put_self s k r)
    rw [hself]
    rfl
  · rwa [get?_put_of_ne (Bool.eq_false_iff.mpr hk)]

namespace Holding

variable (h : Holding α) (s : Store α)

theorem used_of : (of s).used = s.adopt := by
  unfold of used adopt
  cases s.origin <;> rfl

@[simp] theorem origin_leave : (h.leave s).origin = h.origin := by
  unfold leave
  split <;> rfl

@[simp] theorem origin_after (deed : Deed α) : (h.after deed).origin = h.origin := rfl

variable {h}

theorem used_of_offered (ho : h.origin = .offered) : h.used = h.offered := by
  unfold used
  rw [ho]

theorem offered_leave_of_offered (ho : h.origin = .offered) : (h.leave s).offered = s := by
  unfold leave
  rw [ho]

theorem offered_leave_of_own (ho : h.origin = .own) : (h.leave s).offered = h.offered := by
  unfold leave
  rw [ho]

end Holding

theorem origin_eq_offered_iff {s : Store α} : s.origin = .offered ↔ s.size ≠ 0 := by
  unfold origin
  split <;> simp_all

theorem origin_eq_own_iff {s : Store α} : s.origin = .own ↔ s.size = 0 := by
  unfold origin
  split <;> simp_all

end Store

namespace Call

def makesDesign : Call → Bool
  | createDesign _ _ | importDesign _ => true
  | _ => false

end Call

namespace Workspace

variable {w : Workspace} {id : Atom}

theorem design?_perform_of_makesDesign {c : Call} {r : StoredDesign} (hc : c.makesDesign = true)
    (h : (w.perform c).1 = .ok (some r)) :
    (w.perform c).2.design? (.text r.id) = some r := by
  have hgiven {d : Design} (h : (given (w.store d)).1 = .ok (some r)) :
      (given (w.store d)).2.design? (.text r.id) = some r := by
    obtain ⟨r', hr', hsame⟩ := Partial.map_eq_ok.mp h
    injection hsame with hsame
    exact hsame ▸ design?_store hr'
  cases c with
  | createDesign name description => exact hgiven h
  | importDesign document =>
    cases document with
    | text s =>
      change (given (w.importDesign s)).1 = _ at h
      change (given (w.importDesign s)).2.design? _ = _
      unfold importDesign at h ⊢
      split at h
      · cases h
      · exact hgiven h
    | _ => cases h
  | _ => cases hc

theorem analysis?_analyze {code : String} {a : Analysis} (h : (w.analyze code).1 = .ok a) :
    (w.analyze code).2.analysis? a.id = some a := by
  rcases w.analyze_cases code with ⟨a', ha, -⟩ | ⟨f, hf, -⟩
  · rw [ha] at h ⊢
    cases h
    exact Store.get?_put_self _ _ _
  · rw [hf] at h
    cases h

/-- No call takes a design away. -/
theorem contains_perform (h : w.designs.contains id = true) (c : Call) :
    (w.perform c).2.designs.contains id = true := by
  obtain ⟨heffect, -⟩ := effect_perform w c
  generalize (w.perform c).2.designs = designs, (w.perform c).2.drawn = n at heffect ⊢
  cases heffect with
  | none => exact h
  | stored => exact Store.contains_put h _ _
  | edited => exact Store.contains_put h _ _

theorem contains_analyze (h : w.analyses.contains id = true) (code : String) :
    (w.analyze code).2.analyses.contains id = true := by
  rcases w.analyze_cases code with ⟨a, ha, -⟩ | ⟨f, -, hleft⟩
  · rw [ha]
    exact Store.contains_put h _ _
  · rwa [hleft]

end Workspace

/-- An engine of a workspace and the laws of its work: what it makes is in its store at once, and
what is in its store stays there until an action that removes records. -/
structure Engine (α : Type) where
  store : Workspace → Store α
  withStore : Workspace → Store α → Workspace
  /-- How the engine looks up a record. -/
  find? : Workspace → Atom → Option α
  /-- The record that an action has made, by what it was answered, and its id. -/
  made? : Action → Response → Option (Atom × α)
  removes : Action → Bool
  find?_withStore : ∀ (w : Workspace) s id, find? (withStore w s) id = s.get? id
  store_withStore : ∀ (w : Workspace) s, store (withStore w s) = s
  get?_of_made? : ∀ {w : Workspace} {action id r}, made? action (w.act action).1 = some (id, r) →
    (store (w.act action).2).get? id = some r
  contains_act : ∀ {w : Workspace} {action id}, removes action = false →
    (store w).contains id = true → (store (w.act action).2).contains id = true

namespace Engine

open Workspace

def designer : Engine StoredDesign where
  store := (·.designs)
  withStore w s := { w with designs := s }
  find? := design?
  made?
    | .call c, .design (.ok (some r)) => if c.makesDesign then some (.text r.id, r) else none
    | _, _ => none
  removes
    | .sweepDesigns _ _ => true
    | _ => false
  find?_withStore _ _ _ := rfl
  store_withStore _ _ := rfl
  get?_of_made? {w action id r} hmade := by
    split at hmade
    · rename_i c r' hr'
      split at hmade
      · rename_i hc
        cases hmade
        injection hr' with hr'
        exact design?_perform_of_makesDesign hc hr'
      · cases hmade
    · cases hmade
  contains_act {w action id} hremoves hid := by
    cases action with
    | call c => exact contains_perform hid c
    | analyze code =>
      obtain ⟨analyses, n, hleft⟩ := exists_analyze_eq w code
      simpa only [act, hleft] using hid
    | ask q => exact hid
    | setClock t => exact hid
    | sweepDesigns => cases hremoves
    | sweepAnalyses maxAge at? =>
      rcases w.act_sweepAnalyses maxAge at? with ⟨n, cutoff, hact⟩ | ⟨f, hact⟩ <;> rwa [hact]

def analyzer : Engine Analysis where
  store := (·.analyses)
  withStore w s := { w with analyses := s }
  find? := analysis?
  made?
    | .analyze _, .analysis (.ok a) => some (a.id, a)
    | _, _ => none
  removes
    | .sweepAnalyses _ _ => true
    | _ => false
  find?_withStore _ _ _ := rfl
  store_withStore _ _ := rfl
  get?_of_made? {w action id a} hmade := by
    split at hmade
    · rename_i code a' ha'
      cases hmade
      injection ha' with ha'
      exact analysis?_analyze ha'
    · cases hmade
  contains_act {w action id} hremoves hid := by
    cases action with
    | call c =>
      change (w.perform c).2.analyses.contains id = true
      rwa [analyses_perform]
    | analyze code => exact contains_analyze hid code
    | ask q => exact hid
    | setClock t => exact hid
    | sweepDesigns maxAge at? =>
      rcases w.act_sweepDesigns maxAge at? with ⟨n, cutoff, hact⟩ | ⟨f, hact⟩ <;> rwa [hact]
    | sweepAnalyses => cases hremoves

end Engine

/-- A workspace in which an engine works on the store that it was offered, or on its own. -/
structure Hosted (α : Type) where
  rest : Workspace
  holding : Store.Holding α

namespace Hosted

variable {α : Type}

inductive Step (α : Type) where
  | act (action : Action)
  | deed (deed : Store.Deed α)

variable (e : Engine α)

namespace Step

def removes : Step α → Bool
  | act action => e.removes action
  | deed (.delete _) => true
  | deed (.put _ _) => false

def byHolder (s : Store α) : Step α → Store α
  | act _ => s
  | deed d => s.after d

end Step

def opened (w : Workspace) (s : Store α) : Hosted α := ⟨w, .of s⟩

def workspace (h : Hosted α) : Workspace := e.withStore h.rest h.holding.used

def after (h : Hosted α) : Step α → Hosted α
  | .act action =>
    let w := ((h.workspace e).act action).2
    ⟨w, h.holding.leave (e.store w)⟩
  | .deed d => { h with holding := h.holding.after d }

def run (w : Workspace) (s : Store α) (steps : List (Step α)) : Hosted α :=
  steps.foldl (after e) (opened w s)

/-- What the holder of a store finds when the engine works on that store: the engine finds what
is in it and leaves it as the engine's work requires, what the engine makes is in it at once, and
what is in it stays until it is swept or deleted. -/
structure Serves (h : Hosted α) : Prop where
  reads : ∀ id, e.find? (h.workspace e) id = h.holding.offered.get? id
  writes : ∀ action,
    (h.after e (.act action)).holding.offered = e.store ((h.workspace e).act action).2
  made : ∀ action id r, e.made? action ((h.workspace e).act action).1 = some (id, r) →
    (h.after e (.act action)).holding.offered.get? id = some r
  stays : ∀ id, h.holding.offered.contains id = true → ∀ later : List (Step α),
    (∀ step ∈ later, step.removes e = false) →
    (later.foldl (after e) h).holding.offered.contains id = true

variable {e} {h : Hosted α} {step : Step α}

/-- The store that an engine begins with. -/
theorem store_opened (w : Workspace) (s : Store α) :
    e.store ((opened w s).workspace e) = s.adopt := by
  rw [workspace, e.store_withStore]
  exact Store.Holding.used_of s

@[simp] theorem origin_after (h : Hosted α) (step : Step α) :
    (h.after e step).holding.origin = h.holding.origin := by
  cases step <;> simp [after]

/-- The choice of the store is kept through a run. -/
theorem origin_foldl (h : Hosted α) (steps : List (Step α)) :
    (steps.foldl (after e) h).holding.origin = h.holding.origin := by
  induction steps generalizing h with
  | nil => rfl
  | cons step steps ih => exact (ih _).trans (origin_after h step)

theorem contains_after (ho : h.holding.origin = .offered) (hremoves : step.removes e = false)
    {id : Atom} (hid : h.holding.offered.contains id = true) :
    (h.after e step).holding.offered.contains id = true := by
  cases step with
  | act action =>
    change (h.holding.leave _).offered.contains id = true
    rw [Store.Holding.offered_leave_of_offered _ ho]
    refine e.contains_act hremoves ?_
    rwa [workspace, e.store_withStore, Store.Holding.used_of_offered ho]
  | deed d =>
    cases d with
    | put key record => exact Store.contains_put hid key record
    | delete key => cases hremoves

theorem contains_foldl (ho : h.holding.origin = .offered) {steps : List (Step α)}
    (hremoves : ∀ step ∈ steps, step.removes e = false) {id : Atom}
    (hid : h.holding.offered.contains id = true) :
    (steps.foldl (after e) h).holding.offered.contains id = true := by
  induction steps generalizing h with
  | nil => exact hid
  | cons step steps ih =>
    obtain ⟨hstep, hsteps⟩ := List.forall_mem_cons.mp hremoves
    exact ih ((origin_after h step).trans ho) hsteps (contains_after ho hstep hid)

theorem serves_of_origin (ho : h.holding.origin = .offered) : h.Serves e where
  reads id := by
    rw [workspace, e.find?_withStore, Store.Holding.used_of_offered ho]
  writes action := Store.Holding.offered_leave_of_offered _ ho
  made action id r hmade := by
    change (h.holding.leave _).offered.get? id = some r
    rw [Store.Holding.offered_leave_of_offered _ ho]
    exact e.get?_of_made? hmade
  stays id hid later hremoves := contains_foldl ho hremoves hid

/-- An engine that works on a store of its own leaves the offered one to its holder. -/
theorem offered_foldl_of_own (ho : h.holding.origin = .own) (steps : List (Step α)) :
    (steps.foldl (after e) h).holding.offered =
      steps.foldl Step.byHolder h.holding.offered := by
  induction steps generalizing h with
  | nil => rfl
  | cons step steps ih =>
    have hstep : (h.after e step).holding.offered = step.byHolder h.holding.offered := by
      cases step with
      | act action => exact Store.Holding.offered_leave_of_own _ ho
      | deed d => rfl
    rw [List.foldl_cons, List.foldl_cons, ih ((origin_after h step).trans ho), hstep]

/-- Whether an engine works on the store that it was offered is settled by whether there was a
record in it then. -/
theorem run_cases (e : Engine α) (w : Workspace) (s : Store α) (steps : List (Step α)) :
    (s.size ≠ 0 → (run e w s steps).Serves e) ∧
      (s.size = 0 → (run e w s steps).holding.offered = steps.foldl Step.byHolder s) := by
  refine ⟨fun hsize => serves_of_origin ?_, fun hsize => ?_⟩
  · exact (origin_foldl _ _).trans (Store.origin_eq_offered_iff.mpr hsize)
  · exact offered_foldl_of_own (Store.origin_eq_own_iff.mpr hsize) steps

/-- In every run the designer and the analyzer work on the stores that they were offered, if
those had records in them when they were offered. A store that was empty then gets nothing from
its engine. -/
theorem run_offered (w : Workspace) :
    (∀ (designs : Store StoredDesign) (steps : List (Step StoredDesign)),
      (designs.size ≠ 0 → (run .designer w designs steps).Serves .designer) ∧
        (designs.size = 0 →
          (run .designer w designs steps).holding.offered =
            steps.foldl Step.byHolder designs)) ∧
      ∀ (analyses : Store Analysis) (steps : List (Step Analysis)),
        (analyses.size ≠ 0 → (run .analyzer w analyses steps).Serves .analyzer) ∧
          (analyses.size = 0 →
            (run .analyzer w analyses steps).holding.offered =
              steps.foldl Step.byHolder analyses) :=
  ⟨run_cases .designer w, run_cases .analyzer w⟩

def shops : Store StoredDesign :=
  ⟨[(.text "shop", ⟨"shop", ⟨.text "Shop", .null, []⟩, ⟨7, by decide⟩, ⟨7, by decide⟩⟩)]⟩

def bankInShops : List (Step StoredDesign) := [
  .act (.call (.createDesign (.text "Bank") .null)),
  .deed (.delete (.text "shop")),
  .act (.setClock ⟨8000000, by decide⟩),
  .act (.sweepDesigns ⟨4000000, by decide⟩ none)]

theorem run_offered_shops :
    shops.size ≠ 0 ∧ (run .designer (.fresh 0) shops bankInShops).Serves .designer ∧
      (run .designer (.fresh 0) shops bankInShops).holding.offered.size = 0 ∧
      (run .designer (.fresh 0) shops (bankInShops.take 2)).holding.offered.contains
        (.text "design-0-000000000") = true :=
  ⟨by decide, ((run_offered (.fresh 0)).1 shops bankInShops).1 (by decide), by decide +kernel,
    by decide +kernel⟩

/-- A record that an engine made, but that is not found, tells that the store is not served. -/
theorem not_serves_of_any (action : Action)
    (hany : (e.made? action ((h.workspace e).act action).1).any
      (fun made => !(h.after e (.act action)).holding.offered.contains made.1) = true) :
    ¬ h.Serves e := by
  intro hserves
  cases hmade : e.made? action ((h.workspace e).act action).1 with
  | none =>
    rw [hmade] at hany
    cases hany
  | some made =>
    have hthere := hserves.made action made.1 made.2 hmade
    rw [hmade] at hany
    simp [Store.contains, hthere] at hany

/-- What an engine makes that was offered an empty store is not found there. -/
theorem not_serves_empty :
    ¬ (run .designer (.fresh 0) .empty []).Serves .designer ∧
      ¬ (run .analyzer (.fresh 0) .empty []).Serves .analyzer :=
  ⟨not_serves_of_any (.call (.createDesign (.text "Bank") .null)) (by decide +kernel),
    not_serves_of_any (.analyze "") (by decide +kernel)⟩

end Hosted

end MoveWorkbench
