import MoveWorkbench.Proofs.Store.History
import MoveWorkbench.Proofs.Workspace.Outcome
import MoveWorkbench.Proofs.Workspace.Session

/-!
Retention follows use. Designs age from the last time when they were made, imported or
edited, and analyses from the time when they were made. Both times stand in the records, so
what a sweep evicts can be told from the events of the session: each action keeps the records
in agreement with the events, and hence so does every run.
-/

namespace MoveWorkbench

namespace Store

variable {α : Type} {m : List (Atom × α)} {time : α → Option ℤ} {stamp : α → Instant}

def isPast (bound : ℤ) (time : Option ℤ) : Bool := time.any (· < bound)

def dropPast (s : Store α) (bound : ℤ) (time : α → Option ℤ) : Store α :=
  ⟨s.entries.filter fun e => !isPast bound (time e.2)⟩

def countPast (s : Store α) (bound : ℤ) (time : α → Option ℤ) : ℕ :=
  s.entries.countP fun e => isPast bound (time e.2)

theorem evicted_dropPast (s : Store α) (bound : ℤ) (time : α → Option ℤ) :
    s.evicted (s.dropPast bound time) = s.countPast bound time := by
  refine (s.evicted_filter fun e => !isPast bound (time e.2)).trans ?_
  simp only [Bool.not_not, countPast]

/-- Records with different ids, whose stamps agree with times. -/
structure Aged (m : List (Atom × α)) (time : α → Option ℤ) (stamp : α → Instant) : Prop where
  distinct : Ordered.Distinct m
  stamped : ∀ e ∈ m, time e.2 = some (stamp e.2).micros

theorem Aged.filter (h : Aged m time stamp) (p : Atom × α → Bool) :
    Aged (m.filter p) time stamp :=
  ⟨h.distinct.filter p, fun e he => h.stamped e (List.mem_of_mem_filter he)⟩

theorem Aged.put (h : Aged m time stamp) {time' : α → Option ℤ} {k : Atom} {v : α}
    (hv : time' v = some (stamp v).micros)
    (htime : ∀ e ∈ m, (e.1 == k) = false → time' e.2 = time e.2) :
    Aged (Ordered.put k v m) time' stamp := by
  refine ⟨h.distinct.put k v, fun e he => ?_⟩
  rcases h.distinct.mem_put he with ⟨he, hk⟩ | ⟨-, rfl⟩
  · exact (htime e he hk).trans (h.stamped e he)
  · exact hv

/-- Where the stamps of the records agree with times, a sweep goes by these times. -/
theorem sweep_eq_dropPast {s : Store α} (h : Aged s.entries time stamp) {maxAge : Span}
    {present : Except Fault Instant} {now cutoff : Instant} (hnow : present = .ok now)
    (hcutoff : now.before maxAge = .ok cutoff) :
    present.bind (s.sweep stamp maxAge) =
      .ok (s.dropPast (now.micros - maxAge.micros) time) := by
  have hbound : cutoff.micros = now.micros - maxAge.micros := Instant.ofMicros_eq_ok.mp hcutoff
  have hfilter : s.entries.filter (fun e => ¬ stamp e.2 < cutoff) =
      s.entries.filter fun e => !isPast (now.micros - maxAge.micros) (time e.2) := by
    refine List.filter_congr fun e he => ?_
    simp only [isPast, h.stamped e he, Option.any_some, Instant.lt_iff, hbound, decide_not]
  rw [hnow, Except.bind, sweep, hcutoff]
  exact congrArg (fun entries => Except.ok (Store.mk entries)) hfilter

end Store

namespace Workspace

/-- A text is analyzed as of now, or nothing is stored. -/
theorem analyze_cases (w : Workspace) (code : String) :
    (∃ a, w.analyze code = (.ok a, w.draw.putAnalysis a) ∧ a.createdAt.micros = w.clock) ∨
      ∃ f, (w.analyze code).1 = .error f ∧ (w.analyze code).2.analyses = w.analyses := by
  unfold analyze
  split
  · exact .inr ⟨_, rfl, rfl⟩
  · dsimp only
    split
    · rename_i id t _ ht
      exact .inl ⟨_, rfl, Instant.ofMicros_eq_ok.mp ht⟩
    · exact .inr ⟨_, rfl, rfl⟩
    · exact .inr ⟨_, rfl, rfl⟩

end Workspace

namespace Session

open Workspace Store

variable {s : Session} {action : Action}

/-- How the records of a session agree with its events. -/
structure Tracked (s : Session) : Prop where
  reached : s.workspace.Reached fun _ => True
  used : Aged s.workspace.designs.entries (fun r => s.lastUse r.id) (·.updatedAt)
  keys : ∀ e ∈ s.workspace.analyses.entries, (e.1 == e.2.id) = true
  made : Aged s.workspace.analyses.entries (fun a => s.madeAt a.id) (·.createdAt)

theorem tracked_opened (t : Instant) : Tracked (opened t) where
  reached := .fresh t
  used := ⟨List.Pairwise.nil, fun _ he => absurd he List.not_mem_nil⟩
  keys := fun _ he => absurd he List.not_mem_nil
  made := ⟨List.Pairwise.nil, fun _ he => absurd he List.not_mem_nil⟩

/-- A call is a use of the design that it answers with, and of no other one. -/
theorem Tracked.used_call (h : Tracked s) (c : Call) :
    Aged (s.after (.call c)).workspace.designs.entries
      (fun r => (s.after (.call c)).lastUse r.id) (·.updatedAt) := by
  have hkept := h.reached.wellKept
  have hlast (id : String) : (s.after (.call c)).lastUse id =
      if Event.usesDesign id ⟨s.workspace.clock, .design (s.workspace.perform c).1⟩ then
        some s.workspace.clock
      else s.lastUse id := lastTime_after _
  have houtcome := hkept.outcome c
  simp only [hlast]
  change Aged (s.workspace.perform c).2.designs.entries _ _
  generalize s.workspace.perform c = answer at houtcome ⊢
  have hother {id : String} {e : Atom × StoredDesign}
      (he : e ∈ s.workspace.designs.entries) (hne : (e.1 == .text id) = false) : id ≠ e.2.id := by
    rintro rfl
    rw [hkept.key e he] at hne
    simp at hne
  cases houtcome with
  | refused => exact h.used
  | unknown => exact h.used
  | missing => exact h.used
  | made hd ht hid =>
    refine h.used.put ?_ fun e he hne => ?_
    · simp [Event.usesDesign, now_eq_ok.mp ht]
    · simp [Event.usesDesign, hother he hne]
  | stopped hc hr hedit =>
    obtain ⟨a, -, ha⟩ := exists_atom_of_addressed? hr
    have hstamp := h.used.stamped _ (hkept.mem_of_design? ha).1
    exact h.used.put hstamp fun e he hne => rfl
  | done hc hr hedit ht =>
    refine h.used.put ?_ fun e he hne => ?_
    · simp [Event.usesDesign, now_eq_ok.mp ht]
    · simp [Event.usesDesign, hother he hne]

/-- To analyze a text makes one analysis, if any, and uses no design. -/
theorem Tracked.analyze (h : Tracked s) (code : String) : Tracked (s.after (.analyze code)) := by
  have hmade (id : Atom) : (s.after (.analyze code)).madeAt id =
      if Event.makesAnalysis id ⟨s.workspace.clock, .analysis (s.workspace.analyze code).1⟩ then
        some s.workspace.clock
      else s.madeAt id := lastTime_after _
  have hdesigns : (s.workspace.analyze code).2.designs = s.workspace.designs := by
    obtain ⟨analyses, n, hleft⟩ := exists_analyze_eq s.workspace code
    rw [hleft]
  refine ⟨reached_after h.reached _, ?_, ?_, ?_⟩
  · change Aged (s.workspace.analyze code).2.designs.entries _ _
    rw [hdesigns]
    exact h.used
  · change ∀ e ∈ (s.workspace.analyze code).2.analyses.entries, _
    rcases analyze_cases s.workspace code with ⟨a, ha, -⟩ | ⟨f, -, hleft⟩
    · rw [ha]
      intro e he
      rcases Ordered.mem_put he with he | ⟨hkey, rfl⟩
      · exact h.keys e he
      · exact hkey
    · rw [hleft]
      exact h.keys
  · change Aged (s.workspace.analyze code).2.analyses.entries _ _
    simp only [hmade]
    rcases analyze_cases s.workspace code with ⟨a, ha, ht⟩ | ⟨f, hf, hleft⟩
    · rw [ha]
      refine h.made.put ?_ fun e he hne => ?_
      · simp [Event.makesAnalysis, ht]
      · have hother : (a.id == e.2.id) = false := by
          rw [BEq.comm, ← BEq.congr_left (h.keys e he)]
          exact hne
        simp [Event.makesAnalysis, hother]
    · rw [hf, hleft]
      exact h.made

/-- A sweep is no use of anything. -/
theorem Tracked.after (h : Tracked s) (action : Action) : Tracked (s.after action) := by
  have hreached := reached_after h.reached action
  cases action with
  | call c =>
    have hanalyses := s.workspace.analyses_perform c
    refine ⟨hreached, h.used_call c, ?_, ?_⟩
    · change ∀ e ∈ (s.workspace.perform c).2.analyses.entries, _
      rw [hanalyses]
      exact h.keys
    · change Aged (s.workspace.perform c).2.analyses.entries _ _
      rw [hanalyses]
      exact h.made
  | analyze code => exact h.analyze code
  | ask q => exact ⟨hreached, h.used, h.keys, h.made⟩
  | setClock t => exact ⟨hreached, h.used, h.keys, h.made⟩
  | sweepDesigns maxAge at? =>
    unfold Session.after at hreached ⊢
    rcases s.workspace.act_sweepDesigns maxAge at? with ⟨n, cutoff, hact⟩ | ⟨f, hact⟩
    · rw [hact] at hreached ⊢
      exact ⟨hreached, h.used.filter _, h.keys, h.made⟩
    · rw [hact] at hreached ⊢
      exact ⟨hreached, h.used, h.keys, h.made⟩
  | sweepAnalyses maxAge at? =>
    unfold Session.after at hreached ⊢
    rcases s.workspace.act_sweepAnalyses maxAge at? with ⟨n, cutoff, hact⟩ | ⟨f, hact⟩
    · rw [hact] at hreached ⊢
      exact ⟨hreached, h.used, fun e he => h.keys e (List.mem_of_mem_filter he),
        h.made.filter _⟩
    · rw [hact] at hreached ⊢
      exact ⟨hreached, h.used, h.keys, h.made⟩

theorem tracked_run (t : Instant) (actions : List Action) : Tracked (run t actions) :=
  run_induction t (tracked_opened t) (fun _ action h => h.after action) actions

/-- A call that is refused, fails or finds nothing is no use of any design. -/
theorem lastUse_call_of_not_done {c : Call}
    (hnone : ∀ r, (s.workspace.perform c).1 ≠ .ok (some r)) (id : String) :
    (s.after (.call c)).lastUse id = s.lastUse id := by
  have hunused : Event.usesDesign id ⟨s.workspace.clock, .design (s.workspace.perform c).1⟩ =
      false := by
    unfold Event.usesDesign
    split
    · rename_i r hr
      injection hr with hr
      exact absurd hr (hnone r)
    · rfl
  refine (lastTime_after _).trans (if_neg ?_)
  exact Bool.eq_false_iff.mp hunused

/-- In any run a sweep evicts just the designs that were last used before its bound, and the
analyses that were made before it. It tells their number and leaves all else as it is. Only
what is done for a design is a use of it. -/
theorem sweep_run (t : Instant) (actions : List Action) (maxAge : Span) (at? : Option Instant)
    {now cutoff : Instant} (hnow : (run t actions).workspace.timeOf at? = .ok now)
    (hcutoff : now.before maxAge = .ok cutoff) :
    let s := run t actions
    let w := s.workspace
    let bound := now.micros - maxAge.micros
    ((∀ e ∈ w.designs.entries, (s.lastUse e.2.id).isSome) ∧
      w.act (.sweepDesigns maxAge at?) =
        (.swept (.ok (w.designs.countPast bound fun r => s.lastUse r.id)),
          { w with designs := w.designs.dropPast bound fun r => s.lastUse r.id })) ∧
    ((∀ e ∈ w.analyses.entries, (s.madeAt e.2.id).isSome) ∧
      w.act (.sweepAnalyses maxAge at?) =
        (.swept (.ok (w.analyses.countPast bound fun a => s.madeAt a.id)),
          { w with analyses := w.analyses.dropPast bound fun a => s.madeAt a.id })) ∧
    (∀ q id, (s.after (.ask q)).lastUse id = s.lastUse id) ∧
    ∀ c, (∀ r, (w.perform c).1 ≠ .ok (some r)) → ∀ id,
      (s.after (.call c)).lastUse id = s.lastUse id := by
  intro s w bound
  have htracked : Tracked s := tracked_run t actions
  have hdesigns := sweep_eq_dropPast htracked.used hnow hcutoff
  have hanalyses := sweep_eq_dropPast htracked.made hnow hcutoff
  refine ⟨⟨fun e he => ?_, ?_⟩, ⟨fun e he => ?_, ?_⟩, fun q id => rfl,
    fun c hnone => lastUse_call_of_not_done hnone⟩
  · exact Option.isSome_of_eq_some (htracked.used.stamped e he)
  · simp only [w, s, bound, act, hdesigns, evicted_dropPast]
  · exact Option.isSome_of_eq_some (htracked.made.stamped e he)
  · simp only [w, s, bound, act, hanalyses, evicted_dropPast]

def bankAndShop : List Action := [
  .call (.createDesign (.text "Bank") .null),
  .setClock ⟨5000000, by decide⟩,
  .call (.createDesign (.text "Shop") .null),
  .analyze "",
  .setClock ⟨7000000, by decide⟩,
  .ask (.problems (.text "design-0-000000000")),
  .call (.updateDesign (.text "design-0-000000000") (.object [("components", .int 5)])),
  .setClock ⟨9000000, by decide⟩]

/-- Of the two designs, the first one is evicted by a sweep with an age of four seconds. -/
theorem sweep_run_bankAndShop :
    let s := run ⟨0, by decide⟩ bankAndShop
    let w := s.workspace
    w.designs.size = 2 ∧ w.analyses.size = 1 ∧
      w.act (.sweepDesigns ⟨4000000, by decide⟩ none) =
        (.swept (.ok (w.designs.countPast 5000000 fun r => s.lastUse r.id)),
          { w with designs := w.designs.dropPast 5000000 fun r => s.lastUse r.id }) ∧
      w.designs.countPast 5000000 (fun r => s.lastUse r.id) = 1 := by
  have hcounts : (run ⟨0, by decide⟩ bankAndShop).workspace.designs.size = 2 ∧
      (run ⟨0, by decide⟩ bankAndShop).workspace.analyses.size = 1 ∧
      (run ⟨0, by decide⟩ bankAndShop).workspace.designs.countPast 5000000
        (fun r => (run ⟨0, by decide⟩ bankAndShop).lastUse r.id) = 1 := by
    decide +kernel
  have hnow : (run ⟨0, by decide⟩ bankAndShop).workspace.timeOf none =
      .ok ⟨9000000, by decide⟩ := rfl
  have hcutoff : (⟨9000000, by decide⟩ : Instant).before ⟨4000000, by decide⟩ =
      .ok ⟨5000000, by decide⟩ := rfl
  exact ⟨hcounts.1, hcounts.2.1, (sweep_run _ bankAndShop _ none hnow hcutoff).1.2, hcounts.2.2⟩

end Session

end MoveWorkbench
