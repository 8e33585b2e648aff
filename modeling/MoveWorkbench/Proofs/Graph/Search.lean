import MoveWorkbench.Graph.Search
import MoveWorkbench.Proofs.Graph

/-!
The search finds cycles exactly. Whatever has been followed from a node on the path has been
visited and does not lie on the path up to that node. A node that has been left again leads to
such nodes only, and so it is on no cycle: the way back to it would end among nodes that were
left before it. When the search ends without a cycle, every node with an entry has been left.
-/

namespace MoveWorkbench

variable {ε α : Type}

def nodesOf (path : List (Frame ε α)) : List α := path.map (·.node)

@[simp] theorem nodesOf_nil : nodesOf ([] : List (Frame ε α)) = [] := rfl

@[simp] theorem nodesOf_cons (f : Frame ε α) (path : List (Frame ε α)) :
    nodesOf (f :: path) = f.node :: nodesOf path := rfl

theorem Graph.keys_hidden (g : Graph α) :
    Ordered.keys (g.hidden : HiddenGraph ε α) = Ordered.keys g := by
  simp [Ordered.keys, hidden]

variable [DecidableEq α] {g : Graph α}

/-- From a node, `followed` has been followed and the rest is still to be followed. -/
structure Frame.Splits (g : Graph α) (f : Frame ε α) (followed left : List α) : Prop where
  all : g.targets f.node = followed ++ left
  rest : f.targets = left.map .ok

/-- A path, its end first. Every node is led to by the one before it and visited for the first
time, and what has been followed from it has been visited and is not among the nodes up to it. -/
inductive Trail (g : Graph α) (visited : α → Prop) : List (Frame ε α) → Prop where
  | nil : Trail g visited []
  | cons {f : Frame ε α} {path : List (Frame ε α)} (followed left : List α)
      (splits : f.Splits g followed left)
      (away : ∀ b ∈ followed, visited b ∧ b ∉ nodesOf (f :: path))
      (here : visited f.node) (new : f.node ∉ nodesOf path)
      (linked : ∀ e ∈ path.head?, g.Edge e.node f.node)
      (before : Trail g visited path) : Trail g visited (f :: path)

namespace Trail

variable {visited visited' : α → Prop} {f : Frame ε α} {path : List (Frame ε α)}

theorem mono (h : Trail g visited path) (hmore : ∀ a, visited a → visited' a) :
    Trail g visited' path := by
  induction h with
  | nil => exact .nil
  | cons followed left splits away here new linked _ ih =>
    exact .cons followed left splits (fun b hb => (away b hb).imp_left (hmore b)) (hmore _ here)
      new linked ih

theorem visited_of_mem (h : Trail g visited path) {a : α} (ha : a ∈ nodesOf path) : visited a := by
  induction h with
  | nil => exact absurd ha List.not_mem_nil
  | cons _ _ _ _ here _ _ _ ih =>
    rcases List.mem_cons.mp ha with rfl | ha
    · exact here
    · exact ih ha

/-- The end of the path can be reached from every other node on it. -/
theorem path_to_end (h : Trail g visited (f :: path)) {a : α} (ha : a ∈ nodesOf path) :
    g.Path a f.node := by
  induction path generalizing f with
  | nil => exact absurd ha List.not_mem_nil
  | cons e path ih =>
    cases h with
    | cons _ _ _ _ _ _ linked before =>
      have hedge := linked e rfl
      rcases List.mem_cons.mp ha with rfl | ha
      · exact .edge hedge
      · exact (ih before ha).trans (.edge hedge)

/-- A target on the path closes a cycle. -/
theorem cyclic_of_edge (h : Trail g visited (f :: path)) {b : α} (hedge : g.Edge f.node b)
    (hb : b ∈ nodesOf (f :: path)) : g.Cyclic := by
  rcases List.mem_cons.mp hb with rfl | hb
  · exact ⟨_, .edge hedge⟩
  · exact ⟨b, (h.path_to_end hb).trans (.edge hedge)⟩

variable {a b : α} {targets : List (Except ε α)}

/-- What is to be followed next is a target. -/
theorem edge_of_next (h : Trail g visited (⟨a, .ok b :: targets⟩ :: path)) : g.Edge a b := by
  cases h with
  | cons followed left splits =>
    have hrest := splits.rest
    cases left with
    | nil => cases hrest
    | cons c left =>
      simp only [List.map_cons, List.cons.injEq, Except.ok.injEq] at hrest
      unfold Graph.Edge
      rw [splits.all, hrest.1]
      simp

/-- No fault waits on a path. -/
theorem not_error {f : ε} : ¬ Trail g visited (⟨a, .error f :: targets⟩ :: path) := by
  intro h
  cases h with
  | cons _ left splits =>
    have hrest := splits.rest
    cases left <;> simp at hrest

/-- A target that has been visited, but is not on the path, may be passed over. -/
theorem advance (h : Trail g visited (⟨a, .ok b :: targets⟩ :: path)) (hb : visited b)
    (hoff : b ∉ nodesOf (⟨a, .ok b :: targets⟩ :: path)) :
    Trail g visited (⟨a, targets⟩ :: path) := by
  cases h with
  | cons followed left splits away here new linked before =>
    obtain ⟨hall, hrest⟩ := splits
    cases left with
    | nil => cases hrest
    | cons c left =>
      simp only [List.map_cons, List.cons.injEq, Except.ok.injEq] at hrest
      obtain ⟨rfl, hrest⟩ := hrest
      refine .cons (followed ++ [b]) left ⟨by simpa using hall, hrest⟩ ?_ here new linked before
      intro c hc
      rcases List.mem_append.mp hc with hc | hc
      · exact away c hc
      · rw [List.mem_singleton.mp hc]
        exact ⟨hb, hoff⟩

/-- All targets of the end of the path have been followed when none is left. -/
theorem away_of_edge (h : Trail g visited (⟨a, []⟩ :: path)) (hedge : g.Edge a b) :
    visited b ∧ b ∉ nodesOf ((⟨a, []⟩ : Frame ε α) :: path) := by
  cases h with
  | cons followed left splits away =>
    have hleft : left = [] := List.map_eq_nil_iff.mp splits.rest.symm
    refine away b ?_
    have hall := splits.all
    rw [hleft, List.append_nil] at hall
    exact hall ▸ hedge

end Trail

namespace Graph

theorem getD_get?_hidden (g : Graph α) (a : α) :
    (Ordered.get? a (g.hidden : HiddenGraph ε α)).getD (.ok []) = .ok ((g.targets a).map .ok) := by
  unfold hidden targets
  induction g with
  | nil => rfl
  | cons e g ih =>
    rw [List.map_cons, Ordered.get?_cons, Ordered.get?_cons]
    split
    · rfl
    · exact ih

end Graph

variable [Hashable α]

namespace Search

variable {s s' : Search ε α} {a b : α}

/-- A node that has been entered and left again. -/
def Finished (s : Search ε α) (a : α) : Prop := a ∈ s.visited ∧ a ∉ nodesOf s.path

/-- What holds at every moment of a search. -/
structure Explores (g : Graph α) (s : Search ε α) : Prop where
  trail : Trail g (· ∈ s.visited) s.path
  onPath : ∀ a, a ∈ s.onPath ↔ a ∈ nodesOf s.path
  closed : ∀ a b, s.Finished a → g.Edge a b → s.Finished b
  acyclic : ∀ a, s.Finished a → ¬ g.Path a a
  awaited : ∀ a ∈ Ordered.keys g, a ∈ s.visited ∨ a ∈ s.starts

def entered (g : Graph α) (a : α) (s : Search ε α) : Search ε α :=
  { s with
    visited := s.visited.insert a
    onPath := s.onPath.insert a
    path := ⟨a, (g.targets a).map .ok⟩ :: s.path }

theorem enter_hidden (g : Graph α) (a : α) (s : Search ε α) :
    g.hidden.enter a s = .ok (s.entered g a) :=
  HiddenGraph.enter_eq_ok.mpr ⟨_, g.getD_get?_hidden a, rfl⟩

theorem explores_begin (ε : Type) (g : Graph α) :
    Explores g (g.hidden.begin : Search ε α) where
  trail := .nil
  onPath a := by simp [HiddenGraph.begin]
  closed a b h := absurd h.1 Std.HashSet.not_mem_empty
  acyclic a h := absurd h.1 Std.HashSet.not_mem_empty
  awaited a ha := .inr (by simpa only [HiddenGraph.begin, Graph.keys_hidden] using ha)

namespace Explores

variable {path : List (Frame ε α)} {targets : List (Except ε α)}

theorem finished_of_path (h : s.Explores g) (ha : s.Finished a) (hpath : g.Path a b) :
    s.Finished b := by
  induction hpath with
  | edge e => exact h.closed _ _ ha e
  | step e _ ih => exact ih (h.closed _ _ ha e)

/-- Nothing but the starts has changed, and none is lost. -/
theorem skip_start (h : s.Explores g) {starts : List α} (hstarts : s.starts = a :: starts)
    (ha : a ∈ s.visited) : Explores g { s with starts } where
  trail := h.trail
  onPath := h.onPath
  closed := h.closed
  acyclic := h.acyclic
  awaited b hb := by
    rcases h.awaited b hb with hvisited | hstart
    · exact .inl hvisited
    · rw [hstarts] at hstart
      rcases List.mem_cons.mp hstart with rfl | hstart
      · exact .inl ha
      · exact .inr hstart

/-- A node that has not been visited becomes the end of the path. -/
theorem entered (h : s.Explores g) (ha : a ∉ s.visited) {starts : List α}
    (hpath : Trail g (fun b => b = a ∨ b ∈ s.visited) path) (hnodes : nodesOf path = nodesOf s.path)
    (hlinked : ∀ e ∈ path.head?, g.Edge e.node a)
    (hstarts : ∀ b ∈ s.starts, b = a ∨ b ∈ starts) :
    Explores g (Search.entered g a { s with starts, path }) := by
  have hvisited (b : α) : b ∈ s.visited.insert a ↔ b = a ∨ b ∈ s.visited := by
    rw [Std.HashSet.mem_insert, beq_iff_eq, eq_comm]
  have hnew : a ∉ nodesOf path := fun hmem => ha (h.trail.visited_of_mem (hnodes ▸ hmem))
  have hfinished (b : α) :
      (Search.entered g a { s with starts, path }).Finished b ↔ s.Finished b := by
    unfold Finished Search.entered
    rw [hvisited, nodesOf_cons, hnodes, List.mem_cons, not_or]
    constructor
    · intro hb
      obtain ⟨hb, hne, hoff⟩ := hb
      exact ⟨hb.resolve_left hne, hoff⟩
    · intro hb
      refine ⟨.inr hb.1, ?_, hb.2⟩
      rintro rfl
      exact ha hb.1
  refine ⟨?_, fun b => ?_, fun b c hb hedge => ?_, fun b hb => ?_, fun b hb => ?_⟩
  · refine .cons [] (g.targets a) ⟨rfl, rfl⟩ (by simp) ?_ hnew hlinked ?_
    · exact (hvisited a).mpr (.inl rfl)
    · exact hpath.mono fun b hb => (hvisited b).mpr hb
  · change b ∈ s.onPath.insert a ↔ b ∈ a :: nodesOf path
    rw [Std.HashSet.mem_insert, beq_iff_eq, h.onPath, List.mem_cons, hnodes, eq_comm]
  · rw [hfinished] at hb ⊢
    exact h.closed b c hb hedge
  · exact h.acyclic b ((hfinished b).mp hb)
  · change b ∈ s.visited.insert a ∨ b ∈ starts
    rw [hvisited]
    rcases h.awaited b hb with hb | hb
    · exact .inl (.inr hb)
    · exact (hstarts b hb).imp_left .inl

/-- The end of the path is left when nothing is to be followed from it. -/
theorem left (h : s.Explores g) (hpath : s.path = ⟨a, []⟩ :: path) :
    Explores g { s with onPath := s.onPath.erase a, path } := by
  have htrail := hpath ▸ h.trail
  have hsplit : a ∉ nodesOf path ∧ Trail g (· ∈ s.visited) path := by
    cases htrail with
    | cons _ _ _ _ _ new _ before => exact ⟨new, before⟩
  obtain ⟨hnew, hbefore⟩ := hsplit
  have htargets (b : α) (hedge : g.Edge a b) : s.Finished b := by
    have haway := htrail.away_of_edge hedge
    exact ⟨haway.1, hpath ▸ haway.2⟩
  have hfinished (b : α) : Finished { s with onPath := s.onPath.erase a, path } b ↔
      b = a ∨ s.Finished b := by
    unfold Finished
    rw [hpath, nodesOf_cons, List.mem_cons, not_or]
    constructor
    · intro hb
      by_cases heq : b = a
      · exact .inl heq
      · exact .inr ⟨hb.1, heq, hb.2⟩
    · intro hb
      rcases hb with rfl | hb
      · exact ⟨htrail.visited_of_mem List.mem_cons_self, hnew⟩
      · exact ⟨hb.1, hb.2.2⟩
  refine ⟨hbefore, fun b => ?_, fun b c hb hedge => ?_, fun b hb => ?_, h.awaited⟩
  · change b ∈ s.onPath.erase a ↔ b ∈ nodesOf path
    rw [Std.HashSet.mem_erase, h.onPath, hpath, nodesOf_cons, List.mem_cons]
    constructor
    · intro hb
      exact hb.2.resolve_left fun heq => by simp [heq] at hb
    · intro hb
      refine ⟨?_, .inr hb⟩
      rw [beq_eq_false_iff_ne]
      rintro rfl
      exact hnew hb
  · rw [hfinished] at hb ⊢
    rcases hb with rfl | hb
    · exact .inr (htargets c hedge)
    · exact .inr (h.closed b c hb hedge)
  · rcases (hfinished b).mp hb with rfl | hb
    · -- the way back would lead through nodes that have been left, and this one has not been
      intro hback
      have hself : s.Finished b := by
        cases hback with
        | edge hedge => exact htargets b hedge
        | step hedge hback => exact h.finished_of_path (htargets _ hedge) hback
      exact hself.2 (hpath ▸ List.mem_cons_self)
    · exact h.acyclic b hb

/-- A target that has been visited before is passed over. -/
theorem passed (h : s.Explores g) (hpath : s.path = ⟨a, .ok b :: targets⟩ :: path)
    (hb : b ∈ s.visited) (hoff : b ∉ s.onPath) :
    Explores g { s with path := ⟨a, targets⟩ :: path } := by
  have htrail := hpath ▸ h.trail
  rw [h.onPath, hpath] at hoff
  have hfinished (c : α) : Finished { s with path := ⟨a, targets⟩ :: path } c ↔ s.Finished c := by
    unfold Finished
    rw [hpath]
    rfl
  refine ⟨htrail.advance hb hoff, fun c => ?_, fun c e hc hedge => ?_, fun c hc => ?_, h.awaited⟩
  · rw [h.onPath, hpath]
    rfl
  · rw [hfinished] at hc ⊢
    exact h.closed c e hc hedge
  · exact h.acyclic c ((hfinished c).mp hc)

/-- A search that has come to its end has left every node with an entry. -/
theorem not_cyclic (h : s.Explores g) (hpath : s.path = []) (hstarts : s.starts = []) :
    ¬ g.Cyclic := by
  rintro ⟨a, ha⟩
  obtain ⟨b, hedge, -⟩ := Graph.exists_edge_of_path_self ha
  have hentry : a ∈ Ordered.keys g := by
    rw [Ordered.mem_keys_iff, Option.isSome_iff_ne_none]
    intro hnone
    simp [Graph.Edge, Graph.targets, hnone] at hedge
  have hvisited : a ∈ s.visited := (h.awaited a hentry).resolve_right (by simp [hstarts])
  exact h.acyclic a ⟨hvisited, by simp [hpath]⟩ ha

end Explores

/-- A step meets a cycle, or it finds that there is none, or the search goes on. -/
inductive Stepped (g : Graph α) : Except ε (Progress ε α) → Prop where
  | cycle (hcyclic : g.Cyclic) : Stepped g (.ok .cycle)
  | exhausted (hacyclic : ¬ g.Cyclic) : Stepped g (.ok .exhausted)
  | under {s : Search ε α} (h : s.Explores g) : Stepped g (.ok (.under s))

theorem Explores.stepped (h : s.Explores g) : Stepped g (g.hidden.step s) := by
  obtain ⟨starts, visited, onPath, path⟩ := s
  match hpath : path, hstarts : starts with
  | [], [] => exact .exhausted (h.not_cyclic rfl rfl)
  | [], a :: starts =>
    simp only [HiddenGraph.step, enter_hidden]
    split
    · rename_i ha
      exact .under (h.skip_start rfl ha)
    · rename_i ha
      exact .under (h.entered ha .nil rfl (by simp) fun b hb => List.mem_cons.mp hb)
  | ⟨a, []⟩ :: path, _ => exact .under (h.left rfl)
  | ⟨a, .error f :: targets⟩ :: path, _ => exact absurd h.trail Trail.not_error
  | ⟨a, .ok b :: targets⟩ :: path, _ =>
    simp only [HiddenGraph.step, enter_hidden]
    split
    · rename_i hb
      exact .cycle (h.trail.cyclic_of_edge h.trail.edge_of_next ((h.onPath b).mp hb))
    · rename_i hoff
      split
      · rename_i hb
        exact .under (h.passed rfl hb hoff)
      · rename_i hb
        have hoff : b ∉ nodesOf (⟨a, .ok b :: targets⟩ :: path) :=
          fun hon => hoff ((h.onPath b).mpr hon)
        have hfollow : Trail g (fun c => c = b ∨ c ∈ visited) (⟨a, targets⟩ :: path) :=
          (h.trail.mono fun c hc => .inr hc).advance (.inl rfl) hoff
        have hlinked : ∀ e ∈ (⟨a, targets⟩ :: path : List (Frame ε α)).head?, g.Edge e.node b := by
          intro e he
          cases he
          exact h.trail.edge_of_next
        exact .under (h.entered hb hfollow rfl hlinked fun c hc => .inr hc)

/-- The search ends without a fault, and with the truth about cycles. -/
theorem Explores.run (h : s.Explores g) :
    ∃ found, g.hidden.run s = .ok found ∧ (found = true ↔ g.Cyclic) := by
  fun_induction HiddenGraph.run g.hidden s with
  | case1 s f hstep =>
    have hstepped := h.stepped
    rw [hstep] at hstepped
    cases hstepped
  | case2 s hstep =>
    have hstepped := h.stepped
    rw [hstep] at hstepped
    cases hstepped with
    | cycle hcyclic => exact ⟨true, rfl, iff_of_true rfl hcyclic⟩
  | case3 s hstep =>
    have hstepped := h.stepped
    rw [hstep] at hstepped
    cases hstepped with
    | exhausted hacyclic => exact ⟨false, rfl, iff_of_false Bool.false_ne_true hacyclic⟩
  | case4 s s' hstep ih =>
    have hstepped := h.stepped
    rw [hstep] at hstepped
    cases hstepped with
    | under hnext => exact ih hnext

end Search

namespace Graph

/-- Where nothing is at fault, the search tells whether there is a cycle. -/
theorem hasCycle_hidden (ε : Type) (g : Graph α) :
    HiddenGraph.hasCycle (g.hidden : HiddenGraph ε α) = .ok g.hasCycle ∧
      (g.hasCycle = true ↔ g.Cyclic) := by
  obtain ⟨found, hfound, hiff⟩ := (Search.explores_begin ε g).run
  obtain ⟨own, hown, hownIff⟩ := (Search.explores_begin Empty g).run
  have hsame : own = found := Bool.eq_iff_iff.mpr (hownIff.trans hiff.symm)
  have hgraph : g.hasCycle = own := by
    unfold hasCycle HiddenGraph.hasCycle
    rw [hown]
  rw [hgraph]
  exact ⟨hsame ▸ hfound, hownIff⟩

theorem hasCycle_iff : g.hasCycle = true ↔ g.Cyclic := (hasCycle_hidden Empty g).2

end Graph

end MoveWorkbench
