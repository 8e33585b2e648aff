import Mathlib.Data.List.Induction
import Mathlib.Data.List.Nodup
import MoveWorkbench.Design.Edit

/-!
Connections in the order in which they were made. An id that is connected goes to the end of
the connections, unless it is there, and one that is disconnected is taken out. So after any
steps the connections are the ids whose last step connected them, in the order of the moments
since when they have been connected without a break.
-/

namespace MoveWorkbench

structure LinkStep where
  target : String
  connects : Bool

namespace LinkStep

def last? (steps : List LinkStep) (t : String) : Option LinkStep :=
  steps.reverse.find? (·.target = t)

def Connected (before : List String) (steps : List LinkStep) (t : String) : Prop :=
  match last? steps t with
  | some e => e.connects = true
  | none => t ∈ before

/-- Whether an id is connected at a moment. First the ids in `before` come one by one, then
each step is a moment. -/
def ConnectedAt (before : List String) (steps : List LinkStep) (n : ℕ) (t : String) : Prop :=
  Connected (before.take n) (steps.take (n - before.length)) t

def ConnectedSince (before : List String) (steps : List LinkStep) (n : ℕ) (t : String) : Prop :=
  ¬ ConnectedAt before steps n t ∧ ∀ m, n < m → ConnectedAt before steps m t

def apply (e : LinkStep) (ss : List String) : List String :=
  if e.connects then if e.target ∈ ss then ss else ss ++ [e.target]
  else ss.filter (· ≠ e.target)

/-- Whether a list has the ids that are connected after steps, in the order of the moments
since when they are. -/
structure Traces (before : List String) (steps : List LinkStep) (ss : List String) : Prop where
  mem : ∀ t, t ∈ ss ↔ Connected before steps t
  order : ss.Pairwise fun s t => ∃ m n,
    ConnectedSince before steps m s ∧ ConnectedSince before steps n t ∧ m < n

variable {before ss : List String} {steps : List LinkStep} {t : String} {n : ℕ}

theorem connected_nil : Connected before [] t ↔ t ∈ before := Iff.rfl

/-- Only a step about the id itself counts. -/
theorem connected_append (e : LinkStep) : Connected before (steps ++ [e]) t ↔
    if e.target = t then e.connects = true else Connected before steps t := by
  unfold Connected last?
  rw [List.reverse_append, List.reverse_singleton, List.singleton_append, List.find?_cons]
  by_cases ht : e.target = t
  · simp [ht]
  · simp [ht]

theorem mem_apply {e : LinkStep} :
    t ∈ e.apply ss ↔ if e.target = t then e.connects = true else t ∈ ss := by
  unfold apply
  by_cases hconnects : e.connects
  · by_cases ht : e.target = t
    · subst ht
      by_cases hmem : e.target ∈ ss <;> simp [hconnects, hmem]
    · by_cases hmem : e.target ∈ ss <;> simp [hconnects, hmem, ht, Ne.symm ht]
  · by_cases ht : e.target = t
    · simp [hconnects, ht]
    · simp [hconnects, ht, Ne.symm ht]

/-- A step makes no repetitions. -/
theorem nodup_apply (h : ss.Nodup) (e : LinkStep) : (e.apply ss).Nodup := by
  unfold apply
  split
  · split
    · exact h
    · rename_i hthere
      exact h.append (List.nodup_singleton _) (by simpa using hthere)
  · exact h.filter _

/-- From the last moment on nothing changes. -/
theorem connectedAt_of_le (h : before.length + steps.length ≤ n) :
    ConnectedAt before steps n t ↔ Connected before steps t := by
  unfold ConnectedAt
  rw [List.take_of_length_le (by omega), List.take_of_length_le (by omega)]

/-- Up to the last moment a further step does not count. -/
theorem connectedAt_append (e : LinkStep) (h : n ≤ before.length + steps.length) :
    ConnectedAt before (steps ++ [e]) n t ↔ ConnectedAt before steps n t := by
  unfold ConnectedAt
  rw [List.take_append_of_le_length (by omega)]

/-- What is connected since a moment came before the last one. -/
theorem ConnectedSince.lt (h : ConnectedSince before steps n t) :
    n < before.length + steps.length := by
  by_contra hge
  have hnever := h.1
  have hlast := h.2 (n + 1) (Nat.lt_succ_self n)
  rw [connectedAt_of_le (by omega)] at hnever hlast
  exact hnever hlast

/-- There is a moment since when an id is connected. -/
theorem exists_connectedSince (h : Connected before steps t) :
    ∃ n, ConnectedSince before steps n t := by
  by_contra hnone
  -- otherwise there is no last moment at which the id is not connected
  have hlater : ∀ k, ∃ m, k ≤ m ∧ ¬ ConnectedAt before steps m t := by
    intro k
    induction k with
    | zero =>
      refine ⟨0, Nat.le_refl 0, ?_⟩
      simp [ConnectedAt, connected_nil]
    | succ k ih =>
      obtain ⟨m, hm, hnot⟩ := ih
      by_contra hall
      refine hnone ⟨m, hnot, fun j hj => ?_⟩
      by_contra hj'
      exact hall ⟨j, by omega, hj'⟩
  obtain ⟨m, hm, hnot⟩ := hlater (before.length + steps.length)
  exact hnot ((connectedAt_of_le hm).mpr h)

/-- What stays connected in a step is connected since the same moment. -/
theorem ConnectedSince.append (h : ConnectedSince before steps n t) {e : LinkStep}
    (he : Connected before (steps ++ [e]) t) : ConnectedSince before (steps ++ [e]) n t := by
  have hlt := h.lt
  refine ⟨fun hat => h.1 ((connectedAt_append e (by omega)).mp hat), fun m hm => ?_⟩
  by_cases hle : m ≤ before.length + steps.length
  · exact (connectedAt_append e hle).mpr (h.2 m hm)
  · have hend : before.length + (steps ++ [e]).length ≤ m := by
      simp only [List.length_append, List.length_singleton]
      omega
    exact (connectedAt_of_le hend).mpr he

/-- What a step connects anew is connected since the moment before it. -/
theorem connectedSince_last {e : LinkStep} (hnot : ¬ Connected before steps e.target)
    (hconnects : e.connects = true) :
    ConnectedSince before (steps ++ [e]) (before.length + steps.length) e.target := by
  refine ⟨fun hat => hnot ?_, fun m hm => ?_⟩
  · rw [connectedAt_append e (Nat.le_refl _)] at hat
    exact (connectedAt_of_le (Nat.le_refl _)).mp hat
  · have hend : before.length + (steps ++ [e]).length ≤ m := by
      simp only [List.length_append, List.length_singleton]
      omega
    rw [connectedAt_of_le hend, connected_append, if_pos rfl]
    exact hconnects

/-- At first different ids are connected, each since its own place. -/
theorem traces_nil (h : before.Nodup) : Traces before [] before := by
  have hplace : ∀ i (hi : i < before.length), ConnectedSince before [] i before[i] := by
    intro i hi
    unfold ConnectedSince ConnectedAt
    simp only [List.take_nil, connected_nil, List.mem_take_iff_getElem]
    constructor
    · intro hparts
      obtain ⟨j, hj, heq⟩ := hparts
      have hij : j = i := h.getElem_inj_iff.mp heq
      omega
    · exact fun m hm => ⟨i, by omega, rfl⟩
  refine ⟨fun t => Iff.rfl, List.pairwise_iff_getElem.mpr fun i j hi hj hij => ?_⟩
  exact ⟨i, j, hplace i hi, hplace j hj, hij⟩

theorem Traces.append (h : Traces before steps ss) (e : LinkStep) :
    Traces before (steps ++ [e]) (e.apply ss) := by
  have hmem : ∀ t, t ∈ e.apply ss ↔ Connected before (steps ++ [e]) t := by
    intro t
    rw [mem_apply, connected_append, h.mem t]
  refine ⟨hmem, ?_⟩
  -- the ids that stay are connected since the same moments
  have hkept : ∀ {rs : List String}, rs.Sublist ss → (∀ t ∈ rs, t ∈ e.apply ss) →
      rs.Pairwise fun s t => ∃ m n, ConnectedSince before (steps ++ [e]) m s ∧
        ConnectedSince before (steps ++ [e]) n t ∧ m < n := by
    intro rs hrs hstay
    refine (h.order.sublist hrs).imp_of_mem ?_
    intro s t hs ht hparts
    obtain ⟨m, n, hm, hn, hlt⟩ := hparts
    exact ⟨m, n, hm.append ((hmem s).mp (hstay s hs)), hn.append ((hmem t).mp (hstay t ht)), hlt⟩
  by_cases hconnects : e.connects
  · by_cases hthere : e.target ∈ ss
    · have hsame : e.apply ss = ss := by simp [apply, hconnects, hthere]
      rw [hsame] at hkept ⊢
      exact hkept (List.Sublist.refl ss) fun t ht => ht
    · have hend : e.apply ss = ss ++ [e.target] := by simp [apply, hconnects, hthere]
      rw [hend] at hkept ⊢
      refine List.pairwise_append.mpr
        ⟨hkept (List.Sublist.refl ss) fun t ht => List.mem_append_left _ ht,
          List.pairwise_singleton _ _, fun s hs t ht => ?_⟩
      rw [List.mem_singleton.mp ht]
      have hnew := connectedSince_last (mt (h.mem e.target).mpr hthere) hconnects
      have hold : Connected before (steps ++ [e]) s :=
        (hmem s).mp (by rw [hend]; exact List.mem_append_left _ hs)
      -- an id that was there has come before the last moment
      obtain ⟨n, hn⟩ := exists_connectedSince ((h.mem s).mp hs)
      exact ⟨n, _, hn.append hold, hnew, hn.lt⟩
  · have hrest : e.apply ss = ss.filter (· ≠ e.target) := by simp [apply, hconnects]
    rw [hrest] at hkept ⊢
    exact hkept List.filter_sublist fun t ht => ht

/-- The connections after steps are those that the steps tell of. -/
theorem traces_foldl (h : before.Nodup) (steps : List LinkStep) :
    Traces before steps (steps.foldl (fun ss e => e.apply ss) before) := by
  induction steps using List.reverseRecOn with
  | nil => exact traces_nil h
  | append_singleton steps e ih =>
    rw [List.foldl_append]
    exact ih.append e

end LinkStep

namespace Component

def link (c : Component) (e : LinkStep) : Component :=
  if e.connects then c.connect (.text e.target) else c.disconnect (.text e.target)

@[simp] theorem id_link (c : Component) (e : LinkStep) : (c.link e).id = c.id := by
  unfold link connect disconnect
  split
  · split <;> rfl
  · rfl

/-- Connections that are texts follow the steps. -/
theorem connections_link {c : Component} {ss : List String} (h : c.connections = ss.map .text)
    (e : LinkStep) : (c.link e).connections = (e.apply ss).map .text := by
  have hamong : (Json.text e.target).isAmong c.connections = true ↔ e.target ∈ ss := by
    simp [Json.isAmong, h]
  unfold link LinkStep.apply
  split
  · unfold connect
    by_cases hmem : e.target ∈ ss
    · rw [if_pos (hamong.mpr hmem), if_pos hmem, h]
    · rw [if_neg (mt hamong.mp hmem), if_neg hmem]
      simp [h]
  · unfold disconnect
    simp only [h, List.filter_map]
    congr 1
    refine List.filter_congr fun s _ => ?_
    rw [Function.comp_apply, Bool.eq_iff_iff, Bool.not_eq_true', ← Bool.not_eq_true,
      Json.beq_text]
    simp

theorem connections_foldl_link {c : Component} {ss : List String}
    (h : c.connections = ss.map .text) (steps : List LinkStep) :
    (steps.foldl link c).connections = (steps.foldl (fun ss e => e.apply ss) ss).map .text := by
  induction steps generalizing c ss with
  | nil => exact h
  | cons e steps ih => exact ih (connections_link h e)

end Component

end MoveWorkbench
