/-!
Maps as lists of pairs in the order in which their keys first came. Putting a key that is
present changes its value and keeps its place; a new key goes to the end.
-/

namespace MoveWorkbench.Ordered

variable {κ α : Type} [BEq κ]

def get? (k : κ) (m : List (κ × α)) : Option α := (m.find? (·.1 == k)).map (·.2)

def put (k : κ) (v : α) : List (κ × α) → List (κ × α)
  | [] => [(k, v)]
  | (l, w) :: m => if l == k then (l, v) :: m else (l, w) :: put k v m

def remove (k : κ) (m : List (κ × α)) : List (κ × α) := m.filter (!·.1 == k)

def keys (m : List (κ × α)) : List κ := m.map (·.1)

/-- Puts pairs one after the other. -/
def ofList (pairs : List (κ × α)) : List (κ × α) :=
  pairs.foldl (fun m p => put p.1 p.2 m) []

@[simp] theorem get?_nil (k : κ) : get? k ([] : List (κ × α)) = none := rfl

theorem get?_cons (k l : κ) (w : α) (m : List (κ × α)) :
    get? k ((l, w) :: m) = if l == k then some w else get? k m := by
  by_cases h : l == k <;> simp [get?, h]

section Equivalence

variable [EquivBEq κ]

theorem get?_put_self (k : κ) (v : α) (m : List (κ × α)) : get? k (put k v m) = some v := by
  induction m with
  | nil => simp [put, get?_cons]
  | cons p m ih =>
    obtain ⟨l, w⟩ := p
    by_cases h : l == k <;> simp [put, get?_cons, h, ih]

theorem get?_put_of_ne {k l : κ} (h : (k == l) = false) (v : α) (m : List (κ × α)) :
    get? l (put k v m) = get? l m := by
  induction m with
  | nil => simp [put, get?_cons, h]
  | cons p m ih =>
    obtain ⟨j, w⟩ := p
    by_cases hj : j == k
    · have hl : (j == l) = false := by rw [BEq.congr_left hj, h]
      simp [put, get?_cons, hj, hl]
    · simp [put, get?_cons, hj, ih]

end Equivalence

/-- A key that is new goes to the end, and no other one moves. -/
theorem keys_put (k : κ) (v : α) (m : List (κ × α)) :
    keys (put k v m) = if (get? k m).isSome then keys m else keys m ++ [k] := by
  induction m with
  | nil => simp [put, keys]
  | cons p m ih =>
    obtain ⟨l, w⟩ := p
    simp only [keys] at ih
    by_cases h : l == k
    · simp [put, keys, get?_cons, h]
    · simp only [put, keys, get?_cons, h, Bool.false_eq_true, if_false, List.map_cons, ih]
      split <;> simp

theorem mem_keys_iff [LawfulBEq κ] {k : κ} {m : List (κ × α)} : k ∈ keys m ↔ (get? k m).isSome := by
  induction m with
  | nil => simp [keys]
  | cons p m ih =>
    obtain ⟨l, w⟩ := p
    simp only [keys, List.map_cons, List.mem_cons, get?_cons] at ih ⊢
    by_cases h : l == k
    · simp [(eq_of_beq h).symm]
    · have hne : ¬ k = l := fun heq => h (beq_iff_eq.mpr heq.symm)
      simp [h, hne, ih]

section Distinct

variable {κ α : Type} [DecidableEq κ]

/-- The elements whose key is not in `seen` and did not come before. -/
def distinctBy (key : α → κ) (seen : List κ) : List α → List α
  | [] => []
  | a :: as =>
    if key a ∈ seen then distinctBy key seen as
    else a :: distinctBy key (key a :: seen) as

theorem mem_map_distinctBy {key : α → κ} {seen : List κ} {as : List α} {k : κ} :
    k ∈ (distinctBy key seen as).map key ↔ k ∈ as.map key ∧ k ∉ seen := by
  induction as generalizing seen with
  | nil => simp [distinctBy]
  | cons a as ih =>
    simp only [distinctBy]
    split
    · rw [ih]; grind
    · simp only [List.map_cons, List.mem_cons, ih]
      grind

/-- No key is left twice. -/
theorem nodup_map_distinctBy (key : α → κ) (seen : List κ) (as : List α) :
    ((distinctBy key seen as).map key).Nodup := by
  induction as generalizing seen with
  | nil => simp [distinctBy]
  | cons a as ih =>
    simp only [distinctBy]
    split
    · exact ih seen
    · simp only [List.map_cons, List.nodup_cons]
      refine ⟨fun h => ?_, ih _⟩
      exact (mem_map_distinctBy.mp h).2 (by simp)

theorem distinctBy_sublist (key : α → κ) (seen : List κ) (as : List α) :
    (distinctBy key seen as).Sublist as := by
  induction as generalizing seen with
  | nil => simp [distinctBy]
  | cons a as ih =>
    simp only [distinctBy]
    split
    · exact (ih seen).cons a
    · exact (ih _).cons_cons a

end Distinct

end MoveWorkbench.Ordered
