/-!
Parts of a text between separators, and the lines of a text, which are separated by line
breaks. There is one part more than separators.
-/

namespace MoveWorkbench.Text

def split (sep : Char) : List Char → List (List Char)
  | [] => [[]]
  | c :: cs =>
    if c = sep then [] :: split sep cs
    else match split sep cs with
      | part :: rest => (c :: part) :: rest
      | [] => [[c]]

def lines (cs : List Char) : List (List Char) := split '\n' cs

/-- Puts texts one below the other. -/
def joinLines (ls : List String) : String := "\n".intercalate ls

theorem split_ne_nil (sep : Char) (cs : List Char) : split sep cs ≠ [] := by
  cases cs with
  | nil => simp [split]
  | cons c cs =>
    simp only [split]
    split
    · simp
    · split <;> simp

theorem split_length (sep : Char) (cs : List Char) :
    (split sep cs).length = cs.count sep + 1 := by
  induction cs with
  | nil => rfl
  | cons c cs ih =>
    by_cases h : c = sep
    · subst h; simp [split, ih]
    · rw [List.count_cons_of_ne h, ← ih, split, ite_cond_eq_false _ _ (by simp [h])]
      split
      · next h' => simp [h']
      · next h' => exact absurd h' (split_ne_nil sep cs)

end MoveWorkbench.Text
