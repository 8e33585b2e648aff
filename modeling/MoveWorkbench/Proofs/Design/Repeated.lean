import MoveWorkbench.Proofs.Design.Problems

/-!
Names that come again. A validation goes through the names and keeps in mind those that came
before and those that are listed already. Where all names are texts, it lists a name just at the
place where it comes for the second time, so each name that comes again is listed once, and the
names are listed in the order of those places.
-/

namespace MoveWorkbench.Design

def SecondAt (names : List String) (s : String) (i : ℕ) : Prop :=
  names[i]? = some s ∧ (names.take i).count s = 1

/-- The texts that come more than once are listed, each of them once, in the order of the places
where they come for the second time. -/
structure ListsRepeated (names shared : List String) : Prop where
  nodup : shared.Nodup
  mem_iff : ∀ s, s ∈ shared ↔ 2 ≤ names.count s
  order : ∃ places, List.Forall₂ (SecondAt names) shared places ∧ places.Pairwise (· < ·)

def secondsFrom (before : List String) : List String → List String
  | [] => []
  | s :: names =>
    if before.count s = 1 then s :: secondsFrom (before ++ [s]) names
    else secondsFrom (before ++ [s]) names

/-- What is kept in mind of texts: those that came, and those that came again. -/
structure Recalls (before : List String) (seen repeated : List Key) : Prop where
  seen : ∀ s, Key.text s ∈ seen ↔ 1 ≤ before.count s
  repeated : ∀ s, Key.text s ∈ repeated ↔ 2 ≤ before.count s

variable {before names shared : List String} {seen repeated : List Key} {s t : String}

theorem count_concat_self : (before ++ [s]).count s = before.count s + 1 := by
  rw [List.count_append, List.count_singleton_self]

theorem count_concat_of_ne (h : t ≠ s) : (before ++ [s]).count t = before.count t := by
  have hnone : [s].count t = 0 := List.count_eq_zero.mpr (by simpa using h)
  rw [List.count_append, hnone, Nat.add_zero]

/-- A text that is listed has come before, and from now on it has come again. -/
theorem Recalls.listed (h : Recalls before seen repeated) (hs : before.count s = 1) :
    Recalls (before ++ [s]) seen (.text s :: repeated) := by
  refine ⟨fun t => ?_, fun t => ?_⟩
  · rcases eq_or_ne t s with rfl | hne
    · rw [h.seen, count_concat_self]
      omega
    · rw [h.seen, count_concat_of_ne hne]
  · rw [List.mem_cons, Key.text.injEq, h.repeated]
    rcases eq_or_ne t s with rfl | hne
    · rw [count_concat_self]
      exact iff_of_true (.inl rfl) (by omega)
    · rw [count_concat_of_ne hne, or_iff_right hne]

/-- A text that is not listed comes for the first time, or it was listed before. -/
theorem Recalls.passed (h : Recalls before seen repeated) (hs : before.count s ≠ 1) :
    Recalls (before ++ [s]) (.text s :: seen) repeated := by
  refine ⟨fun t => ?_, fun t => ?_⟩
  · rw [List.mem_cons, Key.text.injEq, h.seen]
    rcases eq_or_ne t s with rfl | hne
    · rw [count_concat_self]
      exact iff_of_true (.inl rfl) (by omega)
    · rw [count_concat_of_ne hne, or_iff_right hne]
  · rw [h.repeated]
    rcases eq_or_ne t s with rfl | hne
    · rw [count_concat_self]
      omega
    · rw [count_concat_of_ne hne]

/-- A text is listed just when it has come once before. -/
theorem Recalls.repeatedFrom_eq (h : Recalls before seen repeated) :
    repeatedFrom seen repeated (names.map .text) = (secondsFrom before names).map .text := by
  induction names generalizing before seen repeated with
  | nil => rfl
  | cons s names ih =>
    have hnew : (Key.text s ∈ seen ∧ Key.text s ∉ repeated) ↔ before.count s = 1 := by
      rw [h.seen, h.repeated]
      omega
    rw [List.map_cons, repeatedFrom, secondsFrom, Atom.key_text]
    by_cases hs : before.count s = 1
    · rw [if_pos (hnew.mpr hs), if_pos hs, List.map_cons, ih (h.listed hs)]
    · rw [if_neg (hnew.not.mpr hs), if_neg hs, ih (h.passed hs)]

theorem mem_secondsFrom_iff :
    s ∈ secondsFrom before names ↔ before.count s ≤ 1 ∧ 2 ≤ (before ++ names).count s := by
  induction names generalizing before with
  | nil =>
    rw [secondsFrom, List.append_nil]
    exact iff_of_false List.not_mem_nil (by omega)
  | cons t names ih =>
    have hsplit : before ++ t :: names = before ++ [t] ++ names := by simp
    have hcount : (before ++ [t] ++ names).count s = (before ++ [t]).count s + names.count s :=
      List.count_append
    rw [hsplit, secondsFrom]
    rcases eq_or_ne s t with rfl | hne
    · rw [count_concat_self] at hcount
      split
      · exact iff_of_true List.mem_cons_self (by omega)
      · rw [ih, count_concat_self]
        omega
    · have hlisted : s ∈ secondsFrom (before ++ [t]) names ↔
          (before ++ [t]).count s ≤ 1 ∧ 2 ≤ (before ++ [t] ++ names).count s := ih
      rw [count_concat_of_ne hne] at hlisted
      split
      · rw [List.mem_cons, or_iff_right hne, hlisted]
      · exact hlisted

theorem nodup_secondsFrom : (secondsFrom before names).Nodup := by
  induction names generalizing before with
  | nil => exact List.nodup_nil
  | cons s names ih =>
    rw [secondsFrom]
    split
    · rename_i hs
      refine List.nodup_cons.mpr ⟨fun hmem => ?_, ih⟩
      -- the text has come twice when the rest is gone through
      have hcount := (mem_secondsFrom_iff.mp hmem).1
      rw [count_concat_self] at hcount
      omega
    · exact ih

/-- The places where texts come for the second time stand behind all that has come, and they
rise. -/
theorem exists_places_secondsFrom (before names : List String) :
    ∃ places, List.Forall₂ (SecondAt (before ++ names)) (secondsFrom before names) places ∧
      places.Pairwise (· < ·) ∧ ∀ i ∈ places, before.length ≤ i := by
  induction names generalizing before with
  | nil => exact ⟨[], .nil, .nil, fun _ hi => absurd hi List.not_mem_nil⟩
  | cons s names ih =>
    have hsplit : before ++ s :: names = before ++ [s] ++ names := by simp
    obtain ⟨places, hseconds, hrise, hbehind⟩ := ih (before ++ [s])
    rw [List.length_append, List.length_singleton] at hbehind
    rw [← hsplit] at hseconds
    rw [secondsFrom]
    split
    · rename_i hs
      have hsecond : SecondAt (before ++ s :: names) s before.length := by
        refine ⟨?_, ?_⟩
        · rw [List.getElem?_append_right (Nat.le_refl _), Nat.sub_self]
          rfl
        · rw [List.take_left, hs]
      exact ⟨before.length :: places, .cons hsecond hseconds,
        List.pairwise_cons.mpr ⟨fun i hi => hbehind i hi, hrise⟩,
        List.forall_mem_cons.mpr ⟨Nat.le_refl _, fun i hi => Nat.le_of_succ_le (hbehind i hi)⟩⟩
    · exact ⟨places, hseconds, hrise, fun i hi => Nat.le_of_succ_le (hbehind i hi)⟩

theorem listsRepeated_secondsFrom (names : List String) :
    ListsRepeated names (secondsFrom [] names) := by
  obtain ⟨places, hseconds, hrise, -⟩ := exists_places_secondsFrom [] names
  refine ⟨nodup_secondsFrom, fun s => ?_, places, hseconds, hrise⟩
  rw [mem_secondsFrom_iff, List.nil_append]
  exact and_iff_right (Nat.zero_le 1)

/-- No text is listed just when all texts differ. -/
theorem ListsRepeated.eq_nil_iff (h : ListsRepeated names shared) :
    shared = [] ↔ names.Nodup := by
  rw [List.eq_nil_iff_forall_not_mem, List.nodup_iff_count_le_one]
  refine forall_congr' fun s => ?_
  rw [h.mem_iff]
  omega

/-- Where all names are texts, the names that come again are listed. -/
theorem exists_sharedNames_of_texts {d : Design}
    (h : d.components.map (·.name) = names.map .text) :
    ∃ shared, d.sharedNames = .ok shared ∧ ListsRepeated names shared := by
  have hnames : d.components.mapM (·.name.atom) = .ok (names.map .text) := by
    rw [mapM_names_eq_ok, h, List.map_map]
    rfl
  have hrecalls : Recalls [] [] [] := ⟨by simp, by simp⟩
  have hjoined : (Design.repeated (names.map .text)).mapM joinable =
      .ok (secondsFrom [] names) := by
    unfold Design.repeated
    rw [hrecalls.repeatedFrom_eq, Partial.mapM_eq_ok, List.forall₂_map_left_iff,
      List.forall₂_same]
    exact fun _ _ => rfl
  exact ⟨_, Partial.bind_eq_ok.mpr ⟨_, hnames, hjoined⟩, listsRepeated_secondsFrom names⟩

end MoveWorkbench.Design
