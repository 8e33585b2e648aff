import MoveWorkbench.Proofs.Json.DoubleText
import MoveWorkbench.Proofs.Json.EscapedText
import MoveWorkbench.Proofs.Json.Legible

/-!
JSON text is read back as the value that it was written for: a legible value survives
being written and read, under any indentation and whatever follows it. Words and numbers
are told apart from texts, lists and objects by their first character, which also shows
that no value begins like the end of a list.
-/

namespace MoveWorkbench.Json

/-- What is written for a value is read back with fuel for every character, whatever
follows it. -/
def ReadsBack (v : Json) : Prop :=
  ∀ depth fuel rest, (write depth v).length ≤ fuel → EndsValue rest →
    readValue fuel (write depth v ++ rest) = .ok (v, rest)

theorem endsValue_nil : EndsValue [] := by
  intro c hc
  cases hc

theorem endsValue_comma (rest : List Char) : EndsValue (',' :: rest) := by
  intro c hc
  rw [List.head?_cons, Option.mem_some_iff] at hc
  exact .inl hc.symm

theorem endsValue_newLine (depth : ℕ) (rest : List Char) : EndsValue (newLine depth ++ rest) := by
  intro c hc
  rw [newLine, List.cons_append, List.head?_cons, Option.mem_some_iff] at hc
  exact .inr hc.symm

theorem skipSpace_newLine (depth : ℕ) (rest : List Char) :
    skipSpace (newLine depth ++ rest) = skipSpace rest := by
  have hblank : ∀ c ∈ newLine depth, isSpace c = true := by
    intro c hc
    rcases List.mem_cons.mp hc with rfl | hc
    · rfl
    · rw [(List.mem_replicate.mp hc).2]
      rfl
  exact List.dropWhile_append_of_pos hblank

theorem skipSpace_of_not_isSpace {c : Char} (h : isSpace c = false) (cs : List Char) :
    skipSpace (c :: cs) = c :: cs := List.dropWhile_cons_of_neg (by simp [h])

/-- Characters with which no value begins. -/
def unfit : List Char := [' ', '\t', '\n', '\r', ']', '\ufeff']

/-- No word and no number begins with such a character, with a quote or with a bracket. -/
theorem readPlain_of_mem {c : Char} (h : c ∈ unfit ++ ['"', '[', '\x7b']) (cs : List Char) :
    readPlain (c :: cs) = .error (.unexpected .value (cs.length + 1)) := by
  simp only [unfit, List.cons_append, List.nil_append, List.mem_cons, List.not_mem_nil,
    or_false] at h
  rcases h with rfl | rfl | rfl | rfl | rfl | rfl | rfl | rfl | rfl <;> rfl

theorem readValue_of_unfit {c : Char} (h : c ∈ unfit) (fuel : ℕ) (cs : List Char) :
    readValue fuel (c :: cs) = .error (.unexpected .value (cs.length + 1)) := by
  have hplain := readPlain_of_mem (List.mem_append_left _ h) cs
  simp only [unfit, List.mem_cons, List.not_mem_nil, or_false] at h
  cases fuel with
  | zero => rfl
  | succ fuel =>
    rcases h with rfl | rfl | rfl | rfl | rfl | rfl <;> simpa [readValue] using hplain

/-- A word or a number is read as such. -/
theorem readValue_of_readPlain {cs : List Char} {r : Json × List Char}
    (h : readPlain cs = .ok r) (fuel : ℕ) : readValue (fuel + 1) cs = .ok r := by
  cases cs with
  | nil => cases h
  | cons c cs =>
    have hc : c ∉ unfit ++ ['"', '[', '\x7b'] := by
      intro hmem
      rw [readPlain_of_mem hmem] at h
      cases h
    simp only [List.mem_append, List.mem_cons, List.not_mem_nil, or_false, not_or] at hc
    simpa [readValue, hc.2] using h

/-- What is written for a value that is read back begins like a value. -/
theorem ReadsBack.exists_head {v : Json} (h : ReadsBack v) (depth : ℕ) :
    ∃ c cs, write depth v = c :: cs ∧ c ∉ unfit := by
  have hread := h depth (write depth v).length [] (le_refl _) endsValue_nil
  rw [List.append_nil] at hread
  cases hcs : write depth v with
  | nil =>
    rw [hcs] at hread
    cases hread
  | cons c cs =>
    refine ⟨c, cs, rfl, fun hc => ?_⟩
    rw [hcs, readValue_of_unfit hc] at hread
    cases hread

theorem isSpace_of_not_mem {c : Char} (h : c ∉ unfit) : isSpace c = false := by
  simp only [unfit, List.mem_cons, not_or] at h
  simp [isSpace, h]

theorem ReadsBack.skipSpace {v : Json} (h : ReadsBack v) (depth : ℕ) (rest : List Char) :
    skipSpace (write depth v ++ rest) = write depth v ++ rest := by
  obtain ⟨c, cs, hcs, hc⟩ := h.exists_head depth
  rw [hcs, List.cons_append, skipSpace_of_not_isSpace (isSpace_of_not_mem hc)]

/-- What stands after an item: the items after it, a new line and the closing bracket. -/
private def itemsTail (depth outer : ℕ) (vs : List Json) (rest : List Char) : List Char :=
  writeItems depth vs ++ (newLine outer ++ ']' :: rest)

private theorem endsValue_itemsTail (depth outer : ℕ) (vs : List Json) (rest : List Char) :
    EndsValue (itemsTail depth outer vs rest) := by
  cases vs with
  | nil => exact endsValue_newLine outer _
  | cons v vs => exact endsValue_comma _

/-- The items of a list are read up to its closing bracket. -/
private theorem readItems_write (depth outer : ℕ) (rest : List Char) {v : Json}
    {vs : List Json} (hv : ReadsBack v) (hvs : ∀ w ∈ vs, ReadsBack w) (fuel : ℕ)
    (hfuel : (write depth v).length + (writeItems depth vs).length < fuel) :
    readItems fuel (write depth v ++ itemsTail depth outer vs rest) = .ok (v :: vs, rest) := by
  induction vs generalizing v fuel with
  | nil =>
    obtain ⟨fuel, rfl⟩ : ∃ n, fuel = n + 1 := ⟨fuel - 1, by omega⟩
    have hread := hv depth fuel _ (by omega) (endsValue_itemsTail depth outer [] rest)
    have hskip : Json.skipSpace (itemsTail depth outer [] rest) = ']' :: rest := by
      rw [itemsTail, writeItems, List.nil_append, skipSpace_newLine,
        skipSpace_of_not_isSpace rfl]
    rw [readItems, hread]
    simp only [bind, Except.bind, hskip]
    rfl
  | cons w vs ih =>
    obtain ⟨fuel, rfl⟩ : ∃ n, fuel = n + 1 := ⟨fuel - 1, by omega⟩
    have hread := hv depth fuel _ (by omega) (endsValue_itemsTail depth outer (w :: vs) rest)
    have hw : ReadsBack w := hvs w (List.mem_cons_self ..)
    have htail : itemsTail depth outer (w :: vs) rest =
        ',' :: (newLine depth ++ (write depth w ++ itemsTail depth outer vs rest)) := by
      simp [itemsTail, writeItems]
    have hitems := ih hw (fun u hu => hvs u (List.mem_cons_of_mem w hu)) fuel (by
      simp only [writeItems, List.length_cons, List.length_append, List.cons_append] at hfuel
      omega)
    rw [readItems, hread]
    simp only [bind, Except.bind]
    rw [htail, skipSpace_of_not_isSpace rfl]
    simp only [skipSpace_newLine, hw.skipSpace, hitems]
    rfl

private def fieldsTail (depth outer : ℕ) (fs : Fields) (rest : List Char) : List Char :=
  writeFields depth fs ++ (newLine outer ++ '\x7d' :: rest)

private theorem endsValue_fieldsTail (depth outer : ℕ) (fs : Fields) (rest : List Char) :
    EndsValue (fieldsTail depth outer fs rest) := by
  cases fs with
  | nil => exact endsValue_newLine outer _
  | cons f fs => exact endsValue_comma _

private def fieldText (depth : ℕ) (name : String) (v : Json) (tail : List Char) : List Char :=
  writeText name ++ ':' :: ' ' :: (write depth v ++ tail)

/-- A field is read, and then a closing brace or the fields after a comma. -/
private theorem readFields_fieldText {v : Json} (hv : ReadsBack v) (name : String)
    {depth fuel : ℕ} (hfuel : (write depth v).length ≤ fuel) {tail : List Char}
    (htail : EndsValue tail) :
    readFields (fuel + 1) (fieldText depth name v tail) =
      match skipSpace tail with
      | '\x7d' :: rest => .ok ([(name, v)], rest)
      | ',' :: rest => do
        let (fs, rest) ← readFields fuel (skipSpace rest)
        return ((name, v) :: fs, rest)
      | rest => .error (.unexpected .comma rest.length) := by
  have hread := hv depth fuel tail hfuel htail
  have hcolon : skipSpace (':' :: ' ' :: (write depth v ++ tail)) =
      ':' :: ' ' :: (write depth v ++ tail) := skipSpace_of_not_isSpace rfl _
  have hblank : skipSpace (' ' :: (write depth v ++ tail)) = write depth v ++ tail :=
    hv.skipSpace depth tail
  obtain ⟨cs, hcs, hname⟩ := readText_writeText name (':' :: ' ' :: (write depth v ++ tail))
  rw [fieldText, hcs, readFields]
  simp only [hname, bind, Except.bind, hcolon, hblank, hread]
  rfl

/-- The fields of an object are read up to its closing brace. -/
private theorem readFields_write (depth outer : ℕ) (rest : List Char) (name : String) {v : Json}
    {fs : Fields} (hv : ReadsBack v) (hfs : ∀ f ∈ fs, ReadsBack f.2) (fuel : ℕ)
    (hfuel : (write depth v).length + (writeFields depth fs).length < fuel) :
    readFields fuel (fieldText depth name v (fieldsTail depth outer fs rest)) =
      .ok ((name, v) :: fs, rest) := by
  induction fs generalizing name v fuel with
  | nil =>
    obtain ⟨fuel, rfl⟩ : ∃ n, fuel = n + 1 := ⟨fuel - 1, by omega⟩
    have hskip : skipSpace (fieldsTail depth outer [] rest) = '\x7d' :: rest := by
      rw [fieldsTail, writeFields, List.nil_append, skipSpace_newLine,
        skipSpace_of_not_isSpace rfl]
    rw [readFields_fieldText hv name (by omega) (endsValue_fieldsTail depth outer [] rest), hskip]
    rfl
  | cons f fs ih =>
    obtain ⟨next, w⟩ := f
    obtain ⟨fuel, rfl⟩ : ∃ n, fuel = n + 1 := ⟨fuel - 1, by omega⟩
    have hw : ReadsBack w := hfs (next, w) (List.mem_cons_self ..)
    have hfields := ih next hw (fun g hg => hfs g (List.mem_cons_of_mem _ hg)) fuel (by
      simp only [writeFields, List.length_cons, List.length_append, List.cons_append] at hfuel
      omega)
    have htail : fieldsTail depth outer ((next, w) :: fs) rest =
        ',' :: (newLine depth ++ fieldText depth next w (fieldsTail depth outer fs rest)) := by
      simp [fieldsTail, fieldText, writeFields]
    have hskip : skipSpace (fieldText depth next w (fieldsTail depth outer fs rest)) =
        fieldText depth next w (fieldsTail depth outer fs rest) := skipSpace_of_not_isSpace rfl _
    rw [readFields_fieldText hv name (by omega) (endsValue_fieldsTail depth outer _ rest), htail,
      skipSpace_of_not_isSpace rfl]
    simp only [skipSpace_newLine, hskip, hfields]
    rfl

/-- A list that does not end at once is read item by item. -/
private theorem readValue_bracket {cs : List Char} (h : ']' ∉ (skipSpace cs).head?) (fuel : ℕ) :
    readValue (fuel + 1) ('[' :: cs) = do
      let (vs, rest) ← readItems fuel (skipSpace cs)
      return (list vs, rest) := by
  simp only [readValue]
  split
  · rename_i heq
    exact absurd (by rw [heq]; rfl) h
  · rfl

/-- An object that does not end at once is read field by field. -/
private theorem readValue_brace {cs : List Char} (h : '\x7d' ∉ (skipSpace cs).head?) (fuel : ℕ) :
    readValue (fuel + 1) ('\x7b' :: cs) = do
      let (fs, rest) ← readFields fuel (skipSpace cs)
      return (object (Ordered.ofList fs), rest) := by
  simp only [readValue]
  split
  · rename_i heq
    exact absurd (by rw [heq]; rfl) h
  · rfl

private theorem exists_fuel {fuel : ℕ} {cs : List Char} {c : Char}
    (h : (c :: cs).length ≤ fuel) : ∃ n, fuel = n + 1 ∧ cs.length ≤ n :=
  ⟨fuel - 1, by simp only [List.length_cons] at h; omega,
    by simp only [List.length_cons] at h; omega⟩

theorem readsBack_list {vs : List Json} (h : ∀ v ∈ vs, ReadsBack v) : ReadsBack (list vs) := by
  intro depth fuel rest hfuel hrest
  cases vs with
  | nil =>
    obtain ⟨fuel, rfl, -⟩ := exists_fuel hfuel
    rfl
  | cons v vs =>
    have hv : ReadsBack v := h v (List.mem_cons_self ..)
    have htext : write depth (list (v :: vs)) ++ rest = '[' :: (newLine (depth + 1) ++
        (write (depth + 1) v ++ itemsTail (depth + 1) depth vs rest)) := by
      simp [write, itemsTail]
    simp only [write, newLine, List.cons_append, List.length_cons, List.length_append] at hfuel
    obtain ⟨fuel, rfl⟩ : ∃ n, fuel = n + 1 := ⟨fuel - 1, by omega⟩
    have hitems := readItems_write (depth + 1) depth rest hv
      (fun w hw => h w (List.mem_cons_of_mem v hw)) fuel (by omega)
    obtain ⟨c, cs, hcs, hc⟩ := hv.exists_head (depth + 1)
    have hhead : ']' ∉ (skipSpace (newLine (depth + 1) ++
        (write (depth + 1) v ++ itemsTail (depth + 1) depth vs rest))).head? := by
      rw [skipSpace_newLine, hv.skipSpace, hcs, List.cons_append, List.head?_cons,
        Option.mem_some_iff]
      rintro rfl
      exact hc (by simp [unfit])
    rw [htext, readValue_bracket hhead, skipSpace_newLine, hv.skipSpace, hitems]
    rfl

theorem readsBack_object {fs : Fields} (names : (Ordered.keys fs).Nodup)
    (h : ∀ f ∈ fs, ReadsBack f.2) : ReadsBack (object fs) := by
  intro depth fuel rest hfuel hrest
  cases fs with
  | nil =>
    obtain ⟨fuel, rfl, -⟩ := exists_fuel hfuel
    rfl
  | cons f fs =>
    obtain ⟨name, v⟩ := f
    have hv : ReadsBack v := h (name, v) (List.mem_cons_self ..)
    have htext : write depth (object ((name, v) :: fs)) ++ rest = '\x7b' ::
        (newLine (depth + 1) ++ fieldText (depth + 1) name v
          (fieldsTail (depth + 1) depth fs rest)) := by
      simp [write, fieldText, fieldsTail]
    simp only [write, newLine, List.cons_append, List.length_cons, List.length_append] at hfuel
    obtain ⟨fuel, rfl⟩ : ∃ n, fuel = n + 1 := ⟨fuel - 1, by omega⟩
    have hfields := readFields_write (depth + 1) depth rest name hv
      (fun g hg => h g (List.mem_cons_of_mem _ hg)) fuel (by omega)
    have hskip : skipSpace (newLine (depth + 1) ++ fieldText (depth + 1) name v
        (fieldsTail (depth + 1) depth fs rest)) =
        fieldText (depth + 1) name v (fieldsTail (depth + 1) depth fs rest) := by
      rw [skipSpace_newLine]
      exact skipSpace_of_not_isSpace rfl _
    rw [htext, readValue_brace (by rw [hskip]; simp [fieldText, writeText]), hskip, hfields]
    change Except.ok (object (Ordered.ofList ((name, v) :: fs)), rest) = _
    rw [Ordered.ofList_of_nodup names]

theorem readsBack_of_readPlain {v : Json}
    (h : ∀ depth rest, EndsValue rest → readPlain (write depth v ++ rest) = .ok (v, rest)) :
    ReadsBack v := by
  intro depth fuel rest hfuel hrest
  have hread := h depth rest hrest
  cases fuel with
  | zero =>
    -- Nothing would have been written, but a word or a number is not read from nothing.
    have hnil := h depth [] endsValue_nil
    rw [List.length_eq_zero_iff.mp (Nat.le_zero.mp hfuel)] at hnil
    cases hnil
  | succ fuel => exact readValue_of_readPlain hread fuel

/-- A legible value is read back. -/
theorem Legible.readsBack {v : Json} (h : Legible v) : ReadsBack v := by
  induction h with
  | null => exact readsBack_of_readPlain fun _ _ _ => rfl
  | bool b => exact readsBack_of_readPlain fun _ _ _ => by cases b <;> rfl
  | int h => exact readsBack_of_readPlain fun _ _ hrest => readPlain_int h hrest
  | float x => exact readsBack_of_readPlain fun _ _ hrest => readPlain_numberText x hrest
  | text s =>
    intro depth fuel rest hfuel hrest
    obtain ⟨fuel, rfl, -⟩ := exists_fuel hfuel
    obtain ⟨cs, hcs, hread⟩ := readText_writeText s rest
    rw [write, hcs]
    simp only [readValue, hread]
    rfl
  | list _ ih => exact readsBack_list ih
  | object names _ ih => exact readsBack_object names ih

/-- The JSON text of a legible value is read as that value. -/
theorem ofText_toText {v : Json} (h : Legible v) : ofText v.toText = .ok v := by
  have hback := h.readsBack
  obtain ⟨c, cs, hcs, hc⟩ := hback.exists_head 0
  have hread := hback 0 (2 * (write 0 v).length + 2) [] (by omega) endsValue_nil
  have hskip := hback.skipSpace 0 []
  rw [List.append_nil] at hread hskip
  have hmark : (write 0 v).head? ≠ some (Char.ofNat 0xfeff) := by
    rw [hcs]
    rintro heq
    injection heq with heq
    exact hc (by rw [heq]; decide)
  have hall : readAll (write 0 v) = .ok v := by
    unfold readAll
    rw [if_neg hmark, hskip, hread]
    rfl
  simp only [ofText, toText, String.toList_ofList, hall]

end MoveWorkbench.Json
