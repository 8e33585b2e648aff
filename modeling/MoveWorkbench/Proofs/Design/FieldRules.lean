import MoveWorkbench.Proofs.Design.Import

/-!
What documents have to say of components. Seven rules ask for the types of fields, text fields
must not be null, and true and false are no numbers. A document has components when it lists
objects, or has nothing there. The first fault is the first rule that is broken by the first
component that breaks any.
-/

namespace MoveWorkbench

namespace Json

/-- A number of any size, which true and false are not. -/
inductive IsNumeric : Json → Prop where
  | int (n : ℤ) : IsNumeric (int n)
  | float (x : Binary64) : IsNumeric (float x)

def IsObject (v : Json) : Prop := ∃ fs, v = object fs

inductive IsVacant : Json → Prop where
  | null : IsVacant null
  | no : IsVacant (bool false)
  | zero : IsVacant (int 0)
  | floatZero {x : Binary64} (h : x.value? = some 0) : IsVacant (float x)
  | noText : IsVacant (text "")
  | noItems : IsVacant (list [])
  | noFields : IsVacant (object [])

theorem isTruthy_eq_false_iff {v : Json} : v.isTruthy = false ↔ v.IsVacant := by
  constructor
  · intro h
    cases v with
    | null => exact .null
    | bool b =>
      cases h
      exact .no
    | int n =>
      obtain rfl : n = 0 := by simpa [isTruthy] using h
      exact .zero
    | float x => exact .floatZero (by simpa [isTruthy, Binary64.isZero] using h)
    | text s =>
      obtain rfl : s = "" := by simpa [isTruthy] using h
      exact .noText
    | list vs =>
      obtain rfl : vs = [] := by simpa [isTruthy] using h
      exact .noItems
    | object fs =>
      obtain rfl : fs = [] := by simpa [isTruthy] using h
      exact .noFields
  · intro h
    cases h with
    | floatZero h => simp [isTruthy, Binary64.isZero, h]
    | _ => rfl

theorem orElse_of_isTruthy {v : Json} (h : v.isTruthy = true) (other : Json) :
    v.orElse other = v := if_pos h

theorem orElse_of_isVacant {v : Json} (h : v.IsVacant) (other : Json) : v.orElse other = other :=
  if_neg (Bool.eq_false_iff.mp (isTruthy_eq_false_iff.mpr h))

end Json

namespace FieldType

open Json

/-- The values that are of a type. Null stands for an absent value except where text is asked
for. -/
def Allows : FieldType → Json → Prop
  | text => IsText
  | number => OrNull IsNumeric
  | textList => OrNull IsTextList
  | object => OrNull IsObject

theorem admits_iff {type : FieldType} {v : Json} : type.admits v = true ↔ type.Allows v := by
  cases type with
  | text =>
    refine ⟨isText_of_admits, fun h => ?_⟩
    obtain ⟨s, rfl⟩ := h
    rfl
  | number =>
    constructor
    · intro h
      cases v with
      | null => exact .inl rfl
      | int n => exact .inr (.int n)
      | float x => exact .inr (.float x)
      | _ => cases h
    · rintro (rfl | h)
      · rfl
      · cases h <;> rfl
  | textList =>
    refine ⟨isTextList_of_admits, ?_⟩
    rintro (rfl | ⟨ss, rfl⟩)
    · rfl
    · simp [admits]
  | object =>
    constructor
    · intro h
      cases v with
      | null => exact .inl rfl
      | object fs => exact .inr ⟨fs, rfl⟩
      | _ => cases h
    · rintro (rfl | ⟨fs, rfl⟩) <;> rfl

end FieldType

structure FieldRule where
  field : String
  asked : String
  allows : Json → Prop

namespace FieldRule

/-- A field is as it should be when it is not there, or has a value that is allowed. -/
def Obeyed (rule : FieldRule) (fs : Fields) : Prop :=
  ∀ v, Ordered.get? rule.field fs = some v → rule.allows v

def complaint (rule : FieldRule) (component : ℕ) : String :=
  "Component " ++ toString component ++ ": '" ++ rule.field ++ "' must be " ++ rule.asked

def ofChecked (p : String × FieldType) : FieldRule := ⟨p.1, p.2.name, p.2.Allows⟩

end FieldRule

namespace Design

open Json

def fieldRules : List FieldRule := [
  ⟨"id", "a string", IsText⟩, ⟨"kind", "a string", IsText⟩, ⟨"name", "a string", IsText⟩,
  ⟨"x", "a number", OrNull IsNumeric⟩, ⟨"y", "a number", OrNull IsNumeric⟩,
  ⟨"connections", "a list of strings", OrNull IsTextList⟩,
  ⟨"properties", "an object", OrNull IsObject⟩]

def WellTyped (fs : Fields) : Prop := ∀ rule ∈ fieldRules, rule.Obeyed fs

def FirstBroken (fs : Fields) (rule : FieldRule) : Prop :=
  ∃ earlier later, fieldRules = earlier ++ rule :: later ∧ (∀ r ∈ earlier, r.Obeyed fs) ∧
    ¬ rule.Obeyed fs

/-- The first fault of components: those before the faulty one obey all rules. -/
def FirstFault (cs : List Fields) (i : ℕ) (rule : FieldRule) : Prop :=
  ∃ before fs after, cs = before ++ fs :: after ∧ before.length = i ∧
    (∀ c ∈ before, WellTyped c) ∧ FirstBroken fs rule

/-- The components of a document: objects in a list, and none when there is nothing. -/
inductive Lists (fs : Fields) : List Fields → Prop where
  | absent (h : Ordered.get? "components" fs = none) : Lists fs []
  | vacant {v : Json} (h : Ordered.get? "components" fs = some v) (hv : v.IsVacant) : Lists fs []
  | listed {cs : List Fields} (h : Ordered.get? "components" fs = some (.list (cs.map .object))) :
    Lists fs cs

/-! ### The checks follow the rules -/

theorem fieldRules_eq : fieldRules = checkedFields.map .ofChecked := rfl

open Classical in
/-- The rule of the wrong field is the first one that is not obeyed. -/
theorem map_wrongField? (fs : Fields) : (wrongField? fs).map .ofChecked =
    fieldRules.find? fun rule => decide (¬ rule.Obeyed fs) := by
  rw [fieldRules_eq, List.find?_map]
  unfold wrongField?
  congr 2
  funext p
  cases hget : Ordered.get? p.1 fs with
  | none => simp [FieldRule.Obeyed, FieldRule.ofChecked, hget]
  | some v =>
    simp only [FieldRule.Obeyed, FieldRule.ofChecked, hget, Function.comp_apply,
      Option.some.injEq, forall_eq', ← FieldType.admits_iff]
    simp

theorem wrongField?_eq_none_iff {fs : Fields} : wrongField? fs = none ↔ WellTyped fs := by
  rw [← Option.map_eq_none_iff (f := FieldRule.ofChecked), map_wrongField?, List.find?_eq_none]
  simp [WellTyped]

theorem firstBroken_iff {fs : Fields} {rule : FieldRule} :
    FirstBroken fs rule ↔ (wrongField? fs).map .ofChecked = some rule := by
  rw [map_wrongField?, List.find?_eq_some_iff_append]
  simp only [FirstBroken, decide_eq_true_eq, Bool.not_eq_true', decide_eq_false_iff_not, not_not]
  constructor
  · rintro ⟨earlier, later, hsplit, hearlier, hbroken⟩
    exact ⟨hbroken, earlier, later, hsplit, hearlier⟩
  · rintro ⟨hbroken, earlier, later, hsplit, hearlier⟩
    exact ⟨earlier, later, hsplit, hearlier, hbroken⟩

theorem exists_firstBroken {fs : Fields} (h : ¬ WellTyped fs) : ∃ rule, FirstBroken fs rule := by
  obtain ⟨p, hp⟩ := Option.ne_none_iff_exists'.mp (mt wrongField?_eq_none_iff.mp h)
  exact ⟨.ofChecked p, firstBroken_iff.mpr (by rw [hp]; rfl)⟩

/-- Components that are not all well typed have a first fault. -/
theorem exists_firstFault {cs : List Fields} (h : ¬ ∀ c ∈ cs, WellTyped c) :
    ∃ i rule, FirstFault cs i rule := by
  induction cs with
  | nil => exact absurd (fun _ hc => absurd hc List.not_mem_nil) h
  | cons fs cs ih =>
    by_cases hfs : WellTyped fs
    · rw [List.forall_mem_cons, not_and] at h
      obtain ⟨i, rule, before, fault, after, rfl, hi, hbefore, hbroken⟩ := ih (h hfs)
      exact ⟨i + 1, rule, fs :: before, fault, after, rfl, congrArg (· + 1) hi,
        List.forall_mem_cons.mpr ⟨hfs, hbefore⟩, hbroken⟩
    · obtain ⟨rule, hrule⟩ := exists_firstBroken hfs
      exact ⟨0, rule, [], fs, cs, rfl, rfl, fun _ hc => absurd hc List.not_mem_nil, hrule⟩

/-- The problem that is found is the first fault. -/
theorem FirstFault.wrongComponent? {cs : List Fields} {i : ℕ} {rule : FieldRule}
    (h : FirstFault cs i rule) (n : ℕ) : ∃ problem,
      wrongComponent? n cs = some problem ∧ problem.message = rule.complaint (n + i) := by
  obtain ⟨before, fs, after, rfl, rfl, hbefore, hbroken⟩ := h
  induction before generalizing n with
  | nil =>
    obtain ⟨p, hp, rfl⟩ := Option.map_eq_some_iff.mp (firstBroken_iff.mp hbroken)
    refine ⟨.wrongField n p.1 p.2, ?_, rfl⟩
    rw [List.nil_append, Design.wrongComponent?, hp]
  | cons c before ih =>
    rw [List.forall_mem_cons] at hbefore
    obtain ⟨problem, hproblem, hmessage⟩ := ih (n + 1) hbefore.2
    refine ⟨problem, ?_, ?_⟩
    · rw [List.cons_append, Design.wrongComponent?, wrongField?_eq_none_iff.mpr hbefore.1]
      exact hproblem
    · rw [hmessage, List.length_cons, Nat.add_assoc, Nat.add_comm 1]

theorem documentComponents?_eq_some_iff {fs : Fields} {cs : List Fields} :
    documentComponents? fs = some cs ↔ Lists fs cs := by
  constructor
  · intro h
    unfold documentComponents? at h
    split at h
    · rename_i vs hvs
      have hcs := eq_map_object h
      unfold field at hvs
      cases hget : Ordered.get? "components" fs with
      | none =>
        rw [hget] at hvs
        cases hvs
        rw [List.map_eq_nil_iff.mp hcs.symm]
        exact .absent hget
      | some v =>
        rw [hget, Option.getD_some] at hvs
        cases htruthy : v.isTruthy with
        | true =>
          rw [orElse_of_isTruthy htruthy] at hvs
          exact .listed (by rw [hget, hvs, hcs])
        | false =>
          have hvacant := isTruthy_eq_false_iff.mp htruthy
          rw [orElse_of_isVacant hvacant] at hvs
          cases hvs
          rw [List.map_eq_nil_iff.mp hcs.symm]
          exact .vacant hget hvacant
    · cases h
  · intro h
    unfold documentComponents? field
    cases h with
    | absent h =>
      rw [h]
      rfl
    | vacant h hv =>
      rw [h, Option.getD_some, orElse_of_isVacant hv]
      rfl
    | listed h =>
      rw [h, Option.getD_some, orElse_list]
      exact mapM_objectFields?_map cs

/-! ### What becomes of a document -/

section Documents

variable {fs : Fields}

theorem ofDocument_of_not_lists (h : ¬ ∃ cs, Lists fs cs) :
    ofDocument (.object fs) = .error (.refused .notAListOfObjects) := by
  have hnone : documentComponents? fs = none := by
    rw [Option.eq_none_iff_forall_ne_some]
    exact fun cs hcs => h ⟨cs, documentComponents?_eq_some_iff.mp hcs⟩
  simp only [ofDocument, objectFields?, hnone]

theorem Lists.ofDocument_of_wellTyped {cs : List Fields} (hlegible : Legible (.object fs))
    (hcs : Lists fs cs) (htyped : ∀ c ∈ cs, WellTyped c) :
    ∃ d, ofDocument (.object fs) = .ok d := by
  have hlist := documentComponents?_eq_some_iff.mpr hcs
  have hchecked : ∀ c ∈ cs, wrongField? c = none :=
    fun c hc => wrongField?_eq_none_iff.mpr (htyped c hc)
  obtain ⟨components, hcomponents, -⟩ :=
    exists_exportable_mapM (legible_of_documentComponents? hlegible hlist) hchecked
  simp only [ofDocument, objectFields?, hlist, wrongComponent?_eq_none hchecked, hcomponents]
  exact ⟨_, rfl⟩

theorem Lists.ofDocument_of_firstFault {cs : List Fields} {i : ℕ} {rule : FieldRule}
    (hcs : Lists fs cs) (hfault : FirstFault cs i rule) : ∃ problem,
      ofDocument (.object fs) = .error (.refused problem) ∧
        problem.message = rule.complaint i := by
  obtain ⟨problem, hproblem, hmessage⟩ := hfault.wrongComponent? 0
  refine ⟨problem, ?_, by rw [hmessage, Nat.zero_add]⟩
  simp only [ofDocument, objectFields?, documentComponents?_eq_some_iff.mpr hcs, hproblem]

end Documents

end Design

end MoveWorkbench
