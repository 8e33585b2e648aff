import MoveWorkbench.Proofs.Gas.Growth
import MoveWorkbench.Proofs.Text.LetterCase

/-!
Letter case does not matter to estimates. Phrases are looked for letter by letter, with small and
capital letters taken for the same, and next to them only word characters and blanks matter. So a
phrase stands in a text where it stands in the text in small letters, and is as long there; and a
name that differs by case has the same factor, which is sought in its lower case.
-/

namespace MoveWorkbench

open Text

namespace Source

theorem letter_toLower (c : Char) : letter c.toLower = letter c :=
  apply_toLower (by decide +kernel) c

theorem insideWord_map (before : Option Char) :
    insideWord (before.map Char.toLower) = insideWord before := by
  cases before with
  | none => rfl
  | some c => exact isWord_toLower c

theorem afterText?_map (text cs : List Char) :
    afterText? text (cs.map Char.toLower) = (afterText? text cs).map (·.map Char.toLower) := by
  induction text generalizing cs with
  | nil => rfl
  | cons t text ih =>
    cases cs with
    | nil => rfl
    | cons c cs =>
      simp only [List.map_cons, afterText?, letter_toLower]
      split
      · exact ih cs
      · rfl

theorem Ending.length?_map (e : Ending) (rest : List Char) :
    e.length? (rest.map Char.toLower) = e.length? rest := by
  cases e with
  | anything => rfl
  | wordEnd => simp only [length?, List.head?_map, insideWord_map]
  | call =>
    simp only [length?, skipBlanks_map]
    cases skipBlanks rest with
    | nil => rfl
    | cons c after =>
      have hopener : (c.toLower == '(') = (c == '(') :=
        apply_toLower (f := fun d => d == '(') (by decide +kernel) c
      by_cases hc : c = '('
      · subst hc
        simp
      · have hlower : c.toLower ≠ '(' := by simpa [hc] using hopener
        simp [hc, hlower]

theorem Phrase.length?_map (p : Phrase) (before : Option Char) (cs : List Char) :
    p.length? (before.map Char.toLower) (cs.map Char.toLower) = p.length? before cs := by
  simp only [length?, insideWord_map, afterText?_map]
  cases afterText? p.text cs with
  | none => rfl
  | some rest => simp only [Option.map_some, p.ending.length?_map]

namespace Family

variable (f : Family)

theorem length?_map (before : Option Char) (cs : List Char) :
    f.length? (before.map Char.toLower) (cs.map Char.toLower) = f.length? before cs := by
  simp only [length?, Phrase.length?_map]

theorem countFrom_map (before : Option Char) (skip : ℕ) (cs : List Char) :
    f.countFrom (before.map Char.toLower) skip (cs.map Char.toLower) =
      f.countFrom before skip cs := by
  -- a phrase that is found is as long in both texts, so the same characters are skipped
  induction cs generalizing before skip with
  | nil => rfl
  | cons c cs ih =>
    cases skip with
    | succ skip => exact ih (some c) skip
    | zero =>
      have hlength := f.length?_map before (c :: cs)
      rw [List.map_cons] at hlength
      rw [List.map_cons, countFrom, countFrom, hlength]
      cases f.length? before (c :: cs) with
      | none => exact ih (some c) 0
      | some n => exact congrArg (· + 1) (ih (some c) (n - 1))

theorem count_recased {s t : List Char} (h : Recased s t) : f.count s = f.count t :=
  h.congr fun cs => f.countFrom_map none 0 cs

/-- A phrase begins at some character of a text, and each at another one. -/
theorem count_le_length (cs : List Char) : f.count cs ≤ cs.length := by
  have hfrom (before : Option Char) (skip : ℕ) : f.countFrom before skip cs ≤ cs.length := by
    induction cs generalizing before skip with
    | nil => exact le_rfl
    | cons c cs ih =>
      rw [List.length_cons]
      cases skip with
      | succ skip => exact (ih (some c) skip).trans (Nat.le_succ _)
      | zero =>
        rw [countFrom]
        split
        · exact Nat.succ_le_succ (ih _ _)
        · exact (ih _ _).trans (Nat.le_succ _)
  exact hfrom none 0

end Family

end Source

namespace Operations

theorem ofBody_recased {s t : List Char} (h : Recased s t) : ofBody s = ofBody t := by
  simp only [ofBody, Source.Family.count_recased _ h]

/-- Every operation takes a character of the body, so the body's length bounds the cost. -/
theorem cost_ofBody_le (body : List Char) : (ofBody body).cost ≤ 1000 + 4600 * body.length := by
  have hcount (f : Source.Family) := f.count_le_length body
  have hstorage := hcount .storage
  have hcreation := hcount .creation
  have hevent := hcount .event
  have hloop := hcount .loop
  have hvector := hcount .vector
  have htransfer := hcount .transfer
  rw [cost_eq]
  simp only [ofBody]
  omega

end Operations

theorem multiplier?_recased {s t : String} (h : Recased s.toList t.toList) :
    multiplier? s = multiplier? t := by
  simp only [multiplier?, h.lowerChars]

namespace Estimate

def figures (e : Estimate) : Int × Breakdown × Level := (e.gas, e.breakdown, e.confidence)

theorem ofFunction_eq_map (f : Source.FunctionSource) :
    ofFunction f = (scaledCost f.name (Operations.ofBody f.body.toList).cost).map
      (ofOperations f (Operations.ofBody f.body.toList)) := by
  unfold ofFunction
  dsimp only
  cases scaledCost f.name (Operations.ofBody f.body.toList).cost <;> rfl

/-- Texts that differ by the case of ASCII letters have as many phrases of each family, and so
functions whose names and bodies differ so have the same figures, or no estimate where a cost is
too large to be scaled. A body that is not that long has an estimate. -/
theorem estimates_recased :
    (∀ s t, Recased s t → ∀ f : Source.Family, f.count s = f.count t) ∧
    (∀ f g : Source.FunctionSource, Recased f.name.toList g.name.toList →
      Recased f.body.toList g.body.toList →
      (ofFunction f).map figures = (ofFunction g).map figures) ∧
    ∀ f : Source.FunctionSource, f.body.length < 2 ^ 38 → ∃ e, ofFunction f = .ok e := by
  refine ⟨fun s t h f => f.count_recased h, fun f g hname hbody => ?_, fun f hlength => ?_⟩
  · have hscaled (c : ℕ) : scaledCost f.name c = scaledCost g.name c := by
      rw [scaledCost, scaledCost, multiplier?_recased hname]
    rw [ofFunction_eq_map, ofFunction_eq_map, Operations.ofBody_recased hbody, hscaled]
    cases scaledCost g.name (Operations.ofBody g.body.toList).cost <;> rfl
  · have hcost := Operations.cost_ofBody_le f.body.toList
    rw [String.length_toList] at hcost
    obtain ⟨gas, hgas⟩ := exists_scaledCost f.name
      (c := (Operations.ofBody f.body.toList).cost) (by omega)
    exact ⟨_, ofFunction_eq_ok.mpr ⟨gas, hgas, rfl⟩⟩

/-- The sigma in the name is not final before either q, and the long s is taken for an s among
letters of either case. -/
theorem estimates_recased_longS :
    let f : Source.FunctionSource := ⟨"withDraw_\u03a3Q", "m", "x.in\u017fert(); while v.LENGTH"⟩
    let g : Source.FunctionSource := ⟨"WITHdraw_\u03a3q", "m", "X.In\u017fERT(); WHILE v.lengtH"⟩
    Recased f.name.toList g.name.toList ∧ Recased f.body.toList g.body.toList ∧
    (∀ family : Source.Family, family.count f.body.toList = family.count g.body.toList) ∧
    f.body.length < 2 ^ 38 ∧ ∃ e, ofFunction f = .ok e ∧
      (ofFunction g).map figures = .ok e.figures ∧
      e.figures = (4059, ⟨3759, 300, 0, 0, none⟩, .low) := by
  intro f g
  have hname : Recased f.name.toList g.name.toList := by decide +kernel
  have hbody : Recased f.body.toList g.body.toList := by decide +kernel
  have hlength : f.body.length < 2 ^ 38 := by decide +kernel
  obtain ⟨hcount, hfigures, htold⟩ := estimates_recased
  obtain ⟨e, he⟩ := htold f hlength
  have hvalue : (ofFunction f).map figures = .ok (4059, ⟨3759, 300, 0, 0, none⟩, .low) := by
    decide +kernel
  have hsame := hfigures f g hname hbody
  rw [he] at hsame hvalue
  exact ⟨hname, hbody, hcount _ _ hbody, hlength, e, he, hsame.symm, Except.ok.inj hvalue⟩

end Estimate

end MoveWorkbench
