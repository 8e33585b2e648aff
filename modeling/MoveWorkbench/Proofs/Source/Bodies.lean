import Mathlib.Algebra.GroupWithZero.Nat
import MoveWorkbench.Proofs.Source.HeadShape
import MoveWorkbench.Proofs.Source.PhraseCount

/-!
Bodies of functions stand apart. Each body begins right behind a brace and ends right in front
of one or at the end of the text, and the next one comes later. As no phrase reaches across a
brace, what is counted in the bodies is counted in the text, and nothing is counted in two of
them.
-/

namespace MoveWorkbench.Source

open Text

variable {before : Option Char} {cs rest name body : List Char}

/-- Where a declaration leaves its text: behind its parameters, and with its body, if it has one,
between braces or behind the last one. -/
def Declaration.Within (cs : List Char) : Declaration → Prop
  | .function _ body rest => '\x7b' :: (body ++ '\x7d' :: rest) <:+ cs
  | .bodyless rest => rest <:+ cs
  | .unclosed _ body => '\x7b' :: body <:+ cs
  | .unfinished => True

/-- Nothing of a declaration stands in front of its second character. -/
theorem within_of_declaration? {c : Char} {d : Declaration}
    (h : declaration? before (c :: cs) = some d) : d.Within cs := by
  have hbehind {front rest : List Char} (hne : front ≠ []) (hcs : c :: cs = front ++ rest) :
      rest <:+ cs := by
    rcases List.suffix_cons_iff.mp ⟨front, hcs.symm⟩ with hwhole | hsuffix
    · exact absurd (List.append_left_eq_self.mp (hcs ▸ hwhole).symm) hne
    · exact hsuffix
  obtain ⟨-, hleaves⟩ := leaves_of_declaration? h
  cases d with
  | function name body rest =>
    obtain ⟨text, htext, -, hcs⟩ := hleaves
    obtain ⟨front, hne, rfl⟩ := htext.exists_brace
    exact hbehind hne (by simpa using hcs)
  | bodyless rest =>
    obtain ⟨text, hne, hcs⟩ := hleaves
    exact hbehind hne hcs
  | unclosed name body =>
    obtain ⟨text, htext, -, hcs⟩ := hleaves
    obtain ⟨front, hne, rfl⟩ := htext.exists_brace
    exact hbehind hne (by simpa using hcs)
  | unfinished => trivial

/-- Texts that stand in another one, each between two braces or from the last brace on, in their
order, and the gaps in front of them and behind them. -/
inductive Bodies : List (List Char) → List (List Char) → List Char → Prop where
  | none (gap : List Char) : Bodies [gap] [] gap
  | closed {gaps bodies : List (List Char)} {rest : List Char} (gap body : List Char)
    (h : Bodies gaps bodies rest) :
    Bodies (gap :: gaps) (body :: bodies) (gap ++ '\x7b' :: (body ++ '\x7d' :: rest))
  | unclosed (gap body : List Char) : Bodies [gap] [body] (gap ++ '\x7b' :: body)

/-- A gap may be longer. -/
theorem Bodies.exists_of_suffix {gaps bodies : List (List Char)} (h : Bodies gaps bodies rest)
    (hsuffix : rest <:+ cs) : ∃ gaps, Bodies gaps bodies cs := by
  obtain ⟨front, rfl⟩ := hsuffix
  cases h with
  | none => exact ⟨_, .none _⟩
  | closed gap body h =>
    rw [← List.append_assoc]
    exact ⟨_, .closed _ body h⟩
  | unclosed gap body =>
    rw [← List.append_assoc]
    exact ⟨_, .unclosed _ body⟩

/-- The bodies of the functions that are read from a text stand apart in it. -/
theorem exists_bodies_functionsFrom (before : Option Char) (skip : ℕ) (cs : List Char) :
    ∃ gaps, Bodies gaps ((functionsFrom before skip cs).map (·.2)) (cs.drop skip) := by
  induction before, skip, cs using functionsFrom.induct with
  | case1 before skip =>
    rw [functionsFrom, List.drop_nil]
    exact ⟨_, .none []⟩
  | case2 before skip c cs ih =>
    rw [functionsFrom]
    exact ih
  | case3 before c cs hnone ih =>
    rw [functionsFrom, hnone]
    obtain ⟨gaps, hgaps⟩ := ih
    exact hgaps.exists_of_suffix (List.suffix_cons c cs)
  | case4 before c cs name body rest hfound ih =>
    rw [functionsFrom, hfound]
    have hwithin : '\x7b' :: (body ++ '\x7d' :: rest) <:+ cs := within_of_declaration? hfound
    have hrest : rest <:+ cs := by
      refine List.IsSuffix.trans ?_ hwithin
      exact ((List.suffix_cons '\x7d' rest).trans (List.suffix_append body _)).trans
        (List.suffix_cons '\x7b' _)
    rw [← List.suffix_iff_eq_drop.mp hrest] at ih
    obtain ⟨gaps, hgaps⟩ := ih
    exact (Bodies.closed [] body hgaps).exists_of_suffix (hwithin.trans (List.suffix_cons c cs))
  | case5 before c cs rest hfound ih =>
    rw [functionsFrom, hfound]
    have hrest : rest <:+ cs := within_of_declaration? hfound
    rw [← List.suffix_iff_eq_drop.mp hrest] at ih
    obtain ⟨gaps, hgaps⟩ := ih
    exact hgaps.exists_of_suffix (hrest.trans (List.suffix_cons c cs))
  | case6 before c cs name body hfound =>
    rw [functionsFrom, hfound]
    have hbody : '\x7b' :: body <:+ cs := within_of_declaration? hfound
    exact (Bodies.unclosed [] body).exists_of_suffix (hbody.trans (List.suffix_cons c cs))
  | case7 before c cs hfound =>
    rw [functionsFrom, hfound]
    exact ⟨_, .none _⟩

/-- What is counted in a text is what is counted in the bodies and in the gaps, each once. -/
theorem Bodies.count_eq {gaps bodies : List (List Char)} (h : Bodies gaps bodies cs) (f : Family) :
    f.count cs = (bodies.map f.count).sum + (gaps.map f.count).sum := by
  induction h with
  | none gap => simp
  | closed gap body _ ih =>
    rw [Family.count_append f.partedBy_openingBrace, Family.count_append f.partedBy_closingBrace,
      ih]
    simp only [List.map_cons, List.sum_cons]
    omega
  | unclosed gap body =>
    rw [Family.count_append f.partedBy_openingBrace]
    simp [Nat.add_comm]

/-- The phrases in the bodies of the functions of a text are no more than those in the text, as
each phrase of the text stands in just one body or in just one of the gaps around them. -/
theorem sum_count_functions_le {code : String} (h : declaredFunctions code ≠ []) :
    ∃ gaps, Bodies gaps ((functions code).map (·.body.toList)) code.toList ∧
      ∀ f : Family,
        ((functions code).map fun g => f.count g.body.toList).sum ≤ f.count code.toList ∧
        f.count code.toList = ((functions code).map fun g => f.count g.body.toList).sum +
          (gaps.map f.count).sum := by
  have hbodies : (functions code).map (·.body.toList) =
      (functionsFrom none 0 code.toList).map (·.2) := by
    simp [functions_eq h, declaredFunctions, Function.comp_def]
  obtain ⟨gaps, hgaps⟩ := exists_bodies_functionsFrom none 0 code.toList
  rw [← hbodies, List.drop_zero] at hgaps
  refine ⟨gaps, hgaps, fun f => ?_⟩
  have hcount := hgaps.count_eq f
  rw [List.map_map, Function.comp_def] at hcount
  exact ⟨hcount ▸ Nat.le_add_right _ _, hcount⟩

def payAndFill : String :=
  "fun pay() \x7b while (x) \x7b t.insert(1) \x7d; for \x7d loop fun fill() \x7b fun f() \x7b loop \x7d while"

theorem sum_count_functions_le_payAndFill :
    (functions payAndFill).map (·.name) = ["pay", "fill"] ∧
      Family.loop.count payAndFill.toList = 5 ∧
      ((functions payAndFill).map fun g => Family.loop.count g.body.toList) = [2, 2] ∧
      ((functions payAndFill).map fun g => Family.loop.count g.body.toList).sum ≤
        Family.loop.count payAndFill.toList := by
  have hdeclared : declaredFunctions payAndFill ≠ [] := by decide +kernel
  obtain ⟨gaps, -, hcount⟩ := sum_count_functions_le hdeclared
  exact ⟨by decide +kernel, by decide +kernel, by decide +kernel, (hcount .loop).1⟩

end MoveWorkbench.Source
