import MoveWorkbench.Proofs.Source.HeadShape

/-!
Where bodies stand in their text. The places of the bodies of a text follow one another without
overlapping. Each body begins right behind the brace of its declaration, which stands behind the
body before, and it is balanced and ends in front of a closing brace. Only the last one may go on
to the end of the text, when its brace is never closed.
-/

namespace MoveWorkbench.Source

open Text

structure Slice where
  start : ℕ
  stop : ℕ

/-- A function by its name and its body, whose body stands at a slice of a text, and whose
declaration stands between a place and the body. -/
structure BodyAt (code : List Char) (place : ℕ) (f : List Char × List Char) (s : Slice) : Prop where
  place_lt : place < s.start
  start_le : s.start ≤ s.stop
  body : f.2 = (code.take s.stop).drop s.start
  opened : code[s.start - 1]? = some '\x7b'
  declared : ∃ front text, (code.take s.start).drop place = front ++ text ∧
    front.getLast?.any isWord = false ∧ IsDeclaration f.1 text

/-- Functions and the slices at which their bodies stand, one behind the other from a place on. -/
inductive Slices (code : List Char) :
    ℕ → List (List Char × List Char) → List Slice → Prop where
  | none (place : ℕ) : Slices code place [] []
  | closed {place : ℕ} {f : List Char × List Char} {s : Slice} {fs : List (List Char × List Char)}
    {slices : List Slice} (hbody : BodyAt code place f s) (hclosed : code[s.stop]? = some '\x7d')
    (hmatched : Matched '\x7b' '\x7d' f.2) (h : Slices code s.stop fs slices) :
    Slices code place (f :: fs) (s :: slices)
  | unclosed {place : ℕ} {f : List Char × List Char} {s : Slice} (hbody : BodyAt code place f s)
    (hend : s.stop = code.length) (hupright : Upright '\x7b' '\x7d' f.2) :
    Slices code place [f] [s]

variable {code : List Char} {place : ℕ}

theorem Slices.place_lt {fs : List (List Char × List Char)} {slices : List Slice}
    (h : Slices code place fs slices) : ∀ s ∈ slices, place < s.start := by
  induction h with
  | none => exact fun _ hs => absurd hs List.not_mem_nil
  | closed hbody _ _ _ ih =>
    refine List.forall_mem_cons.mpr ⟨hbody.place_lt, fun s hs => ?_⟩
    have hlater := ih s hs
    have hfirst := hbody.place_lt
    have hle := hbody.start_le
    omega
  | unclosed hbody => exact List.forall_mem_singleton.mpr hbody.place_lt

/-- Slices do not overlap. -/
theorem Slices.pairwise {fs : List (List Char × List Char)} {slices : List Slice}
    (h : Slices code place fs slices) : slices.Pairwise fun s t => s.stop < t.start := by
  induction h with
  | none => exact .nil
  | closed _ _ _ h ih => exact List.pairwise_cons.mpr ⟨h.place_lt, ih⟩
  | unclosed => exact List.pairwise_singleton _ _

/-- A body stands right behind its declaration. -/
theorem bodyAt_of_declaration {passed name text body rest : List Char}
    (hplace : place ≤ passed.length) (hbefore : passed.getLast?.any isWord = false)
    (htext : IsDeclaration name text) :
    BodyAt (passed ++ (text ++ (body ++ rest))) place (name, body)
      ⟨(passed ++ text).length, (passed ++ (text ++ body)).length⟩ := by
  obtain ⟨front, -, hbrace⟩ := htext.exists_brace
  have hstart : passed ++ (text ++ (body ++ rest)) = (passed ++ text) ++ (body ++ rest) := by
    rw [List.append_assoc]
  have hstop : passed ++ (text ++ (body ++ rest)) = (passed ++ (text ++ body)) ++ rest := by
    simp only [List.append_assoc]
  refine ⟨?_, ?_, ?_, ?_, passed.drop place, text, ?_, ?_, htext⟩
  · rw [hbrace]
    simp only [List.length_append, List.length_singleton]
    omega
  · simp only [List.length_append]
    omega
  · dsimp only
    rw [hstop, List.take_left, ← List.append_assoc, List.drop_left]
  · have hbehind : passed ++ (text ++ (body ++ rest)) =
        (passed ++ front) ++ '\x7b' :: (body ++ rest) := by
      rw [hbrace]
      simp only [List.append_assoc, List.singleton_append]
    have hlength : (passed ++ text).length - 1 = (passed ++ front).length := by
      rw [hbrace]
      simp only [List.length_append, List.length_singleton]
      omega
    dsimp only
    rw [hlength, hbehind, List.getElem?_append_right (Nat.le_refl _), Nat.sub_self]
    rfl
  · dsimp only
    rw [hstart, List.take_left, List.drop_append_of_le_length hplace]
  · rw [List.getLast?_drop]
    split
    · rfl
    · exact hbefore

/-- The bodies of the functions that are read stand in their text, behind any place that reading
has passed. -/
theorem exists_slices_functionsFrom (before : Option Char) (skip : ℕ) (cs : List Char)
    {passed : List Char} (hbefore : before = passed.getLast?)
    (hplace : place ≤ passed.length + skip) :
    ∃ slices, Slices (passed ++ cs) place (functionsFrom before skip cs) slices := by
  have hlast (passed : List Char) (c : Char) : some c = (passed ++ [c]).getLast? :=
    List.getLast?_concat.symm
  have hmore (passed cs : List Char) (c : Char) : passed ++ c :: cs = (passed ++ [c]) ++ cs := by
    simp
  have hlength (passed : List Char) (c : Char) : (passed ++ [c]).length = passed.length + 1 :=
    List.length_append
  induction before, skip, cs using functionsFrom.induct generalizing passed place with
  | case1 before skip =>
    rw [functionsFrom]
    exact ⟨[], .none place⟩
  | case2 before skip c cs ih =>
    have hle : place ≤ (passed ++ [c]).length + skip := by
      rw [hlength]
      omega
    rw [functionsFrom, hmore]
    exact ih (hlast passed c) hle
  | case3 before c cs hnone ih =>
    have hle : place ≤ (passed ++ [c]).length + 0 := by
      rw [hlength]
      omega
    rw [functionsFrom, hnone, hmore]
    exact ih (hlast passed c) hle
  | case4 before c cs name body rest hfound ih =>
    obtain ⟨hword, text, htext, hmatched, hcs⟩ := leaves_of_declaration? hfound
    have hcount := congrArg List.length hcs
    simp only [List.length_cons, List.length_append] at hcount
    have hbody : BodyAt (passed ++ (text ++ (body ++ '\x7d' :: rest))) place (name, body)
        ⟨(passed ++ text).length, (passed ++ (text ++ body)).length⟩ :=
      bodyAt_of_declaration hplace (hbefore ▸ hword) htext
    have hclosed : (passed ++ c :: cs)[(passed ++ (text ++ body)).length]? = some '\x7d' := by
      have hstop : passed ++ c :: cs = (passed ++ (text ++ body)) ++ '\x7d' :: rest := by
        rw [hcs]
        simp only [List.append_assoc]
      rw [hstop, List.getElem?_append_right (Nat.le_refl _), Nat.sub_self]
      rfl
    have hle : (passed ++ (text ++ body)).length ≤
        (passed ++ [c]).length + (cs.length - rest.length) := by
      rw [hlength, List.length_append, List.length_append]
      omega
    obtain ⟨slices, hslices⟩ := ih (hlast passed c) hle
    rw [← hmore] at hslices
    rw [functionsFrom, hfound]
    exact ⟨_, .closed (hcs ▸ hbody) hclosed hmatched hslices⟩
  | case5 before c cs rest hfound ih =>
    obtain ⟨-, text, hne, hcs⟩ := leaves_of_declaration? hfound
    have hle : place ≤ (passed ++ [c]).length + (cs.length - rest.length) := by
      rw [hlength]
      omega
    rw [functionsFrom, hfound, hmore]
    exact ih (hlast passed c) hle
  | case6 before c cs name body hfound =>
    obtain ⟨hword, text, htext, hupright, hcs⟩ := leaves_of_declaration? hfound
    have hbody : BodyAt (passed ++ (text ++ (body ++ []))) place (name, body)
        ⟨(passed ++ text).length, (passed ++ (text ++ body)).length⟩ :=
      bodyAt_of_declaration hplace (hbefore ▸ hword) htext
    rw [List.append_nil, ← hcs] at hbody
    rw [functionsFrom, hfound]
    exact ⟨_, .unclosed hbody (by rw [hcs]) hupright⟩
  | case7 before c cs hfound =>
    rw [functionsFrom, hfound]
    exact ⟨[], .none place⟩

/-- The bodies of the functions of a text are slices of it that do not overlap, each behind its
declaration and balanced, or else the last one and never closed. -/
theorem slices_functions {code : String} (h : declaredFunctions code ≠ []) :
    ∃ slices, Slices code.toList 0
        ((functions code).map fun f => (f.name.toList, f.body.toList)) slices ∧
      slices.Pairwise fun s t => s.stop < t.start := by
  have hfunctions : (functions code).map (fun f => (f.name.toList, f.body.toList)) =
      functionsFrom none 0 code.toList := by
    simp [functions_eq h, declaredFunctions, Function.comp_def]
  obtain ⟨slices, hslices⟩ : ∃ slices, Slices ([] ++ code.toList) 0 _ slices :=
    exists_slices_functionsFrom none 0 code.toList rfl (Nat.le_refl 0)
  rw [hfunctions]
  exact ⟨slices, hslices, hslices.pairwise⟩

def hashPayFill : String :=
  "native fun hash(x: u8); public fun pay(c: C<T>): u64 \x7b if (x) \x7b y \x7d else \x7b z \x7d \x7d entry fun fill<T>(t: T) \x7b loop \x7b t"

theorem slices_functions_hashPayFill :
    declaredFunctions hashPayFill ≠ [] ∧
      (functions hashPayFill).map (fun f => (f.name.toList, f.body.toList)) =
        [("pay".toList, " if (x) \x7b y \x7d else \x7b z \x7d ".toList),
          ("fill".toList, " loop \x7b t".toList)] ∧
      ∃ slices, Slices hashPayFill.toList 0
        [("pay".toList, " if (x) \x7b y \x7d else \x7b z \x7d ".toList),
          ("fill".toList, " loop \x7b t".toList)] slices ∧
        slices.Pairwise fun s t => s.stop < t.start := by
  have hdeclared : declaredFunctions hashPayFill ≠ [] := by decide +kernel
  have hbodies : (functions hashPayFill).map (fun f => (f.name.toList, f.body.toList)) =
      [("pay".toList, " if (x) \x7b y \x7d else \x7b z \x7d ".toList),
        ("fill".toList, " loop \x7b t".toList)] := by decide +kernel
  obtain ⟨slices, hslices, hapart⟩ := slices_functions hdeclared
  rw [hbodies] at hslices
  exact ⟨hdeclared, hbodies, slices, hslices, hapart⟩

end MoveWorkbench.Source
