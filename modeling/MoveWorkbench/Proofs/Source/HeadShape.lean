import MoveWorkbench.Proofs.Source.Depth
import MoveWorkbench.Proofs.Source.Head

/-!
The shapes of heads and of declarations. A head that is read is a visibility and a modifier, if
there are any, the word fun, a name, type parameters, if there are any, and a parenthesis, with
blanks where words have to be kept apart and anywhere else between the parts. A declaration that
is read goes on with balanced parameters and with text up to its first brace, behind which the
body begins.
-/

namespace MoveWorkbench.Source

open Text

def AreBlanks (cs : List Char) : Prop := ∀ c ∈ cs, isBlank c = true

inductive IsVisibility : List Char → Prop where
  | none : IsVisibility []
  | everywhere {gap : List Char} (hgap : IsGap gap) : IsVisibility ("public".toList ++ gap)
  | within {front left word right gap : List Char} (hfront : AreBlanks front)
    (hleft : AreBlanks left) (hword : IsName word) (hright : AreBlanks right) (hgap : IsGap gap) :
    IsVisibility ("public".toList ++
      (front ++ '(' :: (left ++ (word ++ (right ++ ')' :: gap)))))

inductive IsModifier : List Char → Prop where
  | none : IsModifier []
  | entry {gap : List Char} (hgap : IsGap gap) : IsModifier ("entry".toList ++ gap)

inductive AreTypes : List Char → Prop where
  | none : AreTypes []
  | some {inner : List Char} (hinner : '>' ∉ inner) : AreTypes ('<' :: (inner ++ ['>']))

inductive IsKeyword (name : List Char) : List Char → Prop where
  | mk {gap left types right : List Char} (hgap : IsGap gap) (hname : IsName name)
    (hleft : AreBlanks left) (htypes : AreTypes types) (hright : AreBlanks right) :
    IsKeyword name ("fun".toList ++ (gap ++ (name ++ (left ++ (types ++ (right ++ ['(']))))))

inductive IsHead (name : List Char) : List Char → Prop where
  | mk {visibility modifier keyword : List Char} (hvisibility : IsVisibility visibility)
    (hmodifier : IsModifier modifier) (hkeyword : IsKeyword name keyword) :
    IsHead name (visibility ++ (modifier ++ keyword))

inductive IsDeclaration (name : List Char) : List Char → Prop where
  | mk {head parameters result : List Char} (hhead : IsHead name head)
    (hparameters : Matched '(' ')' parameters) (hresult : ∀ c ∈ result, c ≠ '\x7b' ∧ c ≠ ';') :
    IsDeclaration name (head ++ (parameters ++ ')' :: (result ++ ['\x7b'])))

variable {before : Option Char} {cs rest name body : List Char}

/-- A declaration ends with a brace, and does not begin with it. -/
theorem IsDeclaration.exists_brace {text : List Char} (h : IsDeclaration name text) :
    ∃ front, front ≠ [] ∧ text = front ++ ['\x7b'] := by
  cases h with
  | @mk head parameters result =>
    refine ⟨head ++ (parameters ++ ')' :: result), by simp, ?_⟩
    simp only [List.append_assoc, List.cons_append]

theorem exists_blanks (cs : List Char) : ∃ blanks, AreBlanks blanks ∧ cs = blanks ++ skipBlanks cs :=
  ⟨cs.takeWhile isBlank, fun _ hc => List.mem_takeWhile_imp hc,
    List.takeWhile_append_dropWhile.symm⟩

theorem exists_of_afterBlanks? (h : afterBlanks? cs = some rest) :
    ∃ gap, IsGap gap ∧ cs = gap ++ rest := by
  cases cs with
  | nil => cases h
  | cons c cs =>
    simp only [afterBlanks?] at h
    split at h
    · rename_i hblank
      cases h
      obtain ⟨blanks, hblanks, hcs⟩ := exists_blanks cs
      refine ⟨c :: blanks, ⟨List.cons_ne_nil c blanks, ?_⟩, ?_⟩
      · exact List.forall_mem_cons.mpr ⟨hblank, hblanks⟩
      · rw [List.cons_append, ← hcs]
    · cases h

theorem eq_append_of_word? (h : word? cs = some (name, rest)) : IsName name ∧ cs = name ++ rest := by
  unfold word? at h
  split at h
  · cases h
  · rename_i hne
    cases h
    exact ⟨⟨hne, fun _ hc => List.mem_takeWhile_imp hc⟩, List.takeWhile_append_dropWhile.symm⟩

theorem exists_of_afterVisibility? (h : afterVisibility? cs = some rest) :
    ∃ visibility, IsVisibility ("public".toList ++ visibility) ∧ cs = visibility ++ rest := by
  unfold afterVisibility? at h
  split at h
  · rename_i inner hopen
    obtain ⟨⟨word, behind⟩, hword, hclose⟩ := Option.bind_eq_some_iff.mp h
    obtain ⟨front, hfront, hcs⟩ := exists_blanks cs
    obtain ⟨left, hleft, hinner⟩ := exists_blanks inner
    obtain ⟨hname, hbehind⟩ := eq_append_of_word? hword
    obtain ⟨right, hright, hend⟩ := exists_blanks behind
    dsimp only at hclose
    split at hclose
    · rename_i last hlast
      obtain ⟨gap, hgap, hgapLast⟩ := exists_of_afterBlanks? hclose
      refine ⟨_, .within hfront hleft hname hright hgap, ?_⟩
      rw [hcs, hopen, hinner, hbehind, hend, hlast, hgapLast]
      simp only [List.append_assoc, List.cons_append]
    · cases hclose
  · obtain ⟨gap, hgap, hcs⟩ := exists_of_afterBlanks? h
    exact ⟨gap, .everywhere hgap, hcs⟩

theorem exists_of_afterTypeParameters? (h : afterTypeParameters? cs = some rest) :
    ∃ types right, AreTypes types ∧ AreBlanks right ∧ cs = types ++ (right ++ rest) := by
  unfold afterTypeParameters? at h
  split at h
  · rename_i inner
    split at h
    · rename_i c behind hclose
      cases h
      obtain ⟨right, hright, hbehind⟩ := exists_blanks behind
      have hinner : inner = inner.takeWhile (· != '>') ++ c :: behind := by
        rw [← hclose, List.takeWhile_append_dropWhile]
      obtain rfl : c = '>' := by
        have hhead := List.head?_dropWhile_not (· != '>') inner
        rw [hclose] at hhead
        simpa using hhead
      refine ⟨'<' :: (inner.takeWhile (· != '>') ++ ['>']), right, .some fun hmem => ?_, hright, ?_⟩
      · simpa using List.mem_takeWhile_imp hmem
      · rw [List.cons_append, List.append_assoc, List.singleton_append, ← hbehind, ← hinner]
    · cases h
  · cases h
    exact ⟨[], [], .none, fun _ hc => absurd hc List.not_mem_nil, rfl⟩

theorem exists_of_afterKeyword? (h : afterKeyword? cs = some (name, rest)) :
    ∃ keyword, IsKeyword name keyword ∧ cs = keyword ++ rest := by
  unfold afterKeyword? at h
  obtain ⟨behind, hfun, h⟩ := Option.bind_eq_some_iff.mp h
  obtain ⟨start, hblanks, h⟩ := Option.bind_eq_some_iff.mp h
  obtain ⟨⟨word, tail⟩, hword, h⟩ := Option.bind_eq_some_iff.mp h
  obtain ⟨last, hparameters, h⟩ := Option.bind_eq_some_iff.mp h
  obtain ⟨gap, hgap, hbehind⟩ := exists_of_afterBlanks? hblanks
  obtain ⟨hname, hstart⟩ := eq_append_of_word? hword
  obtain ⟨left, hleft, htail⟩ := exists_blanks tail
  obtain ⟨types, right, htypes, hright, hlast⟩ := exists_of_afterTypeParameters? hparameters
  split at h
  · cases h
    refine ⟨_, .mk hgap hname hleft htypes hright, ?_⟩
    rw [after?_eq_some_iff.mp hfun, hbehind, hstart, htail, hlast]
    simp only [List.append_assoc, List.singleton_append]
  · cases h

theorem exists_of_afterModifier? (h : afterModifier? cs = some (name, rest)) :
    ∃ modifier keyword, IsModifier modifier ∧ IsKeyword name keyword ∧
      cs = modifier ++ (keyword ++ rest) := by
  unfold afterModifier? at h
  split at h
  · rename_i behind hentry
    obtain ⟨start, hblanks, h⟩ := Option.bind_eq_some_iff.mp h
    obtain ⟨gap, hgap, hbehind⟩ := exists_of_afterBlanks? hblanks
    obtain ⟨keyword, hkeyword, hstart⟩ := exists_of_afterKeyword? h
    refine ⟨_, keyword, .entry hgap, hkeyword, ?_⟩
    rw [after?_eq_some_iff.mp hentry, hbehind, hstart, List.append_assoc]
  · obtain ⟨keyword, hkeyword, hcs⟩ := exists_of_afterKeyword? h
    exact ⟨[], keyword, .none, hkeyword, hcs⟩

/-- A head that is read begins a word, has the shape of a head, and ends where reading goes on. -/
theorem exists_of_head? (h : head? before cs = some (name, rest)) :
    before.any isWord = false ∧ ∃ head, IsHead name head ∧ cs = head ++ rest := by
  unfold head? at h
  split at h
  · cases h
  · rename_i hbefore
    refine ⟨Bool.eq_false_iff.mpr hbefore, ?_⟩
    split at h
    · rename_i behind hpublic
      obtain ⟨start, hvisibility, h⟩ := Option.bind_eq_some_iff.mp h
      obtain ⟨visibility, hvisibility, hbehind⟩ := exists_of_afterVisibility? hvisibility
      obtain ⟨modifier, keyword, hmodifier, hkeyword, hstart⟩ := exists_of_afterModifier? h
      refine ⟨_, .mk hvisibility hmodifier hkeyword, ?_⟩
      rw [after?_eq_some_iff.mp hpublic, hbehind, hstart]
      simp only [List.append_assoc]
    · obtain ⟨modifier, keyword, hmodifier, hkeyword, hcs⟩ := exists_of_afterModifier? h
      refine ⟨_, .mk .none hmodifier hkeyword, ?_⟩
      rw [hcs, List.nil_append, List.append_assoc]

def Declaration.Leaves (cs : List Char) : Declaration → Prop
  | .function name body rest => ∃ text, IsDeclaration name text ∧
      Matched '\x7b' '\x7d' body ∧ cs = text ++ (body ++ '\x7d' :: rest)
  | .bodyless rest => ∃ text, text ≠ [] ∧ cs = text ++ rest
  | .unclosed name body => ∃ text, IsDeclaration name text ∧
      Upright '\x7b' '\x7d' body ∧ cs = text ++ body
  | .unfinished => True

/-- A head does not begin inside a word, and what it declares has the shape of a declaration. -/
theorem leaves_of_declaration? {d : Declaration} (h : declaration? before cs = some d) :
    before.any isWord = false ∧ d.Leaves cs := by
  unfold declaration? at h
  obtain ⟨⟨name, start⟩, hhead, h⟩ := Option.bind_eq_some_iff.mp h
  obtain ⟨hbefore, head, hshape, hcs⟩ := exists_of_head? hhead
  refine ⟨hbefore, ?_⟩
  rw [hcs]
  dsimp only at h
  split at h
  · cases h
    trivial
  · rename_i parameters rest hparameters
    have hmatched := matched_of_enclosed? (by decide) hparameters
    have hstart := eq_append_of_enclosed? hparameters
    split at h
    · rename_i inner hbrace
      have hresult : ∀ c ∈ rest.takeWhile (fun c => c != '\x7b' && c != ';'),
          c ≠ '\x7b' ∧ c ≠ ';' := fun c hc => by simpa using List.mem_takeWhile_imp hc
      have hrest : rest = rest.takeWhile (fun c => c != '\x7b' && c != ';') ++ '\x7b' :: inner := by
        rw [← hbrace, List.takeWhile_append_dropWhile]
      have hdeclaration := IsDeclaration.mk hshape hmatched hresult
      have htext : head ++ start = head ++ (parameters ++ ')' ::
          (rest.takeWhile (fun c => c != '\x7b' && c != ';') ++ ['\x7b'])) ++ inner := by
        rw [hstart]
        simp only [List.append_assoc, List.cons_append, List.nil_append, ← hrest]
      split at h
      · rename_i body behind hbody
        cases h
        refine ⟨_, hdeclaration, matched_of_enclosed? (by decide) hbody, ?_⟩
        rw [htext, ← eq_append_of_enclosed? hbody]
      · rename_i hbody
        cases h
        exact ⟨_, hdeclaration, upright_of_enclosed?_eq_none (by decide) hbody, htext⟩
    · cases h
      refine ⟨head ++ (parameters ++ [')']), by simp, ?_⟩
      rw [hstart]
      simp only [List.append_assoc, List.cons_append, List.nil_append]

end MoveWorkbench.Source
