import Mathlib.Data.List.Infix
import MoveWorkbench.Proofs.Design.Comments

/-!
Structs and constructors in Move code. A reader that knows nothing of designs lists what the lines
of a code declare, each of them with its fields. It reads the items of a module back from its code.
So an object has the same fields in its struct and in its constructor, and the types of all of them
are structs of the same module.
-/

namespace MoveWorkbench

open Source Text

namespace MoveModule

section Reader

/-- The word that comes after `front` at the beginning of a line, and what is behind it. -/
def wordAfter? (front : String) (l : List Char) : Option (String × List Char) := do
  let (w, rest) ← word? (← after? front.toList l)
  return (String.ofList w, rest)

def fieldLine? (front close : String) (l : List Char) : Option Field := do
  let (name, l) ← wordAfter? front l
  let (type, l) ← wordAfter? ": " l
  if l = close.toList then some ⟨name, type⟩ else none

def fieldLines? (front close last : String) : List (List Char) → Option (List Field)
  | [] => none
  | l :: ls => match fieldLine? front close l with
    | some f => (fieldLines? front close last ls).map (f :: ·)
    | none => if l = last.toList then some [] else none

def linesAfter? (front : List String) (ls : List (List Char)) : Option (List (List Char)) :=
  (front.map String.toList).isPrefixOf? ls

def object? (l : List Char) (ls : List (List Char)) : Option Item := do
  let (name, l) ← wordAfter? "struct " l
  let ls ← linesAfter? [" has key \x7b", "        id: UID,"] (l :: ls)
  return .object name (← fieldLines? "        " "," "    \x7d" ls)

def resource? (l : List Char) (ls : List (List Char)) : Option Item := do
  let (name, l) ← wordAfter? "struct " l
  let _ ← linesAfter? [" has store \x7b", "        value: u64,", "    \x7d"] (l :: ls)
  return .resource name

def constructor? (l : List Char) (ls : List (List Char)) : Option Item := do
  let (function, l) ← wordAfter? "fun create_" l
  let (name, l) ← wordAfter? "(ctx: &mut TxContext): " l
  let ls ← linesAfter? [" \x7b", "        " ++ name ++ " \x7b", "            id: object::new(ctx),"]
    (l :: ls)
  return .constructor name function
    (← fieldLines? "            " " \x7b value: 0 \x7d," "        \x7d" ls)

def item? (l : List Char) (ls : List (List Char)) : Option Item := do
  let l ← after? "    public ".toList l
  (object? l ls).or ((resource? l ls).or (constructor? l ls))

def itemsIn : List (List Char) → List Item
  | [] => []
  | l :: ls => (item? l ls).toList ++ itemsIn ls

end Reader

section Line

variable {front close last w : String} {rest : List Char}

theorem wordAfter?_append (front : String) (hw : IsName w.toList)
    (hrest : rest.head?.any (!isWord ·) = true) :
    wordAfter? front (front.toList ++ (w.toList ++ rest)) = some (w, rest) := by
  obtain ⟨c, hc, hword⟩ := (Option.any_eq_true ..).mp hrest
  obtain ⟨cs, rfl⟩ := List.head?_eq_some_iff.mp hc
  have hafter : after? front.toList (front.toList ++ (w.toList ++ c :: cs)) =
      some (w.toList ++ c :: cs) := after?_eq_some_iff.mpr rfl
  unfold wordAfter?
  simp only [hafter, Option.bind_eq_bind, Option.bind_some,
    word?_append hw.1 hw.2 (Bool.not_eq_true' _ |>.mp hword)]
  exact congrArg (fun s => some (s, c :: cs)) String.ofList_toList

theorem fieldLine?_append {f : Field} (h : f.WellNamed) (front : String)
    (hclose : close.toList.head?.any (!isWord ·) = true) :
    fieldLine? front close (front ++ f.name ++ ": " ++ f.type ++ close).toList = some f := by
  have hline : (front ++ f.name ++ ": " ++ f.type ++ close).toList =
      front.toList ++ (f.name.toList ++ (": ".toList ++ (f.type.toList ++ close.toList))) := by
    simp only [String.toList_append, List.append_assoc]
  unfold fieldLine?
  rw [hline, wordAfter?_append front h.1 rfl, Option.bind_eq_bind, Option.bind_some]
  simp only [wordAfter?_append ": " h.2 hclose, Option.bind_some, reduceIte]

def fieldRows (front close : String) (fields : List Field) : List (List Char) :=
  fields.map fun f => (front ++ f.name ++ ": " ++ f.type ++ close).toList

theorem fieldLines?_append {fields : List Field} (h : ∀ f ∈ fields, f.WellNamed)
    (hclose : close.toList.head?.any (!isWord ·) = true)
    (hlast : fieldLine? front close last.toList = none) (rest : List (List Char)) :
    fieldLines? front close last (fieldRows front close fields ++ last.toList :: rest) =
      some fields := by
  induction fields with
  | nil =>
    unfold fieldRows
    rw [List.map_nil, List.nil_append, fieldLines?, hlast]
    exact if_pos rfl
  | cons f fields ih =>
    rw [List.forall_mem_cons] at h
    unfold fieldRows at ih ⊢
    rw [List.map_cons, List.cons_append, fieldLines?, fieldLine?_append h.1 front hclose, ih h.2]
    rfl

theorem linesAfter?_append (front : List String) (rest : List (List Char)) :
    linesAfter? front (front.map String.toList ++ rest) = some rest :=
  List.isPrefixOf?_eq_some_iff_append_eq.mpr rfl

/-- Nothing is declared in a line that is not public. -/
theorem itemsIn_cons_of_after?_eq_none {l : List Char} (h : after? "    public ".toList l = none)
    (ls : List (List Char)) : itemsIn (l :: ls) = itemsIn ls := by
  rw [itemsIn, item?, h]
  rfl

theorem itemsIn_append_of_after?_eq_none {ls : List (List Char)}
    (h : ∀ l ∈ ls, after? "    public ".toList l = none) (rest : List (List Char)) :
    itemsIn (ls ++ rest) = itemsIn rest := by
  induction ls with
  | nil => rfl
  | cons l ls ih =>
    rw [List.forall_mem_cons] at h
    rw [List.cons_append, itemsIn_cons_of_after?_eq_none h.1, ih h.2]

/-- An item of which just the first line is public is the only one in its lines. -/
theorem itemsIn_cons_append {l : List Char} {ls rest : List (List Char)} {i : Item}
    (hitem : item? ("    public ".toList ++ l) (ls ++ rest) = some i)
    (hinner : ∀ l ∈ ls, after? "    public ".toList l = none) :
    itemsIn (("    public ".toList ++ l) :: (ls ++ rest)) = i :: itemsIn rest := by
  rw [itemsIn, hitem, itemsIn_append_of_after?_eq_none hinner]
  rfl

theorem item?_public (l : List Char) (ls : List (List Char)) :
    item? ("    public ".toList ++ l) ls =
      (object? l ls).or ((resource? l ls).or (constructor? l ls)) := by
  rw [item?, after?_eq_some_iff.mpr rfl]
  rfl

end Line

namespace Item

variable {name function : String} {fields : List Field}

/-- The lines of fields are not public. -/
theorem after?_of_mem_fieldRows {front close : String} {l : List Char}
    (hfront : ∀ rest, after? "    public ".toList (front.toList ++ rest) = none)
    (hl : l ∈ fieldRows front close fields) : after? "    public ".toList l = none := by
  obtain ⟨f, -, rfl⟩ := List.mem_map.mp hl
  rw [String.append_assoc, String.append_assoc, String.append_assoc, String.toList_append]
  exact hfront _

theorem object?_append (hname : IsName name.toList) (hfields : ∀ f ∈ fields, f.WellNamed)
    (rest : List (List Char)) :
    object? ("struct ".toList ++ (name.toList ++ " has key \x7b".toList))
      ("        id: UID,".toList ::
        (fieldRows "        " "," fields ++ "    \x7d".toList :: rest)) =
          some (object name fields) := by
  have hhead : wordAfter? "struct " ("struct ".toList ++ (name.toList ++ " has key \x7b".toList)) =
      some (name, " has key \x7b".toList) := wordAfter?_append _ hname rfl
  have hfront (ls : List (List Char)) : linesAfter? [" has key \x7b", "        id: UID,"]
      (" has key \x7b".toList :: "        id: UID,".toList :: ls) = some ls :=
    linesAfter?_append _ ls
  have hlast : fieldLine? "        " "," "    \x7d".toList = none := rfl
  exact Option.bind_eq_some_iff.mpr ⟨_, hhead, Option.bind_eq_some_iff.mpr ⟨_, hfront _,
    Option.bind_eq_some_iff.mpr ⟨_, fieldLines?_append hfields rfl hlast rest, rfl⟩⟩⟩

theorem resource?_append (hname : IsName name.toList) (rest : List (List Char)) :
    resource? ("struct ".toList ++ (name.toList ++ " has store \x7b".toList))
      ("        value: u64,".toList :: "    \x7d".toList :: rest) = some (resource name) := by
  have hhead : wordAfter? "struct "
      ("struct ".toList ++ (name.toList ++ " has store \x7b".toList)) =
        some (name, " has store \x7b".toList) := wordAfter?_append _ hname rfl
  have hfront : linesAfter? [" has store \x7b", "        value: u64,", "    \x7d"]
      (" has store \x7b".toList :: "        value: u64,".toList :: "    \x7d".toList :: rest) =
        some rest := linesAfter?_append _ rest
  exact Option.bind_eq_some_iff.mpr ⟨_, hhead, Option.bind_eq_some_iff.mpr ⟨_, hfront, rfl⟩⟩

/-- The struct of a resource is not that of an object. -/
theorem object?_resource (hname : IsName name.toList) (ls : List (List Char)) :
    object? ("struct ".toList ++ (name.toList ++ " has store \x7b".toList)) ls = none := by
  have hhead : wordAfter? "struct "
      ("struct ".toList ++ (name.toList ++ " has store \x7b".toList)) =
        some (name, " has store \x7b".toList) := wordAfter?_append _ hname rfl
  have hfront : linesAfter? [" has key \x7b", "        id: UID,"] (" has store \x7b".toList :: ls) =
      none := rfl
  unfold object?
  rw [hhead, Option.bind_eq_bind, Option.bind_some]
  exact Option.bind_eq_none_iff.mpr fun _ hls => absurd (hfront.symm.trans hls) nofun

theorem constructor?_append (hname : IsName name.toList) (hfunction : IsName function.toList)
    (hfields : ∀ f ∈ fields, f.WellNamed) (rest : List (List Char)) :
    constructor? ("fun create_".toList ++
        (function.toList ++ ("(ctx: &mut TxContext): ".toList ++ (name.toList ++ " \x7b".toList))))
      (("        " ++ name ++ " \x7b").toList :: "            id: object::new(ctx),".toList ::
        (fieldRows "            " " \x7b value: 0 \x7d," fields ++ "        \x7d".toList :: rest)) =
          some (constructor name function fields) := by
  have hhead : wordAfter? "fun create_" ("fun create_".toList ++
      (function.toList ++ ("(ctx: &mut TxContext): ".toList ++ (name.toList ++ " \x7b".toList)))) =
        some (function, "(ctx: &mut TxContext): ".toList ++ (name.toList ++ " \x7b".toList)) :=
    wordAfter?_append _ hfunction rfl
  have hresult : wordAfter? "(ctx: &mut TxContext): "
      ("(ctx: &mut TxContext): ".toList ++ (name.toList ++ " \x7b".toList)) =
        some (name, " \x7b".toList) := wordAfter?_append _ hname rfl
  have hfront (ls : List (List Char)) : linesAfter?
      [" \x7b", "        " ++ name ++ " \x7b", "            id: object::new(ctx),"]
      (" \x7b".toList :: ("        " ++ name ++ " \x7b").toList ::
        "            id: object::new(ctx),".toList :: ls) = some ls := linesAfter?_append _ ls
  have hlast : fieldLine? "            " " \x7b value: 0 \x7d," "        \x7d".toList = none := rfl
  exact Option.bind_eq_some_iff.mpr ⟨_, hhead, Option.bind_eq_some_iff.mpr ⟨_, hresult,
    Option.bind_eq_some_iff.mpr ⟨_, hfront _,
      Option.bind_eq_some_iff.mpr ⟨_, fieldLines?_append hfields rfl hlast rest, rfl⟩⟩⟩⟩

theorem itemsIn_object (hname : IsName name.toList) (hfields : ∀ f ∈ fields, f.WellNamed)
    (rest : List (List Char)) :
    itemsIn ((object name fields).lines.map String.toList ++ rest) =
      object name fields :: itemsIn rest := by
  have hlines : (object name fields).lines.map String.toList ++ rest =
      ("    public ".toList ++ ("struct ".toList ++ (name.toList ++ " has key \x7b".toList))) ::
        (("        id: UID,".toList :: (fieldRows "        " "," fields ++
            ["    \x7d".toList, []])) ++ rest) := by
    simp [lines, fieldRows]
  rw [hlines]
  refine itemsIn_cons_append ?_ ?_
  · rw [item?_public, List.cons_append, List.append_assoc]
    exact congrArg (Option.or · _) (object?_append hname hfields _)
  · refine List.forall_mem_cons.mpr ⟨rfl, List.forall_mem_append.mpr ⟨?_, by decide⟩⟩
    exact fun l hl => after?_of_mem_fieldRows (fun _ => rfl) hl

theorem itemsIn_resource (hname : IsName name.toList) (rest : List (List Char)) :
    itemsIn ((resource name).lines.map String.toList ++ rest) = resource name :: itemsIn rest := by
  have hlines : (resource name).lines.map String.toList ++ rest =
      ("    public ".toList ++ ("struct ".toList ++ (name.toList ++ " has store \x7b".toList))) ::
        (["        value: u64,".toList, "    \x7d".toList, []] ++ rest) := by
    simp [lines]
  rw [hlines]
  refine itemsIn_cons_append ?_ (by decide)
  rw [item?_public, object?_resource hname, Option.none_or]
  exact congrArg (Option.or · _) (resource?_append hname _)

theorem itemsIn_constructor (hname : IsName name.toList) (hfunction : IsName function.toList)
    (hfields : ∀ f ∈ fields, f.WellNamed) (rest : List (List Char)) :
    itemsIn ((constructor name function fields).lines.map String.toList ++ rest) =
      constructor name function fields :: itemsIn rest := by
  have hlines : (constructor name function fields).lines.map String.toList ++ rest =
      ("    public ".toList ++ ("fun create_".toList ++ (function.toList ++
          ("(ctx: &mut TxContext): ".toList ++ (name.toList ++ " \x7b".toList))))) ::
        ((("        " ++ name ++ " \x7b").toList :: "            id: object::new(ctx),".toList ::
          (fieldRows "            " " \x7b value: 0 \x7d," fields ++
            ["        \x7d".toList, "    \x7d".toList, []])) ++ rest) := by
    simp [lines, fieldRows]
  have hmade : after? "    public ".toList ("        " ++ name ++ " \x7b").toList = none := by
    rw [String.append_assoc, String.toList_append]
    rfl
  rw [hlines]
  refine itemsIn_cons_append ?_ ?_
  · rw [item?_public, List.cons_append, List.cons_append, List.append_assoc]
    exact constructor?_append hname hfunction hfields _
  · refine List.forall_mem_cons.mpr ⟨hmade, List.forall_mem_cons.mpr ⟨rfl,
      List.forall_mem_append.mpr ⟨?_, by decide⟩⟩⟩
    exact fun l hl => after?_of_mem_fieldRows (fun _ => rfl) hl

/-- Whether an item is an entry function. The code has its name in lower case only. -/
def isEntry : Item → Bool
  | entry _ _ => true
  | object _ _ | resource _ | constructor _ _ _ => false

variable {i : Item}

/-- An item is read back from its lines, also behind its comment. -/
theorem itemsIn_commentedLines (h : i.WellNamed) (hentry : i.isEntry = false) (comments : Bool)
    (rest : List (List Char)) :
    itemsIn ((i.commentedLines comments).map String.toList ++ rest) = i :: itemsIn rest := by
  have hlines : itemsIn (i.lines.map String.toList ++ rest) = i :: itemsIn rest := by
    cases i with
    | object name fields => exact itemsIn_object h.1 h.2 rest
    | resource name => exact itemsIn_resource h rest
    | constructor name function fields => exact itemsIn_constructor h.1 h.2.1 h.2.2 rest
    | entry name function => cases hentry
  unfold commentedLines
  cases comments with
  | false => exact hlines
  | true =>
    rw [if_pos rfl, List.map_append, List.append_assoc, itemsIn_append_of_after?_eq_none, hlines]
    rw [List.map_singleton, List.forall_mem_singleton, String.toList_append]
    rfl

theorem unbroken_of_mem_commentedLines (h : i.WellNamed) {comments : Bool} {l : String}
    (hl : l ∈ i.commentedLines comments) : Unbroken l := by
  rcases List.mem_append.mp hl with hcomment | hlines
  · obtain rfl : l = "    /// " ++ i.comment := by
      cases comments with
      | false => exact absurd hcomment List.not_mem_nil
      | true => exact List.mem_singleton.mp hcomment
    exact unbroken_append.mpr ⟨by decide, unbroken_comment h⟩
  · exact (plain_lines h l hlines).1

end Item

theorem itemsIn_flatMap {items : List Item} (h : ∀ i ∈ items, i.WellNamed ∧ i.isEntry = false)
    (comments : Bool) (rest : List (List Char)) :
    itemsIn ((items.flatMap (·.commentedLines comments)).map String.toList ++ rest) =
      items ++ itemsIn rest := by
  induction items with
  | nil => rfl
  | cons i items ih =>
    rw [List.forall_mem_cons] at h
    rw [List.flatMap_cons, List.map_append, List.append_assoc,
      Item.itemsIn_commentedLines h.1.1 h.1.2, ih h.2, List.cons_append]

theorem lines_lineChars_of_unbroken {ls : List String} (h : ∀ l ∈ ls, Unbroken l) :
    Text.lines (lineChars ls) = ls.map String.toList ++ [[]] := by
  have hone : ∀ l ∈ ls, Text.lines l.toList = [l.toList] := fun l hl => split_of_not_mem (h l hl)
  rw [lines_lineChars, List.flatMap_congr hone, ← List.map_eq_flatMap]

variable {m : MoveModule}

def openingLines (m : MoveModule) (comments : Bool) : List String :=
  (if comments then m.summaryLines else []) ++ m.headLines

def closingLines (m : MoveModule) (tests : Bool) : List String :=
  "\x7d" :: if tests then m.testLines else []

def itemChars (m : MoveModule) (comments : Bool) : List Char :=
  lineChars (m.items.flatMap (·.commentedLines comments))

theorem toList_text_eq_append (m : MoveModule) (comments tests : Bool) :
    (m.text comments tests).toList = lineChars (m.openingLines comments) ++ m.itemChars comments ++
      lineChars (m.closingLines tests) := by
  unfold itemChars
  rw [toList_text, ← lineChars_append, ← lineChars_append, closingLines, List.append_cons]
  rfl

/-- The items of a module are read back from its code. -/
theorem itemsIn_itemChars (h : ∀ i ∈ m.items, i.WellNamed ∧ i.isEntry = false) (comments : Bool) :
    itemsIn (Text.lines (m.itemChars comments)) = m.items := by
  unfold itemChars
  rw [lines_lineChars_of_unbroken fun l hl => ?_, itemsIn_flatMap h]
  · exact List.append_nil _
  · obtain ⟨i, hi, hl⟩ := List.mem_flatMap.mp hl
    exact Item.unbroken_of_mem_commentedLines (h i hi).1 hl

end MoveModule

namespace Design

open MoveModule

variable {d : Design} {c : Component}

/-- A field has the name of a resource for its type. -/
theorem exists_resource_of_mem_fieldsOf {f : Field} (hf : f ∈ d.fieldsOf c) :
    ∃ r ∈ d.ofKind (.text "resource"), r.name.display = f.type := by
  obtain ⟨r, hr, rfl⟩ := List.mem_map.mp hf
  exact ⟨r, List.mem_filter.mpr ⟨mem_of_mem_targetsOfKind hr, (List.mem_filter.mp hr).2⟩, rfl⟩

/-- Without functions there is nothing but structs and constructors. -/
theorem items_moduleOf (hfunctions : d.ofKind (.text "function") = []) (name : String) :
    (d.moduleOf name).items =
      (d.ofKind (.text "object")).map (fun c => .object c.name.display (d.fieldsOf c)) ++
        (d.ofKind (.text "resource")).map (fun r => .resource r.name.display) ++
        (d.ofKind (.text "object")).map fun c =>
          .constructor c.name.display (lower c.name.display) (d.fieldsOf c) := by
  unfold moduleOf itemsOf
  rw [hfunctions]

/-- Where the names of components are words and there are no functions, the code between the lines
in front and those behind declares a struct for each object, one for each resource, and a
constructor for each object. An object has the fields for the resources that it connects to in its
struct and in its constructor, and the types of all fields are among the structs of resources. -/
theorem WordNamed.itemsIn_moveCode (h : d.WordNamed)
    (hfunctions : d.ofKind (.text "function") = []) (options : CodeOptions)
    (hname : d.name.IsText ∨ ∃ name, options.moduleName = some name ∧ name ≠ "") :
    ∃ code body name, d.moveCode options = .ok code ∧
      d.moduleName options.moduleName = .ok name ∧
      code.toList = lineChars ((d.moduleOf name).openingLines options.comments) ++ body ++
        lineChars ((d.moduleOf name).closingLines options.tests) ∧
      itemsIn (lines body) =
        (d.ofKind (.text "object")).map (fun c => .object c.name.display (d.fieldsOf c)) ++
          (d.ofKind (.text "resource")).map (fun r => .resource r.name.display) ++
          (d.ofKind (.text "object")).map (fun c =>
            .constructor c.name.display (lower c.name.display) (d.fieldsOf c)) ∧
      ∀ c ∈ d.ofKind (.text "object"), ∀ f ∈ d.fieldsOf c,
        .resource f.type ∈ itemsIn (lines body) := by
  obtain ⟨name, hmodule⟩ := exists_moduleName_iff.mpr hname
  have hitems := items_moduleOf hfunctions name
  have hentry : ∀ i ∈ (d.moduleOf name).items, i.isEntry = false := by
    rw [hitems]
    refine List.forall_mem_append.mpr ⟨List.forall_mem_append.mpr ⟨?_, ?_⟩, ?_⟩
    all_goals exact List.forall_mem_map.mpr fun _ _ => rfl
  have hread := itemsIn_itemChars (fun i hi => ⟨h.wellNamed_items name i hi, hentry i hi⟩)
    options.comments
  rw [hitems] at hread
  refine ⟨_, _, name, h.textNamed.moveCode hmodule, hmodule, toList_text_eq_append _ _ _, hread, ?_⟩
  intro c _ f hf
  obtain ⟨r, hr, htype⟩ := exists_resource_of_mem_fieldsOf hf
  rw [hread, ← htype]
  exact List.mem_append_left _ (List.mem_append_right _ (List.mem_map_of_mem hr))

def vaultOfCoins (description : String) : Design where
  name := .text "Bank"
  description := .text description
  components := [
    ⟨.text "a", .text "object", .text "Vault", .null, .null,
      [.text "c", .text "x", .text "a", .text "b", .text "c"], []⟩,
    ⟨.text "b", .text "resource", .text "Gold", .null, .null, [], []⟩,
    ⟨.text "c", .text "resource", .text "Coin", .null, .null, [.text "a"], []⟩,
    ⟨.text "c", .text "resource", .text "Other", .null, .null, [], []⟩]

theorem wordNamed_vaultOfCoins (description : String) : (vaultOfCoins description).WordNamed := by
  intro c hc
  simp only [vaultOfCoins, List.mem_cons, List.not_mem_nil, or_false] at hc
  rcases hc with rfl | rfl | rfl | rfl <;> exact ⟨_, rfl, by decide⟩

/-- A description that goes on with a struct does not stand among the items. -/
theorem itemsIn_moveCode_vaultOfCoins :
    let d := vaultOfCoins "coins\n    public struct Coin has key \x7b"
    d.WordNamed ∧ d.ofKind (.text "function") = [] ∧
      (d.name.IsText ∨ ∃ name, some "a b" = some name ∧ name ≠ "") ∧
      ∃ code body name, d.moveCode ⟨some "a b", true, true⟩ = .ok code ∧
        code.toList = lineChars ((d.moduleOf name).openingLines true) ++ body ++
          lineChars ((d.moduleOf name).closingLines true) ∧
        itemsIn (lines body) =
          [.object "Vault" [⟨"coin", "Coin"⟩, ⟨"gold", "Gold"⟩, ⟨"coin", "Coin"⟩],
            .resource "Gold", .resource "Coin", .resource "Other",
            .constructor "Vault" "vault"
              [⟨"coin", "Coin"⟩, ⟨"gold", "Gold"⟩, ⟨"coin", "Coin"⟩]] := by
  intro d
  have hword : d.WordNamed := wordNamed_vaultOfCoins _
  have hname : d.name.IsText ∨ ∃ name, some "a b" = some name ∧ name ≠ "" := .inl ⟨_, rfl⟩
  obtain ⟨code, body, name, hcode, -, htext, hitems, -⟩ :=
    hword.itemsIn_moveCode (by decide +kernel) ⟨some "a b", true, true⟩ hname
  refine ⟨hword, by decide +kernel, hname, code, body, name, hcode, htext, hitems.trans ?_⟩
  decide +kernel

end Design

end MoveWorkbench
