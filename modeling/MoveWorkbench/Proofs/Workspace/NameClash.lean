import MoveWorkbench.Proofs.Design.NameClash
import MoveWorkbench.Proofs.Workspace.Links
import MoveWorkbench.Proofs.Workspace.Removal

/-!
Clashes in the code of stored designs. When a validation finds no problems, the structs in the code
have different names. Functions and fields may still clash, since a validation compares the names
of components as they are and the code has them in lower case.
-/

namespace MoveWorkbench.Workspace

open Json

variable {w : Workspace} {a : Atom} {r : StoredDesign} {options : CodeOptions}

theorem moveCode_of_textNamed (hr : w.design? a = some r) (htext : r.design.TextNamed)
    {name : String} (hname : r.design.moduleName options.moduleName = .ok name) :
    w.moveCode a options = .ok ((r.design.moduleOf name).text options.comments options.tests) := by
  unfold Workspace.moveCode render
  rw [hr]
  dsimp only
  rw [htext.moveCode hname]
  rfl

/-- The code of a stored design in which a validation finds no problems, with names that are all
text, has different structs. It has no clashes of functions or fields, either, just where the names
that these are made from still differ in lower case. -/
theorem Reached.clashFree_moveCode_iff {allowed : Call → Prop} (h : Reached allowed w)
    (hr : w.design? a = some r) (hvalid : w.validate a = .ok []) (htext : r.design.TextNamed)
    (hname : r.design.name.IsText ∨ ∃ name, options.moduleName = some name ∧ name ≠ "") :
    ∃ m, r.design.moveModule options.moduleName = .ok m ∧
      w.moveCode a options = .ok (m.text options.comments options.tests) ∧
      m.structNames.Nodup ∧ (m.ClashFree ↔ r.design.KeptApart) := by
  have hsound : r.design.Sound := by
    obtain ⟨r', hr', hsound⟩ := validate_eq_nil_iff.mp hvalid
    rw [hr] at hr'
    injection hr' with hr'
    exact hr' ▸ hsound
  have honce : ∀ c ∈ r.design.components,
      c.connections.Pairwise fun v v' => v.agrees v' = false := by
    obtain ⟨l, hl, -⟩ := Ordered.exists_mem_of_get? hr
    exact distinctRule.reached (fun c _ => c.connects_any) h _ hl
  obtain ⟨name, hmodule⟩ := Design.exists_moduleName_iff.mpr hname
  exact ⟨r.design.moduleOf name, htext.moveModule hmodule, moveCode_of_textNamed hr htext hmodule,
    hsound.nodup_structNames htext name, hsound.clashFree_iff htext honce name⟩

def bankDocument (kind name : String) : String :=
  "\x7b\"name\": \"Bank\", \"components\": [" ++
    "\x7b\"id\": \"a\", \"kind\": \"object\", \"name\": \"Vault\", \"connections\": [\"b\"]\x7d, " ++
    "\x7b\"id\": \"b\", \"kind\": \"" ++ kind ++ "\", \"name\": \"" ++ name ++ "\"\x7d]\x7d"

def bankWith (kind name : String) : Workspace :=
  ((fresh 0).perform (.importDesign (.text (bankDocument kind name)))).2

theorem reached_bankWith (kind name : String) : Reached Call.WellTyped (bankWith kind name) :=
  .call (.fresh ⟨0, by decide⟩) ⟨_, rfl⟩

/-- The names in a document are text. -/
theorem textNamed_bankWith {kind name : String} (hr : (bankWith kind name).design? a = some r) :
    r.design.TextNamed := by
  obtain ⟨l, hl, -⟩ := Ordered.exists_mem_of_get? hr
  have hexportable := (reached_bankWith kind name).forall_designs (fun _ hc => hc.preserves) _ hl
  exact fun c hc => (hexportable.components c hc).name

/-- A vault for coins has no clashes in its code. -/
theorem clashFree_moveCode_coin : ∃ (r : StoredDesign) (m : MoveModule),
    (bankWith "resource" "Coin").design? (.text "design-0-000000000") = some r ∧
      (bankWith "resource" "Coin").moveCode (.text "design-0-000000000") .default =
        .ok (m.text true false) ∧ m.ClashFree := by
  have htest : ((bankWith "resource" "Coin").design? (.text "design-0-000000000")).any (fun r =>
      r.design.passesFlat && FieldType.text.admits r.design.name && r.design.KeptApart) = true := by
    decide +kernel
  obtain ⟨r, hr, hparts⟩ := (Option.any_eq_true _ _).mp htest
  simp only [Bool.and_eq_true, decide_eq_true_eq] at hparts
  obtain ⟨⟨hpasses, hname⟩, hapart⟩ := hparts
  have hvalid := validate_eq_nil_iff.mpr ⟨r, hr, Design.sound_of_passesFlat hpasses⟩
  have hname : r.design.name.IsText ∨
      ∃ name, CodeOptions.default.moduleName = some name ∧ name ≠ "" :=
    .inl (FieldType.isText_of_admits hname)
  obtain ⟨m, -, hcode, -, hfree⟩ := (reached_bankWith "resource" "Coin").clashFree_moveCode_iff
    hr hvalid (textNamed_bankWith hr) hname
  exact ⟨r, m, hr, hcode, hfree.mpr hapart⟩

/-- Two vaults whose names differ in case are valid, and their code has one function twice. -/
theorem clash_moveCode_vaults : ∃ (r : StoredDesign) (m : MoveModule),
    Reached Call.WellTyped (bankWith "object" "vault") ∧
      (bankWith "object" "vault").design? (.text "design-0-000000000") = some r ∧
      (bankWith "object" "vault").validate (.text "design-0-000000000") = .ok [] ∧
      Design.namesOf r.design.components = ["Vault", "vault"] ∧
      (bankWith "object" "vault").moveCode (.text "design-0-000000000") .default =
        .ok (m.text true false) ∧
      m.functionNames false = ["create_vault", "create_vault"] := by
  have htest : ((bankWith "object" "vault").design? (.text "design-0-000000000")).any (fun r =>
      r.design.passesFlat && FieldType.text.admits r.design.name &&
        decide (Design.namesOf r.design.components = ["Vault", "vault"]) &&
        decide (r.design.functionNames = ["create_vault", "create_vault"])) = true := by
    decide +kernel
  obtain ⟨r, hr, hparts⟩ := (Option.any_eq_true _ _).mp htest
  simp only [Bool.and_eq_true, decide_eq_true_eq] at hparts
  obtain ⟨⟨⟨hpasses, hname⟩, hnames⟩, hfunctions⟩ := hparts
  have hvalid := validate_eq_nil_iff.mpr ⟨r, hr, Design.sound_of_passesFlat hpasses⟩
  obtain ⟨name, hmodule⟩ : ∃ name, r.design.moduleName CodeOptions.default.moduleName = .ok name :=
    Design.exists_moduleName_iff.mpr (.inl (FieldType.isText_of_admits hname))
  refine ⟨r, r.design.moduleOf name, reached_bankWith _ _, hr, hvalid, hnames,
    moveCode_of_textNamed hr (textNamed_bankWith hr) hmodule, ?_⟩
  rw [Design.functionNames_moduleOf, hfunctions]
  rfl

end MoveWorkbench.Workspace
