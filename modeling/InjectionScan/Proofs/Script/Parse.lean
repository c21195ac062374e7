import InjectionScan.Proofs.Script.Rules
import InjectionScan.Script.Program

/-! The tree of every text nests, be the text broken or not. -/
namespace InjectionScan.Script

open InjectionScan.Syntax InjectionScan.Syntax.Node InjectionScan.Script.Parser

-- an instance for a rule is as large as the rule
set_option synthInstance.maxSize 100000

variable {c : Cursor} {g : Grammar} [∀ goal d, Keeps d (g goal)] {ctx : Context} {base : Nat}

/-! ### Statements -/

instance declarator_keeps : Keeps c (declarator g ctx) := by
  unfold declarator
  infer_instance

instance declaration_keeps (word : String) : Keeps c (declaration g word ctx) := by
  unfold declaration
  infer_instance

instance letDeclares_keeps (ends : Bool) : Keeps c (letDeclares ends) := by
  unfold letDeclares
  infer_instance

instance asyncDeclares_keeps : Keeps c asyncDeclares := by
  unfold asyncDeclares
  infer_instance

instance keywordDeclares_keeps (word : String) : Keeps c (keywordDeclares word) := by
  unfold keywordDeclares
  infer_instance

instance classDeclaration_keeps : Keeps c (classDeclaration g base) := by
  unfold classDeclaration
  infer_instance

instance condition_keeps : Keeps c (condition g) := by
  unfold condition
  infer_instance

instance ifStatement_keeps : Keeps c (ifStatement g) := by
  unfold ifStatement
  infer_instance

instance eachHead_keeps : Keeps c (eachHead g) := by
  unfold eachHead
  refine .after fun _ _ => .after fun base _ => .atCursor ?_
  dsimp only
  refine .after fun declares _ => ?_
  split
  · infer_instance
  · refine .after fun _ _ => KeepsWhere.atNode inferInstance fun n => ?_
    dsimp only
    split
    · next p hp =>
      exact (KeepsWhere.replaceAt (replaces_of_target hp)).andThen fun _ _ => inferInstance
    · exact .of_keeps fun _ => inferInstance

instance countingHead_part_keeps : Keeps c (countingHead.part g) := by
  unfold countingHead.part
  infer_instance

instance countingHead_keeps : Keeps c (countingHead g) := by
  unfold countingHead
  infer_instance

instance forStatement_keeps : Keeps c (forStatement g) := by
  unfold forStatement
  infer_instance

instance whileStatement_keeps : Keeps c (whileStatement g) := by
  unfold whileStatement
  infer_instance

instance doStatement_keeps : Keeps c (doStatement g) := by
  unfold doStatement
  infer_instance

instance catchClause_keeps : Keeps c (catchClause g) := by
  unfold catchClause
  infer_instance

instance tryStatement_keeps : Keeps c (tryStatement g) := by
  unfold tryStatement
  infer_instance

instance caseCloses_keeps : Keeps c caseCloses := by
  unfold caseCloses
  infer_instance

instance switchStatement_keeps : Keeps c (switchStatement g) := by
  unfold switchStatement
  infer_instance

instance withStatement_keeps : Keeps c (withStatement g) := by
  unfold withStatement
  infer_instance

instance jump_keeps (word : String) (r : Rule) : Keeps c (jump word r) := by
  unfold jump
  infer_instance

instance returnStatement_keeps : Keeps c (returnStatement g) := by
  unfold returnStatement
  infer_instance

instance throwStatement_keeps : Keeps c (throwStatement g) := by
  unfold throwStatement
  infer_instance

/-! ### Imports and exports -/

instance exchangedName_keeps : Keeps c exchangedName := by
  unfold exchangedName
  infer_instance

instance exchangedNames_keeps (list item : Rule) : Keeps c (exchangedNames list item) := by
  unfold exchangedNames
  infer_instance

instance fromClause_keeps : Keeps c fromClause := by
  unfold fromClause
  infer_instance

instance wholeModule_keeps (r : Rule) : Keeps c (wholeModule r) := by
  unfold wholeModule
  infer_instance

instance importedNames_keeps : Keeps c importedNames := by
  unfold importedNames
  refine .after fun mark _ => ?_
  split <;> infer_instance

instance importStatement_keeps : Keeps c (importStatement g) := by
  unfold importStatement
  refine .after fun base _ => .after fun _ _ => .after fun _ _ => .atCursor ?_
  dsimp only
  split
  · infer_instance
  · infer_instance
  · refine .after fun clause _ => .after fun mark _ => ?_
    split <;> infer_instance

instance exportedDeclaration?_keeps : Keeps c (exportedDeclaration? g) := by
  unfold exportedDeclaration?
  refine .after fun base _ => .after fun mark _ => ?_
  split
  · infer_instance
  · refine .after fun word _ => ?_
    split <;> infer_instance

instance exportFrom_keeps : Keeps c (exportFrom g base) := by
  unfold exportFrom
  refine .after fun _ _ => .after fun mark _ => ?_
  dsimp only
  split <;> infer_instance

/-! ### Programs -/

instance expressionStatement_keeps : Keeps c (expressionStatement g) := by
  unfold expressionStatement
  infer_instance

instance labeledStatement_keeps : Keeps c (labeledStatement g) := by
  unfold labeledStatement
  infer_instance

instance wordStatement_keeps : Keeps c (wordStatement g) := by
  unfold wordStatement
  infer_instance

instance statementOf_keeps (word : String) : Keeps c (statementOf g base word) := by
  unfold statementOf
  split <;> infer_instance

instance braced_keeps : Keeps c (braced g) := by
  unfold braced
  infer_instance

instance statement_keeps : Keeps c (statement g) := by
  unfold statement
  refine .after fun base _ => .after fun mark _ => ?_
  split
  · infer_instance
  · infer_instance
  · infer_instance
  · refine .atCursor ?_
    split <;> infer_instance

/-- The grammar keeps the stack sound, however deeply constructs may be nested. -/
instance grammar_keeps (depth : Nat) (goal : Goal) (d : Cursor) : Keeps d (grammar depth goal) := by
  induction depth generalizing goal d with
  | zero => exact (inferInstance : Keeps d fail)
  | succ depth ih =>
    cases goal with
    | expression least ctx => exact (inferInstance : Keeps d (expression (grammar depth) least ctx))
    | operand ctx => exact (inferInstance : Keeps d (operand (grammar depth) ctx))
    | construct ctx => exact (inferInstance : Keeps d (construct (grammar depth) ctx))
    | object => exact (inferInstance : Keeps d (objectLiteral (grammar depth)))
    | array => exact (inferInstance : Keeps d (arrayLiteral (grammar depth)))
    | element => exact (inferInstance : Keeps d (element (grammar depth)))
    | statement => exact (inferInstance : Keeps d (statement (grammar depth)))

instance program_keeps (depth : Nat) : Keeps c (program depth) := by
  unfold program
  refine .after fun _ c => .atCursor ?_
  dsimp only
  split
  · next body hbody =>
    have hline := (Cursor.lit?_leads _ c body hbody).trans (Cursor.skipWhile_reaches (· != '\n') body)
    exact .afterLeaf hline
  · infer_instance

/-! ### Whole texts -/

theorem sound_ofText (text : String) : (State.ofText text).Sound text.utf8ByteSize where
  height_eq := rfl
  end_eq := by
    rw [Text.utf8ByteSize_eq]
    exact Nat.zero_add _
  row := Nat.le_refl 0

/-- All finished nodes stand in a row up to the end of the text. -/
theorem State.Sound.row_to_end {s : State} {size : Nat} (hs : s.Sound size) :
    Row 0 s.nodes.reverse size :=
  hs.row.mono (Nat.le_refl _) (hs.end_eq ▸ Nat.le_add_right _ _)

theorem nested_root {s : State} {size : Nat} (hs : s.Sound size) : (root s size).Nested := by
  have hrow := hs.row_to_end
  unfold root
  dsimp only
  cases hparts : s.nodes.reverse with
  | nil => exact nested_iff_row.2 (Nat.le_refl size)
  | cons first rest =>
    rw [hparts] at hrow
    exact nested_iff_row.2 ⟨Nat.le_refl _, hrow.2⟩

/-- The tree of every text nests, also that of a text with faults. -/
theorem parse_nested (text : String) : (parse text).Nested := by
  have hstart := sound_ofText text
  have hfirst := (program_keeps (goalsPerCharacter * (text.length + 1))).sound hstart rfl
  have hsecond := (program_keeps (goalsPerCharacter * (text.length + 1))).sound
    (s := { State.ofText text with repairing := true }) ⟨hstart.1, hstart.2, hstart.3⟩ rfl
  refine (markDefaults_replaces _).nested ?_
  cases hrun : program (goalsPerCharacter * (text.length + 1)) (State.ofText text) with
  | done a s =>
    rw [hrun] at hfirst
    exact nested_root hfirst
  | stuck s =>
    cases hrepair : program (goalsPerCharacter * (text.length + 1))
        { State.ofText text with repairing := true } with
    | done a s =>
      rw [hrepair] at hsecond
      exact nested_root hsecond
    | stuck s =>
      rw [hrepair] at hsecond
      exact nested_iff_row.2 hsecond.row_to_end

end InjectionScan.Script
