import InjectionScan.Proofs.Script.Pattern
import InjectionScan.Proofs.Script.Stack
import InjectionScan.Script.Expression
import InjectionScan.Script.Markup

/-! The rules keep the stack sound if the constructs nested in them do. -/
namespace InjectionScan.Script

open InjectionScan.Syntax InjectionScan.Syntax.Node InjectionScan.Script.Parser

-- an instance for a rule is as large as the rule
set_option synthInstance.maxSize 100000

variable {c : Cursor} {g : Grammar} [∀ goal d, Keeps d (g goal)] {ctx : Context} {base : Nat}

/-! ### Between constructs -/

instance ended_keeps : Keeps c (ended ctx) := by
  unfold ended
  infer_instance

instance comesNext_keeps (text : String) : Keeps c (comesNext text) := by
  unfold comesNext
  infer_instance

instance wordComesNext_keeps (text : String) : Keeps c (wordComesNext text) := by
  unfold wordComesNext
  infer_instance

instance comma_keeps : Keeps c (sequence.comma g ctx) := by
  unfold sequence.comma
  infer_instance

instance sequence_keeps : Keeps c (sequence g ctx) := by
  unfold sequence
  infer_instance

instance listUpTo_keeps (closing : String) {part : Parser Unit} [∀ d, Keeps d part] :
    Keeps c (listUpTo closing part) := by
  unfold listUpTo
  infer_instance

instance semicolon_keeps (comments : Bool) : Keeps c (semicolon comments) := by
  unfold semicolon
  infer_instance

/-- What is assigned to stands where it stood, also as a pattern. -/
theorem replaces_of_target {b : Bool} {n p : Node} (h : (if b then some n else pattern? n) = some p) :
    p.Replaces n := by
  split at h
  · cases h
    exact .refl n
  · exact (converts n).1 p h

instance asPattern_keeps : Keeps c (asPattern base) := by
  unfold asPattern
  refine KeepsWhere.atNode (inferInstance : Keeps c fail) fun n => ?_
  rw [Option.bind_some]
  split
  · next p hp => exact .replaceAt ((converts n).1 p hp)
  · exact .of_keeps fun _ => inferInstance

instance target_keeps : Keeps c (target g) := by
  unfold target
  refine .after fun base _ => .after fun mark _ => ?_
  split <;> infer_instance

/-! ### Literals -/

instance stringLiteral_keeps (quote : Char) : Keeps c (stringLiteral quote) := by
  unfold stringLiteral
  refine .after fun _ _ => .after fun _ _ =>
    .andThen (.repeated fun c => .atCursor ?_) fun _ _ => inferInstance
  dsimp only
  split
  · exact .afterLeaf (c.skipWhile_reaches _)
  · split
    · next stop hstop =>
      exact .afterLeaf (c.escape?_leads stop hstop)
    · infer_instance

instance anyString_keeps : Keeps c anyString := by
  unfold anyString
  refine .after fun _ c => .atCursor ?_
  split <;> infer_instance

instance numberLiteral_keeps : Keeps c numberLiteral := by
  unfold numberLiteral
  refine .atCursor ?_
  split
  · next stop hstop => exact .leaf (c.number?_leads stop hstop)
  · infer_instance

instance template_keeps : Keeps c (template g) := by
  unfold template
  refine .after fun _ _ => .after fun _ _ =>
    .andThen (.repeated fun c => .atCursor ?_) fun _ _ => inferInstance
  dsimp only
  split
  · exact .afterLeaf c.templateChars_reaches
  · split
    · next stop hstop =>
      exact .afterLeaf (c.escape?_leads stop hstop)
    · infer_instance

instance regexLiteral_keeps : Keeps c regexLiteral := by
  unfold regexLiteral
  refine .after fun _ _ => .after fun _ c => .atCursor ?_
  dsimp only
  split
  · next stop hstop =>
    refine .andThen (.leaf (c.regexPattern?_leads stop hstop)) fun _ _ => .after fun _ c => .atCursor ?_
    split
    · exact .afterLeaf (c.skipWhile_reaches _)
    · infer_instance
  · infer_instance

instance spreadable_keeps : Keeps c (spreadable g) := by
  unfold spreadable
  infer_instance

instance argumentList_keeps : Keeps c (argumentList g) := by
  unfold argumentList
  infer_instance

instance arrayLiteral_keeps : Keeps c (arrayLiteral g) := by
  unfold arrayLiteral
  infer_instance

/-! ### Blocks and functions -/

instance anyToken_keeps : Keeps c anyToken := by
  unfold anyToken
  refine .atCursor ?_
  split
  · next stop hstop => exact .leaf (c.name?_leads stop hstop)
  · split
    · next stop hstop => exact .leaf (c.number?_leads stop hstop)
    · refine .orElse inferInstance ?_
      split
      · infer_instance
      · split
        · next hnext => exact .leaf (Cursor.next?_reaches hnext)
        · infer_instance

instance keepBroken_keeps {closed : Parser Bool} [∀ d, Keeps d closed] :
    Keeps c (keepBroken g closed base) := by
  unfold keepBroken
  infer_instance

instance statementOrError_keeps {closed : Parser Bool} [∀ d, Keeps d closed] :
    Keeps c (statementOrError g closed) := by
  unfold statementOrError
  refine .after fun repairing _ => ?_
  split
  · refine .after fun base d => ⟨fun size s hs hd => ?_⟩
    have hstrict := (inferInstance : Keeps d (strictly (g .statement))).sound hs hd
    have hloose := (inferInstance : Keeps d (g .statement)).sound hs hd
    cases h : strictly (g .statement) s with
    | done a t =>
      rw [h] at hstrict
      exact hstrict
    | stuck t =>
      cases h' : g .statement s with
      | done a t =>
        rw [h'] at hloose
        exact hloose
      | stuck t =>
        -- the parts of the broken statement are still on the stack when it is kept as an error
        rw [h'] at hloose
        exact (keepBroken_keeps (c := t.cursor)).sound hloose rfl
  · infer_instance

instance statements_keeps {closed : Parser Bool} [∀ d, Keeps d closed] :
    Keeps c (statements g closed) := by
  unfold statements
  infer_instance

instance blockCloses_keeps : Keeps c blockCloses := by
  unfold blockCloses
  infer_instance

instance block_keeps : Keeps c (block g) := by
  unfold block
  infer_instance

instance bound_keeps : Keeps c (parameter.bound g) := by
  unfold parameter.bound
  infer_instance

instance parameter_keeps : Keeps c (parameter g) := by
  unfold parameter
  infer_instance

instance parameters_keeps : Keeps c (parameters g) := by
  unfold parameters
  infer_instance

instance functionFrom_keeps (declared : Bool) : Keeps c (functionFrom g base declared) := by
  unfold functionFrom
  infer_instance

instance namedFirst_keeps : Keeps c namedFirst := by
  unfold namedFirst
  infer_instance

instance arrowFrom_keeps : Keeps c (arrowFrom g ctx base) := by
  unfold arrowFrom
  infer_instance

/-! ### Properties, methods and classes -/

instance propertyName_keeps : Keeps c (propertyName g) := by
  unfold propertyName
  refine .after fun _ c => .atCursor ?_
  split
  · infer_instance
  · split
    · next stop hstop => exact .leaf (c.privateName?_leads stop hstop)
    · infer_instance
  · infer_instance

instance modifier?_keeps (word : String) (ends : Bool) : Keeps c (modifier? word ends) := by
  unfold modifier?
  infer_instance

instance modifiers_keeps (ends : Bool) : Keeps c (modifiers ends) := by
  unfold modifiers
  infer_instance

instance methodFrom_keeps : Keeps c (methodFrom g base) := by
  unfold methodFrom
  infer_instance

instance shorthand_keeps (r : Rule) : Keeps c (property.shorthand base r) := by
  unfold property.shorthand
  refine .after fun n _ => ?_
  split <;> infer_instance

instance property_keeps : Keeps c (property g) := by
  unfold property
  refine .after fun _ _ => .after fun spread _ => ?_
  split
  · infer_instance
  · refine .after fun _ _ => .after fun _ _ => .after fun _ _ => .after fun _ _ => .after fun mark _ => ?_
    split <;> infer_instance

instance objectLiteral_keeps : Keeps c (objectLiteral g) := by
  unfold objectLiteral
  infer_instance

instance decorator_keeps : Keeps c (decorator g) := by
  unfold decorator
  infer_instance

instance decorators_keeps : Keeps c (decorators g) := by
  unfold decorators
  infer_instance

instance lineOfModifiers?_keeps : Keeps c lineOfModifiers? := by
  unfold lineOfModifiers?
  refine .atCursor ?_
  dsimp only
  split
  · next stop hstop =>
    have hline : c.Leads (do
        let c ← c.lit? "static"
        let c ← (← c.one? isSpace).skipWhile isSpace |>.lit? "get"
        (c.skipWhile fun x => isSpace x && x != '\n').lit? "\n") :=
      (c.lit?_leads _).bind fun c => (c.one?_leads _).bind fun c => (c.skipWhile_reaches _).leads
        ((Cursor.lit?_leads _ _).bind fun c => (c.skipWhile_reaches _).leads (Cursor.lit?_leads _ _))
    exact .afterLeaf (hline stop hstop)
  · infer_instance

instance classMember_keeps : Keeps c (classMember g) := by
  unfold classMember
  refine .after fun _ _ => .after fun _ _ => .after fun isBlock _ => ?_
  split
  · infer_instance
  · refine .after fun _ _ => .after fun lined _ => ?_
    split
    -- without modifiers on a line of their own there may be some before the name
    on_goal 2 => refine .after fun _ _ => ?_
    all_goals
      refine .after fun _ _ => .after fun finished _ => ?_
      split
      · infer_instance
      · refine .after fun mark _ => ?_
        split <;> infer_instance

instance classBody_keeps : Keeps c (classBody g) := by
  unfold classBody
  refine .after fun _ _ => .after fun _ _ => .andThen (.repeated fun _ => ?_) fun _ _ => inferInstance
  refine .after fun _ _ => .after fun mark _ => ?_
  split <;> infer_instance

instance classFrom_keeps (declared : Bool) : Keeps c (classFrom g base declared) := by
  unfold classFrom
  infer_instance

/-! ### Atoms -/

/-- The parts of a parenthesis without the comments at both ends get one node of their own. -/
theorem row_groupParts {low high : Nat} {parts : List Node} (h : Row low parts high) :
    Row low (groupParts parts) high := by
  unfold groupParts
  obtain ⟨inner, hinner⟩ : ∃ inner, parts.dropWhile isComment = inner := ⟨_, rfl⟩
  have hparts : parts.takeWhile isComment ++ ((inner.reverse.dropWhile isComment).reverse ++
      (inner.reverse.takeWhile isComment).reverse) = parts := by
    rw [← List.reverse_append, List.takeWhile_append_dropWhile, List.reverse_reverse, ← hinner,
      List.takeWhile_append_dropWhile]
  dsimp only
  rw [hinner]
  split
  · next first last hfirst hlast =>
    rw [← hparts] at h
    obtain ⟨before, hleading, h⟩ := Row.append_iff.1 h
    obtain ⟨behind, hbody, htrailing⟩ := Row.append_iff.1 h
    obtain ⟨hrow, hlow, hhigh⟩ := hbody.shrink hfirst hlast
    have hnode : (Node.node (.rule .sequenceExpression) none first.start last.stop
        (inner.reverse.dropWhile isComment).reverse).Nested := nested_iff_row.2 hrow
    exact hleading.append ⟨hlow, hnode, htrailing.mono hhigh (Nat.le_refl _)⟩
  · exact h

/-- Parameters made from the parts of a parenthesis take their place. -/
theorem row_parameters {low high : Nat} {parts patterns : List Node}
    (h : List.Forall₂ Replaces patterns parts) (hrow : Row low parts high) :
    Row low [.node (.rule .formalParameters) none ((parts.head?.map Node.start).getD high) high
      patterns] high := by
  cases parts with
  | nil =>
    cases h
    exact ⟨hrow, nested_iff_row.2 (Nat.le_refl high), Nat.le_refl high⟩
  | cons first rest =>
    have hpatterns : Row first.start patterns high := Row.replace h ⟨Nat.le_refl _, hrow.2⟩
    exact ⟨hrow.1, nested_iff_row.2 hpatterns, Nat.le_refl high⟩

theorem eq_of_comesNext {text : String} {s t : State} {b : Bool} (h : comesNext text s = .done b t) :
    t = s := by
  obtain ⟨o, u, hlook, hdone⟩ := exists_of_bind_eq_done h
  obtain rfl := eq_of_lookAhead hlook
  cases hdone
  rfl

/-- A look ahead changes nothing, so what is known stays so. -/
theorem KeepsWhere.afterComesNext {P : State → Prop} {β : Type} {text : String} {f : Bool → Parser β}
    (hf : ∀ b, KeepsWhere P (f b)) : KeepsWhere P (comesNext text >>= f) :=
  .bind (.of_keeps fun _ => inferInstance) (fun _ hP h => eq_of_comesNext h ▸ hP) hf

instance importAtom_keeps : Keeps c (importAtom base) := by
  unfold importAtom
  infer_instance

instance nameOrArrow_keeps : Keeps c (nameOrArrow g ctx base) := by
  unfold nameOrArrow
  infer_instance

instance parenthesis_keeps : Keeps c (parenthesis g ctx base) := by
  unfold parenthesis
  refine .after fun _ _ => .after fun inner _ => .after fun _ _ =>
    .andThen (.of_state_eq fun _ => rfl) fun listed d => ⟨?_⟩
  refine .bind (Q := State.Solid) (exactly_keeps ")").sound (fun _ _ h => solid_of_exactly h) fun _ => ?_
  refine .afterComesNext fun arrow => ?_
  split
  -- before an arrow the parts are parameters; the closing parenthesis on top keeps comments below it
  · refine .afterTake fun {size low parts s} hs => ?_
    cases hpatterns : elementPatterns? parts with
    | none => exact hs.sound
    | some patterns =>
      have hrow := row_parameters ((convertsAll parts).1 patterns hpatterns) hs.parts_row
      exact (arrowFrom_keeps (g := g)).sound (hs.sound_insertAt hrow) rfl
  · refine .of_keeps fun _ => .after fun _ _ => .after fun _ _ => ?_
    split
    · refine closeWith_keeps fun {low high parts} hrow => ?_
      split
      · next opening tail =>
        obtain ⟨hlow, hopening, hrest⟩ := hrow
        refine ⟨hlow, hopening, ?_⟩
        rw [← List.take_append_drop (tail.length - 1) tail, Row.append_iff] at hrest
        obtain ⟨mid, hinner, hclosing⟩ := hrest
        rw [List.dropLast_eq_take]
        exact (row_groupParts hinner).append hclosing
      · exact hrow
    · infer_instance

theorem solid_of_argumentList {size : Nat} {s t : State} {a : Unit} (hs : s.Sound size)
    (h : argumentList g s = .done a t) : t.Solid := by
  unfold argumentList at h
  obtain ⟨base, u, hstart, h⟩ := exists_of_bind_eq_done h
  obtain ⟨_, v, hopen, h⟩ := exists_of_bind_eq_done h
  obtain ⟨_, w, hlist, h⟩ := exists_of_bind_eq_done h
  have hv : v.Sound size := Keeps.sound_of_done (Keeps.sound_of_done hs hstart) hopen
  have hw : w.Sound size := Keeps.sound_of_done hv hlist
  unfold listUpTo at hlist
  obtain ⟨_, x, _, hclosing⟩ := exists_of_bind_eq_done hlist
  exact solid_of_closeWith hw (solid_of_exactly hclosing) rfl h

/-- Nodes put on the stack one after the other. -/
theorem forIn_push_eq (ns : List Node) (s : State) :
    (forIn ns PUnit.unit fun n _ => do
      push n
      pure (ForInStep.yield PUnit.unit) : Parser PUnit) s =
      .done PUnit.unit { s with nodes := ns.reverse ++ s.nodes, height := s.height + ns.length } := by
  induction ns generalizing s with
  | nil => rfl
  | cons n ns ih =>
    have hpush : (do
        push n
        pure (ForInStep.yield PUnit.unit) : Parser (ForInStep PUnit)) s =
        .done (.yield PUnit.unit) { s with nodes := n :: s.nodes, height := s.height + 1 } := rfl
    rw [List.forIn_cons]
    refine (bind_eq_of_done hpush).trans ((ih _).trans ?_)
    rw [List.reverse_cons, List.append_assoc, List.length_cons, Nat.add_right_comm, Nat.add_assoc]
    rfl

/-- The word, what stands after it and the parameters made from the last list of arguments take the
places of the nodes that they are made from. -/
theorem row_asyncParameters {low high : Nat} {word list : Node} {between patterns : List Node}
    (hlast : between.getLast? = some list) (h : List.Forall₂ Replaces patterns list.children)
    (hrow : Row low (word :: between) high) :
    Row low ((word.withKind (.token "async") :: between.dropLast) ++
      [.node (.rule .formalParameters) none list.start list.stop patterns]) high := by
  have hlist : (Node.node (.rule .formalParameters) none list.start list.stop patterns).Replaces list :=
    replaces_of_children rfl rfl (Row.replace h)
  have hbetween : between.dropLast ++ [list] = between := List.dropLast_append_getLast? list hlast
  refine Row.replace (.cons (withKind_replaces _ word) ?_) hrow
  conv =>
    rhs
    rw [← hbetween]
  exact List.rel_append (List.forall₂_same.2 fun n _ => .refl n) (.cons hlist .nil)

instance asyncAtom_keeps : Keeps c (asyncAtom g ctx base) := by
  unfold asyncAtom
  refine .after fun shape d => ?_
  split
  · infer_instance
  · refine .after fun _ d => ⟨?_⟩
    refine .bind (Q := State.Solid) (argumentList_keeps).sound
      (fun hs _ h => solid_of_argumentList hs h) fun _ => ?_
    refine .afterComesNext fun arrow => ?_
    split
    -- what was read as a call turns out to be the head of an arrow function
    · refine .afterTake fun {size low parts s} hs => ?_
      cases parts with
      | nil => exact hs.sound
      | cons word between =>
        dsimp only
        cases hlast : between.getLast? with
        | none => exact hs.sound
        | some list =>
          rw [Option.map_some, Option.bind_some]
          cases hpatterns : elementPatterns? list.children with
          | none => exact hs.sound
          | some patterns =>
            have hrow := row_asyncParameters hlast ((convertsAll list.children).1 patterns hpatterns)
              hs.parts_row
            have hput := hs.sound_put hrow
            rw [List.reverse_append, List.length_append, ← Nat.add_assoc] at hput
            dsimp only
            rw [bind_eq_of_done (forIn_push_eq _ _)]
            exact (arrowFrom_keeps (g := g)).sound hput rfl
    · exact .of_keeps fun _ => inferInstance
  · infer_instance
  · infer_instance

instance atom_keeps : Keeps c (atom g ctx base) := by
  unfold atom
  refine .atCursor ?_
  split
  · next stop hstop =>
    have hleaf (k : Kind) : Keeps c (leaf k stop) := .leaf (c.name?_leads stop hstop)
    split <;> infer_instance
  · split <;> infer_instance

/-! ### Members, calls and assignments -/

instance memberName_keeps : Keeps c memberName := by
  unfold memberName
  refine .after fun _ c => .atCursor ?_
  split
  · next stop hstop => exact .leaf (c.privateName?_leads stop hstop)
  · infer_instance

instance closeMember_keeps : Keeps c (closeMember base) := by
  unfold closeMember
  infer_instance

instance closeCall_keeps : Keeps c (closeCall base) := by
  unfold closeCall
  infer_instance

instance index_keeps : Keeps c (index g base) := by
  unfold index
  infer_instance

instance suffix?_keeps (calls : Bool) : Keeps c (suffix? g ctx calls base) := by
  unfold suffix?
  refine .after fun finished _ => ?_
  split
  · infer_instance
  · refine .after fun mark d => ?_
    split
    · infer_instance
    · refine .atCursor (.atCursor ?_)
      refine .andThen (.leaf (d.lit?_leads _).getD) fun _ _ => .after fun mark _ => ?_
      split <;> infer_instance
    · infer_instance
    · infer_instance
    · infer_instance
    · infer_instance
    · infer_instance

instance assignment_keeps : Keeps c (assignment g ctx base) := by
  unfold assignment
  refine .after fun finished _ => ?_
  split
  · infer_instance
  · refine KeepsWhere.atNode inferInstance fun n => .afterMark fun mark => ?_
    split
    · split
      · next p hp =>
        exact (KeepsWhere.replaceAt (replaces_of_target hp)).andThen fun _ _ => inferInstance
      · exact .of_keeps fun _ => inferInstance
    · exact .of_keeps fun _ => inferInstance
    · exact .of_keeps fun _ => inferInstance

/-! ### Operands and operators -/

instance prefixed_keeps (text : String) (r : Rule) : Keeps c (prefixed g ctx text r base) := by
  unfold prefixed
  infer_instance

instance yielded_keeps : Keeps c (yielded g ctx base) := by
  unfold yielded
  infer_instance

instance primary_keeps : Keeps c (primary g ctx base) := by
  unfold primary
  infer_instance

instance operand_keeps : Keeps c (operand g ctx) := by
  unfold operand
  refine .after fun base c => .atCursor ?_
  split
  · split <;> infer_instance
  · split
    case h_7 =>
      split
      · next stop hstop =>
        exact .afterLeaf (c.privateName?_leads stop hstop)
      · infer_instance
    all_goals infer_instance

instance construct_keeps : Keeps c (construct g ctx) := by
  unfold construct
  infer_instance

instance nextOperator_keeps : Keeps c (nextOperator ctx) := by
  unfold nextOperator
  refine .after fun word _ => ?_
  split <;> infer_instance

instance operators_keeps (least : Nat) : Keeps c (operators g least ctx base) := by
  unfold operators
  refine .repeated fun _ => .after fun finished _ => ?_
  split
  · infer_instance
  · refine .after fun operator _ => ?_
    split
    · infer_instance
    · infer_instance
    · split <;> infer_instance

instance expression_keeps (least : Nat) : Keeps c (expression g least ctx) := by
  unfold expression
  infer_instance

/-! ### Markup -/

instance tagWord_keeps (r : Rule) : Keeps c (tagWord r) := by
  unfold tagWord
  refine .after fun _ c => .atCursor ?_
  split
  · next stop hstop => exact .leaf (c.tagName?_leads stop hstop)
  · infer_instance

instance elementName_keeps : Keeps c elementName := by
  unfold elementName
  infer_instance

instance bracedExpression_keeps : Keeps c (bracedExpression g) := by
  unfold bracedExpression
  refine .after fun _ _ => .after fun _ _ => .after fun _ _ => .after fun mark _ => ?_
  dsimp only
  split <;> infer_instance

instance attributeString_keeps (quote : Char) : Keeps c (attributeString quote) := by
  unfold attributeString
  refine .after fun _ _ => .after fun _ _ =>
    .andThen (.repeated fun c => .atCursor ?_) fun _ _ => inferInstance
  dsimp only
  split
  · exact .afterLeaf (c.skipWhile_reaches _)
  · split
    · next stop hstop =>
      exact .afterLeaf (c.characterReference?_leads stop hstop)
    · split
      · next stop hstop => exact .afterLeaf (c.lit?_leads _ stop hstop)
      · infer_instance

instance elementAttribute_keeps : Keeps c (elementAttribute g) := by
  unfold elementAttribute
  refine .after fun base _ => .after fun mark _ => ?_
  split
  · infer_instance
  · refine .after fun _ _ => .after fun colon _ => ?_
    split
    on_goal 1 => refine .after fun _ _ => .after fun _ _ => .after fun _ _ => ?_
    all_goals
      refine .after fun equals _ => ?_
      split
      · refine .after fun _ d => .atCursor ?_
        split <;> infer_instance
      · infer_instance

instance elementChildren_keeps : Keeps c (elementChildren g) := by
  unfold elementChildren
  refine .repeated fun c => .atCursor ?_
  have htext := c.markupText_reaches
  dsimp only
  split
  · exact .afterLeaf htext
  · refine .moveTo htext ?_
    split
    · infer_instance
    · split
      · infer_instance
      · split
        · infer_instance
        · infer_instance
        · split
          · next after hafter =>
            exact .afterLeaf (Cursor.characterReference?_leads _ after hafter)
          · infer_instance

instance element_rest_keeps : Keeps c (element.rest g base) := by
  unfold element.rest
  infer_instance

instance element_keeps : Keeps c (element g) := by
  unfold element
  refine .after fun base _ => .after fun _ _ => .after fun _ c => .atCursor ?_
  split
  · infer_instance
  · refine .after fun _ _ => .andThen (.repeated fun _ => .after fun _ c => .atCursor ?_) fun _ _ =>
      inferInstance
    split <;> infer_instance

end InjectionScan.Script
