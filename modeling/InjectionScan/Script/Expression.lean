import InjectionScan.Script.Function

/-! Expressions: operands, and operators that join them by how tightly they bind. -/
namespace InjectionScan.Script

open InjectionScan.Syntax InjectionScan.Script.Parser

/-! ### Atoms -/

/-- Gives the parts of a parenthesis with commas one node of their own. -/
def groupParts (parts : List Node) : List Node :=
  let inner := parts.dropWhile Node.isComment
  let trailing := inner.reverse.takeWhile Node.isComment
  let body := (inner.reverse.dropWhile Node.isComment).reverse
  match body.head?, body.getLast? with
  | some first, some last =>
    parts.takeWhile Node.isComment ++
      .node (.rule .sequenceExpression) none first.start last.stop body :: trailing.reverse
  | _, _ => parts

/-- A parenthesis, or the parameters of an arrow function with that function. -/
def parenthesis (g : Grammar) (ctx : Context) (base : Nat) : Parser Unit := do
  exactly "("
  let inner ← height
  loop do
    skipGap true
    if (← mark?) == some ")" then pure false
    else
      spreadable g
      if ← token? "," then pure true
      else
        guard ((← mark?) == some ")")
        pure false
  let parts := fun (s : State) => (s.nodes.take (s.height - inner)).reverse
  let listed ← fun s => .done (parts s) s
  exactly ")"
  if ← comesNext "=>" then
    let all ← takeFrom base
    match elementPatterns? all with
    | some patterns =>
      let here ← cursor
      insertAt base (.node (.rule .formalParameters) none
        ((all.head?.map Node.start).getD here.offset) here.offset patterns)
      arrowFrom g ctx base
    | none => fail
  else
    let shown := listed.filter fun n => !n.isComment
    let ends := shown.getLast?
    guard (!shown.isEmpty && ends.all fun n => n.kind != .token ",")
    guard (shown.all fun n => !n.hasRule .spreadElement)
    if shown.any (fun n => n.kind == .token ",") then
      closeWith (.rule .parenthesizedExpression) base fun all =>
        match all with
        | opening :: tail =>
          opening :: groupParts tail.dropLast ++ tail.drop (tail.length - 1)
        | [] => []
    else close .parenthesizedExpression base

/-- The word `import` as a function or as the start of a property of the module. -/
def importAtom (base : Nat) : Parser Unit := do
  let isMeta ← lookAhead do
    keyword "import"
    token "."
    keyword "meta"
  if isMeta.isSome then
    keyword "import"
    token "."
    keyword "meta"
    close .metaProperty base
  else
    let next ← lookAhead do
      keyword "import"
      peekMark
    guard (next == some (some "(") || next == some (some "."))
    name .importKeyword

/-- A name, or an arrow function with that one parameter. -/
def nameOrArrow (g : Grammar) (ctx : Context) (base : Nat) : Parser Unit := do
  name .identifier
  if ← comesNext "=>" then arrowFrom g ctx base

/-- What the word `async` starts: a function, an arrow function, a call or a name. -/
def asyncAtom (g : Grammar) (ctx : Context) (base : Nat) : Parser Unit := do
  let shape ← lookAhead do
    keyword "async"
    guard (!(← ended ctx))
    if ← wordComesNext "function" then pure 0
    else if (← peekMark) == some "(" then pure 1
    else
      name .identifier
      token "=>"
      pure 2
  match shape with
  | some 0 =>
    keyword "async"
    functionFrom g base false
  | some 1 =>
    name .identifier
    argumentList g
    if ← comesNext "=>" then
      let all ← takeFrom base
      match all with
      | word :: between =>
        match between.getLast?.map Node.children |>.bind elementPatterns?, between.getLast? with
        | some patterns, some list =>
          for n in word.withKind (.token "async") :: between.dropLast do push n
          push (.node (.rule .formalParameters) none list.start list.stop patterns)
          arrowFrom g ctx base
        | _, _ => fail
      | [] => fail
    else closeWith (.rule .callExpression) base (labelEnds .function .arguments)
  | some _ =>
    keyword "async"
    name .identifier
    arrowFrom g ctx base
  | none => nameOrArrow g ctx base

/-- An operand without prefix operators, members, calls or assignments. -/
def atom (g : Grammar) (ctx : Context) (base : Nat) : Parser Unit := do
  let c ← cursor
  match c.name? with
  | some stop =>
    match c.textTo stop with
    | "this" => leaf (.rule .thisKeyword) stop
    | "super" => leaf (.rule .superKeyword) stop
    | "true" => leaf (.rule .trueLiteral) stop
    | "false" => leaf (.rule .falseLiteral) stop
    | "null" => leaf (.rule .nullLiteral) stop
    | "undefined" => leaf (.rule .undefinedLiteral) stop
    | "function" => functionFrom g base false
    | "class" => classFrom g base false
    | "new" => g (.construct ctx)
    | "import" => importAtom base
    | "async" => asyncAtom g ctx base
    | _ => nameOrArrow g ctx base
  | none =>
    match c.head? with
    | some '"' => stringLiteral '"'
    | some '\'' => stringLiteral '\''
    | some '`' => template g
    | some '/' => regexLiteral
    | some '(' => parenthesis g ctx base
    | some '[' => g .array
    | some '{' => g .object
    | some '<' => g .element
    | some '@' =>
      decorators g
      classFrom g base false
    | _ => numberLiteral

/-! ### Members, calls and assignments -/

/-- The name of a member after its dot. -/
def memberName : Parser Unit := do
  skip
  match (← cursor).privateName? with
  | some stop => leaf (.rule .privatePropertyIdentifier) stop
  | none => name .propertyIdentifier

def closeMember (base : Nat) : Parser Unit :=
  closeWith (.rule .memberExpression) base (labelEnds .object .property)

def closeCall (base : Nat) : Parser Unit :=
  closeWith (.rule .callExpression) base (labelEnds .function .arguments)

/-- An index between brackets. -/
def index (g : Grammar) (base : Nat) : Parser Unit := do
  exactly "["
  sequence g .inner
  token "]"
  closeWith (.rule .subscriptExpression) base (labelFirst .object)

/-- Reads a member, an index or a template after the operand at `base`; with `calls` also a call or
a postfix operator. -/
def suffix? (g : Grammar) (ctx : Context) (calls : Bool) (base : Nat) : Parser Bool := do
  if ← ended ctx then pure false
  else
    match ← peekMark with
    | some "." =>
      exactly "."
      memberName
      closeMember base
      pure true
    | some "?." =>
      leaf (.rule .optionalChain) (((← cursor).lit? "?.").getD (← cursor))
      match ← peekMark with
      | some "(" => argumentList g; closeCall base
      | some "[" => index g base
      | _ => memberName; closeMember base
      pure true
    | some "[" => index g base; pure true
    | some "(" =>
      if calls then
        argumentList g
        closeCall base
      pure calls
    | some "++" | some "--" =>
      if calls then
        exactly (((← mark?)).getD "")
        close .updateExpression base
      pure calls
    | _ =>
      if (← cursor).head? == some '`' then
        template g
        closeCall base
        pure true
      else pure false

def assignmentMarks : List String :=
  ["+=", "-=", "*=", "/=", "%=", "^=", "&=", "|=", ">>=", ">>>=", "<<=", "**=", "&&=", "||=", "??="]

/-- The assignment to the operand at `base`, if one follows. -/
def assignment (g : Grammar) (ctx : Context) (base : Nat) : Parser Unit := do
  if ← ended ctx then pure ()
  else
    match ← nodeAt? base with
    | none => pure ()
    | some n =>
      match ← peekMark with
      | some "=" =>
        match if isPlace n then some n else pattern? n with
        | some p =>
          modifyAt base fun _ => p
          exactly "="
          g (.expression 0 ctx)
          close .assignmentExpression base
        | none => pure ()
      | some op =>
        if assignmentMarks.contains op && isPlace n then
          exactly op
          g (.expression 0 ctx)
          close .augmentedAssignmentExpression base
      | none => pure ()

/-! ### Operands -/

/-- Whether an operand can start at the cursor. -/
def startsOperand : Parser Bool := do
  skipGap true
  let c ← cursor
  match c.name? with
  | some stop =>
    let word := c.textTo stop
    pure (word != "in" && word != "instanceof")
  | none =>
    match c.head? with
    | some x =>
      pure ("\"'`([\x7b+-!~/<@#".toList.contains x || isDigit x || (x == '.' && c.number?.isSome))
    | none => pure false

/-- A prefix operator with its operand. -/
def prefixed (g : Grammar) (ctx : Context) (text : String) (r : Rule) (base : Nat) : Parser Unit := do
  exactly text
  g (.operand ctx)
  close r base

def yielded (g : Grammar) (ctx : Context) (base : Nat) : Parser Unit := do
  exactly "yield"
  unless ← ended ctx do
    if ← token? "*" then g (.expression 0 ctx)
    else if (← lookAhead (do guard (← startsOperand))).isSome then g (.expression 0 ctx)
  close .yieldExpression base

/-- An atom with everything that follows it. -/
def primary (g : Grammar) (ctx : Context) (base : Nat) : Parser Unit := do
  atom g ctx base
  loop (suffix? g ctx true base)
  assignment g ctx base

/-- A prefix operator with its operand, or an atom with what follows it. -/
def operand (g : Grammar) (ctx : Context) : Parser Unit := do
  let base ← start
  let c ← cursor
  match c.name? with
  | some stop =>
    match c.textTo stop with
    | "typeof" => prefixed g ctx "typeof" .unaryExpression base
    | "void" => prefixed g ctx "void" .unaryExpression base
    | "delete" => prefixed g ctx "delete" .unaryExpression base
    | "await" => prefixed g ctx "await" .awaitExpression base
    | "yield" => yielded g ctx base
    | _ => primary g ctx base
  | none =>
    match c.mark? with
    | some "!" => prefixed g ctx "!" .unaryExpression base
    | some "~" => prefixed g ctx "~" .unaryExpression base
    | some "+" => prefixed g ctx "+" .unaryExpression base
    | some "-" => prefixed g ctx "-" .unaryExpression base
    | some "++" => prefixed g ctx "++" .updateExpression base
    | some "--" => prefixed g ctx "--" .updateExpression base
    | _ =>
      match c.privateName? with
      | some stop =>
        leaf (.rule .privatePropertyIdentifier) stop
        guard (← wordComesNext "in")
      | none => primary g ctx base

/-- The word `new`, the constructor and its arguments. -/
def construct (g : Grammar) (ctx : Context) : Parser Unit := do
  let base ← start
  keyword "new"
  if ← token? "." then
    keyword "target"
    close .metaProperty base
  else
    let inner ← start
    atom g ctx inner
    loop (suffix? g ctx false inner)
    unless ← ended ctx do
      if (← peekMark) == some "(" then argumentList g
    close .newExpression base

/-! ### Operators -/

/-- How tightly a binary operator binds, and whether it groups to the right. -/
def level? : String → Option (Nat × Bool)
  | "??" => some (1, false)
  | "||" => some (2, false)
  | "&&" => some (3, false)
  | "|" => some (4, false)
  | "^" => some (5, false)
  | "&" => some (6, false)
  | "==" | "===" | "!=" | "!==" => some (7, false)
  | "<" | "<=" | ">" | ">=" | "in" | "instanceof" => some (8, false)
  | "<<" | ">>" | ">>>" => some (9, false)
  | "+" | "-" => some (10, false)
  | "*" | "/" | "%" => some (11, false)
  | "**" => some (12, true)
  | _ => none

/-- The operator that comes next, as a word or as a mark. -/
def nextOperator (ctx : Context) : Parser (Option String) := do
  match ← peekWord with
  | some word =>
    if word == "instanceof" || (word == "in" && !ctx.noIn) then pure (some word) else pure none
  | none => mark?

/-- Joins the operand at `base` with those that follow, as far as the operators bind tightly
enough. -/
def operators (g : Grammar) (least : Nat) (ctx : Context) (base : Nat) : Parser Unit :=
  loop do
    if ← ended ctx then pure false
    else
      match ← nextOperator ctx with
      | none => pure false
      | some "?" =>
        if 1 < least then pure false
        else
          exactly "?"
          g (.expression 0 .inner)
          token ":"
          g (.expression 0 ctx)
          close .ternaryExpression base
          pure true
      | some op =>
        match level? op with
        | none => pure false
        | some (level, toRight) =>
          if level < least then pure false
          else
            exactly op
            g (.expression (if toRight then level else level + 1) ctx)
            closeWith (.rule .binaryExpression) base (labelEnds .left .right)
            pure true

def expression (g : Grammar) (least : Nat) (ctx : Context) : Parser Unit := do
  let base ← start
  g (.operand ctx)
  operators g least ctx base

end InjectionScan.Script
