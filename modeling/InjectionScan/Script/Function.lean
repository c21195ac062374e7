import InjectionScan.Script.Literal

/-! Blocks, parameters, functions, object literals and classes. -/
namespace InjectionScan.Script

open InjectionScan.Syntax InjectionScan.Script.Parser

/-! ### Blocks -/

/-- Reads whatever token comes next, for a part that no rule fits. -/
def anyToken : Parser Unit := do
  let c ← cursor
  match c.name? with
  | some stop => leaf (.rule .identifier) stop
  | none =>
    match c.number? with
    | some stop => leaf (.rule .numberLiteral) stop
    | none =>
      let one : Parser Unit :=
        match c.mark? with
        | some text => exactly text
        | none =>
          match c.next? with
          | some (x, stop) => leaf (.token x.toString) stop
          | none => fail
      orElse anyString one

/-- Keeps what was read of a broken statement, and reads on to the next place where a statement can
be read or the block ends. -/
def keepBroken (g : Grammar) (closed : Parser Bool) (base : Nat) : Parser Unit := do
  loop do
    skipGap true
    if (← cursor).rest.isEmpty then pure false
    else if ← closed then pure false
    else if (← lookAhead (strictly (g .statement))).isSome then pure false
    else
      anyToken
      pure true
  close .error base

/-- A statement; while repairing, a broken one becomes an error node. -/
def statementOrError (g : Grammar) (closed : Parser Bool) : Parser Unit := do
  if ← isRepairing then
    let base ← height
    fun s =>
      match strictly (g .statement) s with
      | .done _ t => .done () t
      | .stuck _ =>
        match g .statement s with
        | .done _ t => .done () t
        | .stuck t => keepBroken g closed base t
  else g .statement

/-- Statements up to a place where the block is closed, or to the end of the text. -/
def statements (g : Grammar) (closed : Parser Bool) : Parser Unit :=
  loop do
    skipGap true
    if (← cursor).rest.isEmpty then pure false
    else if ← closed then pure false
    else
      statementOrError g closed
      pure true

def blockCloses : Parser Bool := do
  return (← mark?) == some "\x7d"

def block (g : Grammar) : Parser Unit := do
  let base ← start
  token "\x7b"
  statements g blockCloses
  exactly "\x7d"
  close .statementBlock base

/-! ### Functions -/

def parameter (g : Grammar) : Parser Unit := do
  let base ← start
  if ← token? "..." then
    bound
    close .restPattern base
  else
    bound
    if ← token? "=" then
      g (.expression 0 .inner)
      close .assignmentPattern base
where
  bound : Parser Unit := do
    if ← wordComesNext "undefined" then name .undefinedLiteral else target g

def parameters (g : Grammar) : Parser Unit := do
  let base ← start
  token "("
  loop do
    skipGap true
    if (← mark?) == some ")" then pure false
    else
      parameter g
      if ← token? "," then pure true
      else
        guard ((← mark?) == some ")")
        pure false
  exactly ")"
  close .formalParameters base

/-- A function from the word `function` on; `base` is where its modifiers start. With `declared` it
needs a name. -/
def functionFrom (g : Grammar) (base : Nat) (declared : Bool) : Parser Unit := do
  keyword "function"
  let generator ← token? "*"
  if declared then name .identifier
  else if (← peekMark) != some "(" then name .identifier
  parameters g
  block g
  close (match declared, generator with
    | true, true => .generatorFunctionDeclaration
    | true, false => .functionDeclaration
    | false, true => .generatorFunction
    | false, false => .functionExpression) base

/-- Whether an opening brace comes next with a name and a colon behind it. -/
def namedFirst : Parser Bool := do
  let found ← lookAhead do
    token "\x7b"
    name .identifier
    token ":"
  return found.isSome

/-- What follows the parameters of an arrow function. A body that could be an object or a block is an
object if a name with a colon comes first. -/
def arrowFrom (g : Grammar) (ctx : Context) (base : Nat) : Parser Unit := do
  token "=>"
  skipGap true
  if (← mark?) == some "\x7b" then
    if ← namedFirst then orElse (strictly (g (.expression 0 ctx))) (block g)
    else block g
  else g (.expression 0 ctx)
  close .arrowFunction base

/-! ### Properties and methods -/

/-- The name of a property or method. -/
def propertyName (g : Grammar) : Parser Unit := do
  let base ← start
  let c ← cursor
  match c.head? with
  | some '[' =>
    exactly "["
    g (.expression 0 .inner)
    token "]"
    close .computedPropertyName base
  | some '#' =>
    match c.privateName? with
    | some stop => leaf (.rule .privatePropertyIdentifier) stop
    | none => fail
  | _ => orElse (name .propertyIdentifier) (orElse anyString numberLiteral)

/-- Whether a property name comes next. -/
def namesProperty : Parser Bool := do
  skip
  let c ← cursor
  return c.name?.isSome || c.number?.isSome || c.privateName?.isSome ||
    (match c.head? with
      | some '[' | some '"' | some '\'' => true
      | _ => false)

/-- Reads a word as a modifier if a property name, or a star after `async` and `static`, follows. -/
def modifier? (word : String) (ends : Bool) : Parser Bool := do
  let follows ← lookAhead do
    keyword word
    if ends then
      guard (!(← statementEnds true))
    let star := word == "async" || word == "static"
    if star && (← peekMark) == some "*" then pure ()
    else guard (← namesProperty)
  if follows.isSome then
    keyword word
    pure true
  else pure false

/-- Reads the modifiers of a method or field. With `ends`, a line break separates fields. -/
def modifiers (ends : Bool) : Parser Unit := do
  let _ ← modifier? "static" ends
  let _ ← modifier? "async" ends
  if ← token? "*" then pure ()
  else if ← modifier? "get" ends then pure ()
  else let _ ← modifier? "set" ends

/-- The parameters and body that make a property name a method. -/
def methodFrom (g : Grammar) (base : Nat) : Parser Unit := do
  parameters g
  block g
  close .methodDefinition base

/-- A property of an object literal. A name with a default is read too, since the literal may turn
out to be a pattern. -/
def property (g : Grammar) : Parser Unit := do
  let base ← start
  if ← token? "..." then
    g (.expression 0 .inner)
    close .spreadElement base
  else
    modifiers false
    let named ← height
    propertyName g
    let after ← height
    match ← peekMark with
    | some "(" => methodFrom g base
    | some ":" =>
      guard (named == base)
      exactly ":"
      g (.expression 0 .inner)
      close .pair base
    | some "=" =>
      guard (named == base && after == base + 1)
      shorthand base .shorthandPropertyIdentifierPattern
      exactly "="
      g (.expression 0 .inner)
      close .objectAssignmentPattern base
    | _ =>
      guard (named == base && after == base + 1)
      shorthand base .shorthandPropertyIdentifier
where
  shorthand (base : Nat) (r : Rule) : Parser Unit := do
    match ← nodeAt? base with
    | some n => if n.hasRule .propertyIdentifier then modifyAt base (Node.withKind (.rule r)) else fail
    | none => fail

def objectLiteral (g : Grammar) : Parser Unit := do
  let base ← start
  token "\x7b"
  listUpTo "\x7d" (property g)
  close .objectLiteral base

/-! ### Classes -/

/-- A decorator: a name, a member or a call of one of them. -/
def decorator (g : Grammar) : Parser Unit := do
  let base ← start
  token "@"
  let inner ← start
  name .identifier
  loop do
    if ← token? "." then
      name .propertyIdentifier
      closeWith (.rule .memberExpression) inner (labelEnds .object .property)
      pure true
    else pure false
  if (← cursor).head? == some '(' then
    argumentList g
    closeWith (.rule .callExpression) inner (labelEnds .function .arguments)
  close .decorator base

def decorators (g : Grammar) : Parser Unit :=
  loop do
    skipGap true
    if (← mark?) == some "@" then
      decorator g
      pure true
    else pure false

/-- A getter whose modifiers stand on a line of their own. -/
def lineOfModifiers? : Parser Bool := do
  let c ← cursor
  let stop := do
    let c ← c.lit? "static"
    let c ← (← c.one? isSpace).skipWhile isSpace |>.lit? "get"
    let gap := c.skipWhile fun x => isSpace x && x != '\n'
    gap.lit? "\n"
  match stop with
  | some stop => leaf (.token "static get") stop; pure true
  | none => pure false

/-- A method, field or initialisation block. -/
def classMember (g : Grammar) : Parser Unit := do
  let base ← start
  decorators g
  let isBlock ← lookAhead do
    keyword "static"
    guard (!(← statementEnds true))
    token "\x7b"
  if isBlock.isSome then
    keyword "static"
    block g
    close .classStaticBlock base
  else
    skipGap true
    unless ← lineOfModifiers? do modifiers true
    propertyName g
    if ← statementEnds true then close .fieldDefinition base
    else
      match ← peekMark with
      | some "(" =>
        methodFrom g base
        let _ ← token? ";"
      | some "=" =>
        exactly "="
        g (.expression 0 .last)
        close .fieldDefinition base
        semicolon false
      | _ =>
        close .fieldDefinition base
        semicolon true

def classBody (g : Grammar) : Parser Unit := do
  let base ← start
  token "\x7b"
  loop do
    skipGap true
    match ← mark? with
    | some "\x7d" => pure false
    | some ";" => exactly ";"; pure true
    | _ => classMember g; pure true
  exactly "\x7d"
  close .classBody base

/-- A class from the word `class` on; `base` is where its decorators start. -/
def classFrom (g : Grammar) (base : Nat) (declared : Bool) : Parser Unit := do
  keyword "class"
  if declared then name .identifier
  else
    let next ← peekWord
    if next.isSome && next != some "extends" then name .identifier
  let heritage ← start
  if ← keyword? "extends" then
    g (.expression 0 .inner)
    close .classHeritage heritage
  classBody g
  close (if declared then .classDeclaration else .classExpression) base

end InjectionScan.Script
