import InjectionScan.Script.Expression
import InjectionScan.Script.Markup

/-! Statements, declarations, imports and exports. -/
namespace InjectionScan.Script

open InjectionScan.Syntax InjectionScan.Script.Parser

/-! ### Declarations -/

/-- A declared name or pattern with its initial value, if it has one. Tells whether the statement may
end after it where a comment stands for a line break. -/
def declarator (g : Grammar) (ctx : Context) : Parser Bool := do
  let base ← start
  target g
  let finished ← if ctx.ends then statementEnds true else pure false
  let hasValue ← if finished then pure false else token? "="
  if hasValue then
    g (.expression 0 ctx)
    closeWith (.rule .variableDeclarator) base (labelEnds .name .value)
    pure false
  else
    closeWith (.rule .variableDeclarator) base (labelFirst .name)
    pure true

/-- A declaration from its keyword to its semicolon. In the head of a loop line breaks do not end
it. -/
def declaration (g : Grammar) (word : String) (ctx : Context) : Parser Unit := do
  let base ← start
  keyword word
  loop do
    let comments ← declarator g ctx
    let finished ← if ctx.ends then statementEnds comments else pure false
    if finished then pure false else token? ","
  if ctx.ends then semicolon true else token ";"
  close (if word == "var" then .variableDeclaration else .lexicalDeclaration) base

/-- Whether the word `let` here starts a declaration. With `ends`, a line break after it may end a
statement. -/
def letDeclares (ends : Bool) : Parser Bool := do
  let found ← lookAhead do
    keyword "let"
    if ends then guard (!(← statementEnds false))
    match ← peekMark with
    | some "\x7b" | some "[" => pure ()
    | _ =>
      match ← peekWord with
      | some word => guard (word != "in" && word != "instanceof")
      | none => fail
  return found.isSome

/-- Whether a function with a name is declared here. -/
def asyncDeclares : Parser Bool := do
  let found ← lookAhead do
    keyword "async"
    guard (!(← statementEnds false))
    keyword "function"
    let _ ← token? "*"
    name .identifier
  return found.isSome

/-- Whether the keyword is followed by a name. -/
def keywordDeclares (word : String) : Parser Bool := do
  let found ← lookAhead do
    keyword word
    let _ ← token? "*"
    match ← peekWord with
    | some next => guard (next != "extends")
    | none => fail
  return found.isSome

/-- A class declaration with its decorators, which start at `base`. -/
def classDeclaration (g : Grammar) (base : Nat) : Parser Unit := do
  decorators g
  classFrom g base true

/-! ### Control flow -/

/-- A condition between parentheses. -/
def condition (g : Grammar) : Parser Unit := do
  let base ← start
  token "("
  sequence g .inner
  token ")"
  close .parenthesizedExpression base

def ifStatement (g : Grammar) : Parser Unit := do
  let base ← start
  keyword "if"
  condition g
  g .statement
  if ← wordComesNext "else" then
    let inner ← start
    keyword "else"
    g .statement
    close .elseClause inner
  close .ifStatement base

/-- The head of a loop over members or elements, from the opening parenthesis on. -/
def eachHead (g : Grammar) : Parser Unit := do
  token "("
  let base ← start
  let c ← cursor
  let word := (c.name?.map c.textTo).getD ""
  if word == "var" || word == "const" || (word == "let" && (← letDeclares false)) then
    keyword word
    target g
    if word == "var" then
      if ← token? "=" then g (.expression 0 ⟨false, true⟩)
  else
    g (.operand ⟨false, true⟩)
    match ← nodeAt? base with
    | some n =>
      match if n.hasRule .parenthesizedExpression then some n else pattern? n with
      | some p => modifyAt base fun _ => p
      | none => fail
    | none => fail
  if ← keyword? "in" then pure () else keyword "of"
  sequence g .inner
  token ")"

/-- The head of a loop with a counter, from the opening parenthesis on. -/
def countingHead (g : Grammar) : Parser Unit := do
  token "("
  let _ ← start
  let c ← cursor
  let word := (c.name?.map c.textTo).getD ""
  if word == "var" || word == "const" || (word == "let" && (← letDeclares false)) then
    declaration g word .inner
  else part
  part
  skipGap true
  unless (← mark?) == some ")" do sequence g .inner
  token ")"
where
  part : Parser Unit := do
    let base ← start
    if ← token? ";" then close .emptyStatement base
    else
      sequence g .inner
      token ";"

def forStatement (g : Grammar) : Parser Unit := do
  let base ← start
  keyword "for"
  let each : Parser Rule := do
    let _ ← keyword? "await"
    eachHead g
    pure .forInStatement
  let counting : Parser Rule := do
    countingHead g
    pure .forStatement
  let kind ← orElse (strictly each) counting
  g .statement
  close kind base

def whileStatement (g : Grammar) : Parser Unit := do
  let base ← start
  keyword "while"
  condition g
  g .statement
  close .whileStatement base

def doStatement (g : Grammar) : Parser Unit := do
  let base ← start
  keyword "do"
  g .statement
  keyword "while"
  condition g
  unless ← statementEnds true do
    let _ ← token? ";"
  close .doStatement base

def catchClause (g : Grammar) : Parser Unit := do
  let base ← start
  keyword "catch"
  if ← token? "(" then
    target g
    token ")"
  block g
  close .catchClause base

def tryStatement (g : Grammar) : Parser Unit := do
  let base ← start
  keyword "try"
  block g
  if ← wordComesNext "catch" then catchClause g
  if ← wordComesNext "finally" then
    let inner ← start
    keyword "finally"
    block g
    close .finallyClause inner
  close .tryStatement base

def caseCloses : Parser Bool := do
  if ← blockCloses then pure true
  else
    let word ← peekWord
    return word == some "case" || word == some "default"

def switchStatement (g : Grammar) : Parser Unit := do
  let base ← start
  keyword "switch"
  condition g
  let body ← start
  token "\x7b"
  loop do
    let inner ← start
    if ← keyword? "case" then
      sequence g .inner
      token ":"
      statements g caseCloses
      close .switchCase inner
      pure true
    else if ← keyword? "default" then
      token ":"
      statements g caseCloses
      close .switchDefault inner
      pure true
    else pure false
  token "\x7d"
  close .switchBody body
  close .switchStatement base

def withStatement (g : Grammar) : Parser Unit := do
  let base ← start
  keyword "with"
  condition g
  g .statement
  close .withStatement base

/-- A jump out of a loop or block, to a label if one follows. -/
def jump (word : String) (r : Rule) : Parser Unit := do
  let base ← start
  keyword word
  unless ← statementEnds true do
    if (← peekWord).isSome then name .statementIdentifier
    semicolon true
  close r base

def returnStatement (g : Grammar) : Parser Unit := do
  let base ← start
  keyword "return"
  unless ← statementEnds true do
    if ← token? ";" then pure ()
    else
      sequence g .last
      semicolon false
  close .returnStatement base

def throwStatement (g : Grammar) : Parser Unit := do
  let base ← start
  keyword "throw"
  sequence g .last
  semicolon false
  close .throwStatement base

/-! ### Imports and exports -/

/-- A name in an import or export list, which may be a string. -/
def exchangedName : Parser Unit :=
  orElse anyString (name .identifier)

/-- Names between braces, each with an alias if it has one. -/
def exchangedNames (list item : Rule) : Parser Unit := do
  let base ← start
  token "\x7b"
  loop do
    skip
    if (← mark?) == some "\x7d" then pure false
    else
      let inner ← height
      exchangedName
      if ← keyword? "as" then exchangedName
      close item inner
      token? ","
  token "\x7d"
  close list base

def fromClause : Parser Unit := do
  keyword "from"
  anyString

/-- All names of a module under one name. -/
def wholeModule (r : Rule) : Parser Unit := do
  let base ← start
  token "*"
  keyword "as"
  exchangedName
  close r base

def importedNames : Parser Unit := do
  match ← peekMark with
  | some "*" => wholeModule .namespaceImport
  | _ => exchangedNames .namedImports .importSpecifier

def importStatement (g : Grammar) : Parser Unit := do
  let base ← start
  keyword "import"
  skip
  match (← cursor).head? with
  | some '"' | some '\'' => anyString
  | _ =>
    let clause ← height
    match ← mark? with
    | some "*" | some "\x7b" => importedNames
    | _ =>
      name .identifier
      if ← token? "," then importedNames
    close .importClause clause
    fromClause
  if ← wordComesNext "with" then
    let inner ← start
    keyword "with"
    g .object
    close .importAttribute inner
  semicolon true
  close .importStatement base

/-- A declaration that can be exported, if one starts here. -/
def exportedDeclaration? (g : Grammar) : Parser Bool := do
  let base ← start
  if (← mark?) == some "@" then
    classDeclaration g base
    pure true
  else
    match ← peekWord with
    | some "var" => declaration g "var" .last; pure true
    | some "let" => declaration g "let" .last; pure true
    | some "const" => declaration g "const" .last; pure true
    | some "function" =>
      if ← keywordDeclares "function" then
        functionFrom g base true
        pure true
      else pure false
    | some "class" =>
      if ← keywordDeclares "class" then
        classDeclaration g base
        pure true
      else pure false
    | some "async" =>
      if ← asyncDeclares then
        keyword "async"
        functionFrom g base true
        pure true
      else pure false
    | _ => pure false

/-- An export from its keyword on; `base` is where its decorators start. -/
def exportFrom (g : Grammar) (base : Nat) : Parser Unit := do
  keyword "export"
  match ← peekMark with
  | some "*" =>
    let whole ← lookAhead do
      token "*"
      keyword "as"
    if whole.isSome then wholeModule .namespaceExport else token "*"
    fromClause
    semicolon true
  | some "\x7b" =>
    exchangedNames .exportClause .exportSpecifier
    if ← wordComesNext "from" then fromClause
    semicolon true
  | _ =>
    if ← exportedDeclaration? g then pure ()
    else
      keyword "default"
      unless ← exportedDeclaration? g do
        g (.expression 0 .last)
        semicolon false
  close .exportStatement base

/-! ### Statements -/

def expressionStatement (g : Grammar) : Parser Unit := do
  let base ← start
  sequence g .last
  semicolon false
  close .expressionStatement base

def labeledStatement (g : Grammar) : Parser Unit := do
  let base ← start
  name .statementIdentifier
  token ":"
  g .statement
  close .labeledStatement base

/-- A statement that starts with an ordinary name or with a word that only sometimes is a keyword. -/
def wordStatement (g : Grammar) : Parser Unit := do
  let isLabel ← lookAhead do
    name .statementIdentifier
    token ":"
  if isLabel.isSome then labeledStatement g else expressionStatement g

/-- A statement by the word it starts with. -/
def statementOf (g : Grammar) (base : Nat) : String → Parser Unit
  | "var" => declaration g "var" .last
  | "const" => declaration g "const" .last
  | "let" => do if ← letDeclares true then declaration g "let" .last else wordStatement g
  | "if" => ifStatement g
  | "for" => forStatement g
  | "while" => whileStatement g
  | "do" => doStatement g
  | "try" => tryStatement g
  | "switch" => switchStatement g
  | "with" => withStatement g
  | "break" => jump "break" .breakStatement
  | "continue" => jump "continue" .continueStatement
  | "debugger" => do
    keyword "debugger"
    semicolon true
    close .debuggerStatement base
  | "return" => returnStatement g
  | "throw" => throwStatement g
  | "function" => do
    if ← keywordDeclares "function" then functionFrom g base true else expressionStatement g
  | "async" => do
    if ← asyncDeclares then
      keyword "async"
      functionFrom g base true
    else wordStatement g
  | "class" => do
    if ← keywordDeclares "class" then classDeclaration g base else expressionStatement g
  | "import" => do
    let inExpression ← lookAhead do
      keyword "import"
      guard ((← peekMark) == some "(" || (← peekMark) == some ".")
    if inExpression.isSome then expressionStatement g else importStatement g
  | "export" => orElse (strictly (exportFrom g base)) (orElse (strictly (wordStatement g)) (exportFrom g base))
  | _ => wordStatement g

/-- A block, or an expression that starts with an object. What both fit is an object if a name with a
colon comes first, and a block otherwise. -/
def braced (g : Grammar) : Parser Unit := do
  let strict :=
    if ← namedFirst then orElse (strictly (expressionStatement g)) (strictly (block g))
    else orElse (strictly (block g)) (strictly (expressionStatement g))
  if ← isRepairing then orElse strict (block g) else strict

def statement (g : Grammar) : Parser Unit := do
  let base ← start
  match ← mark? with
  | some "\x7b" => braced g
  | some ";" =>
    exactly ";"
    close .emptyStatement base
  | some "@" =>
    decorators g
    if ← wordComesNext "export" then exportFrom g base
    else classFrom g base true
  | _ =>
    let c ← cursor
    match c.name? with
    | some stop => statementOf g base (c.textTo stop)
    | none => expressionStatement g

end InjectionScan.Script
