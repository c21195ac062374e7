import InjectionScan.Script.Goal

/-! Strings, templates, regular expressions, lists of arguments and array elements. -/
namespace InjectionScan.Script

open InjectionScan.Syntax InjectionScan.Script.Parser

/-- A string between two quotes of the same sort. -/
def stringLiteral (quote : Char) : Parser Unit := do
  let base ← height
  let mark := quote.toString
  exactly mark
  loop do
    let c ← cursor
    let stop := c.skipWhile fun x => x != quote && x != '\\' && x != '\r' && x != '\n'
    if c.offset < stop.offset then
      leaf (.rule .stringFragment) stop
      pure true
    else
      match c.escape? with
      | some stop => leaf (.rule .escapeSequence) stop; pure true
      | none => pure false
  exactly mark
  close .stringLiteral base

/-- A string at the cursor, whichever quote it has. -/
def anyString : Parser Unit := do
  skip
  match (← cursor).head? with
  | some '"' => stringLiteral '"'
  | some '\'' => stringLiteral '\''
  | _ => fail

def numberLiteral : Parser Unit := do
  match (← cursor).number? with
  | some stop => leaf (.rule .numberLiteral) stop
  | none => fail

/-- A template between backquotes, with the expressions it holds. -/
def template (g : Grammar) : Parser Unit := do
  let base ← height
  exactly "`"
  loop do
    let c ← cursor
    let stop := c.templateChars
    if c.offset < stop.offset then
      leaf (.rule .stringFragment) stop
      pure true
    else
      match c.escape? with
      | some stop => leaf (.rule .escapeSequence) stop; pure true
      | none =>
        if (c.lit? "$\x7b").isSome then
          let inner ← height
          exactly "$\x7b"
          sequence g .inner
          token "\x7d"
          close .templateSubstitution inner
          pure true
        else pure false
  exactly "`"
  close .templateString base

def regexLiteral : Parser Unit := do
  let base ← height
  exactly "/"
  match (← cursor).regexPattern? with
  | some stop => leaf (.rule .regexPattern) stop
  | none => fail
  exactly "/"
  let c ← cursor
  let stop := c.skipWhile fun x => 'a' ≤ x && x ≤ 'z'
  if c.offset < stop.offset then leaf (.rule .regexFlags) stop
  close .regexLiteral base

/-- An expression, or one whose values are spread. -/
def spreadable (g : Grammar) : Parser Unit := do
  let base ← start
  if ← token? "..." then
    g (.expression 0 .inner)
    close .spreadElement base
  else g (.expression 0 .inner)

def argumentList (g : Grammar) : Parser Unit := do
  let base ← start
  token "("
  listUpTo ")" (spreadable g)
  close .argumentList base

def arrayLiteral (g : Grammar) : Parser Unit := do
  let base ← start
  token "["
  listUpTo "]" (spreadable g)
  close .arrayLiteral base

end InjectionScan.Script
