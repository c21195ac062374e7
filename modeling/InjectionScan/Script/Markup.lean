import InjectionScan.Script.Literal

/-! Markup elements inside a script. -/
namespace InjectionScan.Script

open InjectionScan.Syntax InjectionScan.Script.Parser

/-- A name that may hold hyphens. -/
def Cursor.tagName? (c : Cursor) : Option Cursor :=
  let start (x : Char) := isLetter x || x == '_' || x == '$'
  let part (x : Char) := start x || isDigit x
  let hyphened := do
    let c ← (← c.one? start).skipWhile part |>.lit? "-"
    return c.skipWhile fun x => part x || x == '-'
  further hyphened c.name?

def tagWord (r : Rule) : Parser Unit := do
  skip
  match (← cursor).tagName? with
  | some stop => leaf (.rule r) stop
  | none => fail

/-- The name of an element: a word, a member or a name with a namespace. -/
def elementName : Parser Unit := do
  let base ← start
  tagWord .identifier
  if ← token? ":" then
    tagWord .identifier
    close .jsxNamespaceName base
  else
    loop do
      if ← token? "." then
        name .propertyIdentifier
        closeWith (.rule .memberExpression) base (labelEnds .object .property)
        pure true
      else pure false

/-- A character written by name or number. -/
def Cursor.characterReference? (c : Cursor) : Option Cursor := do
  let c ← c.lit? "&"
  let named := (c.one? isLetter).map (Cursor.upTo 29 isLetter)
  let decimal := ((c.lit? "#").bind (Cursor.one? · isDigit)).map (Cursor.upTo 4 isDigit)
  let hex := (((c.lit? "#x").or (c.lit? "#X")).bind (Cursor.one? · isHexDigit)).map
    (Cursor.upTo 5 isHexDigit)
  (named.or (decimal.or hex)).bind (Cursor.lit? ";")

/-- An expression between braces; it may be missing. -/
def bracedExpression (g : Grammar) : Parser Unit := do
  let base ← start
  token "\x7b"
  skipGap true
  match ← mark? with
  | some "\x7d" => pure ()
  | some "..." =>
    let inner ← height
    exactly "..."
    g (.expression 0 .inner)
    close .spreadElement inner
  | _ => sequence g .inner
  token "\x7d"
  close .jsxExpression base

/-- The string of an attribute, which has no escapes. -/
def attributeString (quote : Char) : Parser Unit := do
  let base ← height
  let mark := quote.toString
  exactly mark
  loop do
    let c ← cursor
    let stop := c.skipWhile fun x => x != quote && x != '&'
    if c.offset < stop.offset then
      leaf (.rule .stringFragment) stop
      pure true
    else
      match c.characterReference? with
      | some stop => leaf (.rule .htmlCharacterReference) stop; pure true
      | none =>
        match c.lit? "&" with
        | some stop => leaf (.rule .stringFragment) stop; pure true
        | none => pure false
  exactly mark
  close .stringLiteral base

def elementAttribute (g : Grammar) : Parser Unit := do
  let base ← start
  if (← mark?) == some "\x7b" then bracedExpression g
  else
    tagWord .propertyIdentifier
    if ← token? ":" then
      modifyAt base (Node.withKind (.rule .identifier))
      tagWord .identifier
      close .jsxNamespaceName base
    if ← token? "=" then
      skipGap true
      match (← cursor).head? with
      | some '"' => attributeString '"'
      | some '\'' => attributeString '\''
      | some '<' => g .element
      | _ => bracedExpression g
    close .jsxAttribute base

/-- Text between tags. Line breaks with the spaces that follow them do not count as text. -/
def Cursor.markupText (c : Cursor) : Cursor × Bool :=
  run c.rest c.offset false false
where
  run : List Char → Nat → Bool → Bool → Cursor × Bool
    | [], n, _, saw => (⟨[], n⟩, saw)
    | x :: xs, n, atBreak, saw =>
      if x == '<' || x == '>' || x == '{' || x == '}' || x == '&' then (⟨x :: xs, n⟩, saw)
      else if x == '\n' then run xs (n + 1) true saw
      else
        let still := atBreak && isPlainSpace x
        run xs (n + x.utf8Size) still (saw || !still)

/-- What stands between an opening and a closing tag. -/
def elementChildren (g : Grammar) : Parser Unit :=
  loop do
    let c ← cursor
    let (stop, isText) := c.markupText
    if isText then
      leaf (.rule .jsxText) stop
      pure true
    else
      setCursor stop
      if (stop.lit? "</").isSome then pure false
      else if (stop.htmlComment?).isSome then skipGap true; pure true
      else
        match stop.head? with
        | some '<' => g .element; pure true
        | some '{' => bracedExpression g; pure true
        | _ =>
          match stop.characterReference? with
          | some after => leaf (.rule .htmlCharacterReference) after; pure true
          | none => fail

/-- An element with its attributes and children, or one that closes itself. -/
def element (g : Grammar) : Parser Unit := do
  let base ← start
  exactly "<"
  skipGap true
  if (← cursor).head? == some '>' then
    rest base
  else
    elementName
    loop do
      skipGap true
      match (← cursor).head? with
      | some '>' | some '/' => pure false
      | _ => elementAttribute g; pure true
    if (← cursor).head? == some '/' then
      exactly "/>"
      close .jsxSelfClosingElement base
    else rest base
where
  rest (base : Nat) : Parser Unit := do
    exactly ">"
    close .jsxOpeningElement base
    elementChildren g
    let closing ← height
    exactly "</"
    skip
    unless (← cursor).head? == some '>' do elementName
    skip
    exactly ">"
    close .jsxClosingElement closing
    close .jsxElement base

end InjectionScan.Script
