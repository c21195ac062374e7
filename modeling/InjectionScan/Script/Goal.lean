import InjectionScan.Script.Builder
import InjectionScan.Script.Pattern

/-! What the parts of a script grammar ask of each other. -/
namespace InjectionScan.Script

open InjectionScan.Syntax InjectionScan.Script.Parser

/-- Where an expression stands. -/
structure Context where
  /-- A line break may end the statement after it. -/
  ends : Bool
  /-- The word `in` is no operator here. -/
  noIn : Bool
deriving DecidableEq, Repr

/-- Between brackets neither line breaks nor the word `in` are special. -/
def Context.inner : Context := ⟨false, false⟩

/-- At the end of a statement. -/
def Context.last : Context := ⟨true, false⟩

inductive Goal where
  /-- Operators that bind at least this tightly, and their operands. -/
  | expression (least : Nat) (ctx : Context)
  | operand (ctx : Context)
  /-- What follows the word `new`, that word included. -/
  | construct (ctx : Context)
  | object
  | array
  | element
  | statement

abbrev Grammar := Goal → Parser Unit

/-- Whether the expression ends here because its statement does. -/
def ended (ctx : Context) : Parser Bool :=
  if ctx.ends then statementEnds false else pure false

/-- Whether an operator or bracket comes next. Nothing is read. -/
def comesNext (text : String) : Parser Bool := do
  return (← lookAhead (do guard ((← peekMark) == some text))).isSome

/-- Whether a name or keyword comes next. Nothing is read. -/
def wordComesNext (text : String) : Parser Bool := do
  return (← lookAhead (do guard ((← peekWord) == some text))).isSome

/-- One expression or several with commas between them. -/
def sequence (g : Grammar) (ctx : Context) : Parser Unit := do
  let base ← start
  g (.expression 0 ctx)
  if ← comma then
    loop comma
    close .sequenceExpression base
where
  comma : Parser Bool := do
    if ← ended ctx then pure false
    else if ← token? "," then
      g (.expression 0 ctx)
      pure true
    else pure false

/-- Parts with commas between them up to a closing bracket. Parts may be missing. -/
def listUpTo (closing : String) (part : Parser Unit) : Parser Unit := do
  loop do
    skipGap true
    if (← mark?) == some closing then pure false
    else if ← token? "," then pure true
    else
      part
      if ← token? "," then pure true
      else
        guard ((← mark?) == some closing)
        pure false
  exactly closing

/-- The end of a statement. -/
def semicolon (comments : Bool) : Parser Unit := do
  if ← statementEnds comments then pure ()
  else token ";"

/-- Turns the node at a height into a pattern. -/
def asPattern (base : Nat) : Parser Unit := do
  match (← nodeAt? base).bind pattern? with
  | some p => modifyAt base fun _ => p
  | none => fail

/-- A name or a pattern that values are bound to. -/
def target (g : Grammar) : Parser Unit := do
  let base ← start
  match ← mark? with
  | some "\x7b" => g .object; asPattern base
  | some "[" => g .array; asPattern base
  | _ => name .identifier

end InjectionScan.Script
