import InjectionScan.Script.Lexeme
import InjectionScan.Syntax.Node

/-! Parsers that build a tree bottom up, with the finished nodes on a stack. -/
namespace InjectionScan.Script

open InjectionScan.Syntax

structure State where
  cursor : Cursor
  /-- Finished nodes, the last one first. -/
  nodes : List Node
  /-- How many nodes are finished. -/
  height : Nat
  /-- No run over the text has more steps than this. -/
  limit : Nat
  /-- Whether a broken statement is kept as an error instead of refused. -/
  repairing : Bool

def State.ofText (text : String) : State :=
  ⟨Cursor.ofString text, [], 0, text.length + 1, false⟩

inductive Outcome (α : Type) where
  | done (value : α) (state : State)
  | stuck (state : State)

def Parser (α : Type) : Type := State → Outcome α

namespace Parser

variable {α β : Type}

instance : Monad Parser where
  pure a := fun s => .done a s
  bind p f := fun s =>
    match p s with
    | .done a t => f a t
    | .stuck t => .stuck t

def fail : Parser α := fun s => .stuck s

def guard (b : Bool) : Parser Unit := if b then pure () else fail

/-- The second parser starts where the first one did. -/
def orElse (p q : Parser α) : Parser α := fun s =>
  match p s with
  | .done a t => .done a t
  | .stuck _ => q s

/-- What the parser gives, without reading anything. -/
def lookAhead (p : Parser α) : Parser (Option α) := fun s =>
  match p s with
  | .done a _ => .done (some a) s
  | .stuck _ => .done none s

/-- Runs a parser that refuses broken statements. -/
def strictly (p : Parser α) : Parser α := fun s =>
  match p { s with repairing := false } with
  | .done a t => .done a { t with repairing := s.repairing }
  | .stuck t => .stuck { t with repairing := s.repairing }

def isRepairing : Parser Bool := fun s => .done s.repairing s

/-- Repeats a step for as long as it asks for more. -/
def loop (step : Parser Bool) : Parser Unit := fun s => run s.limit s
where
  run : Nat → Parser Unit
    | 0, s => .done () s
    | n + 1, s =>
      match step s with
      | .done true t => run n t
      | .done false t => .done () t
      | .stuck t => .stuck t

def cursor : Parser Cursor := fun s => .done s.cursor s

def height : Parser Nat := fun s => .done s.height s

def setCursor (c : Cursor) : Parser Unit := fun s => .done () { s with cursor := c }

def push (n : Node) : Parser Unit := fun s =>
  .done () { s with nodes := n :: s.nodes, height := s.height + 1 }

/-- A node without children from here to a later place. -/
def leaf (k : Kind) (stop : Cursor) : Parser Unit := fun s =>
  .done () { s with
    cursor := stop
    nodes := .node k none s.cursor.offset stop.offset [] :: s.nodes
    height := s.height + 1 }

/-- Takes the nodes above a height off the stack, in order; comments at their end stay on it. -/
def takeFrom (base : Nat) : Parser (List Node) := fun s =>
  let above := s.nodes.take (s.height - base)
  let trailing := above.takeWhile Node.isComment
  let taken := above.drop trailing.length
  .done taken.reverse { s with
    nodes := trailing ++ s.nodes.drop (s.height - base)
    height := s.height - taken.length }

/-- Puts a node on the stack below the comments that stand above a height. -/
def insertAt (base : Nat) (n : Node) : Parser Unit := fun s =>
  let above := s.nodes.take (s.height - base)
  .done () { s with
    nodes := above ++ n :: s.nodes.drop (s.height - base)
    height := s.height + 1 }

/-- Replaces everything above a height by one node. Without parts it is empty and stands here, after
the comments. -/
def closeWith (k : Kind) (base : Nat) (arrange : List Node → List Node) : Parser Unit := do
  let parts ← takeFrom base
  match parts.head?, parts.getLast? with
  | some first, some last => insertAt base (.node k none first.start last.stop (arrange parts))
  | _, _ =>
    let here ← cursor
    push (.node k none here.offset here.offset [])

def close (r : Rule) (base : Nat) : Parser Unit := closeWith (.rule r) base id

/-- Changes the node at a height. -/
def modifyAt (base : Nat) (f : Node → Node) : Parser Unit := fun s =>
  .done () { s with nodes := s.nodes.modify (s.height - 1 - base) f }

/-- The node at a height, if the stack is higher. -/
def nodeAt? (base : Nat) : Parser (Option Node) := fun s =>
  .done (if base < s.height then s.nodes[s.height - 1 - base]? else none) s

/-! ### Between tokens -/

/-- Passes over spaces, and puts comments on the stack. Comments in the style of a page's markup
count only where no operator can stand. -/
def skipGap (markup : Bool) : Parser Unit :=
  loop do
    let c := (← cursor).skipWhile isSpace
    setCursor c
    match c.comment? with
    | some stop => leaf (.rule .comment) stop; pure true
    | none =>
      match (if markup then c.htmlComment? else none) with
      | some stop => leaf (.rule .htmlComment) stop; pure true
      | none => pure false

/-- Spaces and comments after a complete operand. -/
def skip : Parser Unit := skipGap false

/-- The height of the stack where the next part starts. -/
def start : Parser Nat := do
  skipGap true
  height

/-- Whether the statement ends here without a semicolon. Comments before a place where it does not
end are read. -/
def statementEnds (comments : Bool) : Parser Bool := fun s =>
  run s.limit s
where
  run : Nat → Parser Bool
    | 0, s => .done false s
    | n + 1, s =>
      if endsStatement s.limit comments s.cursor.rest then .done true s
      else
        let c := s.cursor.skipWhile isSpace
        match c.comment? with
        | some stop =>
          match leaf (.rule .comment) stop { s with cursor := c } with
          | .done _ t => run n t
          | .stuck t => .stuck t
        | none => .done false s

/-! ### Tokens -/

def mark? : Parser (Option String) := do
  return (← cursor).mark?

/-- The operator or bracket that comes next, after spaces and comments. -/
def peekMark : Parser (Option String) := do
  skip
  mark?

/-- The name or keyword that comes next, after spaces and comments. -/
def peekWord : Parser (Option String) := do
  skip
  let c ← cursor
  return c.name?.map c.textTo

/-- Reads a fixed text as a token, whatever follows it. -/
def exactly (text : String) : Parser Unit := do
  match (← cursor).lit? text with
  | some stop => leaf (.token text) stop
  | none => fail

/-- Reads one operator or bracket. -/
def token (text : String) : Parser Unit := do
  guard ((← peekMark) == some text)
  exactly text

def token? (text : String) : Parser Bool := do
  if (← peekMark) == some text then
    exactly text
    pure true
  else pure false

/-- Reads one keyword. -/
def keyword (text : String) : Parser Unit := do
  guard ((← peekWord) == some text)
  exactly text

def keyword? (text : String) : Parser Bool := do
  if (← peekWord) == some text then
    exactly text
    pure true
  else pure false

/-- Reads a name as a node of the given rule. -/
def name (r : Rule) : Parser Unit := do
  skip
  match (← cursor).name? with
  | some stop => leaf (.rule r) stop
  | none => fail

end Parser

/-- Gives roles to the first and to the last part of a rule. -/
def labelEnds (first last : Role) (parts : List Node) : List Node :=
  match parts with
  | [] => []
  | n :: ns => n.withRole (some first) :: labelLast last ns
where
  labelLast (last : Role) : List Node → List Node
    | [] => []
    | [n] => [n.withRole (some last)]
    | n :: ns => n :: labelLast last ns

def labelFirst (role : Role) : List Node → List Node
  | [] => []
  | n :: ns => n.withRole (some role) :: ns

end InjectionScan.Script
