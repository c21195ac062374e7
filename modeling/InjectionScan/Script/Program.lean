import InjectionScan.Script.Statement
import InjectionScan.Syntax.Source

/-! Whole scripts. Every text has a tree; broken statements become error nodes in it. -/
namespace InjectionScan.Script

open InjectionScan.Syntax InjectionScan.Script.Parser

/-- The rules of the grammar, each by way of all of them. -/
def rules (g : Grammar) : Grammar
  | .expression least ctx => expression g least ctx
  | .operand ctx => operand g ctx
  | .construct ctx => construct g ctx
  | .object => objectLiteral g
  | .array => arrayLiteral g
  | .element => element g
  | .statement => statement g

/-- The grammar for constructs nested at most this deep. -/
def grammar : Nat → Grammar
  | 0, _ => Parser.fail
  | depth + 1, goal => rules (grammar depth) goal

/-- A construct is nested in another only behind at least one character, and no more than this many
goals are asked for between two characters. -/
def goalsPerCharacter : Nat := 8

def program (depth : Nat) : Parser Unit := do
  skipGap true
  match (← cursor).lit? "#!" with
  | some body => leaf (.rule .hashBangLine) (body.skipWhile fun x => x != '\n')
  | none => pure ()
  statements (grammar depth) (pure false)
  skipGap true
  guard (← cursor).rest.isEmpty

/-- The tree over all nodes that were read. It starts where its first node does and ends with the
text. -/
def root (s : State) (stop : Nat) : Node :=
  let parts := s.nodes.reverse
  .node (.rule .program) none ((parts.head?.map Node.start).getD stop) stop parts

/-- The syntax tree of a text. -/
def parse (text : String) : Node :=
  let state := State.ofText text
  let run := program (goalsPerCharacter * (text.length + 1))
  let tree :=
    match run state with
    | .done _ s => root s text.utf8ByteSize
    | .stuck _ =>
      match run { state with repairing := true } with
      | .done _ s => root s text.utf8ByteSize
      | .stuck s => .node (.rule .error) none 0 text.utf8ByteSize s.nodes.reverse
  markDefaults tree

end InjectionScan.Script
