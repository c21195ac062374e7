import InjectionScan.Syntax.Node

/-! Places in a source text. Lines end at newline bytes only, and columns count bytes. -/
namespace InjectionScan.Syntax

structure Position where
  line : Nat
  column : Nat
deriving DecidableEq, Repr

namespace Position

/-- Where the first byte stands. -/
def origin : Position := ⟨1, 1⟩

/-- The place after one more byte. -/
def advance (p : Position) (byte : UInt8) : Position :=
  if byte = 10 then ⟨p.line + 1, 1⟩ else ⟨p.line, p.column + 1⟩

/-- The place of the byte at an offset: what the bytes before it add up to. -/
def ofOffset (source : String) (offset : Nat) : Position :=
  (source.toUTF8.toList.take offset).foldl advance origin

end Position

namespace Node

/-- The source text of a node; empty if its span does not cut the source between characters. -/
def text (source : String) (n : Node) : String :=
  let bytes := source.toUTF8
  if n.start ≤ n.stop ∧ n.stop ≤ bytes.size then
    (String.fromUTF8? (bytes.extract n.start n.stop)).getD ""
  else ""

def position (source : String) (n : Node) : Position :=
  Position.ofOffset source n.start

end Node

end InjectionScan.Syntax
