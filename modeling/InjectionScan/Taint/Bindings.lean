import InjectionScan.Dictionary
import InjectionScan.Syntax.Cursor
import InjectionScan.Syntax.Source

/-! The table of variables of a program. The last declaration of a name counts. -/
namespace InjectionScan.Taint

open Syntax

abbrev Bindings := Dictionary Node

namespace Bindings

/-- Binds a name; the empty name is never bound. -/
def bind (table : Bindings) (name : String) (value : Node) : Bindings :=
  if name.isEmpty then table else table.insert name value

/-- The name and value that a node declares: a declarator of a plain name with an initial value. -/
def declared? (source : String) (n : Node) : Option (String × Node) :=
  if n.hasRule .variableDeclarator then
    match n.child? .name, n.child? .value with
    | some name, some value =>
      if name.hasRule .identifier then some (name.text source, value) else none
    | _, _ => none
  else none

/-- The table of a whole tree. -/
def collect (source : String) (root : Node) : Bindings :=
  root.walk.foldl (fun table n =>
    match declared? source n with
    | some (name, value) => table.bind name value
    | none => table) .empty

end Bindings

end InjectionScan.Taint
