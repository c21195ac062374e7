import InjectionScan.Path

/-! Languages that can be analysed, told by the extension of a file. -/
namespace InjectionScan

inductive Language where
  | javascript
deriving DecidableEq, Repr

namespace Language

def all : List Language := [.javascript]

def name : Language → String
  | .javascript => "javascript"

/-- Extensions with their dot. -/
def extensions : Language → List String
  | .javascript => [".js", ".jsx", ".mjs", ".cjs"]

def supportedExtensions : List String := all.flatMap extensions

/-- The language of a file. Capitals in the extension count as small letters; only the plain
letters matter here, as no other letter has one of them as its small form. -/
def ofPath? [Naming] (p : Path) : Option Language :=
  match p.extensionText? with
  | none => none
  | some e =>
    all.find? fun l => l.extensions.contains ("." ++ String.ofList (e.toList.map Char.toLower))

end Language

end InjectionScan
