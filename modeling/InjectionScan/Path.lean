import InjectionScan.Naming
import InjectionScan.Text.Cut

/-! File paths. Their components are what counts, not how they are written. -/
namespace InjectionScan

structure Path where
  text : String
deriving DecidableEq, Repr

namespace Path

inductive Component where
  | root
  /-- A leading `.`. -/
  | here
  | up
  | name (text : String)
deriving DecidableEq, Repr

def isAbsolute (p : Path) : Bool := p.text.toList.head? == some '/'

/-- The segments between slashes, without the one before a leading slash. Each has its number. -/
def segments (p : Path) : List (List Char × Nat) :=
  let all := Text.splitOn '/' p.text.toList
  (if p.isAbsolute then all.tail else all).zipIdx

/-- What a segment contributes; redundant segments contribute nothing. -/
def component? (absolute : Bool) (segment : List Char × Nat) : Option Component :=
  match segment with
  | ([], _) => none
  | (['.'], i) => if i = 0 && !absolute then some .here else none
  | (['.', '.'], _) => some .up
  | (cs, _) => some (.name (String.ofList cs))

def counts (p : Path) (segment : List Char × Nat) : Bool :=
  (component? p.isAbsolute segment).isSome

def components (p : Path) : List Component :=
  (if p.isAbsolute then [.root] else []) ++ p.segments.filterMap (component? p.isAbsolute)

/-- Segments without the redundant ones at the end. -/
def trimEnd (p : Path) (segments : List (List Char × Nat)) : List (List Char × Nat) :=
  (segments.reverse.dropWhile fun s => !p.counts s).reverse

/-- Segments joined by slashes. -/
def ofSegments (segments : List (List Char × Nat)) : String :=
  String.ofList (Text.joinWith '/' (segments.map Prod.fst))

def rebuild (p : Path) (segments : List (List Char × Nat)) : Path :=
  ⟨(if p.isAbsolute then "/" else "") ++ ofSegments segments⟩

/-- The path without its last component. The root and the empty path have none. -/
def parent? (p : Path) : Option Path :=
  let kept := p.trimEnd p.segments
  if kept.isEmpty then none else some (p.rebuild (p.trimEnd kept.dropLast))

/-- The path and its parents up to the root or the empty path. -/
def ancestors (p : Path) : List Path :=
  go (p.text.length + 1) p
where
  go : Nat → Path → List Path
    | 0, _ => []
    | fuel + 1, q =>
      match q.parent? with
      | some parent => q :: go fuel parent
      | none => [q]

/-- The path of something below a directory. An absolute path stays as it is. -/
def join (base child : Path) : Path :=
  if child.isAbsolute then child
  else if base.text.isEmpty || base.text.toList.getLast? == some '/' then
    ⟨base.text ++ child.text⟩
  else ⟨base.text ++ "/" ++ child.text⟩

/-- Segments after the first `n` that count. -/
def dropCounted (p : Path) : Nat → List (List Char × Nat) → List (List Char × Nat)
  | 0, segments => segments
  | _ + 1, [] => []
  | n + 1, s :: segments =>
    if p.counts s then p.dropCounted n segments else p.dropCounted (n + 1) segments

/-- The path below a base, if the components of the base come first. -/
def relativeTo? (p base : Path) : Option Path :=
  let inBase := base.components
  if inBase.isPrefixOf p.components then
    if inBase.isEmpty then some (p.rebuild (p.trimEnd p.segments))
    else
      let skipped := if p.isAbsolute then inBase.length - 1 else inBase.length
      let below := (p.dropCounted skipped p.segments).dropWhile fun s => !p.counts s
      some ⟨ofSegments (p.trimEnd below)⟩
  else none

/-- The last component if it is a name. -/
def fileName? (p : Path) : Option String :=
  match p.components.getLast? with
  | some (.name text) => some text
  | _ => none

/-- What follows the last dot of the file name, unless nothing stands before that dot. -/
def extension? (p : Path) : Option String :=
  match p.fileName? with
  | none => none
  | some name =>
    let pieces := Text.splitOn '.' name.toList
    if pieces.length < 2 || (pieces.length == 2 && pieces.head? == some []) then none
    else pieces.getLast?.map String.ofList

/-- The text to show for a path. -/
def shown [Naming] (p : Path) : String := Naming.shown p.text

@[simp] theorem shown_plain (p : Path) : @shown .plain p = p.text := rfl

def fileNameText? [Naming] (p : Path) : Option String := p.fileName?.bind Naming.text?

def extensionText? [Naming] (p : Path) : Option String := p.extension?.bind Naming.text?

/-- The path that is written from a text. -/
def ofText [Naming] (text : String) : Path := ⟨Naming.spelled text⟩

/-- The order of components: the root, `.`, `..`, then names by their text. -/
def Component.before : Component → Component → Bool
  | .name a, .name b => a < b
  | a, b => rank a < rank b
where
  rank : Component → Nat
    | .root => 0
    | .here => 1
    | .up => 2
    | .name _ => 3

/-- Component by component; a path comes before what is below it. -/
def componentsLe : List Component → List Component → Bool
  | [], _ => true
  | _ :: _, [] => false
  | a :: as, b :: bs => if a = b then componentsLe as bs else a.before b

def le (p q : Path) : Bool := componentsLe p.components q.components

end Path

end InjectionScan
