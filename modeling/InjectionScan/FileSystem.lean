import InjectionScan.Path

/-! Files and directories as values: a tree below the root, and a working directory. -/
namespace InjectionScan

inductive FileTree where
  | file (content : ByteArray)
  | directory (entries : List (String × FileTree))

namespace FileTree

def isDirectory : FileTree → Bool
  | directory _ => true
  | file _ => false

/-- What a directory holds, by name. -/
def entries : FileTree → List (String × FileTree)
  | directory es => es
  | file _ => []

def child? (t : FileTree) (name : String) : Option FileTree :=
  (t.entries.find? fun e => e.1 == name).map Prod.snd

/-- Puts something in place of the entry of that name, or at the end. -/
def setEntry (name : String) (t : FileTree) : List (String × FileTree) → List (String × FileTree)
  | [] => [(name, t)]
  | e :: es => if e.1 == name then (name, t) :: es else e :: setEntry name t es

/-- Puts something at the end of a chain of names; directories on the way are made. -/
def put (t : FileTree) (names : List String) (new : FileTree) : FileTree :=
  match names with
  | [] => new
  | name :: names =>
    directory (setEntry name (((t.child? name).getD (directory [])).put names new) t.entries)

end FileTree

/-- Why a file cannot be read or written. -/
inductive FileError where
  | notFound
  | notDirectory
  | isDirectory
  | invalidText
deriving DecidableEq, Repr

def FileError.message : FileError → String
  | notFound => "No such file or directory (os error 2)"
  | notDirectory => "Not a directory (os error 20)"
  | isDirectory => "Is a directory (os error 21)"
  | invalidText => "stream did not contain valid UTF-8"

structure FileSystem where
  root : FileTree
  /-- Absolute. -/
  current : Path

namespace FileSystem

/-- Follows segments of a path. The trail holds the names and trees from the place reached back to
the root. Only a directory can be passed through. -/
def follow (root : FileTree) :
    List (String × FileTree) → List (List Char) → Except FileError (List (String × FileTree))
  | trail, [] => .ok trail
  | trail, segment :: segments =>
    let place := (trail.head?.map Prod.snd).getD root
    if place.isDirectory then
      if segment == [] || segment == ['.'] then follow root trail segments
      else if segment == ['.', '.'] then follow root trail.tail segments
      else
        match place.child? (String.ofList segment) with
        | some t => follow root ((String.ofList segment, t) :: trail) segments
        | none => .error .notFound
    else .error .notDirectory

/-- The trail of names and trees to what a path leads to, innermost first; empty for the root. -/
def trail (fs : FileSystem) (p : Path) : Except FileError (List (String × FileTree)) :=
  if p.text.isEmpty then .error .notFound
  else follow fs.root [] (((fs.current.join p).segments).map Prod.fst)

def lookup (fs : FileSystem) (p : Path) : Except FileError FileTree :=
  (fs.trail p).map fun t => (t.head?.map Prod.snd).getD fs.root

def exists? (fs : FileSystem) (p : Path) : Bool :=
  match fs.lookup p with
  | .ok _ => true
  | .error _ => false

def isDirectory (fs : FileSystem) (p : Path) : Bool :=
  match fs.lookup p with
  | .ok t => t.isDirectory
  | .error _ => false

def isFile (fs : FileSystem) (p : Path) : Bool :=
  match fs.lookup p with
  | .ok t => !t.isDirectory
  | .error _ => false

def readBytes (fs : FileSystem) (p : Path) : Except FileError ByteArray :=
  match fs.lookup p with
  | .ok (.file content) => .ok content
  | .ok (.directory _) => .error .isDirectory
  | .error e => .error e

def readText (fs : FileSystem) (p : Path) : Except FileError String :=
  match fs.readBytes p with
  | .ok bytes =>
    match String.fromUTF8? bytes with
    | some text => .ok text
    | none => .error .invalidText
  | .error e => .error e

/-- The path without redundant segments, from the root on. -/
def canonical (fs : FileSystem) (p : Path) : Except FileError Path :=
  (fs.trail p).map fun t => ⟨"/" ++ String.intercalate "/" (t.reverse.map Prod.fst)⟩

/-- Segments without the empty ones that slashes at the end of a path leave. -/
def dropEndSlashes (segments : List (List Char)) : List (List Char) :=
  (segments.reverse.dropWhile List.isEmpty).reverse

/-- Writes a whole file. Its directory must be there. A name with a slash after it, and dots in place
of a name, stand for a directory, which is not written. -/
def write (fs : FileSystem) (p : Path) (text : String) : Except FileError FileSystem :=
  let segments := ((fs.current.join p).segments).map Prod.fst
  let named := dropEndSlashes segments
  if p.text.isEmpty then .error .notFound
  else
    match named.getLast? with
    | none => .error .isDirectory
    | some last =>
      match follow fs.root [] named.dropLast with
      | .error e => .error e
      | .ok t =>
        let place := (t.head?.map Prod.snd).getD fs.root
        let name := String.ofList last
        if !place.isDirectory then .error .notDirectory
        else if named.length < segments.length || last == ['.'] || last == ['.', '.'] ||
            (place.child? name).any FileTree.isDirectory then .error .isDirectory
        else
          .ok { fs with root := fs.root.put (t.reverse.map Prod.fst ++ [name]) (.file text.toUTF8) }

end FileSystem

end InjectionScan
