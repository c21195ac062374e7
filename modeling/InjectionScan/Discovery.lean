import InjectionScan.Ignore.File
import InjectionScan.Language
import InjectionScan.Text.Cut

/-! The files below a directory that are to be scanned. -/
namespace InjectionScan.Discovery

open Ignore

/-- Why files are not found. -/
inductive Error where
  | unreadable (cause : FileError)
  | badPattern (cause : RuleError)
deriving DecidableEq, Repr

def Error.message : Error → String
  | unreadable cause => cause.message
  | badPattern cause => cause.message

/-- The line of a pattern: all that fits it is left out, and a slash at its end stands for all below
the directory. -/
def patternLine (pattern : String) : List Char :=
  let cs := pattern.toList
  '!' :: if cs.getLast? == some '/' then cs ++ ['*', '*'] else cs

/-- The rules of the given patterns. -/
def patternRules : List String → Except RuleError (List Rule)
  | [] => .ok []
  | p :: ps => do
    let rule ← Rule.ofLine false (patternLine p)
    let rules ← patternRules ps
    return rule.toList ++ rules

/-- Patterns are written as exceptions and leave out what they fit. -/
def isOverridden [Naming] (rules : List Rule) (path : String) (isDirectory : Bool) : Option Verdict :=
  (verdict rules path isDirectory).map fun
    | .kept => .leftOut
    | .leftOut => .kept

def isHidden (name : String) : Bool := name.toList.head? == some '.'

/-- What a walk knows at every place. -/
structure Walk where
  files : FileSystem
  patterns : List Rule
  /-- How many names lead to the directory where the walk starts. -/
  depth : Nat

/-- Whether an entry is left out. -/
def Walk.skips [Naming] (w : Walk) (levels : List Level) (names : List String) (name : String)
    (isDirectory : Bool) : Bool :=
  let below := String.intercalate "/" (names.drop w.depth)
  match isOverridden w.patterns below isDirectory with
  | some v => v == .leftOut
  | none =>
    match levelsVerdict levels names isDirectory with
    | some v => v == .leftOut
    | none => isHidden name

mutual

/-- The files of a tree, each as the names that lead to it from the root. -/
def Walk.collect [Naming] (w : Walk) (levels : List Level) (names : List String) :
    FileTree → List (List String)
  | .file _ => [names]
  | .directory entries =>
    w.collectEntries (Level.ofDirectory w.files names.length (.directory entries) :: levels) names
      entries

def Walk.collectEntries [Naming] (w : Walk) (levels : List Level) (names : List String) :
    List (String × FileTree) → List (List String)
  | [] => []
  | (name, t) :: entries =>
    (if w.skips levels (names ++ [name]) name t.isDirectory then []
      else w.collect levels (names ++ [name]) t) ++
      w.collectEntries levels names entries

end

/-- The levels of the directories above a place, from the inside out, given the trail to it. -/
def outerLevels [Naming] (fs : FileSystem) : List (String × FileTree) → List Level
  | [] => []
  | _ :: trail =>
    let directory := (trail.head?.map Prod.snd).getD fs.root
    Level.ofDirectory fs trail.length directory :: outerLevels fs trail

def pathOf (names : List String) : Path := ⟨"/" ++ String.intercalate "/" names⟩

/-- The accepted files below a place, in the order of paths. -/
def search [Naming] (fs : FileSystem) (root : Path) (patterns : List String) (accept : Path → Bool) :
    Except Error (List Path) :=
  match fs.trail root with
  | .error e => .error (.unreadable e)
  | .ok trail =>
    match patternRules patterns with
    | .error e => .error (.badPattern e)
    | .ok rules =>
      let names := trail.reverse.map Prod.fst
      let tree := (trail.head?.map Prod.snd).getD fs.root
      let walk : Walk := ⟨fs, rules, names.length⟩
      let found := (walk.collect (outerLevels fs trail) names tree).map pathOf
      .ok ((found.filter accept).mergeSort Path.le)

/-- Whether a file has one of the extensions, which have a dot. -/
def hasExtension [Naming] (extensions : List String) (p : Path) : Bool :=
  match p.extensionText? with
  | some e => extensions.contains ("." ++ e)
  | none => false

/-- Whether the name of a file ends in `.test` and one of the extensions. -/
def isFixture [Naming] (extensions : List String) (p : Path) : Bool :=
  match p.fileNameText? with
  | some name => extensions.any fun e =>
      (Text.after? (".test" ++ e).toList.reverse name.toList.reverse).isSome
  | none => false

def sources [Naming] (fs : FileSystem) (root : Path) (extensions patterns : List String) :
    Except Error (List Path) :=
  search fs root patterns (hasExtension extensions)

def fixtures [Naming] (fs : FileSystem) (root : Path) (extensions patterns : List String) :
    Except Error (List Path) :=
  search fs root patterns (isFixture extensions)

end InjectionScan.Discovery
