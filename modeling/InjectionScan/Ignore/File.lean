import InjectionScan.FileSystem
import InjectionScan.Ignore.Rule
import InjectionScan.Text.Cut

/-! Files with ignore rules, and the rules that a directory brings along. -/
namespace InjectionScan.Ignore

/-- Bytes cut at newlines; nothing after the last one is no line. -/
def byteLines (line : List UInt8) : List UInt8 → List (List UInt8)
  | [] => if line.isEmpty then [] else [line.reverse]
  | b :: bs => if b = 10 then line.reverse :: byteLines [] bs else byteLines (b :: line) bs

/-- The lines of a file up to the first that is no text. -/
def textLines (content : ByteArray) : List (List Char) :=
  go (byteLines [] content.toList)
where
  go : List (List UInt8) → List (List Char)
    | [] => []
    | line :: lines =>
      match String.fromUTF8? ⟨line.toArray⟩ with
      | some text => Text.dropReturn text.toList :: go lines
      | none => []

/-- A mark at the start of a file is no part of its first line. -/
def dropMarks : List (List Char) → List (List Char)
  | [] => []
  | line :: lines => (line.dropWhile fun c => c.toNat == 0xFEFF) :: lines

/-- The rules of a file. Lines that are no rules are passed over. -/
def rulesOf (content : ByteArray) : List Rule :=
  (dropMarks (textLines content)).filterMap fun line =>
    match Rule.ofLine true line with
    | .ok rule => rule
    | .error _ => none

/-- The rules of a file in a directory, given by a chain of names. -/
def rulesIn (directory : FileTree) : List String → List Rule
  | [] =>
    match directory with
    | .file content => rulesOf content
    | .directory _ => []
  | name :: names =>
    match directory.child? name with
    | some t => rulesIn t names
    | none => []

/-- What a directory adds to the rules for everything below it. -/
structure Level where
  /-- How many names lead from the root to the directory. -/
  depth : Nat
  ignoreRules : List Rule
  gitRules : List Rule
  excludeRules : List Rule
  /-- Whether the directory is the top of a repository. -/
  hasGit : Bool

/-- The first line of a file as text. -/
def firstLine? (fs : FileSystem) (file : Path) : Option String :=
  match fs.readBytes file with
  | .ok content => (textLines content).head?.map String.ofList
  | .error _ => none

/-- The exclude rules of a repository whose data lies elsewhere: a file names the place, and a file
there the place that is shared. -/
def linkedExcludes [Naming] (fs : FileSystem) (content : ByteArray) : List Rule :=
  match (textLines content).head? with
  | none => []
  | some line =>
    match Text.after? "gitdir: ".toList line with
    | none => []
    | some place =>
      let gitDirectory : Path := .ofText (String.ofList place)
      match firstLine? fs (gitDirectory.join ⟨"commondir"⟩) with
      | none => []
      | some shared =>
        let common :=
          if shared.startsWith "." then gitDirectory.join (.ofText shared) else .ofText shared
        match fs.readBytes (common.join ⟨"info/exclude"⟩) with
        | .ok content => rulesOf content
        | .error _ => []

def Level.ofDirectory [Naming] (fs : FileSystem) (depth : Nat) (directory : FileTree) : Level where
  depth
  ignoreRules := rulesIn directory [".ignore"]
  gitRules := rulesIn directory [".gitignore"]
  excludeRules :=
    match directory.child? ".git" with
    | some (.file content) => linkedExcludes fs content
    | some (.directory _) => rulesIn directory [".git", "info", "exclude"]
    | none => []
  hasGit := (directory.child? ".git").isSome

/-- The path of an entry below the directory of a level. -/
def Level.pathBelow (l : Level) (names : List String) : String :=
  String.intercalate "/" (names.drop l.depth)

/-- The first verdict of the levels from the inside out. -/
def firstVerdict [Naming] (rules : Level → List Rule) (levels : List Level) (names : List String)
    (isDirectory : Bool) : Option Verdict :=
  levels.findSome? fun l => verdict (rules l) (l.pathBelow names) isDirectory

/-- The levels up to the innermost repository, that one included. -/
def withinRepository : List Level → List Level
  | [] => []
  | l :: ls => if l.hasGit then [l] else l :: withinRepository ls

/-- The verdict on an entry, given the levels around it from the inside out. Rules of `.ignore` files
come first. Rules of a repository count only inside one, and not those of a repository around it. -/
def levelsVerdict [Naming] (levels : List Level) (names : List String) (isDirectory : Bool) :
    Option Verdict :=
  let repository := if levels.any Level.hasGit then withinRepository levels else []
  (firstVerdict Level.ignoreRules levels names isDirectory).or
    ((firstVerdict Level.gitRules repository names isDirectory).or
      (firstVerdict Level.excludeRules repository names isDirectory))

end InjectionScan.Ignore
