import InjectionScan.Command.Run

/-! The program: runs a command on the files that it can ask for. -/
namespace InjectionScan.Program

open Command

/-- Names that lead to a path from the root. -/
def namesOf (path : String) : List String :=
  (path.splitOn "/").filter fun s => !s.isEmpty

/-- Whether the content of a file below a scanned place can matter. -/
def isRead (name : String) : Bool :=
  name == ".gitignore" || name == ".ignore" || name == "exclude" || name == Config.fileName ||
    (Language.ofPath? ⟨name⟩).isSome

/-- Reads a file or directory with all that is below it. What cannot be read is left out. -/
partial def readTree (path name : String) (always : Bool) : IO (Option FileTree) := do
  try
    let real ← IO.FS.realPath path
    if ← real.isDir then
      let entries ← (← real.readDir).toList.filterMapM fun e => do
        let t ← readTree e.path.toString e.fileName false
        return t.map fun t => (e.fileName, t)
      return some (.directory entries)
    else if always || isRead name then return some (.file (← IO.FS.readBinFile path))
    else return some (.file .empty)
  catch _ => return none

/-- Files of a directory above the scanned place that can matter. -/
def outerFiles : List (List String) :=
  [[Config.fileName], [".gitignore"], [".ignore"], [".git", "info", "exclude"]]

/-- Reads what can matter in the directories above a place. -/
def readOuter (names : List String) (root : FileTree) : IO FileTree := do
  let mut tree := root
  for depth in List.range (names.length + 1) do
    let directory := names.take depth
    for file in outerFiles do
      let path := "/" ++ "/".intercalate (directory ++ file)
      try
        let content ← IO.FS.readBinFile path
        tree := tree.put (directory ++ file) (.file content)
      catch _ => pure ()
  return tree

/-- Makes sure that a directory is there. -/
def withDirectory (root : FileTree) (names : List String) : FileTree :=
  names.length.fold (fun i _ t =>
    let directory := names.take (i + 1)
    match FileSystem.lookup ⟨t, ⟨"/"⟩⟩ ⟨"/" ++ "/".intercalate directory⟩ with
    | .ok _ => t
    | .error _ => t.put directory (.directory [])) root

/-- The place that a task looks at, if it looks at files. -/
def placeOf : Task → Option Path
  | .scan path => some (path.getD ⟨"."⟩)
  | .test path => some (path.getD ⟨"."⟩)
  | .init path => some (path.getD ⟨"."⟩)
  | .explain _ => none

/-- The files that a task can ask for. -/
def filesFor (task : Task) (current : String) : IO FileSystem := do
  let start : FileTree := .directory []
  let tree ← match placeOf task with
    | none => pure start
    | some place =>
      try
        let real := (← IO.FS.realPath place.text).toString
        let names := namesOf real
        let outer ← readOuter names start
        match ← readTree real (names.getLastD "") true with
        | some t =>
          if names.isEmpty then pure t
          else pure (outer.put names t)
        | none => pure outer
      catch _ => pure start
  return ⟨withDirectory tree (namesOf current), ⟨current⟩⟩

/-- Whether colours are on: if asked for by the environment, or on a terminal. -/
def wantsColor : IO Bool := do
  let isOn (value : Option String) : Bool := value.any fun v => v != "0"
  if isOn (← IO.getEnv "CLICOLOR_FORCE") then return true
  if (← IO.getEnv "NO_COLOR").isSome || (← IO.getEnv "CLICOLOR") == some "0" then return false
  (← IO.getStdout).isTty

/-- A time in seconds with one place. -/
def secondsText (milliseconds : Nat) : String :=
  toString (milliseconds / 1000) ++ "." ++ toString (milliseconds % 1000 / 100) ++ "s"

/-- Writes the configuration that a task made. -/
def writeConfig (task : Task) (before after : FileSystem) : IO Unit := do
  match task with
  | .init path =>
    let file := Config.fileIn (path.getD ⟨"."⟩)
    unless before.exists? file do
      match after.readText file with
      | .ok text => IO.FS.writeFile file.text text
      | .error _ => pure ()
  | _ => pure ()

end InjectionScan.Program

open InjectionScan in
def main (words : List String) : IO UInt32 := do
  let current := (← IO.currentDir).toString
  let started ← IO.monoMsNow
  let files ← match Command.Arguments.parse words with
    | .ok arguments => Program.filesFor arguments.task current
    | .error _ => pure ⟨.directory [], ⟨current⟩⟩
  let read ← IO.monoMsNow
  let env : Command.Environment :=
    ⟨files, ← Program.wantsColor, Program.secondsText (read - started)⟩
  let result := Command.process env words
  IO.eprint result.stderr
  IO.print result.stdout
  if let .ok arguments := Command.Arguments.parse words then
    Program.writeConfig arguments.task files result.files
  return result.exitCode.toUInt32
