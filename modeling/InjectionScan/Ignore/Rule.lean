import InjectionScan.Ignore.Glob
import InjectionScan.Text.Cut

/-! Lines of ignore files. The last line that fits decides. -/
namespace InjectionScan.Ignore

structure Rule where
  glob : List Token
  isException : Bool
  onlyDirectories : Bool

/-- A pattern that is no pattern, with the line that holds it. -/
structure RuleError where
  line : String
  cause : GlobError
deriving DecidableEq, Repr

def RuleError.message (e : RuleError) : String :=
  "error parsing glob '" ++ e.line ++ "': " ++ e.cause.message

namespace Rule

/-- A line without blanks at its end, unless the last one is escaped. -/
def trimLine (cs : List Char) : List Char :=
  match cs.reverse with
  | ' ' :: '\\' :: _ => cs
  | _ => Text.trimEnd cs

/-- The pattern of a line and whether it holds from the directory of its file on. -/
def anchor (cs : List Char) : Bool × Bool × List Char :=
  match cs with
  | '\\' :: '!' :: rest => (false, false, '!' :: rest)
  | '\\' :: '#' :: rest => (false, false, '#' :: rest)
  | '!' :: '/' :: rest => (true, true, rest)
  | '!' :: rest => (true, false, rest)
  | '/' :: rest => (false, true, rest)
  | cs => (false, false, cs)

/-- A pattern without its last slash, and whether it had one. -/
def dropLastSlash (cs : List Char) : Bool × List Char :=
  match cs.reverse with
  | '/' :: '\\' :: rest => (true, rest.reverse)
  | '/' :: rest => (true, rest.reverse)
  | _ => (false, cs)

def startsAnywhere : List Char → Bool
  | ['*', '*'] => true
  | '*' :: '*' :: '/' :: _ => true
  | _ => false

/-- Lets a pattern without slashes fit at any depth. -/
def atAnyDepth (anchored : Bool) (cs : List Char) : List Char :=
  if anchored || cs.contains '/' || startsAnywhere cs then cs else '*' :: '*' :: '/' :: cs

/-- All below a directory does not take in the directory itself. -/
def onlyBelow (cs : List Char) : List Char :=
  match cs.reverse with
  | '*' :: '*' :: '/' :: _ => cs ++ ['/', '*']
  | _ => cs

/-- The rule of a line, if it is neither empty nor a comment. -/
def ofLine (lenient : Bool) (line : List Char) : Except RuleError (Option Rule) :=
  if line.head? == some '#' then .ok none
  else
    let line := trimLine line
    if line.isEmpty then .ok none
    else
      let (isException, anchored, pattern) := anchor line
      let (onlyDirectories, pattern) := dropLastSlash pattern
      match parseGlob lenient (onlyBelow (atAnyDepth anchored pattern)) with
      | .ok glob => .ok (some ⟨glob, isException, onlyDirectories⟩)
      | .error cause => .error ⟨String.ofList line, cause⟩

end Rule

/-- What rules say of a path. -/
inductive Verdict where
  | leftOut
  | kept
deriving DecidableEq, Repr

/-- The verdict of the last rule that fits a path, which is relative to the place of the rules. -/
def verdict [Naming] (rules : List Rule) (path : String) (isDirectory : Bool) : Option Verdict :=
  (rules.reverse.find? fun r =>
    (!r.onlyDirectories || isDirectory) && matchesPath r.glob path).map
    fun r => if r.isException then .kept else .leftOut

end InjectionScan.Ignore
