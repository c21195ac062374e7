import InjectionScan.Dictionary
import InjectionScan.FileSystem
import InjectionScan.Suppression.Directive
import InjectionScan.Suppression.Wildcard

/-! Splitting findings by rules for paths and by directives in the files. -/
namespace InjectionScan.Suppression

structure Suppressed where
  finding : Finding
  reason : String
deriving DecidableEq, Repr

/-- Both lists are in the order of the findings. -/
structure Split where
  kept : List Finding
  suppressed : List Suppressed
deriving DecidableEq, Repr

/-- Suppresses the findings that have a reason for it. -/
def splitBy (reason? : Finding → Option String) (findings : List Finding) : Split where
  kept := findings.filter fun f => (reason? f).isNone
  suppressed := findings.filterMap fun f => (reason? f).map fun reason => ⟨f, reason⟩

/-- The directives of a file; none if it cannot be read. -/
def fileDirectives (fs : FileSystem) (file : Path) : List (Nat × List String) :=
  match fs.readText file with
  | .ok content => directives content
  | .error _ => []

/-- The directives of each file that has findings, by the text that the file is shown as. -/
def allDirectives [Naming] (fs : FileSystem) (findings : List Finding) :
    List (String × List (Nat × List String)) :=
  findings.foldl (fun known f =>
    if (known.lookup f.file.shown).isSome then known
    else (f.file.shown, fileDirectives fs f.file) :: known) []

/-- Whether directives on the finding's line or on the line before cover it. -/
def isCovered (lines : List (Nat × List String)) (f : Finding) : Bool :=
  let on (n : Nat) : Bool := (lines.lookup n).any fun tokens => covers tokens f
  on f.line || (1 < f.line && on (f.line - 1))

/-- Applies the directives in the files. -/
def splitInline [Naming] (fs : FileSystem) (findings : List Finding) : Split :=
  let known := allDirectives fs findings
  splitBy (fun f =>
    if isCovered ((known.lookup f.file.shown).getD []) f then some "inline" else none) findings

/-- The first rule whose pattern fits the path below the root and whose tokens cover the finding. -/
def pathReason? [Naming] (rules : List (String × List Wildcard × List String)) (root : Path)
    (f : Finding) : Option String :=
  let path := ((f.file.relativeTo? root).getD f.file).shown.toList
  (rules.find? fun (_, pattern, tokens) => Wildcard.fits pattern path && covers tokens f).map
    fun (text, _, _) => "per-path rule: " ++ text

/-- Applies rules for paths, in the order of their patterns. What is no pattern is no rule. -/
def splitByPath [Naming] (perPath : Dictionary (List String)) (root : Path)
    (findings : List Finding) : Split :=
  let rules := perPath.entries.filterMap fun (text, tokens) =>
    (Wildcard.parse? text).map fun pattern => (text, pattern, tokens)
  splitBy (pathReason? rules root) findings

end InjectionScan.Suppression
