import InjectionScan.Registry
import InjectionScan.Text.Cut

/-! Fixtures say on the line before what is to be found on a line. -/
namespace InjectionScan

structure Expectation where
  /-- The line on which the finding is expected. -/
  line : Nat
  rule : String
  message : Option String
deriving DecidableEq, Repr

namespace Expectation

def marker : List Char := "<expect-error>".toList

def isRuleChar (c : Char) : Bool := Text.isWordChar c || c == '-'

/-- Text without blanks at its end and one close of a block comment. -/
def dropClose (cs : List Char) : List Char :=
  let trimmed := Text.trimEnd cs
  match trimmed.reverse with
  | '/' :: '*' :: rest => Text.trimEnd rest.reverse
  | _ => trimmed

/-- The rule and message after a marker. After the rule comes a colon or nothing but the close of a
comment. -/
def body? (cs : List Char) : Option (String × Option String) :=
  match cs with
  | [] => none
  | b :: cs =>
    if Text.isBlank b then
      let cs := cs.dropWhile Text.isBlank
      let rule := cs.takeWhile isRuleChar
      let tail := (cs.dropWhile isRuleChar).dropWhile Text.isBlank
      if rule.isEmpty then none
      else
        match tail with
        | ':' :: text =>
          let message := Text.trim (dropClose text)
          some (String.ofList rule, if message.isEmpty then none else some (String.ofList message))
        | _ => if (dropClose tail).isEmpty then some (String.ofList rule, none) else none
    else none

/-- The first annotation on a line. -/
def ofLine? : List Char → Option (String × Option String)
  | [] => none
  | c :: cs =>
    match (Text.after? marker (c :: cs)).bind body? with
    | some found => some found
    | none => ofLine? cs

/-- The annotations on lines, the first of which has the number given. -/
def parseFrom : Nat → List (List Char) → List Expectation
  | _, [] => []
  | n, line :: lines =>
    match ofLine? line with
    | some (rule, message) => ⟨n + 1, rule, message⟩ :: parseFrom (n + 1) lines
    | none => parseFrom (n + 1) lines

def parse (source : String) : List Expectation := parseFrom 1 (Text.lines source)

/-- Whether a finding is what is expected. -/
def isMetBy (e : Expectation) (f : Finding) : Bool :=
  f.line == e.line && f.rule == e.rule &&
    e.message.all fun m => Text.occursIn m.toList f.message.toList

/-- How the findings of a fixture compare with its annotations. -/
structure Outcome where
  file : Path
  /-- Expectations that no finding meets. -/
  missing : List Expectation
  /-- Findings that meet no expectation. -/
  unexpected : List Finding
  matched : Nat
deriving DecidableEq, Repr

def Outcome.passed (o : Outcome) : Bool := o.missing.isEmpty && o.unexpected.isEmpty

/-- Each expectation takes the first finding left that meets it. -/
def compare (file : Path) : List Expectation → List Finding → Outcome
  | [], findings => ⟨file, [], findings, 0⟩
  | e :: es, findings =>
    match findings.find? e.isMetBy with
    | some _ =>
      let rest := compare file es (findings.eraseP e.isMetBy)
      { rest with matched := rest.matched + 1 }
    | none =>
      let rest := compare file es findings
      { rest with missing := e :: rest.missing }

/-- Analyses a source and compares it with its annotations. -/
def checkSource [Naming] (registry : Registry) (config : Config) (source : String) (file : Path) :
    Except AnalysisError Outcome :=
  (registry.analyzeSource config source file).map (compare file (parse source))

def checkFile [Naming] (registry : Registry) (config : Config) (fs : FileSystem) (file : Path) :
    Except AnalysisError Outcome :=
  match fs.readText file with
  | .ok source => checkSource registry config source file
  | .error e => .error (.unreadable e)

end Expectation

end InjectionScan
