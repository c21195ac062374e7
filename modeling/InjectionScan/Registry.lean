import InjectionScan.FileSystem
import InjectionScan.Script.Program
import InjectionScan.Taint.Sink

/-! Running analyzers over files. A file that cannot be analysed is noted and skipped. -/
namespace InjectionScan

/-- Why a file is not analysed. -/
inductive AnalysisError where
  | unreadable (cause : FileError)
  | unsupported (extension : String)
deriving DecidableEq, Repr

def AnalysisError.message : AnalysisError → String
  | unreadable cause => "Failed to read file: " ++ cause.message
  | unsupported extension => "Unsupported language: " ++ extension

/-- Analyzers in the order of their registration. -/
abbrev Registry := List Analyzer

/-- The outcome of a run over several files. -/
structure Report where
  findings : List Finding
  /-- The files that were skipped, each with its reason. -/
  errors : List String
  filesAnalyzed : Nat
deriving DecidableEq, Repr

namespace Registry

def builtin : Registry := [Taint.sqlInjection]

/-- The analyzer with that name, or whose code is the part of the key before its first dash. Capitals
do not count in a code. -/
def find? (registry : Registry) (key : String) : Option Analyzer :=
  let code := String.ofList (key.toList.takeWhile fun c => c != '-')
  List.find? (fun a =>
    a.name == key || a.code.toList.map Char.toLower == code.toList.map Char.toLower) registry

/-- The findings of all enabled analyzers for a tree. -/
def analyzeTree (registry : Registry) (config : Config) (language : Language) (source : String)
    (file : Path) (root : Syntax.Node) : List Finding :=
  (registry.filter fun a => a.language == language && a.isEnabled config).flatMap fun a =>
    a.run config source file root

/-- The findings in a source text. They have no identifiers yet. -/
def analyzeSource [Naming] (registry : Registry) (config : Config) (source : String)
    (file : Path) : Except AnalysisError (List Finding) :=
  match Language.ofPath? file with
  | none => .error (.unsupported (file.extensionText?.getD "unknown"))
  | some language =>
    .ok (registry.analyzeTree config language source file (Script.parse source))

def analyzeFile [Naming] (registry : Registry) (config : Config) (fs : FileSystem) (file : Path) :
    Except AnalysisError (List Finding) :=
  match fs.readText file with
  | .ok source => registry.analyzeSource config source file
  | .error e => .error (.unreadable e)

/-- The first part of the identifiers of a rule's findings. -/
def codeOf (registry : Registry) (rule : String) : String :=
  ((List.find? (fun a => a.name == rule) registry).map Analyzer.code).getD "FINDING"

/-- A number with at least three digits. -/
def threeDigits (n : Nat) : String :=
  let digits := Nat.toDigits 10 n
  String.ofList (List.replicate (3 - digits.length) '0' ++ digits)

/-- The number of one more finding of a code, and the counters after it. A code has a counter from
its first finding on. -/
def countUp (code : String) : List (String × Nat) → Nat × List (String × Nat)
  | [] => (1, [(code, 1)])
  | (c, n) :: counters =>
    if c = code then (n + 1, (c, n + 1) :: counters)
    else
      let next := countUp code counters
      (next.1, (c, n) :: next.2)

/-- Numbers findings separately for each code, going on from the counters. -/
def numberAfter (registry : Registry) (counters : List (String × Nat)) :
    List Finding → List Finding
  | [] => []
  | f :: fs =>
    let code := registry.codeOf f.rule
    let next := countUp code counters
    { f with id := code ++ "-" ++ threeDigits next.1 } :: numberAfter registry next.2 fs

def number (registry : Registry) (findings : List Finding) : List Finding :=
  registry.numberAfter [] findings

/-- Runs over all files, numbers the findings and drops the ones that the configuration lists. -/
def runAll [Naming] (registry : Registry) (config : Config) (fs : FileSystem)
    (files : List Path) : Report :=
  let outcomes := files.map fun file => (file, registry.analyzeFile config fs file)
  let findings := outcomes.flatMap fun (_, outcome) => outcome.toOption.getD []
  let errors := outcomes.filterMap fun (file, outcome) =>
    match outcome with
    | .ok _ => none
    | .error e => some (file.shown ++ ": " ++ e.message)
  { findings := (registry.number findings).filter fun f => !config.ignore.findings.contains f.id
    errors
    filesAnalyzed := (outcomes.filter fun (_, outcome) => outcome.toOption.isSome).length }

end Registry

end InjectionScan
