import InjectionScan.Dictionary
import InjectionScan.Finding

/-! The settings of a scan and their defaults. -/
namespace InjectionScan

def programName : String := "sqlscan"

def version : String := "0.1.0"

/-- When a scan fails. -/
structure Config.General where
  /-- The least severity that makes a scan fail. -/
  failOn : String := "critical"
deriving DecidableEq, Repr

structure Config.Rules where
  /-- Names of analyzers that do not run. -/
  disabled : List String := []
  /-- Severities by name of the analyzer, in place of its own. -/
  severity : Dictionary Severity := .empty
deriving DecidableEq, Repr

/-- What a scan leaves out. -/
structure Config.Ignore where
  paths : List String :=
    ["node_modules/", "bower_components/", "vendor/", "dist/", "build/", "coverage/", ".next/",
      ".git/"]
  /-- Identifiers of findings that are dropped. -/
  findings : List String := []
  /-- For files that match a pattern, tokens of the findings that are suppressed there. -/
  perPath : Dictionary (List String) := .empty
deriving DecidableEq, Repr

structure Config.Output where
  format : String := "terminal"
  color : Bool := true
  /-- How many findings are shown; zero stands for all. -/
  maxFindings : Nat := 0
deriving DecidableEq, Repr

structure Config where
  general : Config.General := {}
  rules : Config.Rules := {}
  ignore : Config.Ignore := {}
  output : Config.Output := {}
deriving DecidableEq, Repr

/-- The name of the file that holds a configuration. -/
def Config.fileName : String := ".sqlscan.toml"

end InjectionScan
