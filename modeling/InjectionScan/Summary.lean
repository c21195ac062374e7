import InjectionScan.Finding

/-! How many findings of each severity a scan has, and whether they make it fail. -/
namespace InjectionScan

structure Summary where
  critical : Nat := 0
  errors : Nat := 0
  warnings : Nat := 0
  info : Nat := 0
  suppressed : Nat := 0
  filesAnalyzed : Nat := 0
deriving DecidableEq, Repr

namespace Summary

/-- One more finding of a severity. -/
def add (s : Summary) : Severity → Summary
  | .critical => { s with critical := s.critical + 1 }
  | .error => { s with errors := s.errors + 1 }
  | .warning => { s with warnings := s.warnings + 1 }
  | .info => { s with info := s.info + 1 }

def ofFindings (findings : List Finding) (filesAnalyzed : Nat) : Summary :=
  findings.foldl (fun s f => s.add f.severity) { filesAnalyzed }

/-- The number of findings that were not suppressed. -/
def total (s : Summary) : Nat := s.critical + s.errors + s.warnings + s.info

/-- Whether there are findings as severe as a threshold. No finding is as severe as `never`, and a
word that is no severity stands for `error`. -/
def exceeds (s : Summary) (threshold : String) : Bool :=
  if threshold = "critical" then 0 < s.critical
  else if threshold = "error" then 0 < s.critical || 0 < s.errors
  else if threshold = "warning" then 0 < s.critical || 0 < s.errors || 0 < s.warnings
  else if threshold = "info" then 0 < s.total
  else if threshold = "never" then false
  else 0 < s.critical || 0 < s.errors

end Summary

end InjectionScan
