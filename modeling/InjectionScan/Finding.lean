import InjectionScan.Path

/-! What an analysis reports: where, by which rule, and how severe. -/
namespace InjectionScan

/-- From the most severe on. -/
inductive Severity where
  | critical
  | error
  | warning
  | info
deriving DecidableEq, Repr

namespace Severity

def all : List Severity := [.critical, .error, .warning, .info]

def name : Severity → String
  | .critical => "critical"
  | .error => "error"
  | .warning => "warning"
  | .info => "info"

/-- Zero is the most severe. -/
def rank : Severity → Nat
  | .critical => 0
  | .error => 1
  | .warning => 2
  | .info => 3

/-- The most severe first. -/
def sort (severities : List Severity) : List Severity :=
  severities.mergeSort fun a b => a.rank ≤ b.rank

end Severity

inductive Category where
  | security
  | bugRisk
  | performance
  | style
deriving DecidableEq, Repr

namespace Category

def all : List Category := [.security, .bugRisk, .performance, .style]

def name : Category → String
  | .security => "security"
  | .bugRisk => "bug-risk"
  | .performance => "performance"
  | .style => "style"

end Category

/-- Lines and columns start at one; columns count bytes. -/
structure Finding where
  id : String
  rule : String
  severity : Severity
  category : Category
  message : String
  file : Path
  line : Nat
  column : Nat
  suggestion : Option String
deriving DecidableEq, Repr

end InjectionScan
