import InjectionScan.Config
import InjectionScan.Language
import InjectionScan.Syntax.Cursor
import InjectionScan.Syntax.Source

/-! An analyzer makes remarks about nodes of a tree, and each of them becomes a finding. -/
namespace InjectionScan

open Syntax

/-- What an analyzer has to say about a node. -/
structure Remark where
  node : Node
  message : String
  suggestion : Option String := none

structure Analyzer where
  name : String
  /-- The first part of the identifiers of its findings. -/
  code : String
  language : Language := .javascript
  description : String
  category : Category
  severity : Severity
  /-- The remarks about a file, given its source and the root of its tree. -/
  inspect : String → Path → Node → List Remark

namespace Analyzer

/-- An analyzer that reports all nodes of one kind. -/
def ofKind (name code description message kind : String) (category : Category)
    (severity : Severity) (suggestion : Option String) : Analyzer where
  name
  code
  description
  category
  severity
  inspect _ _ root :=
    (root.walk.filter fun n => n.kind.name == kind).map fun n => ⟨n, message, suggestion⟩

def isEnabled (a : Analyzer) (config : Config) : Bool :=
  !config.rules.disabled.contains a.name

/-- The severity of its findings, which the configuration may set. -/
def effectiveSeverity (a : Analyzer) (config : Config) : Severity :=
  (config.rules.severity.get? a.name).getD a.severity

/-- The finding for a remark; it has no identifier yet. -/
def report (a : Analyzer) (config : Config) (source : String) (file : Path) (r : Remark) :
    Finding :=
  let place := r.node.position source
  { id := ""
    rule := a.name
    severity := a.effectiveSeverity config
    category := a.category
    message := r.message
    file
    line := place.line
    column := place.column
    suggestion := r.suggestion }

/-- All findings of an analyzer in one tree. -/
def run (a : Analyzer) (config : Config) (source : String) (file : Path) (root : Node) :
    List Finding :=
  (a.inspect source file root).map (a.report config source file)

end Analyzer

end InjectionScan
