import InjectionScan.Document.Decode
import InjectionScan.Summary

/-! Findings and summaries as documents. -/
namespace InjectionScan

namespace Severity

def encode (s : Severity) : Document := .string s.name

def decode : Decoder Severity := Decoder.choice all name

end Severity

namespace Category

def encode (c : Category) : Document := .string c.name

def decode : Decoder Category := Decoder.choice all name

end Category

/-- The field of an optional text; it is left out if there is none. -/
def optionalField (name : String) : Option String → List (String × Document)
  | some s => [(name, .string s)]
  | none => []

namespace Finding

def encode (f : Finding) : Document :=
  .object ([("id", .string f.id), ("rule", .string f.rule), ("severity", f.severity.encode),
    ("category", f.category.encode), ("message", .string f.message),
    ("file", .string f.file.text), ("line", .nat f.line), ("column", .nat f.column)] ++
    optionalField "suggestion" f.suggestion)

def record : Record Finding :=
  (fun id rule severity category message file line column suggestion =>
    ⟨id, rule, severity, category, message, ⟨file⟩, line, column, suggestion⟩) <$>
    Record.field "id" Decoder.string <*>
    Record.field "rule" Decoder.string <*>
    Record.field "severity" Severity.decode <*>
    Record.field "category" Category.decode <*>
    Record.field "message" Decoder.string <*>
    Record.field "file" (Decoder.text "path string") <*>
    Record.field "line" Decoder.count <*>
    Record.field "column" Decoder.count <*>
    Record.fieldOr "suggestion" (Decoder.optional Decoder.string) none

def decode : Decoder Finding := record.decode "Finding"

end Finding

namespace Summary

def encode (s : Summary) : Document :=
  .object [("critical", .nat s.critical), ("errors", .nat s.errors), ("warnings", .nat s.warnings),
    ("info", .nat s.info), ("suppressed", .nat s.suppressed),
    ("files_analyzed", .nat s.filesAnalyzed)]

def record : Record Summary :=
  Summary.mk <$>
    Record.field "critical" Decoder.count <*>
    Record.field "errors" Decoder.count <*>
    Record.field "warnings" Decoder.count <*>
    Record.field "info" Decoder.count <*>
    Record.field "suppressed" Decoder.count <*>
    Record.field "files_analyzed" Decoder.count

def decode : Decoder Summary := record.decode "ScanSummary"

end Summary

end InjectionScan
