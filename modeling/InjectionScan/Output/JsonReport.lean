import InjectionScan.Codec.Finding
import InjectionScan.Document.Dialect
import InjectionScan.Json.Printer

/-! The report of a scan as a JSON document: its findings and their summary. -/
namespace InjectionScan

/-- A finding as reported; severity and category are plain words. -/
structure JsonReport.Entry where
  id : String
  rule : String
  severity : String
  category : String
  message : String
  file : String
  line : Nat
  column : Nat
  suggestion : Option String
deriving DecidableEq, Repr

structure JsonReport where
  findings : List JsonReport.Entry
  summary : Summary
deriving DecidableEq, Repr

namespace JsonReport

namespace Entry

def ofFinding [Naming] (f : Finding) : Entry :=
  ⟨f.id, f.rule, f.severity.name, f.category.name, f.message, f.file.shown, f.line, f.column,
    f.suggestion⟩

def encode (e : Entry) : Document :=
  .object ([("id", .string e.id), ("rule", .string e.rule), ("severity", .string e.severity),
    ("category", .string e.category), ("message", .string e.message), ("file", .string e.file),
    ("line", .nat e.line), ("column", .nat e.column)] ++ optionalField "suggestion" e.suggestion)

def record : Record Entry :=
  Entry.mk <$>
    Record.field "id" Decoder.string <*>
    Record.field "rule" Decoder.string <*>
    Record.field "severity" Decoder.string <*>
    Record.field "category" Decoder.string <*>
    Record.field "message" Decoder.string <*>
    Record.field "file" Decoder.string <*>
    Record.field "line" Decoder.count <*>
    Record.field "column" Decoder.count <*>
    Record.fieldOr "suggestion" (Decoder.optional Decoder.string) none

def decode : Decoder Entry := record.decode "JsonFinding"

end Entry

def ofFindings [Naming] (findings : List Finding) (summary : Summary) : JsonReport :=
  ⟨findings.map Entry.ofFinding, summary⟩

def encode (r : JsonReport) : Document :=
  .object [("findings", .array (r.findings.map Entry.encode)), ("summary", r.summary.encode)]

def record : Record JsonReport :=
  JsonReport.mk <$>
    Record.field "findings" (Decoder.list Entry.decode) <*>
    Record.field "summary" (Summary.record.decode "JsonSummary")

def decode : Decoder JsonReport := record.decode "JsonOutput"

/-- The text of a report. -/
def render (r : JsonReport) : String := Json.pretty 0 r.encode

end JsonReport

end InjectionScan
