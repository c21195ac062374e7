import InjectionScan.Codec.Finding
import InjectionScan.Config

/-! Configurations as documents. A part that is left out has its default. -/
namespace InjectionScan.Config

/-- A dictionary as an object, in the order of its names. -/
def encodeEntries {α : Type} (encode : α → Document) (d : Dictionary α) : Document :=
  .object (d.entries.map fun e => (e.1, encode e.2))

namespace General

def encode (g : General) : Document := .object [("fail_on", .string g.failOn)]

def record : Record General :=
  General.mk <$> Record.fieldOr "fail_on" Decoder.string ({} : General).failOn

def decode : Decoder General := record.decode "GeneralConfig"

end General

namespace Rules

def encode (r : Rules) : Document :=
  .object [("disabled", .strings r.disabled), ("severity", encodeEntries Severity.encode r.severity)]

def record : Record Rules :=
  Rules.mk <$>
    Record.fieldOr "disabled" (Decoder.list Decoder.string) [] <*>
    Record.fieldOr "severity" (Decoder.dictionary Severity.decode) .empty

def decode : Decoder Rules := record.decode "RulesConfig"

end Rules

namespace Ignore

def encode (i : Ignore) : Document :=
  .object [("paths", .strings i.paths), ("findings", .strings i.findings),
    ("per_path", encodeEntries Document.strings i.perPath)]

def record : Record Ignore :=
  Ignore.mk <$>
    Record.fieldOr "paths" (Decoder.list Decoder.string) ({} : Ignore).paths <*>
    Record.fieldOr "findings" (Decoder.list Decoder.string) [] <*>
    Record.fieldOr "per_path" (Decoder.dictionary (Decoder.list Decoder.string)) .empty

def decode : Decoder Ignore := record.decode "IgnoreConfig"

end Ignore

namespace Output

def encode (o : Output) : Document :=
  .object [("format", .string o.format), ("color", .bool o.color),
    ("max_findings", .nat o.maxFindings)]

def record : Record Output :=
  Output.mk <$>
    Record.fieldOr "format" Decoder.string ({} : Output).format <*>
    Record.fieldOr "color" Decoder.bool true <*>
    Record.fieldOr "max_findings" Decoder.count 0

def decode : Decoder Output := record.decode "OutputConfig"

end Output

def encode (c : Config) : Document :=
  .object [("general", c.general.encode), ("rules", c.rules.encode), ("ignore", c.ignore.encode),
    ("output", c.output.encode)]

def record : Record Config :=
  Config.mk <$>
    Record.fieldOr "general" General.decode {} <*>
    Record.fieldOr "rules" Rules.decode {} <*>
    Record.fieldOr "ignore" Ignore.decode {} <*>
    Record.fieldOr "output" Output.decode {}

def decode : Decoder Config := record.decode "ScanConfig"

end InjectionScan.Config
