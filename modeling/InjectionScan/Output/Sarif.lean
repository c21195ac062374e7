import InjectionScan.Document.Decode
import InjectionScan.Json.Printer
import InjectionScan.Registry

/-! Logs in the interchange format for results of static analysis. -/
namespace InjectionScan.Sarif

structure Message where
  text : String
deriving DecidableEq, Repr

structure Configuration where
  level : String
deriving DecidableEq, Repr

structure Properties where
  tags : List String
deriving DecidableEq, Repr

/-- What a log says of a rule. -/
structure Descriptor where
  id : String
  shortDescription : Message
  defaultConfiguration : Configuration
  properties : Properties
deriving DecidableEq, Repr

structure Artifact where
  uri : String
  uriBaseId : String
deriving DecidableEq, Repr

structure Region where
  startLine : Nat
  startColumn : Nat
deriving DecidableEq, Repr

structure PhysicalLocation where
  artifact : Artifact
  region : Region
deriving DecidableEq, Repr

structure Location where
  physical : PhysicalLocation
deriving DecidableEq, Repr

structure Result where
  ruleId : String
  ruleIndex : Nat
  level : String
  message : Message
  locations : List Location
deriving DecidableEq, Repr

structure Driver where
  name : String
  semanticVersion : String
  rules : List Descriptor
deriving DecidableEq, Repr

structure Tool where
  driver : Driver
deriving DecidableEq, Repr

structure Run where
  tool : Tool
  results : List Result
deriving DecidableEq, Repr

structure Log where
  schema : String
  version : String
  runs : List Run
deriving DecidableEq, Repr

/-- The format's word for a severity. -/
def levelOf : Severity → String
  | .critical | .error => "error"
  | .warning => "warning"
  | .info => "note"

/-- The text of a component of a path. -/
def componentText : Path.Component → String
  | .root => "/"
  | .here => "."
  | .up => ".."
  | .name text => text

/-- A path below the root, its components as shown and joined by slashes. Other paths are taken as
they are. -/
def uriOf [Naming] (file root : Path) : String :=
  let path := (file.relativeTo? root).getD file
  String.intercalate "/" (path.components.map fun c => Naming.shown (componentText c))

/-- The descriptor of a finding's rule. What the analyzer says of itself counts, if there is one. -/
def describe (registry : Registry) (f : Finding) : Descriptor :=
  let analyzer := registry.find? f.rule
  { id := f.rule
    shortDescription := ⟨(analyzer.map Analyzer.description).getD f.rule⟩
    defaultConfiguration := ⟨levelOf ((analyzer.map Analyzer.severity).getD f.severity)⟩
    properties := ⟨[f.category.name]⟩ }

/-- The descriptors of all rules with findings; the first finding of a rule decides. -/
def rulesOf (registry : Registry) (findings : List Finding) : Dictionary Descriptor :=
  findings.foldl (fun rules f =>
    if (rules.get? f.rule).isSome then rules else rules.insert f.rule (describe registry f)) .empty

def resultOf [Naming] (rules : Dictionary Descriptor) (root : Path) (f : Finding) : Result where
  ruleId := f.rule
  ruleIndex := (rules.entries.findIdx? fun e => e.1 == f.rule).getD 0
  level := levelOf f.severity
  message := ⟨f.message⟩
  locations :=
    [⟨⟨uriOf f.file root, "%SRCROOT%"⟩, ⟨max f.line 1, max f.column 1⟩⟩]

def schema : String :=
  "https://raw.githubusercontent.com/oasis-tcs/sarif-spec/main/sarif-2.1/schema/" ++
    "sarif-schema-2.1.0.json"

/-- The log of a list of findings. -/
def logOf [Naming] (registry : Registry) (root : Path) (findings : List Finding) : Log :=
  let rules := rulesOf registry findings
  { schema
    version := "2.1.0"
    runs :=
      [⟨⟨programName, InjectionScan.version, rules.entries.map Prod.snd⟩,
        findings.map (resultOf rules root)⟩] }

namespace Message

def encode (m : Message) : Document := .object [("text", .string m.text)]

def decode : Decoder Message :=
  Record.decode "SarifMessage" (Message.mk <$> Record.field "text" Decoder.string)

end Message

namespace Configuration

def encode (c : Configuration) : Document := .object [("level", .string c.level)]

def decode : Decoder Configuration :=
  Record.decode "SarifConfiguration" (Configuration.mk <$> Record.field "level" Decoder.string)

end Configuration

namespace Properties

def encode (p : Properties) : Document := .object [("tags", .strings p.tags)]

def decode : Decoder Properties :=
  Record.decode "SarifProperties"
    (Properties.mk <$> Record.field "tags" (Decoder.list Decoder.string))

end Properties

namespace Descriptor

def encode (d : Descriptor) : Document :=
  .object [("id", .string d.id), ("shortDescription", d.shortDescription.encode),
    ("defaultConfiguration", d.defaultConfiguration.encode), ("properties", d.properties.encode)]

def decode : Decoder Descriptor :=
  Record.decode "SarifReportingDescriptor"
    (Descriptor.mk <$>
      Record.field "id" Decoder.string <*>
      Record.field "shortDescription" Message.decode <*>
      Record.field "defaultConfiguration" Configuration.decode <*>
      Record.field "properties" Properties.decode)

end Descriptor

namespace Artifact

def encode (a : Artifact) : Document :=
  .object [("uri", .string a.uri), ("uriBaseId", .string a.uriBaseId)]

def decode : Decoder Artifact :=
  Record.decode "SarifArtifactLocation"
    (Artifact.mk <$> Record.field "uri" Decoder.string <*> Record.field "uriBaseId" Decoder.string)

end Artifact

namespace Region

def encode (r : Region) : Document :=
  .object [("startLine", .nat r.startLine), ("startColumn", .nat r.startColumn)]

def decode : Decoder Region :=
  Record.decode "SarifRegion"
    (Region.mk <$>
      Record.field "startLine" Decoder.count <*>
      Record.field "startColumn" Decoder.count)

end Region

namespace PhysicalLocation

def encode (p : PhysicalLocation) : Document :=
  .object [("artifactLocation", p.artifact.encode), ("region", p.region.encode)]

def decode : Decoder PhysicalLocation :=
  Record.decode "SarifPhysicalLocation"
    (PhysicalLocation.mk <$>
      Record.field "artifactLocation" Artifact.decode <*>
      Record.field "region" Region.decode)

end PhysicalLocation

namespace Location

def encode (l : Location) : Document := .object [("physicalLocation", l.physical.encode)]

def decode : Decoder Location :=
  Record.decode "SarifLocation"
    (Location.mk <$> Record.field "physicalLocation" PhysicalLocation.decode)

end Location

namespace Result

def encode (r : Result) : Document :=
  .object [("ruleId", .string r.ruleId), ("ruleIndex", .nat r.ruleIndex),
    ("level", .string r.level), ("message", r.message.encode),
    ("locations", .array (r.locations.map Location.encode))]

def decode : Decoder Result :=
  Record.decode "SarifResult"
    (Result.mk <$>
      Record.field "ruleId" Decoder.string <*>
      Record.field "ruleIndex" Decoder.count <*>
      Record.field "level" Decoder.string <*>
      Record.field "message" Message.decode <*>
      Record.field "locations" (Decoder.list Location.decode))

end Result

namespace Driver

def encode (d : Driver) : Document :=
  .object [("name", .string d.name), ("semanticVersion", .string d.semanticVersion),
    ("rules", .array (d.rules.map Descriptor.encode))]

def decode : Decoder Driver :=
  Record.decode "SarifDriver"
    (Driver.mk <$>
      Record.field "name" Decoder.string <*>
      Record.field "semanticVersion" Decoder.string <*>
      Record.field "rules" (Decoder.list Descriptor.decode))

end Driver

namespace Tool

def encode (t : Tool) : Document := .object [("driver", t.driver.encode)]

def decode : Decoder Tool :=
  Record.decode "SarifTool" (Tool.mk <$> Record.field "driver" Driver.decode)

end Tool

namespace Run

def encode (r : Run) : Document :=
  .object [("tool", r.tool.encode), ("results", .array (r.results.map Result.encode))]

def decode : Decoder Run :=
  Record.decode "SarifRun"
    (Run.mk <$> Record.field "tool" Tool.decode <*>
      Record.field "results" (Decoder.list Result.decode))

end Run

namespace Log

def encode (l : Log) : Document :=
  .object [("$schema", .string l.schema), ("version", .string l.version),
    ("runs", .array (l.runs.map Run.encode))]

def decode : Decoder Log :=
  Record.decode "SarifLog"
    (Log.mk <$>
      Record.field "$schema" Decoder.string <*>
      Record.field "version" Decoder.string <*>
      Record.field "runs" (Decoder.list Run.decode))

/-- The text of a log. -/
def render (l : Log) : String := Json.pretty 0 l.encode

end Log

end InjectionScan.Sarif
