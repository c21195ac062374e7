import InjectionScan.Codec.Config
import InjectionScan.Document.Dialect
import InjectionScan.FileSystem
import InjectionScan.Toml.Printer
import InjectionScan.Toml.Reader

/-! The nearest configuration file above a place decides, also if it cannot be read. -/
namespace InjectionScan.Config

/-- Why a configuration is not read. -/
inductive LoadError where
  | unreadable (cause : FileError)
  /-- The text is no TOML document. -/
  | malformed
  | misshapen (cause : DecodeError)
deriving DecidableEq, Repr

/-- Why a configuration is not written. -/
inductive SaveError where
  /-- A number does not fit into the signed 64 bits that a file can hold. -/
  | outOfRange
  | unwritable (cause : FileError)
deriving DecidableEq, Repr

def SaveError.message : SaveError → String
  | outOfRange => "out-of-range value for u64 type"
  | unwritable cause => cause.message

/-- The configuration that a text describes. -/
def ofText (text : String) : Except LoadError Config :=
  match Toml.parse? text with
  | none => .error .malformed
  | some d =>
    match decode Toml.dialect d with
    | .ok c => .ok c
    | .error e => .error (.misshapen e)

def load (fs : FileSystem) (file : Path) : Except LoadError Config :=
  match fs.readText file with
  | .ok text => ofText text
  | .error e => .error (.unreadable e)

/-- The configuration file of a directory. -/
def fileIn (directory : Path) : Path := directory.join ⟨fileName⟩

/-- The configuration for a place: that of the first directory that has one, from the place itself
upwards, or else the default. -/
def find (fs : FileSystem) (start : Path) : Except LoadError Config :=
  match (start.ancestors.map fileIn).find? fs.exists? with
  | some file => load fs file
  | none => .ok {}

/-- The text of a configuration, if all its numbers can be written. -/
def toText (c : Config) : Except SaveError String :=
  if c.output.maxFindings < Nat.pow 2 63 then .ok (Toml.render c) else .error .outOfRange

/-- Writes a configuration. Nothing is written if it has no text. -/
def save (c : Config) (fs : FileSystem) (file : Path) : Except SaveError FileSystem :=
  match c.toText with
  | .error e => .error e
  | .ok text =>
    match fs.write file text with
    | .ok fs => .ok fs
    | .error e => .error (.unwritable e)

end InjectionScan.Config
