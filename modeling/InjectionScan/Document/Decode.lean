import InjectionScan.Dictionary
import InjectionScan.Document.Value
import InjectionScan.Text.Quoted

/-! Reading typed values out of documents. -/
namespace InjectionScan

/-- Why a document does not hold the value that is asked for. -/
inductive DecodeError where
  | invalidType (found expected : String)
  | invalidValue (found expected : String)
  | invalidLength (found : Nat) (expected : String)
  | unknownVariant (found : String) (known : List String)
  | missingField (name : String)
  /-- A choice that is neither a name nor a table. -/
  | notChoice
  /-- A choice given by a table that does not have one entry. -/
  | notSingle (empty : Bool)
  /-- A choice that has a value although it takes none. -/
  | notEmpty (kind : String)
  | notTable (found : String)
deriving DecidableEq, Repr

/-- Names in backquotes, separated by commas. -/
def backquoted (names : List String) : String :=
  String.intercalate ", " (names.map fun n => "`" ++ n ++ "`")

def DecodeError.message : DecodeError → String
  | invalidType found expected => "invalid type: " ++ found ++ ", expected " ++ expected
  | invalidValue found expected => "invalid value: " ++ found ++ ", expected " ++ expected
  | invalidLength found expected => "invalid length " ++ toString found ++ ", expected " ++ expected
  | unknownVariant found known =>
    "unknown variant `" ++ found ++ "`, expected one of " ++ backquoted known
  | missingField name => "missing field `" ++ name ++ "`"
  | notChoice => "wanted string or table"
  | notSingle empty =>
    "wanted exactly 1 element, " ++ if empty then "found 0 elements" else "more than 1 element"
  | notEmpty kind => "expected empty " ++ kind
  | notTable found => "expected table, found " ++ found

namespace Document

/-- What a value is, for messages. -/
def describe : Document → String
  | null => "null"
  | bool b => "boolean `" ++ (if b then "true" else "false") ++ "`"
  | integer n => "integer `" ++ toString n ++ "`"
  | decimal d => "floating point `" ++ d.render ++ "`"
  | string s => "string " ++ Text.quote s
  | stamp _ => "map"
  | array _ => "sequence"
  | object _ => "map"

end Document

/-- What the notations of documents do differently when they are read into types. -/
structure Dialect where
  /-- Whether an array may have more elements than the record that is read from it. -/
  allowsExtra : Bool
  /-- The name of a choice among the given ones. -/
  choice : List String → Document → Except DecodeError String

abbrev Decoder (α : Type) := Dialect → Document → Except DecodeError α

namespace Decoder

/-- A string, described by the words given. -/
def text (expected : String) : Decoder String
  | _, .string s => .ok s
  | _, d => .error (.invalidType d.describe expected)

def string : Decoder String := text "a string"

def bool : Decoder Bool
  | _, .bool b => .ok b
  | _, d => .error (.invalidType d.describe "a boolean")

/-- A count of 64 bits. -/
def count : Decoder Nat
  | _, .integer n =>
    if 0 ≤ n && n < Nat.pow 2 64 then .ok n.toNat
    else .error (.invalidValue (Document.integer n).describe "usize")
  | _, d => .error (.invalidType d.describe "usize")

/-- Something that may be null. -/
def optional {α : Type} (item : Decoder α) : Decoder (Option α)
  | _, .null => .ok none
  | dialect, d => (item dialect d).map some

def list {α : Type} (item : Decoder α) : Decoder (List α)
  | dialect, .array items => items.mapM (item dialect)
  | _, d => .error (.invalidType d.describe "a sequence")

def entriesOf {α : Type} (item : Decoder α) (dialect : Dialect) :
    List (String × Document) → Except DecodeError (List (String × α))
  | [] => .ok []
  | (name, d) :: fields => do
    let value ← item dialect d
    let entries ← entriesOf item dialect fields
    return (name, value) :: entries

/-- A stamp is read as a map with one entry. -/
def dictionary {α : Type} (item : Decoder α) : Decoder (Dictionary α)
  | dialect, .object fields => (entriesOf item dialect fields).map Dictionary.ofList
  | dialect, .stamp s => (entriesOf item dialect [("", .string s)]).map Dictionary.ofList
  | _, d => .error (.invalidType d.describe "a map")

/-- One of some named values. -/
def choice {α : Type} (all : List α) (name : α → String) : Decoder α
  | dialect, d => do
    let chosen ← dialect.choice (all.map name) d
    match all.find? fun a => name a == chosen with
    | some a => .ok a
    | none => .error (.unknownVariant chosen (all.map name))

end Decoder

/-- What came of reading the parts of a record. -/
structure Reading (α : Type) where
  /-- The faults of parts that are there. -/
  faults : List (String × DecodeError)
  /-- The record, or the first part that is not there although it must be. -/
  value : Except String α

/-- How a record is read from its parts. -/
structure Record (α : Type) where
  /-- The names of the parts in their order. -/
  names : List String
  read : Dialect → (String → Option Document) → Reading α

namespace Record

/-- A record without parts. -/
def constant {α : Type} (a : α) : Record α := ⟨[], fun _ _ => ⟨[], .ok a⟩⟩

/-- One part; if it is not there, the default counts if there is one. -/
def part {α : Type} (name : String) (item : Decoder α) (default : Option α) : Record α where
  names := [name]
  read dialect find :=
    match find name with
    | none =>
      match default with
      | some a => ⟨[], .ok a⟩
      | none => ⟨[], .error name⟩
    | some d =>
      match item dialect d with
      | .ok a => ⟨[], .ok a⟩
      | .error e => ⟨[(name, e)], .error name⟩

/-- A part that must be there. -/
def field {α : Type} (name : String) (item : Decoder α) : Record α := part name item none

/-- A part with a default. -/
def fieldOr {α : Type} (name : String) (item : Decoder α) (default : α) : Record α :=
  part name item (some default)

/-- Reads more parts and puts them into what the first ones make. -/
def apply {α β : Type} (f : Record (α → β)) (a : Record α) : Record β where
  names := f.names ++ a.names
  read dialect find :=
    let first := f.read dialect find
    let second := a.read dialect find
    { faults := first.faults ++ second.faults
      value :=
        match first.value with
        | .error name => .error name
        | .ok g =>
          match second.value with
          | .error name => .error name
          | .ok x => .ok (g x) }

instance : Functor Record where
  map g a := (constant g).apply a

instance : Seq Record where
  seq f a := f.apply (a ())

/-- The parts that a document has, in its order. -/
def parts? (names : List String) : Document → Option (List (String × Document))
  | .object fields => some fields
  | .array items => some (names.zip items)
  | .stamp s => some [("", .string s)]
  | _ => none

/-- The fault of a document in which a part is absent. -/
def absent (title : String) (names : List String) (name : String) : Document → DecodeError
  | .array _ =>
    .invalidLength (names.idxOf name) ("struct " ++ title ++ " with " ++
      if names.length == 1 then "1 element" else toString names.length ++ " elements")
  | _ => .missingField name

/-- Whether a document has elements after those that a record takes. -/
def hasExtra (names : List String) : Document → Bool
  | .array items => names.length < items.length
  | _ => false

/-- Reads a record under the title that messages give it. -/
def decode {α : Type} (title : String) (record : Record α) : Decoder α
  | dialect, d =>
    match parts? record.names d with
    | none => .error (.invalidType d.describe ("struct " ++ title))
    | some parts =>
      let reading := record.read dialect fun name => parts.lookup name
      match parts.findSome? fun p => reading.faults.lookup p.1 with
      | some e => .error e
      | none =>
        match reading.value with
        | .error name => .error (absent title record.names name d)
        | .ok a =>
          match d with
          | .array items =>
            if hasExtra record.names d && !dialect.allowsExtra then
              .error (.invalidLength items.length "fewer elements in array")
            else .ok a
          | _ => .ok a

end Record

end InjectionScan
