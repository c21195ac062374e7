import InjectionScan.Document.Decode

/-! How documents of either format are read into types. -/
namespace InjectionScan.Json

/-- A choice is its name, or an object whose one key is its name and whose value is null. -/
def choice (names : List String) : Document → Except DecodeError String
  | .string s => .ok s
  | .object [(name, d)] =>
    if names.contains name then
      match d with
      | .null => .ok name
      | d => .error (.invalidType d.describe "unit")
    else .error (.unknownVariant name names)
  | .object _ => .error (.invalidValue "map" "map with a single key")
  | d => .error (.invalidType d.describe "string or map")

def dialect : Dialect := ⟨false, choice⟩

end InjectionScan.Json

namespace InjectionScan.Toml

/-- The kind of a value that is neither an array nor a table. -/
def kindOf : Document → String
  | .bool _ => "boolean"
  | .integer _ => "integer"
  | .decimal _ => "float"
  | .stamp _ => "datetime"
  | .array _ => "array"
  | .object _ => "table"
  | .null | .string _ => "string"

/-- A choice is its name, or a table with its name as the one key and something empty as the value. -/
def choice (names : List String) : Document → Except DecodeError String
  | .string s => .ok s
  | .object [] => .error (.notSingle true)
  | .object [(name, d)] =>
    if names.contains name then
      match d with
      | .array [] | .object [] => .ok name
      | .array _ => .error (.notEmpty "array")
      | .object _ => .error (.notEmpty "table")
      | d => .error (.notTable (kindOf d))
    else .error (.unknownVariant name names)
  | .object _ => .error (.notSingle false)
  | _ => .error .notChoice

def dialect : Dialect := ⟨true, choice⟩

end InjectionScan.Toml
