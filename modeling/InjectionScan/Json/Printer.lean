import InjectionScan.Document.Value

/-! Documents as JSON text, on one line or indented. -/
namespace InjectionScan.Json

def hexDigit (n : Nat) : Char :=
  if n < 10 then Char.ofNat (48 + n) else Char.ofNat (87 + n)

/-- How one character is written in a string. -/
def escapeChar (c : Char) : List Char :=
  if c == '"' then ['\\', '"']
  else if c == '\\' then ['\\', '\\']
  else if c == '\n' then ['\\', 'n']
  else if c == '\r' then ['\\', 'r']
  else if c == '\t' then ['\\', 't']
  else if c.toNat == 8 then ['\\', 'b']
  else if c.toNat == 12 then ['\\', 'f']
  else if c.toNat < 32 then ['\\', 'u', '0', '0', hexDigit (c.toNat / 16), hexDigit (c.toNat % 16)]
  else [c]

def quote (s : String) : String :=
  "\"" ++ String.ofList (s.toList.flatMap escapeChar) ++ "\""

/-- Texts of items with line breaks between brackets; empty brackets stay closed. -/
def bracket (opening closing : String) (indent : Nat) (items : List String) : String :=
  if items.isEmpty then opening ++ closing
  else
    let line := "\n" ++ String.ofList (List.replicate (2 * (indent + 1)) ' ')
    opening ++ line ++ (String.intercalate ("," ++ line) items) ++
      "\n" ++ String.ofList (List.replicate (2 * indent) ' ') ++ closing

mutual

/-- The text with line breaks, at a depth of nesting. -/
def pretty (indent : Nat) : Document → String
  | .null => "null"
  | .bool b => if b then "true" else "false"
  | .integer n => toString n
  | .decimal d => d.render
  | .string s => quote s
  | .stamp s => quote s
  | .array items => bracket "[" "]" indent (prettyItems (indent + 1) items)
  | .object fields => bracket "\x7b" "\x7d" indent (prettyFields (indent + 1) fields)

def prettyItems (indent : Nat) : List Document → List String
  | [] => []
  | x :: xs => pretty indent x :: prettyItems indent xs

def prettyFields (indent : Nat) : List (String × Document) → List String
  | [] => []
  | (k, x) :: xs => (quote k ++ ": " ++ pretty indent x) :: prettyFields indent xs

end

mutual

/-- The text on one line. -/
def compact : Document → String
  | .null => "null"
  | .bool b => if b then "true" else "false"
  | .integer n => toString n
  | .decimal d => d.render
  | .string s => quote s
  | .stamp s => quote s
  | .array items => "[" ++ String.intercalate "," (compactItems items) ++ "]"
  | .object fields => "\x7b" ++ String.intercalate "," (compactFields fields) ++ "\x7d"

def compactItems : List Document → List String
  | [] => []
  | x :: xs => compact x :: compactItems xs

def compactFields : List (String × Document) → List String
  | [] => []
  | (k, x) :: xs => (quote k ++ ":" ++ compact x) :: compactFields xs

end

end InjectionScan.Json
