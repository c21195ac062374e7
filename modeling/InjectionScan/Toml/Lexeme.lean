import InjectionScan.Json.Reader

/-! The small parts of TOML text: blanks, line ends, comments, strings and keys. -/
namespace InjectionScan.Toml

abbrev Reader (α : Type) := List Char → Option (α × List Char)

def isSpace (c : Char) : Bool := c == ' ' || c == '\t'

def skipSpaces (cs : List Char) : List Char := cs.dropWhile isSpace

/-- Characters that may stand in comments and literal strings: all but control characters other than
the tab. -/
def isPlain (c : Char) : Bool := c == '\t' || (32 ≤ c.toNat && c.toNat != 127)

/-- What follows a line end at the front. -/
def newline? : List Char → Option (List Char)
  | '\n' :: cs => some cs
  | '\r' :: '\n' :: cs => some cs
  | _ => none

/-- Skips a comment if there is one. -/
def skipComment : List Char → List Char
  | '#' :: cs => cs.dropWhile isPlain
  | cs => cs

/-- Skips blanks and a comment up to the next line or to the end of the text. -/
def lineEnd? (cs : List Char) : Option (List Char) :=
  match skipComment (skipSpaces cs) with
  | [] => some []
  | cs => newline? cs

/-- Skips blanks, comments and line ends. -/
def skipLines : Nat → List Char → List Char
  | 0, cs => cs
  | fuel + 1, cs =>
    let cs := skipSpaces cs
    match newline? (skipComment cs) with
    | some rest => skipLines fuel rest
    | none => cs

/-- Reads a number of hexadecimal digits. -/
def hexDigits? : Nat → Nat → List Char → Option (Nat × List Char)
  | 0, n, cs => some (n, cs)
  | k + 1, n, c :: cs =>
    match Json.hexValue? c with
    | some d => hexDigits? k (n * 16 + d) cs
    | none => none
  | _ + 1, _, [] => none

/-- A character given by its number in some hexadecimal digits. -/
def charOf? (digits : Nat) (cs : List Char) : Option (Char × List Char) :=
  match hexDigits? digits 0 cs with
  | some (n, cs) => if n.isValidChar then some (Char.ofNat n, cs) else none
  | none => none

/-- An escape after its backslash. -/
def escape? : Reader Char
  | 'b' :: cs => some (Char.ofNat 8, cs)
  | 't' :: cs => some ('\t', cs)
  | 'n' :: cs => some ('\n', cs)
  | 'f' :: cs => some (Char.ofNat 12, cs)
  | 'r' :: cs => some ('\r', cs)
  | '"' :: cs => some ('"', cs)
  | '\\' :: cs => some ('\\', cs)
  | 'u' :: cs => charOf? 4 cs
  | 'U' :: cs => charOf? 8 cs
  | _ => none

/-- A string on one line after its opening quote; `done` holds what was read, last first. -/
def basicTail : Nat → List Char → Reader String
  | 0, _, _ => none
  | _ + 1, _, [] => none
  | fuel + 1, done, c :: cs =>
    if c == '"' then some (String.ofList done.reverse, cs)
    else if c == '\\' then
      match escape? cs with
      | some (x, cs) => basicTail fuel (x :: done) cs
      | none => none
    else if isPlain c then basicTail fuel (c :: done) cs
    else none

/-- The rest of the text after a backslash, blanks and line ends, if there is a line end. -/
def foldedLine? (fuel : Nat) (cs : List Char) : Option (List Char) :=
  match newline? (skipSpaces cs) with
  | some cs => some (blankLines fuel cs)
  | none => none
where
  blankLines : Nat → List Char → List Char
    | 0, cs => cs
    | fuel + 1, cs =>
      let cs := skipSpaces cs
      match newline? cs with
      | some cs => blankLines fuel cs
      | none => cs

/-- How many quotes stand at the front. -/
def quotes (quote : Char) (cs : List Char) : Nat := (cs.takeWhile fun c => c == quote).length

/-- Three quotes end a string of several lines, and up to two more before them belong to it. -/
def closing? (quote : Char) (done cs : List Char) : Option (String × List Char) :=
  let n := quotes quote cs
  if 3 ≤ n then
    let inside := min (n - 3) 2
    some (String.ofList (List.replicate inside quote ++ done).reverse, cs.drop (inside + 3))
  else none

/-- A string of several lines after its opening quotes. -/
def multilineTail : Nat → List Char → Reader String
  | 0, _, _ => none
  | _ + 1, _, [] => none
  | fuel + 1, done, c :: cs =>
    match closing? '"' done (c :: cs) with
    | some found => some found
    | none =>
      if c == '"' then multilineTail fuel ('"' :: done) cs
      else if c == '\\' then
        match foldedLine? fuel cs with
        | some cs => multilineTail fuel done cs
        | none =>
          match escape? cs with
          | some (x, cs) => multilineTail fuel (x :: done) cs
          | none => none
      else
        match newline? (c :: cs) with
        | some cs => multilineTail fuel ('\n' :: done) cs
        | none => if isPlain c then multilineTail fuel (c :: done) cs else none

/-- A literal string on one line after its opening quote. -/
def literal? (cs : List Char) : Option (String × List Char) :=
  let isInside (c : Char) : Bool := isPlain c && c != '\''
  match cs.dropWhile isInside with
  | '\'' :: rest => some (String.ofList (cs.takeWhile isInside), rest)
  | _ => none

/-- A literal string of several lines after its opening quotes. -/
def multilineLiteralTail : Nat → List Char → Reader String
  | 0, _, _ => none
  | _ + 1, _, [] => none
  | fuel + 1, done, c :: cs =>
    match closing? '\'' done (c :: cs) with
    | some found => some found
    | none =>
      match newline? (c :: cs) with
      | some cs => multilineLiteralTail fuel ('\n' :: done) cs
      | none => if isPlain c then multilineLiteralTail fuel (c :: done) cs else none

/-- The line end right after opening quotes does not belong to the string. -/
def skipFirstNewline (cs : List Char) : List Char := (newline? cs).getD cs

/-- A string of any of the four forms. -/
def string? : Reader String
  | '"' :: '"' :: '"' :: cs => multilineTail (cs.length + 1) [] (skipFirstNewline cs)
  | '"' :: cs => basicTail (cs.length + 1) [] cs
  | '\'' :: '\'' :: '\'' :: cs => multilineLiteralTail (cs.length + 1) [] (skipFirstNewline cs)
  | '\'' :: cs => literal? cs
  | _ => none

def isBareChar (c : Char) : Bool :=
  ('a' ≤ c && c ≤ 'z') || ('A' ≤ c && c ≤ 'Z') || ('0' ≤ c && c ≤ '9') || c == '_' || c == '-'

/-- One part of a key. -/
def simpleKey? : Reader String
  | '"' :: cs => basicTail (cs.length + 1) [] cs
  | '\'' :: cs => literal? cs
  | cs =>
    let bare := cs.takeWhile isBareChar
    if bare.isEmpty then none else some (String.ofList bare, cs.dropWhile isBareChar)

/-- How deep keys and values may be nested. -/
def depthLimit : Nat := 80

/-- The parts of a key, separated by dots, with blanks around them. -/
def keyParts? : Nat → Reader (List String)
  | 0, _ => none
  | fuel + 1, cs =>
    match simpleKey? (skipSpaces cs) with
    | none => none
    | some (part, cs) =>
      match skipSpaces cs with
      | '.' :: rest =>
        match keyParts? fuel rest with
        | some (parts, rest) => some (part :: parts, rest)
        | none => none
      | cs => some ([part], cs)

/-- A key, with the blanks around it. -/
def key? (cs : List Char) : Option (List String × List Char) :=
  match keyParts? (cs.length + 1) cs with
  | some (parts, cs) => if parts.length < depthLimit then some (parts, cs) else none
  | none => none

end InjectionScan.Toml
