import InjectionScan.Config
import InjectionScan.Toml.Lexeme

/-! Configurations as TOML text, with each string in the plainest form that holds it. -/
namespace InjectionScan.Toml

/-- Control characters other than tab and newline; they can only be written as escapes. -/
def isControl (c : Char) : Bool :=
  c != '\t' && c != '\n' && (c.toNat < 32 || c.toNat == 127)

/-- The length of the longest run of a character; `run` is the one that is going on. -/
def longestRun (x : Char) : Nat → List Char → Nat
  | run, [] => run
  | run, c :: cs => if c = x then longestRun x (run + 1) cs else max run (longestRun x 0 cs)

inductive Quoting where
  | basic
  | literal
  | multilineBasic
  | multilineLiteral
deriving DecidableEq, Repr

namespace Quoting

/-- The form for a value. -/
def ofValue (cs : List Char) : Quoting :=
  let control := cs.any isControl
  let backslash := cs.contains '\\'
  let newline := cs.contains '\n'
  let doubles := longestRun '"' 0 cs
  let singles := longestRun '\'' 0 cs
  if !control && !backslash && doubles == 0 && !newline then basic
  else if !control && singles == 0 && !newline then literal
  else if !control && !backslash && doubles ≤ 2 then multilineBasic
  else if !control && singles ≤ 2 then multilineLiteral
  else if newline then multilineBasic
  else basic

/-- The form for a part of a key, which stays on one line. -/
def ofKey (cs : List Char) : Quoting :=
  let control := cs.any fun c => isControl c || c == '\n'
  if !control && !cs.contains '\\' && !cs.contains '"' then basic
  else if !control && !cs.contains '\'' then literal
  else basic

def isMultiline : Quoting → Bool
  | multilineBasic | multilineLiteral => true
  | basic | literal => false

def delimiter : Quoting → List Char
  | basic => ['"']
  | literal => ['\'']
  | multilineBasic => ['"', '"', '"']
  | multilineLiteral => ['\'', '\'', '\'']

end Quoting

def upperHexDigit (n : Nat) : Char :=
  if n < 10 then Char.ofNat (48 + n) else Char.ofNat (55 + n)

/-- A character between double quotes other than a double quote. -/
def escapeChar (multiline : Bool) (c : Char) : List Char :=
  if c == '\\' then ['\\', '\\']
  else if c == '\t' then ['\\', 't']
  else if c == '\n' then if multiline then ['\n'] else ['\\', 'n']
  else if c == '\r' then ['\\', 'r']
  else if c.toNat == 8 then ['\\', 'b']
  else if c.toNat == 12 then ['\\', 'f']
  else if isControl c then
    ['\\', 'u', '0', '0', upperHexDigit (c.toNat / 16), upperHexDigit (c.toNat % 16)]
  else [c]

/-- Text between double quotes. Of quotes in a row so many stand as they are, and the next one is
escaped. -/
def escapeText (multiline : Bool) (allowed : Nat) : Nat → List Char → List Char
  | _, [] => []
  | quotes, c :: cs =>
    if c = '"' then
      if quotes < allowed then '"' :: escapeText multiline allowed (quotes + 1) cs
      else '\\' :: '"' :: escapeText multiline allowed 0 cs
    else escapeChar multiline c ++ escapeText multiline allowed 0 cs

/-- Text in a form. A text of several lines starts on a line of its own. -/
def Quoting.write (q : Quoting) (cs : List Char) : List Char :=
  let body :=
    match q with
    | .basic => escapeText false 0 0 cs
    | .multilineBasic => escapeText true 2 0 cs
    | .literal | .multilineLiteral => cs
  q.delimiter ++ (if q.isMultiline && cs.contains '\n' then ['\n'] else []) ++ body ++ q.delimiter

def renderString (s : String) : String :=
  String.ofList ((Quoting.ofValue s.toList).write s.toList)

def renderKey (s : String) : String :=
  if !s.isEmpty && s.toList.all isBareChar then s
  else String.ofList ((Quoting.ofKey s.toList).write s.toList)

/-- Strings in brackets; two or more stand on lines of their own. -/
def renderStrings (xs : List String) : String :=
  match xs with
  | [] => "[]"
  | [x] => "[" ++ renderString x ++ "]"
  | xs => "[\n" ++ String.join (xs.map fun x => "    " ++ renderString x ++ ",\n") ++ "]"

def pair (name value : String) : String := renderKey name ++ " = " ++ value ++ "\n"

/-- The text of a whole configuration, with its patterns for paths in the order given. -/
def renderWith (perPath : List (String × List String)) (c : Config) : String :=
  "[general]\n" ++
    pair "fail_on" (renderString c.general.failOn) ++
  "\n[rules]\n" ++
    pair "disabled" (renderStrings c.rules.disabled) ++
  "\n[rules.severity]\n" ++
    String.join (c.rules.severity.entries.map fun e => pair e.1 (renderString e.2.name)) ++
  "\n[ignore]\n" ++
    pair "paths" (renderStrings c.ignore.paths) ++
    pair "findings" (renderStrings c.ignore.findings) ++
  "\n[ignore.per_path]\n" ++
    String.join (perPath.map fun e => pair e.1 (renderStrings e.2)) ++
  "\n[output]\n" ++
    pair "format" (renderString c.output.format) ++
    pair "color" (if c.output.color then "true" else "false") ++
    pair "max_findings" (toString c.output.maxFindings)

/-- The text of a whole configuration. -/
def render (c : Config) : String := renderWith c.ignore.perPath.entries c

end InjectionScan.Toml
