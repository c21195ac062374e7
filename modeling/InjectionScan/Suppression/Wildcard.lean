/-! Patterns for whole paths. -/
namespace InjectionScan.Suppression

/-- A range of characters; a single character is a range of one. -/
structure CharRange where
  first : Char
  last : Char
deriving DecidableEq, Repr

def CharRange.contains (r : CharRange) (c : Char) : Bool := r.first ≤ c && c ≤ r.last

inductive Wildcard where
  | char (c : Char)
  | anyChar
  | oneOf (ranges : List CharRange)
  | noneOf (ranges : List CharRange)
  | anyText
  | anyDirectories
deriving DecidableEq, Repr

namespace Wildcard

/-- The ranges between brackets. -/
def rangesOf : List Char → List CharRange
  | a :: '-' :: b :: cs => ⟨a, b⟩ :: rangesOf cs
  | a :: cs => ⟨a, a⟩ :: rangesOf cs
  | [] => []

/-- Splits at the first closing bracket that is not the first character. -/
def untilBracket? : List Char → Option (List Char × List Char)
  | [] => none
  | c :: cs =>
    if cs.contains ']' then
      some (c :: cs.takeWhile (fun x => x != ']'), (cs.dropWhile fun x => x != ']').drop 1)
    else none

/-- A set in brackets, from the opening bracket on. -/
def set? (cs : List Char) : Option (Wildcard × List Char) :=
  match cs with
  | '!' :: cs => (untilBracket? cs).map fun (inside, rest) => (noneOf (rangesOf inside), rest)
  | cs => (untilBracket? cs).map fun (inside, rest) => (oneOf (rangesOf inside), rest)

/-- Adds any directories after what was read, last first; right after another it adds nothing unless
that one stands at the start. -/
def addDirectories (done : List Wildcard) : List Wildcard :=
  match done with
  | anyDirectories :: _ :: _ => done
  | _ => anyDirectories :: done

/-- Reads the rest of a pattern. `previous` is the character before it, and `done` what was read,
last first. Three stars are no pattern, nor are two that are not a whole segment. -/
def parseFrom : Nat → Option Char → List Wildcard → List Char → Option (List Wildcard)
  | 0, _, _, _ => none
  | _ + 1, _, done, [] => some done.reverse
  | fuel + 1, previous, done, c :: cs =>
    if c == '?' then parseFrom fuel (some c) (anyChar :: done) cs
    else if c == '*' then
      match cs with
      | '*' :: '*' :: _ => none
      | '*' :: cs =>
        if previous == none || previous == some '/' then
          match cs with
          | [] => parseFrom fuel (some '*') (addDirectories done) []
          | '/' :: cs => parseFrom fuel (some '/') (addDirectories done) cs
          | _ => none
        else none
      | cs => parseFrom fuel (some '*') (anyText :: done) cs
    else if c == '[' then
      match set? cs with
      | some (w, cs) => parseFrom fuel (some ']') (w :: done) cs
      | none => none
    else parseFrom fuel (some c) (char c :: done) cs

/-- A pattern, if the text is one. -/
def parse? (pattern : String) : Option (List Wildcard) :=
  parseFrom (pattern.toList.length + 1) none [] pattern.toList

/-- A text and all its ends. -/
def ends : List Char → List (List Char)
  | [] => [[]]
  | c :: cs => (c :: cs) :: ends cs

/-- The ends that begin after a slash, and the empty one. -/
def innerDirectoryEnds : List Char → List (List Char)
  | [] => [[]]
  | c :: cs => if c = '/' then cs :: innerDirectoryEnds cs else innerDirectoryEnds cs

/-- Whether a pattern stands for a whole text. -/
def fits : List Wildcard → List Char → Bool
  | [], cs => cs.isEmpty
  | anyText :: ws, cs => (ends cs).any (fits ws)
  | anyDirectories :: ws, cs => (cs :: innerDirectoryEnds cs).any (fits ws)
  | _ :: _, [] => false
  | char x :: ws, c :: cs => x == c && fits ws cs
  | anyChar :: ws, _ :: cs => fits ws cs
  | oneOf ranges :: ws, c :: cs => (ranges.any fun r => r.contains c) && fits ws cs
  | noneOf ranges :: ws, c :: cs => !(ranges.any fun r => r.contains c) && fits ws cs

end Wildcard

end InjectionScan.Suppression
