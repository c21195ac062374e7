import InjectionScan.Finding
import InjectionScan.Text.Cut

/-! Comments that suppress findings. -/
namespace InjectionScan.Suppression

def marker : List Char := "sqlscan-ignore".toList

/-- What follows the first marker that has a blank after it. -/
def afterMarker? : List Char → Option (List Char)
  | [] => none
  | c :: cs =>
    match Text.after? marker (c :: cs) with
    | some (b :: rest) => if Text.isBlank b then some rest else afterMarker? cs
    | _ => afterMarker? cs

def isStop (c : Char) : Bool := c == ':' || c == ',' || c == ';'

/-- A token is a star or a name of letters, digits, `_` and `-`. -/
def isToken (word : List Char) : Bool :=
  word == ['*'] ||
    (!word.isEmpty && word.all fun c => Text.isAlphanumeric c || c == '_' || c == '-')

/-- The tokens at the front of a list of words. -/
def tokensOf : List (List Char) → List String
  | [] => []
  | word :: words =>
    let stem := Text.dropEnd isStop word
    if isToken stem then
      if stem.length = word.length then String.ofList stem :: tokensOf words
      else [String.ofList stem]
    else []

/-- The tokens on one line; none if the line holds no directive. -/
def lineTokens (line : List Char) : List String :=
  match afterMarker? line with
  | some rest => tokensOf (Text.words (Text.before ['*', '/'] rest))
  | none => []

/-- The tokens of each line that has some, by number of the line. -/
def directivesFrom : Nat → List (List Char) → List (Nat × List String)
  | _, [] => []
  | n, line :: lines =>
    let tokens := lineTokens line
    if tokens.isEmpty then directivesFrom (n + 1) lines
    else (n, tokens) :: directivesFrom (n + 1) lines

/-- Lines are numbered from one. -/
def directives (content : String) : List (Nat × List String) :=
  directivesFrom 1 (Text.lines content)

/-- The part of an identifier before its first dash. -/
def codeOfId (id : String) : String := String.ofList (id.toList.takeWhile fun c => c != '-')

/-- Whether a token is a star, the code of the finding's identifier or the name of its rule. -/
def covers (tokens : List String) (f : Finding) : Bool :=
  tokens.any fun t => t == "*" || t == codeOfId f.id || t == f.rule

end InjectionScan.Suppression
