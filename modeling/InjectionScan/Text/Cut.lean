import InjectionScan.Text.Classes

/-! Text cut into words, lines and the pieces between separators, and words found in it. -/
namespace InjectionScan.Text

/-- Text without the characters of a class at its end. -/
def dropEnd (p : Char → Bool) (cs : List Char) : List Char :=
  (cs.reverse.dropWhile p).reverse

def trimEnd (cs : List Char) : List Char := dropEnd isBlank cs

def trim (cs : List Char) : List Char := trimEnd (cs.dropWhile isBlank)

/-- Adds a character in front of a list of words whose first word is still open. -/
def extendWord (c : Char) : List (List Char) → List (List Char)
  | [] => [[c]]
  | w :: ws => (c :: w) :: ws

/-- Words from a text, where the first one may be empty: it is what stands before the first blank. -/
def wordsFrom : List Char → List (List Char)
  | [] => [[]]
  | c :: cs => if isBlank c then [] :: wordsFrom cs else extendWord c (wordsFrom cs)

/-- The words between blanks. -/
def words (cs : List Char) : List (List Char) :=
  (wordsFrom cs).filter fun w => !w.isEmpty

/-- A line without a carriage return at its end. -/
def dropReturn (line : List Char) : List Char :=
  if line.getLast? = some '\r' then line.dropLast else line

/-- The lines of a text; `line` holds what was read of the first one, last character first. -/
def linesFrom (line : List Char) : List Char → List (List Char)
  | [] => if line.isEmpty then [] else [line.reverse]
  | c :: cs =>
    if c = '\n' then dropReturn line.reverse :: linesFrom [] cs else linesFrom (c :: line) cs

def lines (text : String) : List (List Char) := linesFrom [] text.toList

/-- The pieces between separators; there is one more piece than separators. -/
def splitOn (separator : Char) : List Char → List (List Char)
  | [] => [[]]
  | c :: cs =>
    if c = separator then [] :: splitOn separator cs
    else
      match splitOn separator cs with
      | [] => [[c]]
      | piece :: pieces => (c :: piece) :: pieces

def joinWith (separator : Char) : List (List Char) → List Char
  | [] => []
  | [piece] => piece
  | piece :: pieces => piece ++ separator :: joinWith separator pieces

/-- What follows a word at the front of a text. -/
def after? : List Char → List Char → Option (List Char)
  | [], cs => some cs
  | _ :: _, [] => none
  | w :: ws, c :: cs => if w = c then after? ws cs else none

/-- Whether a word stands somewhere in a text. -/
def occursIn (word : List Char) : List Char → Bool
  | [] => word.isEmpty
  | c :: cs => (after? word (c :: cs)).isSome || occursIn word cs

/-- What stands before the first occurrence of a word; all of the text if there is none. -/
def before (word : List Char) : List Char → List Char
  | [] => []
  | c :: cs => if (after? word (c :: cs)).isSome then [] else c :: before word cs

end InjectionScan.Text
