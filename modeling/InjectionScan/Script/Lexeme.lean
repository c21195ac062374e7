/-! Lexemes of a script, read from one cursor to the next. -/
namespace InjectionScan.Script

/-- The text still to be read, and how many bytes were read before it. -/
structure Cursor where
  rest : List Char
  offset : Nat
deriving DecidableEq, Repr

namespace Cursor

def ofString (text : String) : Cursor := ⟨text.toList, 0⟩

def next? (c : Cursor) : Option (Char × Cursor) :=
  match c.rest with
  | [] => none
  | x :: xs => some (x, ⟨xs, c.offset + x.utf8Size⟩)

def head? (c : Cursor) : Option Char := c.rest.head?

/-- The cursor after one character that satisfies a test. -/
def one? (c : Cursor) (p : Char → Bool) : Option Cursor :=
  match c.rest with
  | x :: xs => if p x then some ⟨xs, c.offset + x.utf8Size⟩ else none
  | [] => none

/-- The cursor after the longest run of characters that satisfy a test. -/
def skipWhile (p : Char → Bool) (c : Cursor) : Cursor :=
  run c.rest c.offset
where
  run : List Char → Nat → Cursor
    | x :: xs, n => if p x then run xs (n + x.utf8Size) else ⟨x :: xs, n⟩
    | [], n => ⟨[], n⟩

/-- The cursor after a fixed text. -/
def lit? (text : String) (c : Cursor) : Option Cursor :=
  run text.toList c.rest c.offset
where
  run : List Char → List Char → Nat → Option Cursor
    | [], xs, n => some ⟨xs, n⟩
    | t :: ts, x :: xs, n => if t = x then run ts xs (n + x.utf8Size) else none
    | _ :: _, [], _ => none

/-- The cursor after at most `n` further characters that satisfy a test. -/
def upTo (n : Nat) (p : Char → Bool) (c : Cursor) : Cursor :=
  match n, c.rest with
  | n + 1, x :: xs => if p x then upTo n p ⟨xs, c.offset + x.utf8Size⟩ else c
  | _, _ => c

/-- Of two places reached from the same start, the one further on. -/
def further : Option Cursor → Option Cursor → Option Cursor
  | some a, some b => if a.offset < b.offset then some b else some a
  | some a, none => some a
  | none, b => b

/-- The characters from one cursor to a later one. -/
def textTo (c later : Cursor) : String :=
  String.ofList (take c.rest (later.offset - c.offset))
where
  take : List Char → Nat → List Char
    | x :: xs, n => if n = 0 then [] else x :: take xs (n - x.utf8Size)
    | [], _ => []

end Cursor

/-- Characters that separate tokens and mean nothing else. -/
def isSpace (c : Char) : Bool :=
  let n := c.toNat
  (9 ≤ n && n ≤ 13) || n == 32 || n == 0xA0 || n == 0x1680 || (0x2000 ≤ n && n ≤ 0x200B) ||
    n == 0x2028 || n == 0x2029 || n == 0x202F || n == 0x205F || n == 0x2060 || n == 0x3000 ||
    n == 0xFEFF

/-- The spaces that a search for the end of a statement passes over. -/
def isPlainSpace (c : Char) : Bool :=
  let n := c.toNat
  (9 ≤ n && n ≤ 13) || n == 32

def isLineBreak (c : Char) : Bool :=
  c == '\n' || c.toNat == 0x2028 || c.toNat == 0x2029

/-- Characters with a meaning of their own, which no name holds. -/
def isMark (c : Char) : Bool :=
  ":;`\"'@#.,|^&<=>+-*/\\%?!~()[]\x7b\x7d".toList.contains c

def isDigit (c : Char) : Bool := '0' ≤ c && c ≤ '9'

def isNamePart (c : Char) : Bool :=
  32 ≤ c.toNat && !isSpace c && !isMark c

def isNameStart (c : Char) : Bool :=
  isNamePart c && !isDigit c

def isHexDigit (c : Char) : Bool :=
  isDigit c || ('a' ≤ c && c ≤ 'f') || ('A' ≤ c && c ≤ 'F')

def isOctalDigit (c : Char) : Bool := '0' ≤ c && c ≤ '7'

def isLetter (c : Char) : Bool :=
  ('a' ≤ c && c ≤ 'z') || ('A' ≤ c && c ≤ 'Z')

namespace Cursor

/-- Exactly `n` hexadecimal digits. -/
def hexDigits? : Nat → Cursor → Option Cursor
  | 0, c => some c
  | n + 1, c => (c.one? isHexDigit).bind (hexDigits? n)

/-- A character written by its code point in a name or string, after the backslash. -/
def codePoint? (c : Cursor) : Option Cursor := do
  let c ← c.lit? "u"
  match c.lit? "\x7b" with
  | some inner => (← inner.one? isHexDigit).skipWhile isHexDigit |>.lit? "\x7d"
  | none => c.hexDigits? 4

/-- Runs over the characters of a name; `skip` counts characters of an escape that was recognised. -/
def nameParts : List Char → Nat → Nat → Cursor
  | [], n, _ => ⟨[], n⟩
  | x :: xs, n, skip + 1 => nameParts xs (n + x.utf8Size) skip
  | x :: xs, n, 0 =>
    if isNamePart x then nameParts xs (n + x.utf8Size) 0
    else if x == '\\' then
      match codePoint? ⟨xs, n + 1⟩ with
      | some e => nameParts xs (n + 1) (e.offset - (n + 1))
      | none => ⟨x :: xs, n⟩
    else ⟨x :: xs, n⟩

/-- A name: letters, digits and everything else that is neither space nor mark. -/
def name? (c : Cursor) : Option Cursor :=
  ((c.one? isNameStart).or ((c.lit? "\\").bind codePoint?)).map fun tail =>
    nameParts tail.rest tail.offset 0

def privateName? (c : Cursor) : Option Cursor :=
  (c.lit? "#").bind name?

/-- Digits in which single underscores may stand between two. -/
def digits? (p : Char → Bool) (c : Cursor) : Option Cursor :=
  (c.one? p).map fun first => run first first.rest
where
  run (c : Cursor) : List Char → Cursor
    | [] => c
    | _ :: fuel =>
      match c.one? p with
      | some d => run d fuel
      | none =>
        match (c.lit? "_").bind (one? · p) with
        | some d => run d fuel
        | none => c

def exponent? (c : Cursor) : Option Cursor := do
  let c ← c.one? fun x => x == 'e' || x == 'E'
  match c.one? fun x => x == '+' || x == '-' with
  | some signed => signed.digits? isDigit
  | none => c.digits? isDigit

/-- A number after a base mark such as `0x`. -/
def based? (lower upper : String) (p : Char → Bool) (c : Cursor) : Option Cursor := do
  let c ← (c.lit? lower).or (c.lit? upper)
  let c ← c.digits? p
  return (c.lit? "n").getD c

/-- The whole part of a number that goes on with a point or an exponent. -/
def wholePart? (c : Cursor) : Option Cursor :=
  let body := (c.lit? "0").getD c
  let long := (body.one? fun x => isDigit x && x != '0').map fun first =>
    ((first.digits? isDigit).or ((first.lit? "_").bind (digits? isDigit))).getD first
  long.or (c.lit? "0")

/-- A number literal, as long as possible. -/
def number? (c : Cursor) : Option Cursor :=
  let withPoint := do
    let c ← (← c.wholePart?).lit? "."
    let c := (c.digits? isDigit).getD c
    return c.exponent?.getD c
  let fromPoint := do
    let c ← (← c.lit? ".").digits? isDigit
    return c.exponent?.getD c
  let scaled := do
    (← c.wholePart?).exponent?
  let whole := do
    let c ← c.digits? isDigit
    return (c.lit? "n").getD c
  [c.based? "0x" "0X" isHexDigit, c.based? "0b" "0B" (fun x => x == '0' || x == '1'),
    c.based? "0o" "0O" isOctalDigit, withPoint, fromPoint, scaled, whole].foldl further none

/-- An escape in a string or template, from its backslash on. -/
def escape? (c : Cursor) : Option Cursor := do
  let c ← c.lit? "\\"
  let joined := (c.one? fun x => x == '\r' || x == '?').bind (one? · isLineBreak)
  let plain := c.one? fun x => x != 'x' && x != 'u' && !isOctalDigit x
  let octal := (c.one? isOctalDigit).map (upTo 2 isOctalDigit)
  let hex := (c.lit? "x").bind (hexDigits? 2)
  [joined, plain, octal, hex, c.codePoint?].foldl further none

/-- A comment to the end of its line, or between its delimiters. -/
def comment? (c : Cursor) : Option Cursor :=
  match c.lit? "//" with
  | some body => some (body.skipWhile fun x => x != '\r' && !isLineBreak x)
  | none =>
    match c.lit? "/*" with
    | some body => close body.rest body.offset
    | none => none
where
  close : List Char → Nat → Option Cursor
    | '*' :: '/' :: xs, n => some ⟨xs, n + 2⟩
    | x :: xs, n => close xs (n + x.utf8Size)
    | [], _ => none

/-- A comment in the style of a page's markup, to the end of its line. -/
def htmlComment? (c : Cursor) : Option Cursor :=
  ((c.lit? "<!--").or (c.lit? "-->")).map (skipWhile fun x => !isLineBreak x)

/-- A run of template text before a quote, an escape or a substitution. -/
def templateChars (c : Cursor) : Cursor :=
  run c.rest c.offset
where
  run : List Char → Nat → Cursor
    | '$' :: '{' :: xs, n => ⟨'$' :: '{' :: xs, n⟩
    | x :: xs, n =>
      if x == '`' || x == '\\' || x == '\x00' then ⟨x :: xs, n⟩ else run xs (n + x.utf8Size)
    | [], n => ⟨[], n⟩

/-- The text of a regular expression up to its closing slash. -/
def regexPattern? (c : Cursor) : Option Cursor :=
  (run c.rest c.offset false).bind fun e => if e.offset = c.offset then none else some e
where
  run : List Char → Nat → Bool → Option Cursor
    | '\\' :: x :: xs, n, inClass => if x == '\n' then none else run xs (n + 1 + x.utf8Size) inClass
    | x :: xs, n, inClass =>
      if x == '\n' || x == '\\' then none
      else if inClass then run xs (n + x.utf8Size) (x != ']')
      else if x == '/' then some ⟨x :: xs, n⟩
      else run xs (n + x.utf8Size) (x == '[')
    | [], _, _ => none

end Cursor

/-- Operators and brackets, longest first. -/
def marks : List String :=
  [">>>=", "...", "===", "!==", "**=", "<<=", ">>=", ">>>", "&&=", "||=", "??=", "=>", "==", "!=",
    "<=", ">=", "&&", "||", "??", "?.", "++", "--", "+=", "-=", "*=", "/=", "%=", "&=", "|=", "^=",
    "<<", ">>", "**", "\x7b", "\x7d", "(", ")", "[", "]", ";", ",", "<", ">", "+", "-", "*", "/", "%",
    "&", "|", "^", "!", "~", "?", ":", "=", ".", "@"]

/-- The longest operator or bracket that starts at the cursor. A question mark before a decimal
fraction stands alone. -/
def Cursor.mark? (c : Cursor) : Option String :=
  match c.rest with
  | '?' :: '.' :: d :: _ => if isDigit d then some "?" else some "?."
  | _ => marks.find? fun m => (c.lit? m).isSome

/-! ### Statement ends without a semicolon -/

inductive Gap where
  | blocked
  | sameLine
  | free

/-- Passes over spaces and comments; unless `consume`, it looks at one block comment only. `broken`
says whether a block comment held a line break. -/
def passGap (consume : Bool) : Nat → Bool → List Char → Gap × List Char
  | 0, _, cs => (.blocked, cs)
  | fuel + 1, broken, cs =>
    match cs.dropWhile isPlainSpace with
    | '/' :: '/' :: xs => passGap consume fuel broken (xs.dropWhile fun x => !isLineBreak x)
    | '/' :: '*' :: xs =>
      let (broken, tail, closed) := pastComment broken xs
      if closed && !consume && tail.head? != some '/' then
        (if broken then .free else .sameLine, tail)
      else passGap consume fuel broken tail
    | '/' :: xs => (.blocked, xs)
    | xs => (.free, xs)
where
  pastComment (broken : Bool) : List Char → Bool × List Char × Bool
    | '*' :: '/' :: xs => (broken, xs, true)
    | x :: xs => pastComment (broken || isLineBreak x) xs
    | [] => (broken, [], false)

/-- Whether a line that starts with this text begins a new statement. -/
def startsStatement : List Char → Bool
  | [] => true
  | '.' :: xs => xs.head?.any isDigit
  | '+' :: xs => xs.head? == some '+'
  | '-' :: xs => xs.head? == some '-'
  | '!' :: xs => xs.head? != some '='
  | 'i' :: 'n' :: xs =>
    if !xs.head?.any isLetter then false
    else if "stanceof".toList.isPrefixOf xs then (xs.drop 8).head?.any isLetter
    else true
  | x :: _ => !"`,:;*%><=[(?^|&/".toList.contains x

/-- Whether a block closes or a new line starts a new statement here. After a space, `more` decides
about the rest. -/
def endsAtBreak (fuel : Nat) (more : List Char → Bool) : List Char → Bool
  | [] => false
  | '}' :: _ => true
  | x :: xs =>
    if isLineBreak x then
      match passGap true fuel false xs with
      | (.blocked, _) => false
      | (_, tail) => startsStatement tail
    else isPlainSpace x && more xs

/-- Whether the statement that ends at this text needs no semicolon: the text is over, the block
closes, or a new line starts a new statement. With `comments`, a comment may stand for the line
break. The first argument bounds the length of the text. -/
def endsStatement : Nat → Bool → List Char → Bool
  | _, _, [] => true
  | 0, _, _ => false
  | fuel + 1, comments, '/' :: cs =>
    match passGap false (fuel + 1) false ('/' :: cs) with
    | (.blocked, _) => false
    | (.free, tail) =>
      (comments && tail.head? != some ',' && tail.head? != some '=') ||
        endsAtBreak (fuel + 1) (endsStatement fuel comments) tail
    | (.sameLine, tail) => endsAtBreak (fuel + 1) (endsStatement fuel comments) tail
  | fuel + 1, comments, cs => endsAtBreak (fuel + 1) (endsStatement fuel comments) cs

end InjectionScan.Script
