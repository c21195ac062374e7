import InjectionScan.Document.Value
import InjectionScan.Toml.Lexeme

/-! Numbers, dates and times of TOML text. -/
namespace InjectionScan.Toml

def isDigit (c : Char) : Bool := '0' ≤ c && c ≤ '9'

/-- Digits of a class; single underscores may stand between them. -/
def groupedDigits (p : Char → Bool) : List Char → Option (List Char × List Char)
  | c :: '_' :: cs =>
    if p c then
      match groupedDigits p cs with
      | some (ds, rest) => some (c :: ds, rest)
      | none => none
    else none
  | c :: cs =>
    if p c then
      match groupedDigits p cs with
      | some (ds, rest) => some (c :: ds, rest)
      | none => some ([c], cs)
    else none
  | [] => none

def valueOf (base : Nat) (digits : List Char) : Nat :=
  digits.foldl (fun n c => n * base + (Json.hexValue? c).getD 0) 0

/-- A sign, and whether it is a minus. -/
def sign : List Char → Bool × List Char
  | '-' :: cs => (true, cs)
  | '+' :: cs => (false, cs)
  | cs => (false, cs)

/-- Decimal digits that do not start with a zero, or a zero alone. -/
def wholeDigits? : List Char → Option (List Char × List Char)
  | '0' :: cs => some (['0'], cs)
  | cs => groupedDigits isDigit cs

/-- An integer in another base, after the zero and the letter. -/
def basedInteger? (base : Nat) (p : Char → Bool) (cs : List Char) :
    Option (Document × List Char) :=
  match groupedDigits p cs with
  | some (ds, cs) =>
    if valueOf base ds < Nat.pow 2 63 then some (.integer (valueOf base ds), cs) else none
  | none => none

/-- An integer of 64 bits. -/
def integer? : Reader Document
  | '0' :: 'x' :: cs => basedInteger? 16 (fun c => (Json.hexValue? c).isSome) cs
  | '0' :: 'o' :: cs => basedInteger? 8 (fun c => '0' ≤ c && c ≤ '7') cs
  | '0' :: 'b' :: cs => basedInteger? 2 (fun c => c == '0' || c == '1') cs
  | cs =>
    let (negative, cs) := sign cs
    match wholeDigits? cs with
    | none => none
    | some (ds, cs) =>
      let n := valueOf 10 ds
      if negative then if n ≤ Nat.pow 2 63 then some (.integer (-(n : Int)), cs) else none
      else if n < Nat.pow 2 63 then some (.integer n, cs) else none

/-- The exponent of a number with a point, if there is one. -/
def exponent? : Reader (Option Int)
  | c :: cs =>
    if c == 'e' || c == 'E' then
      let (negative, cs) := sign cs
      match groupedDigits isDigit cs with
      | some (ds, cs) =>
        let n : Int := valueOf 10 ds
        some (some (if negative then -n else n), cs)
      | none => none
    else some (none, c :: cs)
  | [] => some (none, [])

/-- A number with a point, an exponent or both. One that is too large is no number. -/
def float? (cs : List Char) : Option (Document × List Char) :=
  let (negative, cs) := sign cs
  match cs with
  | 'i' :: 'n' :: 'f' :: cs => some (.decimal (.infinite negative), cs)
  | 'n' :: 'a' :: 'n' :: cs => some (.decimal .undefined, cs)
  | cs =>
    match wholeDigits? cs with
    | none => none
    | some (whole, cs) =>
      let fraction : Option (List Char × List Char × Bool) :=
        match cs with
        | '.' :: rest => (groupedDigits isDigit rest).map fun (ds, cs) => (ds, cs, true)
        | cs => some ([], cs, false)
      match fraction with
      | none => none
      | some (places, cs, pointed) =>
        match exponent? cs with
        | none => none
        | some (exponent, cs) =>
          if pointed || exponent.isSome then
            let d := Decimal.finite negative (valueOf 10 (whole ++ places))
              (exponent.getD 0 - places.length)
            if !negative && d.overflows then none else some (.decimal d, cs)
          else none

/-- Reads exactly so many digits. -/
def fixedDigits? : Nat → Nat → List Char → Option (Nat × List Char)
  | 0, n, cs => some (n, cs)
  | k + 1, n, c :: cs => if isDigit c then fixedDigits? k (n * 10 + (c.toNat - 48)) cs else none
  | _ + 1, _, [] => none

/-- Two digits within bounds. -/
def twoDigits? (low high : Nat) (cs : List Char) : Option (Nat × List Char) :=
  match fixedDigits? 2 0 cs with
  | some (n, cs) => if low ≤ n && n ≤ high then some (n, cs) else none
  | none => none

def isLeapYear (year : Nat) : Bool := year % 4 == 0 && (year % 100 != 0 || year % 400 == 0)

def daysIn (year month : Nat) : Nat :=
  if month == 2 then (if isLeapYear year then 29 else 28)
  else if month == 4 || month == 6 || month == 9 || month == 11 then 30
  else 31

def twoPlaces (n : Nat) : String :=
  let digits := Nat.toDigits 10 n
  String.ofList (List.replicate (2 - digits.length) '0' ++ digits)

/-- A day, as its text. -/
def date? (cs : List Char) : Option (String × List Char) := do
  let (year, rest) ← fixedDigits? 4 0 cs
  match rest with
  | '-' :: rest =>
    let (month, rest) ← twoDigits? 1 12 rest
    match rest with
    | '-' :: rest =>
      let (day, rest) ← twoDigits? 1 31 rest
      if day ≤ daysIn year month then
        some (String.ofList (cs.take 5) ++ twoPlaces month ++ "-" ++ twoPlaces day, rest)
      else none
    | _ => none
  | _ => none

/-- A fraction of a second to nine places, without zeros at its end. -/
def fractionText (digits : List Char) : String :=
  let kept := (((digits.take 9).reverse).dropWhile fun c => c == '0').reverse
  if kept.isEmpty then "" else "." ++ String.ofList kept

/-- A time of day, as its text. -/
def time? (cs : List Char) : Option (String × List Char) := do
  let (hour, rest) ← twoDigits? 0 23 cs
  match rest with
  | ':' :: rest =>
    let (minute, rest) ← twoDigits? 0 59 rest
    match rest with
    | ':' :: rest =>
      let (second, rest) ← twoDigits? 0 60 rest
      let text := twoPlaces hour ++ ":" ++ twoPlaces minute ++ ":" ++ twoPlaces second
      match rest with
      | '.' :: tail =>
        let digits := tail.takeWhile isDigit
        if digits.isEmpty then none
        else some (text ++ fractionText digits, tail.dropWhile isDigit)
      | rest => some (text, rest)
    | _ => none
  | _ => none

/-- The distance from universal time, if one is given. -/
def offset? : Reader String
  | 'Z' :: cs => some ("Z", cs)
  | 'z' :: cs => some ("Z", cs)
  | c :: cs =>
    if c == '+' || c == '-' then do
      let (hour, rest) ← twoDigits? 0 23 cs
      match rest with
      | ':' :: rest =>
        let (minute, rest) ← twoDigits? 0 59 rest
        let sign := if c == '-' && (hour != 0 || minute != 0) then "-" else "+"
        some (sign ++ twoPlaces hour ++ ":" ++ twoPlaces minute, rest)
      | _ => none
    else some ("", c :: cs)
  | [] => some ("", [])

/-- A date, a time, or a date with a time. -/
def stamp? (cs : List Char) : Option (Document × List Char) :=
  match date? cs with
  | none => (time? cs).map fun (text, cs) => (.stamp text, cs)
  | some (day, rest) =>
    match rest with
    | c :: tail =>
      if c == 'T' || c == 't' || c == ' ' then
        match time? tail with
        | some (time, cs) =>
          (offset? cs).map fun (offset, cs) => (.stamp (day ++ "T" ++ time ++ offset), cs)
        | none => some (.stamp day, rest)
      else some (.stamp day, rest)
    | [] => some (.stamp day, [])

/-- A number, a date or a time. -/
def number? (cs : List Char) : Option (Document × List Char) :=
  match stamp? cs with
  | some found => some found
  | none =>
    match float? cs with
    | some found => some found
    | none => integer? cs

end InjectionScan.Toml
