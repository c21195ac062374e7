import InjectionScan.Document.Value

/-! Reading JSON text. Keys are put in order, and of equal keys the last one counts. -/
namespace InjectionScan.Json

def isBlank (c : Char) : Bool := c == ' ' || c == '\n' || c == '\r' || c == '\t'

def skipBlank (cs : List Char) : List Char := cs.dropWhile isBlank

def hexValue? (c : Char) : Option Nat :=
  if '0' ≤ c && c ≤ '9' then some (c.toNat - 48)
  else if 'a' ≤ c && c ≤ 'f' then some (c.toNat - 87)
  else if 'A' ≤ c && c ≤ 'F' then some (c.toNat - 55)
  else none

/-- Four hexadecimal digits. -/
def unit? : List Char → Option (Nat × List Char)
  | a :: b :: c :: d :: cs => do
    let a ← hexValue? a
    let b ← hexValue? b
    let c ← hexValue? c
    let d ← hexValue? d
    return (((a * 16 + b) * 16 + c) * 16 + d, cs)
  | _ => none

/-- The character of an escape by number, from its digits on. Two halves make one character. -/
def escapedUnit? (cs : List Char) : Option (Char × List Char) := do
  let (high, cs) ← unit? cs
  if 0xD800 ≤ high && high < 0xDC00 then
    match cs with
    | '\\' :: 'u' :: cs =>
      let (low, cs) ← unit? cs
      if 0xDC00 ≤ low && low < 0xE000 then
        some (Char.ofNat (0x10000 + (high - 0xD800) * 1024 + (low - 0xDC00)), cs)
      else none
    | _ => none
  else if 0xDC00 ≤ high && high < 0xE000 then none
  else some (Char.ofNat high, cs)

/-- The rest of a string after its opening quote; `done` holds what was read, last first. -/
def stringTail : Nat → List Char → List Char → Option (String × List Char)
  | 0, _, _ => none
  | _ + 1, _, [] => none
  | fuel + 1, done, c :: cs =>
    if c == '"' then some (String.ofList done.reverse, cs)
    else if c == '\\' then
      match cs with
      | '"' :: cs => stringTail fuel ('"' :: done) cs
      | '\\' :: cs => stringTail fuel ('\\' :: done) cs
      | '/' :: cs => stringTail fuel ('/' :: done) cs
      | 'b' :: cs => stringTail fuel (Char.ofNat 8 :: done) cs
      | 'f' :: cs => stringTail fuel (Char.ofNat 12 :: done) cs
      | 'n' :: cs => stringTail fuel ('\n' :: done) cs
      | 'r' :: cs => stringTail fuel ('\r' :: done) cs
      | 't' :: cs => stringTail fuel ('\t' :: done) cs
      | 'u' :: cs =>
        match escapedUnit? cs with
        | some (x, cs) => stringTail fuel (x :: done) cs
        | none => none
      | _ => none
    else if c.toNat < 32 then none
    else stringTail fuel (c :: done) cs

def natOf (digits : List Char) : Nat :=
  digits.foldl (fun n c => n * 10 + (c.toNat - 48)) 0

/-- A number. One without point and exponent is an integer if it fits in 64 bits. -/
def number? (cs : List Char) : Option (Document × List Char) :=
  let isDigit (c : Char) := '0' ≤ c && c ≤ '9'
  let negative := cs.head? == some '-'
  let cs := if negative then cs.drop 1 else cs
  let whole := cs.takeWhile isDigit
  let cs := cs.dropWhile isDigit
  if whole.isEmpty || (1 < whole.length && whole.head? == some '0') then none
  else
    let (fraction, cs, pointed) :=
      match cs with
      | '.' :: tail => (tail.takeWhile isDigit, tail.dropWhile isDigit, true)
      | _ => ([], cs, false)
    if pointed && fraction.isEmpty then none
    else
      match exponent? cs with
      | none => none
      | some (exponent, cs, scaled) =>
        let digits := natOf (whole ++ fraction)
        let value : Document :=
          if pointed || scaled then
            .decimal (.finite negative digits (exponent - fraction.length))
          else if negative then
            if 0 < digits && digits ≤ Nat.pow 2 63 then .integer (-(digits : Int))
            else .decimal (.finite true digits 0)
          else if digits < Nat.pow 2 64 then .integer digits
          else .decimal (.finite false digits 0)
        some (value, cs)
where
  exponent? (cs : List Char) : Option (Int × List Char × Bool) :=
    let isDigit (c : Char) := '0' ≤ c && c ≤ '9'
    match cs with
    | e :: tail =>
      if e == 'e' || e == 'E' then
        let negative := tail.head? == some '-'
        let tail := if negative || tail.head? == some '+' then tail.drop 1 else tail
        let digits := tail.takeWhile isDigit
        if digits.isEmpty then none
        else
          let n : Int := natOf digits
          some (if negative then -n else n, tail.dropWhile isDigit, true)
      else some (0, cs, false)
    | [] => some (0, [], false)

/-- Puts a field into a map. -/
def insertField (key : String) (value : Document) :
    List (String × Document) → List (String × Document)
  | [] => [(key, value)]
  | (k, v) :: fields =>
    if key < k then (key, value) :: (k, v) :: fields
    else if key = k then (key, value) :: fields
    else (k, v) :: insertField key value fields

mutual

def value? : Nat → List Char → Option (Document × List Char)
  | 0, _ => none
  | fuel + 1, cs =>
    match skipBlank cs with
    | 'n' :: 'u' :: 'l' :: 'l' :: cs => some (.null, cs)
    | 't' :: 'r' :: 'u' :: 'e' :: cs => some (.bool true, cs)
    | 'f' :: 'a' :: 'l' :: 's' :: 'e' :: cs => some (.bool false, cs)
    | '"' :: cs => (stringTail (fuel + 1) [] cs).map fun (s, cs) => (.string s, cs)
    | '[' :: cs =>
      match skipBlank cs with
      | ']' :: cs => some (.array [], cs)
      | cs => items? fuel [] cs
    | '{' :: cs =>
      match skipBlank cs with
      | '}' :: cs => some (.object [], cs)
      | cs => fields? fuel [] cs
    | cs => number? cs

def items? : Nat → List Document → List Char → Option (Document × List Char)
  | 0, _, _ => none
  | fuel + 1, done, cs =>
    match value? fuel cs with
    | none => none
    | some (x, cs) =>
      match skipBlank cs with
      | ',' :: cs => items? fuel (x :: done) cs
      | ']' :: cs => some (.array (x :: done).reverse, cs)
      | _ => none

def fields? : Nat → List (String × Document) → List Char → Option (Document × List Char)
  | 0, _, _ => none
  | fuel + 1, done, cs =>
    match skipBlank cs with
    | '"' :: cs =>
      match stringTail (fuel + 1) [] cs with
      | none => none
      | some (key, cs) =>
        match skipBlank cs with
        | ':' :: cs =>
          match value? fuel cs with
          | none => none
          | some (x, cs) =>
            match skipBlank cs with
            | ',' :: cs => fields? fuel (insertField key x done) cs
            | '}' :: cs => some (.object (insertField key x done), cs)
            | _ => none
        | _ => none
    | _ => none

end

/-- The value of a whole text. -/
def parse? (text : String) : Option Document :=
  let cs := text.toList
  match value? (cs.length + 1) cs with
  | some (x, tail) => if (skipBlank tail).isEmpty then some x else none
  | none => none

end InjectionScan.Json
