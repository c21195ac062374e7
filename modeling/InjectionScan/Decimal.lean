/-! Numbers with a decimal point, rounded to doubles, and their shortest texts. -/
namespace InjectionScan

/-- A written number: a sign, its digits as one natural number and a power of ten; or no number. -/
inductive Decimal where
  | finite (negative : Bool) (digits : Nat) (exponent : Int)
  | infinite (negative : Bool)
  | undefined
deriving DecidableEq, Repr

namespace Decimal

/-- Digits and a power of ten. -/
structure Digits where
  value : Nat
  exponent : Int
deriving DecidableEq, Repr

/-- A positive fraction and the two ends of the interval of numbers that are rounded to it, all over
one denominator. -/
structure Interval where
  low : Nat
  value : Nat
  high : Nat
  denominator : Nat
  /-- Whether the ends belong to the interval. -/
  closed : Bool

def Interval.contains (i : Interval) (num den : Nat) : Bool :=
  let left := i.low * den
  let right := i.high * den
  let x := num * i.denominator
  if i.closed then left ≤ x && x ≤ right else left < x && x < right

/-- The interval of a double given by its significand and exponent of two. The neighbour below a
power of two is closer. -/
def Interval.ofDouble (m : Nat) (q : Int) : Interval :=
  let low := if m == Nat.pow 2 52 && -1074 < q then 4 * m - 1 else 4 * m - 2
  let up := Nat.pow 2 (q - 2).toNat
  let down := Nat.pow 2 (2 - q).toNat
  ⟨low * up, 4 * m * up, (4 * m + 2) * up, down, m % 2 == 0⟩

/-- The power of ten of the leading digit. -/
def Interval.magnitude (i : Interval) : Int :=
  let whole := i.value / i.denominator
  if 0 < whole then ((Nat.toDigits 10 whole).length : Int) - 1
  else -(below 400 1 : Int)
where
  below : Nat → Nat → Nat
    | 0, k => k
    | fuel + 1, k => if i.denominator ≤ i.value * Nat.pow 10 k then k else below fuel (k + 1)

/-- The multiple of a power of ten next to the value that lies in the interval, if there is one. -/
def Interval.onGrid? (i : Interval) (g : Int) : Option Digits :=
  let unit := Nat.pow 10 g.toNat
  let scale := Nat.pow 10 (-g).toNat
  let a := i.value * scale / (i.denominator * unit)
  let distance (d : Nat) : Nat :=
    let x := d * unit * i.denominator
    let v := i.value * scale
    if x ≤ v then v - x else x - v
  let below := i.contains (a * unit) scale && 0 < a
  let above := i.contains ((a + 1) * unit) scale
  if below && above then
    some ⟨if distance a ≤ distance (a + 1) then a else a + 1, g⟩
  else if below then some ⟨a, g⟩
  else if above then some ⟨a + 1, g⟩
  else none

/-- The fewest digits in the interval. -/
def Interval.shortest (i : Interval) : Digits :=
  ((List.range 18).findSome? fun (k : Nat) => i.onGrid? (i.magnitude + 1 - k)).getD ⟨0, 0⟩

/-- Positional notation with a point. -/
def Digits.render (d : Digits) : String :=
  let digits := Nat.toDigits 10 d.value
  if 0 ≤ d.exponent then
    String.ofList (digits ++ List.replicate d.exponent.toNat '0') ++ ".0"
  else
    let places := (-d.exponent).toNat
    let padded := List.replicate (places + 1 - digits.length) '0' ++ digits
    let split := padded.length - places
    String.ofList (padded.take split) ++ "." ++ String.ofList (padded.drop split)

/-- The bits of infinity. -/
def infinityBits : Nat := 2047 * Nat.pow 2 52

/-- The bits of the double that is nearest to digits and a power of ten. Beyond the range of doubles
the size alone decides. -/
def bitsOf (digits : Nat) (exponent : Int) : Nat :=
  let size : Int := (Nat.toDigits 10 digits).length
  if digits == 0 || exponent + size < -400 then 0
  else if 400 < exponent + size then infinityBits
  else (Float.ofScientific digits (exponent < 0) exponent.natAbs).toBits.toNat

/-- Whether a number is too large for a double. -/
def overflows : Decimal → Bool
  | finite _ digits exponent => bitsOf digits exponent == infinityBits
  | _ => false

/-- The text of a number. -/
def render : Decimal → String
  | undefined => "NaN"
  | infinite negative => (if negative then "-" else "") ++ "inf"
  | finite negative digits exponent =>
    let bits := bitsOf digits exponent
    let sign := if negative then "-" else ""
    let field : Nat := bits / Nat.pow 2 52
    let fraction : Nat := bits % Nat.pow 2 52
    if bits == infinityBits then sign ++ "inf"
    else if bits == 0 then sign ++ "0.0"
    else
      let i := if field == 0 then Interval.ofDouble fraction (-1074)
        else Interval.ofDouble (fraction + Nat.pow 2 52) ((field : Int) - 1075)
      sign ++ i.shortest.render

end Decimal

end InjectionScan
