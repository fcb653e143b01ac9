import ScriptDoc.Text.Basic

/-!
Floating point numbers of 64 bits: read from a decimal by rounding to the nearest (a half to the
even neighbour), written as the shortest decimal that reads back.
-/
namespace ScriptDoc

inductive Binary64 where
  | nan
  | infinity (negative : Bool)
  | finite (negative : Bool) (mantissa : Nat) (exponent : Int)
  deriving DecidableEq, Repr

namespace Binary64

def lowestExponent : Int := -1074

def highestExponent : Int := 971

def ratioPow (base : Nat) (exponent : Int) : Nat × Nat :=
  (Nat.pow base exponent.toNat, Nat.pow base (-exponent).toNat)

def roundDiv (num den : Nat) : Nat :=
  let q := num / den
  let twice := 2 * (num % den)
  if twice < den then q
  else if den < twice then q + 1
  else if q % 2 = 0 then q else q + 1

def ofRatio (negative : Bool) (num den : Nat) : Binary64 :=
  let guess : Int := (num.log2 : Int) - (den.log2 : Int) - 52
  let (up, down) := ratioPow 2 (-guess)
  let exponent := if num * up < Nat.pow 2 52 * (den * down) then guess - 1 else guess
  let exponent := max exponent lowestExponent
  let (up, down) := ratioPow 2 (-exponent)
  let mantissa := roundDiv (num * up) (den * down)
  let (mantissa, exponent) :=
    if mantissa = Nat.pow 2 53 then (Nat.pow 2 52, exponent + 1) else (mantissa, exponent)
  if highestExponent < exponent then .infinity negative else .finite negative mantissa exponent

def farPlace : Int := 400

def ofDecimal (negative : Bool) (digits : Nat) (exponent : Int) : Binary64 :=
  let place := (Nat.toDigits 10 digits).length + exponent
  if digits = 0 || place < -farPlace then .finite negative 0 lowestExponent
  else if farPlace < place then .infinity negative
  else
    let (up, down) := ratioPow 10 exponent
    ofRatio negative (digits * up) down

def decimalPlace (num den : Nat) : Int :=
  if den ≤ num then (Nat.toDigits 10 (num / den)).length
  else
    let shift := (Nat.toDigits 10 den).length - (Nat.toDigits 10 num).length
    if den ≤ num * Nat.pow 10 shift then 1 - shift else -shift

/-- The numbers that read as a given one lie between two ratios over a common denominator, the
ends included when the mantissa is even. -/
structure Span where
  low : Nat
  value : Nat
  high : Nat
  den : Nat
  closed : Bool
  deriving DecidableEq, Repr

def span (mantissa : Nat) (exponent : Int) : Span :=
  let (up, down) := ratioPow 2 exponent
  let below := if mantissa = Nat.pow 2 52 && lowestExponent < exponent then 1 else 2
  ⟨(4 * mantissa - below) * up, 4 * mantissa * up, (4 * mantissa + 2) * up, 4 * down,
    mantissa % 2 = 0⟩

def Span.holds (s : Span) (exponent : Int) (digits : Nat) : Bool :=
  let (up, down) := ratioPow 10 exponent
  let point := digits * up * s.den
  let low := s.low * down
  let high := s.high * down
  if s.closed then low ≤ point && point ≤ high else low < point && point < high

def Span.nearest? (s : Span) (exponent : Int) : Option Nat :=
  let (up, down) := ratioPow 10 exponent
  let num := s.value * down
  let den := s.den * up
  let q := num / den
  let near := roundDiv num den
  let far := if near = q then q + 1 else q
  if s.holds exponent near && 0 < near then some near
  else if s.holds exponent far && 0 < far then some far
  else none

/-- The shortest digits of a span's value: the first of the given numbers of digits that has a
decimal in the span. The exponent is that of the last digit. -/
def Span.shortest (s : Span) (place : Int) : List Nat → Nat × Int
  | [] => (0, 0)
  | count :: counts =>
    match s.nearest? (place - count) with
    | some digits => (digits, place - count)
    | none => s.shortest place counts

def trimZeros (digits : Text) : Text := (digits.reverse.dropWhile (· = '0')).reverse

def exponentText (n : Int) : Text :=
  let digits := Nat.toDigits 10 n.natAbs
  (if n < 0 then "e-" else "e+") ++ List.replicate (2 - digits.length) '0' ++ digits

/-- Lays out digits with the point after `place` of them. The point is written where it belongs
as long as at most 16 places stand before it and at most three zeros after it. -/
def layOut (digits : Text) (place : Int) : Text :=
  if -4 < place && place ≤ 0 then
    "0." ++ List.replicate (-place).toNat '0' ++ digits
  else if 0 < place && place ≤ 16 then
    let count := place.toNat
    if digits.length ≤ count then
      digits ++ List.replicate (count - digits.length) '0' ++ ".0"
    else digits.take count ++ "." ++ digits.drop count
  else
    match digits with
    | [d] => [d] ++ exponentText (place - 1)
    | digits => digits.take 1 ++ "." ++ digits.drop 1 ++ exponentText (place - 1)

def magnitudeText (mantissa : Nat) (exponent : Int) : Text :=
  if mantissa = 0 then "0.0"
  else
    let s := span mantissa exponent
    let (digits, last) := s.shortest (decimalPlace s.value s.den) (List.range' 1 17)
    let written := Nat.toDigits 10 digits
    layOut (trimZeros written) (written.length + last)

def toText : Binary64 → Text
  | .nan => "nan"
  | .infinity negative => if negative then "-inf" else "inf"
  | .finite negative mantissa exponent =>
    (if negative then "-" else "") ++ magnitudeText mantissa exponent

end Binary64
end ScriptDoc
