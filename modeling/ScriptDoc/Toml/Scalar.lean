import ScriptDoc.Number.Binary64
import ScriptDoc.Text.Digit
import ScriptDoc.Toml.Token

/-!
The values that settings can be given, before anything is known about them, and the numbers, dates and
times of TOML. A moment is a date, a time of day or both, kept in its written form.
-/
namespace ScriptDoc

inductive Datum where
  | null
  | bool (b : Bool)
  | int (n : Int)
  | float (x : Binary64)
  | text (s : Text)
  | moment (s : Text)
  | list (items : List Datum)
  | table (entries : List (Text × Datum))
  deriving Inhabited, Repr

abbrev Table := List (Text × Datum)

namespace Table

def get? (t : Table) (key : Text) : Option Datum :=
  (List.find? (fun entry => entry.1 = key) t).map Prod.snd

def set (t : Table) (key : Text) (value : Datum) : Table :=
  match t with
  | [] => [(key, value)]
  | entry :: rest =>
    if entry.1 = key then (key, value) :: rest else entry :: set rest key value

end Table

namespace Toml

def isDigit (c : Char) : Bool := '0' ≤ c && c ≤ '9'

def moreDigits (isOne : Char → Bool) : Text → Text × Text
  | [] => ([], [])
  | [c] => if isOne c then ([c], []) else ([], [c])
  | c :: d :: rest =>
    if isOne c then
      let (digits, rest) := moreDigits isOne (d :: rest)
      (c :: digits, rest)
    else if c = '_' && isOne d then
      let (digits, rest) := moreDigits isOne rest
      (d :: digits, rest)
    else ([], c :: d :: rest)

def someDigits? (isOne : Char → Bool) : Text → Option (Text × Text)
  | [] => none
  | c :: rest =>
    if isOne c then
      let (digits, rest) := moreDigits isOne rest
      some (c :: digits, rest)
    else none

def natOfBase (base : Nat) (digits : Text) : Nat :=
  digits.foldl (fun n c => base * n + (hexValue? c).getD 0) 0

def basedInt? (base : Nat) (isOne : Char → Bool) (s : Text) : Option (Datum × Text) :=
  (someDigits? isOne s).map fun (digits, rest) => (.int (natOfBase base digits), rest)

def prefixedInt? : Text → Option (Datum × Text)
  | '0' :: 'x' :: rest => basedInt? 16 (fun c => (hexValue? c).isSome) rest
  | '0' :: 'b' :: rest => basedInt? 2 (fun c => c = '0' || c = '1') rest
  | '0' :: 'o' :: rest => basedInt? 8 (fun c => '0' ≤ c && c ≤ '7') rest
  | _ => none

def takeSign : Text → Bool × Text
  | '-' :: rest => (true, rest)
  | '+' :: rest => (false, rest)
  | s => (false, s)

def wholeDigits? : Text → Option (Text × Text)
  | '0' :: rest => some (['0'], rest)
  | s => someDigits? isDigit s

def fraction? : Text → Option (Text × Text)
  | '.' :: rest => someDigits? isDigit rest
  | _ => none

def exponent? : Text → Option (Int × Text)
  | c :: rest =>
    if c = 'e' || c = 'E' then
      let (negative, rest) := takeSign rest
      (someDigits? isDigit rest).map fun (digits, rest) =>
        let n : Int := natOfBase 10 digits
        (if negative then -n else n, rest)
    else none
  | [] => none

def decimalInt (negative : Bool) (digits : Text) : Except Fault Datum :=
  if maxNumeralDigits < digits.length then .error (.numeralTooLong digits.length)
  else
    let n : Int := natOfBase 10 digits
    .ok (.int (if negative then -n else n))

def decimal? (s : Text) : Option (Read Datum) := do
  let (negative, rest) := takeSign s
  let (whole, rest) ← wholeDigits? rest
  match fraction? rest, exponent? rest with
  | none, none => some ((decimalInt negative whole).map fun n => (n, rest))
  | none, some (e, rest) =>
    some (.ok (.float (.ofDecimal negative (natOfBase 10 whole) e), rest))
  | some (places, rest), _ =>
    let digits := natOfBase 10 (whole ++ places)
    match exponent? rest with
    | none => some (.ok (.float (.ofDecimal negative digits (-places.length)), rest))
    | some (e, rest) => some (.ok (.float (.ofDecimal negative digits (e - places.length)), rest))

def specialFloat? : Text → Option (Datum × Text)
  | s =>
    match takeSign s with
    | (negative, 'i' :: 'n' :: 'f' :: rest) => some (.float (.infinity negative), rest)
    | (_, 'n' :: 'a' :: 'n' :: rest) => some (.float .nan, rest)
    | _ => none

def twoDigits? (low high : Nat) : Text → Option (Text × Text)
  | a :: b :: rest =>
    let n := natOfBase 10 [a, b]
    if isDigit a && isDigit b && low ≤ n && n ≤ high then some ([a, b], rest) else none
  | _ => none

def expect? (c : Char) : Text → Option Text
  | x :: rest => if x = c then some rest else none
  | [] => none

def isLeapYear (year : Nat) : Bool := year % 4 = 0 && (year % 100 ≠ 0 || year % 400 = 0)

def daysOf (year month : Nat) : Nat :=
  if month = 2 then (if isLeapYear year then 29 else 28)
  else if month = 4 || month = 6 || month = 9 || month = 11 then 30
  else 31

def date? : Text → Option (Text × Bool × Text)
  | a :: b :: c :: d :: rest => do
    if [a, b, c, d].all isDigit then
      let rest ← expect? '-' rest
      let (month, rest) ← twoDigits? 1 12 rest
      let rest ← expect? '-' rest
      let (day, rest) ← twoDigits? 1 31 rest
      let year := natOfBase 10 [a, b, c, d]
      let exists? := 1 ≤ year && natOfBase 10 day ≤ daysOf year (natOfBase 10 month)
      some ([a, b, c, d] ++ ['-'] ++ month ++ ['-'] ++ day, exists?, rest)
    else none
  | _ => none

def secondPart : Text → Text × Text
  | '.' :: rest =>
    let digits := rest.takeWhile isDigit
    if digits.isEmpty then ([], '.' :: rest)
    else
      let micros := digits.take 6 ++ List.replicate (6 - digits.length) '0'
      (if micros.all (· = '0') then [] else '.' :: micros, rest.dropWhile isDigit)
  | s => ([], s)

def time? (s : Text) : Option (Text × Text) := do
  let (hour, rest) ← twoDigits? 0 23 s
  let rest ← expect? ':' rest
  let (minute, rest) ← twoDigits? 0 59 rest
  let rest ← expect? ':' rest
  let (second, rest) ← twoDigits? 0 59 rest
  let (part, rest) := secondPart rest
  some (hour ++ [':'] ++ minute ++ [':'] ++ second ++ part, rest)

def zeroOffset : Text := "+00:00"

def offset? : Text → Option (Text × Text)
  | c :: rest =>
    if c = 'Z' || c = 'z' then some (zeroOffset, rest)
    else if c = '+' || c = '-' then do
      let (hour, rest) ← twoDigits? 0 23 rest
      let rest ← expect? ':' rest
      let (minute, rest) ← twoDigits? 0 59 rest
      let written := hour ++ [':'] ++ minute
      some (if written = "00:00" then zeroOffset else c :: written, rest)
    else none
  | [] => none

def timeAfterDate? : Text → Option (Text × Text)
  | c :: rest => do
    if c = 'T' || c = 't' || c = ' ' then
      let (time, rest) ← time? rest
      match offset? rest with
      | some (offset, rest) => some ('T' :: time ++ offset, rest)
      | none => some ('T' :: time, rest)
    else none
  | [] => none

def moment? (s : Text) : Option (Read Datum) :=
  match date? s with
  | some (_, false, _) => some (.error .malformed)
  | some (date, true, rest) =>
    match timeAfterDate? rest with
    | some (time, rest) => some (.ok (.moment (date ++ time), rest))
    | none => some (.ok (.moment date, rest))
  | none => (time? s).map fun (time, rest) => .ok (.moment time, rest)

def scalar : Text → Read Datum
  | 't' :: 'r' :: 'u' :: 'e' :: rest => .ok (.bool true, rest)
  | 'f' :: 'a' :: 'l' :: 's' :: 'e' :: rest => .ok (.bool false, rest)
  | s =>
    match moment? s with
    | some result => result
    | none =>
      match prefixedInt? s with
      | some result => .ok result
      | none =>
        match decimal? s with
        | some result => result
        | none =>
          match specialFloat? s with
          | some result => .ok result
          | none => .error .malformed

end Toml
end ScriptDoc
