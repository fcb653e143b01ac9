import ScriptDoc.Text.Printable

/-!
Strict UTF-8. Bytes are taken in blocks of `blockSize`; a sequence that a block leaves unfinished
is carried into the next one. The position of a fault counts from the first byte that had not
been decoded when its block began, and a sequence that the input itself leaves unfinished stands
at position 0. The first two bytes of a surrogate are refused like any other fault, but where they
end a block they are carried too, so that they also stand at position 0.
-/
namespace ScriptDoc

abbrev Bytes := List UInt8

namespace Utf8

def encodeChar (c : Char) : Bytes :=
  let n := c.toNat
  if n < 0x80 then [UInt8.ofNat n]
  else if n < 0x800 then [UInt8.ofNat (0xc0 + n / 64), UInt8.ofNat (0x80 + n % 64)]
  else if n < 0x10000 then
    [UInt8.ofNat (0xe0 + n / 4096), UInt8.ofNat (0x80 + n / 64 % 64), UInt8.ofNat (0x80 + n % 64)]
  else
    [UInt8.ofNat (0xf0 + n / 262144), UInt8.ofNat (0x80 + n / 4096 % 64),
      UInt8.ofNat (0x80 + n / 64 % 64), UInt8.ofNat (0x80 + n % 64)]

def encode (s : Text) : Bytes := s.flatMap encodeChar

inductive Reason where
  | startByte
  | continuationByte
  | endOfData
  deriving DecidableEq, Repr

def Reason.text : Reason → Text
  | .startByte => "invalid start byte"
  | .continuationByte => "invalid continuation byte"
  | .endOfData => "unexpected end of data"

structure Fault where
  reason : Reason
  bytes : Bytes
  position : Nat
  deriving DecidableEq, Repr

def Fault.place (f : Fault) : Text :=
  match f.bytes with
  | [b] => "byte 0x" ++ hexDigits 2 b.toNat ++ " in position " ++ Text.ofNat f.position
  | bytes =>
    "bytes in position " ++ Text.ofNat f.position ++ "-" ++
      Text.ofNat (f.position + bytes.length - 1)

def Fault.message (f : Fault) : Text :=
  "'utf-8' codec can't decode " ++ f.place ++ ": " ++ f.reason.text

structure Partial where
  bytes : Bytes
  bits : Nat
  owed : Nat
  low : Nat
  high : Nat
  deriving DecidableEq, Repr

inductive Step where
  | char (c : Char)
  | more (begun : Partial)
  | bad (reason : Reason) (bytes : Bytes)
  deriving DecidableEq, Repr

/-- Begins a sequence. The range of the second byte keeps out overlong forms, surrogates and
numbers past the last code point. -/
def start (b : UInt8) : Step :=
  let n := b.toNat
  if n < 0x80 then .char (Char.ofNat n)
  else if n < 0xc2 then .bad .startByte [b]
  else if n < 0xe0 then .more ⟨[b], n - 0xc0, 1, 0x80, 0xbf⟩
  else if n < 0xf0 then
    .more ⟨[b], n - 0xe0, 2, if n = 0xe0 then 0xa0 else 0x80, if n = 0xed then 0x9f else 0xbf⟩
  else if n < 0xf5 then
    .more ⟨[b], n - 0xf0, 3, if n = 0xf0 then 0x90 else 0x80, if n = 0xf4 then 0x8f else 0xbf⟩
  else .bad .startByte [b]

def Partial.next (begun : Partial) (b : UInt8) : Step :=
  if begun.low ≤ b.toNat && b.toNat ≤ begun.high then
    let bits := begun.bits * 64 + b.toNat % 64
    if begun.owed = 1 then .char (Char.ofNat bits)
    else .more ⟨begun.bytes ++ [b], bits, begun.owed - 1, 0x80, 0xbf⟩
  else .bad .continuationByte begun.bytes

def step : Option Partial → UInt8 → Step
  | none, b => start b
  | some begun, b => begun.next b

def blockSize : Nat := 8192

def held : Option Partial → Bytes
  | some begun => begun.bytes
  | none => []

def endsSurrogateHead (begun : Option Partial) (b : UInt8) : Bool :=
  held begun = [0xed] && 0xa0 ≤ b.toNat && b.toNat ≤ 0xbf

/-- Decodes the bytes from `offset` on, in a block whose decoding began at `origin`. The text
before them is given backwards. -/
def decodeFrom (offset origin : Nat) (begun : Option Partial) (before : Text) :
    Bytes → Except Fault Text
  | [] =>
    match begun with
    | none => .ok before.reverse
    | some begun => .error ⟨.endOfData, begun.bytes, 0⟩
  | b :: rest =>
    let first := offset - (held begun).length
    let origin := if offset % blockSize = 0 then first else origin
    match step begun b with
    | .char c => decodeFrom (offset + 1) origin none (c :: before) rest
    | .more begun => decodeFrom (offset + 1) origin (some begun) before rest
    | .bad reason bytes =>
      let blockEnds := rest.isEmpty || (offset + 1) % blockSize = 0
      let carried := blockEnds && endsSurrogateHead begun b
      .error ⟨reason, bytes, if carried then 0 else first - origin⟩

def decode (bytes : Bytes) : Except Fault Text := decodeFrom 0 0 none [] bytes

end Utf8
end ScriptDoc
