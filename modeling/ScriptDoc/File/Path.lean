import ScriptDoc.Text.Basic

/-!
Paths. Empty segments and single dots vanish when a path is read, double dots stay. Two slashes
at the start are kept as two, more count as one.
-/
namespace ScriptDoc

structure Path where
  slashes : Nat
  parts : List Text
  deriving DecidableEq, Repr

namespace Path

def isRealPart (part : Text) : Bool := !part.isEmpty && part ≠ ['.']

def ofText (s : Text) : Path :=
  let slashes :=
    match (s.takeWhile (· = '/')).length with
    | 0 => 0
    | 2 => 2
    | _ => 1
  ⟨slashes, (Text.splitOn '/' s).filter isRealPart⟩

def endsInside (s : Text) : Bool := !isRealPart ((Text.splitOn '/' s).getLast?.getD [])

def toText (p : Path) : Text :=
  if p.slashes = 0 && p.parts.isEmpty then ['.']
  else List.replicate p.slashes '/' ++ Text.join ['/'] p.parts

def isAbsolute (p : Path) : Bool := p.slashes ≠ 0

def parent (p : Path) : Path := { p with parts := p.parts.dropLast }

def name (p : Path) : Text := p.parts.getLast?.getD []

def lastDot? (name : Text) : Option Nat :=
  let fromEnd := name.reverse.idxOf '.'
  if fromEnd < name.length then some (name.length - 1 - fromEnd) else none

-- The name without its extension. A dot at either end of the name begins no extension.
def stem (p : Path) : Text :=
  match lastDot? p.name with
  | some i => if 0 < i && i + 1 < p.name.length then p.name.take i else p.name
  | none => p.name

def absolute (directory p : Path) : Path :=
  if p.isAbsolute then p else ⟨directory.slashes, directory.parts ++ p.parts⟩

def child (p : Path) (name : Text) : Path := { p with parts := p.parts ++ [name] }

def pushPart (parts : List Text) (part : Text) : List Text :=
  if part = ['.', '.'] then parts.dropLast else parts ++ [part]

def normal (p : Path) : Path := { p with parts := p.parts.foldl pushPart [] }

def ancestors (p : Path) : List Path :=
  (List.range (p.parts.length + 1)).reverse.map fun count => { p with parts := p.parts.take count }

end Path
end ScriptDoc
