import ScriptDoc.Text.Basic

/-!
The smallest parts of TOML: blanks and comments, keys, strings. A reader takes what it knows from
the start of a text and returns the rest.
-/
namespace ScriptDoc
namespace Toml

inductive Fault where
  | malformed
  | numeralTooLong (digits : Nat)
  deriving DecidableEq, Repr

abbrev Read (α : Type) := Except Fault (α × Text)

def isSpace (c : Char) : Bool := c = ' ' || c = '\t'

def isGap (c : Char) : Bool := isSpace c || c = '\n'

def skipSpaces (s : Text) : Text := s.dropWhile isSpace

def isIllegal (c : Char) : Bool := (c.toNat < 0x20 || c.toNat = 0x7f) && c ≠ '\t'

def skipComment : Text → Except Fault Text
  | '#' :: rest =>
    if (rest.takeWhile (· ≠ '\n')).any isIllegal then .error .malformed
    else .ok (rest.dropWhile (· ≠ '\n'))
  | s => .ok s

def skipFiller (inComment : Bool) : Text → Except Fault Text
  | [] => .ok []
  | c :: rest =>
    if inComment then
      if c = '\n' then skipFiller false rest
      else if isIllegal c then .error .malformed
      else skipFiller true rest
    else if isGap c then skipFiller false rest
    else if c = '#' then skipFiller true rest
    else .ok (c :: rest)

def push (c : Char) : Read Text → Read Text
  | .ok (s, rest) => .ok (c :: s, rest)
  | .error e => .error e

def literalString : Text → Read Text
  | [] => .error .malformed
  | c :: rest =>
    if c = '\'' then .ok ([], rest)
    else if isIllegal c then .error .malformed
    else push c (literalString rest)

def longLiteralString : Text → Read Text
  | [] => .error .malformed
  | '\'' :: '\'' :: '\'' :: rest => .ok ([], rest)
  | c :: rest =>
    if isIllegal c && c ≠ '\n' then .error .malformed else push c (longLiteralString rest)

def hexValue? (c : Char) : Option Nat :=
  if '0' ≤ c && c ≤ '9' then some (c.toNat - '0'.toNat)
  else if 'a' ≤ c && c ≤ 'f' then some (c.toNat - 'a'.toNat + 10)
  else if 'A' ≤ c && c ≤ 'F' then some (c.toNat - 'A'.toNat + 10)
  else none

def hexChar? (digits : Text) : Option Char := do
  let values ← digits.mapM hexValue?
  let n := values.foldl (fun n d => 16 * n + d) 0
  if h : n.isValidChar then some (Char.ofNatAux n h) else none

def escapeChar? : Char → Option Char
  | 'b' => some '\x08'
  | 't' => some '\t'
  | 'n' => some '\n'
  | 'f' => some '\x0c'
  | 'r' => some '\r'
  | '"' => some '"'
  | '\\' => some '\\'
  | _ => none

inductive Mode where
  | plain
  | lineEnd
  | indent
  deriving DecidableEq, Repr

def basicString (long : Bool) (mode : Mode) : Text → Read Text
  | [] => .error .malformed
  | c :: rest =>
    if mode = .lineEnd then
      if isSpace c then basicString long .lineEnd rest
      else if c = '\n' then basicString long .indent rest
      else .error .malformed
    else if mode = .indent && isGap c then basicString long .indent rest
    else if c = '"' then
      if long then
        match rest with
        | '"' :: '"' :: after => .ok ([], after)
        | rest => push '"' (basicString long .plain rest)
      else .ok ([], rest)
    else if c = '\\' then
      match rest with
      | 'u' :: a :: b :: c :: d :: after =>
        match hexChar? [a, b, c, d] with
        | some x => push x (basicString long .plain after)
        | none => .error .malformed
      | 'U' :: a :: b :: c :: d :: e :: f :: g :: h :: after =>
        match hexChar? [a, b, c, d, e, f, g, h] with
        | some x => push x (basicString long .plain after)
        | none => .error .malformed
      | x :: after =>
        if long && isSpace x then basicString long .lineEnd after
        else if long && x = '\n' then basicString long .indent after
        else
          match escapeChar? x with
          | some x => push x (basicString long .plain after)
          | none => .error .malformed
      | [] => .error .malformed
    else if isIllegal c && !(long && c = '\n') then .error .malformed
    else push c (basicString long .plain rest)

def extraQuotes (quote : Char) : Read Text → Read Text
  | .ok (s, a :: b :: rest) =>
    if a = quote then
      if b = quote then .ok (s ++ [quote, quote], rest) else .ok (s ++ [quote], b :: rest)
    else .ok (s, a :: b :: rest)
  | .ok (s, [a]) => if a = quote then .ok (s ++ [quote], []) else .ok (s, [a])
  | result => result

def dropFirstNewline : Text → Text
  | '\n' :: rest => rest
  | s => s

def isBareKeyChar (c : Char) : Bool := c.isAlphanum || c = '-' || c = '_'

def keyPart : Text → Read Text
  | '\'' :: rest => literalString rest
  | '"' :: rest => basicString false .plain rest
  | s =>
    if (s.takeWhile isBareKeyChar).isEmpty then .error .malformed
    else .ok (s.takeWhile isBareKeyChar, s.dropWhile isBareKeyChar)

def key : Nat → Text → Except Fault (List Text × Text)
  | 0, _ => .error .malformed
  | fuel + 1, s => do
    let (part, rest) ← keyPart s
    match skipSpaces rest with
    | '.' :: more =>
      let (parts, rest) ← key fuel (skipSpaces more)
      .ok (part :: parts, rest)
    | rest => .ok ([part], rest)

end Toml
end ScriptDoc
