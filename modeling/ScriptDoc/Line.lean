import ScriptDoc.Text.Blank

/-!
The shapes of script lines that matter to documentation. A shape looks at the line up to its end
or up to one line feed that ends it.
-/
namespace ScriptDoc

def restOfLine? (s : Text) : Option Text :=
  match Text.cut '\n' s with
  | (line, none) => some line
  | (line, some []) => some line
  | (_, some _) => none

def nonemptyRest? (s : Text) : Option Text :=
  match restOfLine? s with
  | some (c :: line) => some (c :: line)
  | _ => none

/-- What follows at least one blank. As many blanks are skipped as leave something behind, so a
text of blanks alone leaves its last one. -/
def restAfterBlanks? : Text → Option Text
  | [] => none
  | c :: rest =>
    if isAsciiBlank c then
      match restAfterBlanks? rest with
      | some line => some line
      | none => nonemptyRest? rest
    else none

inductive TopLine where
  | shebang (interpreter : Text)
  | metaValue (tag value : Text)
  | metaOpen (tag : Text)
  | blockOpen (keyword extra : Text)
  | other
  deriving DecidableEq, Repr

namespace TopLine

def ofMetadata (s : Text) : TopLine :=
  let tag := s.takeWhile isWordChar
  let rest := s.dropWhile isWordChar
  if tag.isEmpty then .other
  else
    match restAfterBlanks? rest with
    | some value => .metaValue tag (Text.trim value)
    | none => if rest.all isAsciiBlank then .metaOpen tag else .other

def ofBlock (s : Text) : TopLine :=
  match restOfLine? ((s.dropWhile isWordChar).dropWhile isAsciiBlank) with
  | some extra => .blockOpen (s.takeWhile isWordChar) (Text.trim extra)
  | none => .other

def ofText : Text → TopLine
  | '#' :: '!' :: rest =>
    match nonemptyRest? rest with
    | some interpreter => .shebang (Text.trim interpreter)
    | none => .other
  | '#' :: '?' :: '/' :: rest => ofMetadata rest
  | '#' :: '@' :: '/' :: rest => ofBlock rest
  | _ => .other

end TopLine

def continuation? : Text → Option Text
  | ' ' :: '#' :: ' ' :: rest => restOfLine? rest
  | ' ' :: '#' :: rest => restOfLine? rest
  | _ => none

def isClose : Text → Bool
  | ' ' :: '#' :: '#' :: rest => rest.all isBlank
  | _ => false

def isNameChar (c : Char) : Bool := isWordChar c || c = '-'

def takeName? : Text → Option (Text × Text)
  | [] => none
  | c :: rest =>
    if isWordChar c then some (c :: rest.takeWhile isNameChar, rest.dropWhile isNameChar) else none

def dropStart? : Text → Text → Option Text
  | [], s => some s
  | _ :: _, [] => none
  | x :: start, c :: s => if x = c then dropStart? start s else none

def keywordFunction? (s : Text) : Option Text := do
  match ← dropStart? "function" s with
  | c :: rest =>
    if isAsciiBlank c then
      let (name, _) ← takeName? (rest.dropWhile isAsciiBlank)
      some name
    else none
  | [] => none

def parenFunction? (s : Text) : Option Text := do
  let (name, rest) ← takeName? s
  match rest.dropWhile isAsciiBlank with
  | '(' :: ')' :: _ => some name
  | _ => none

def functionName? (line : Text) : Option Text :=
  let s := line.dropWhile isAsciiBlank
  match keywordFunction? s with
  | some name => some name
  | none => parenFunction? s

end ScriptDoc
