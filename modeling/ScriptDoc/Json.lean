import ScriptDoc.Text.Printable

/-!
JSON values with ordered fields, and their two written forms: over several lines with an indent
of two spaces, and on one line without spaces.
-/
namespace ScriptDoc

inductive Json where
  | bool (b : Bool)
  | int (n : Int)
  | text (s : Text)
  | array (items : List Json)
  | object (fields : List (Text × Json))
  deriving Repr

namespace Json

def escapedChar (c : Char) : Text :=
  if c = '"' then "\\\""
  else if c = '\\' then "\\\\"
  else if c = '\n' then "\\n"
  else if c = '\r' then "\\r"
  else if c = '\t' then "\\t"
  else if c.toNat = 0x08 then "\\b"
  else if c.toNat = 0x0c then "\\f"
  else if c.toNat < 0x20 then "\\u" ++ hexDigits 4 c.toNat
  else [c]

def literal (s : Text) : Text := ['"'] ++ s.flatMap escapedChar ++ ['"']

def ofBool (b : Bool) : Text := if b then "true" else "false"

mutual

def compact : Json → Text
  | .bool b => ofBool b
  | .int n => Text.ofInt n
  | .text s => literal s
  | .array items => ['['] ++ compactItems items ++ [']']
  | .object fields => ['\x7b'] ++ compactFields fields ++ ['\x7d']

def compactItems : List Json → Text
  | [] => []
  | [item] => compact item
  | item :: next :: items => compact item ++ [','] ++ compactItems (next :: items)

def compactFields : List (Text × Json) → Text
  | [] => []
  | [(key, value)] => literal key ++ [':'] ++ compact value
  | (key, value) :: next :: fields =>
    literal key ++ [':'] ++ compact value ++ [','] ++ compactFields (next :: fields)

end

def newLine (depth : Nat) : Text := '\n' :: List.replicate (2 * depth) ' '

mutual

def indented (depth : Nat) : Json → Text
  | .bool b => ofBool b
  | .int n => Text.ofInt n
  | .text s => literal s
  | .array [] => "[]"
  | .array (item :: items) =>
    ['['] ++ indentedItems (depth + 1) (item :: items) ++ newLine depth ++ [']']
  | .object [] => "\x7b\x7d"
  | .object (field :: fields) =>
    ['\x7b'] ++ indentedFields (depth + 1) (field :: fields) ++ newLine depth ++ ['\x7d']

def indentedItems (depth : Nat) : List Json → Text
  | [] => []
  | [item] => newLine depth ++ indented depth item
  | item :: next :: items =>
    newLine depth ++ indented depth item ++ [','] ++ indentedItems depth (next :: items)

def indentedFields (depth : Nat) : List (Text × Json) → Text
  | [] => []
  | [(key, value)] => newLine depth ++ literal key ++ ": " ++ indented depth value
  | (key, value) :: next :: fields =>
    newLine depth ++ literal key ++ ": " ++ indented depth value ++ [','] ++
      indentedFields depth (next :: fields)

end

def field (key : Text) (value : Json) : List (Text × Json) := [(key, value)]

def textField (key s : Text) : List (Text × Json) :=
  if s.isEmpty then [] else [(key, .text s)]

def optionalField (key : Text) : Option Text → List (Text × Json)
  | some s => textField key s
  | none => []

def switchField (key : Text) (b : Bool) : List (Text × Json) :=
  if b then [(key, .bool true)] else []

def listField (key : Text) (items : List Json) : List (Text × Json) :=
  if items.isEmpty then [] else [(key, .array items)]

def singleField (key : Text) : Option Json → List (Text × Json)
  | some value => [(key, value)]
  | none => []

end Json
end ScriptDoc
