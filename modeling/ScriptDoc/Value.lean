import ScriptDoc.Text.Blank
import ScriptDoc.Text.Printable

/-!
Value notation: `<name>` is required, `[name]` and `[name=default]` are optional, and three dots
before the closing bracket allow any number of values.
-/
namespace ScriptDoc

structure Value where
  name : Text
  required : Bool
  default : Option Text := none
  variadic : Bool := false
  deriving DecidableEq, Repr

inductive NotationFault where
  | tooShort
  | brackets
  | nothingBeforeDots
  | defaultOfRequired
  | nothingBeforeEquals
  deriving DecidableEq, Repr

structure NotationError where
  written : Text
  fault : NotationFault
  deriving DecidableEq, Repr

def NotationFault.reason : NotationFault → Text
  | .tooShort => ""
  | .brackets => " (must be <...> or [...])"
  | .nothingBeforeDots => " (empty name before ...)"
  | .defaultOfRequired => " (defaults not allowed in required values)"
  | .nothingBeforeEquals => " (empty name before =)"

def NotationError.message (e : NotationError) : Text :=
  "invalid value notation: " ++ e.written.quoted ++ e.fault.reason

namespace Value

def dots : Text := ['.', '.', '.']

def written (v : Value) : Text :=
  let tail := if v.variadic then dots else []
  if v.required then ['<'] ++ v.name ++ tail ++ ['>']
  else
    match v.default with
    | some text => ['['] ++ v.name ++ ['='] ++ text ++ tail ++ [']']
    | none => ['['] ++ v.name ++ tail ++ [']']

def dropDots? (s : Text) : Option Text :=
  match s.reverse with
  | '.' :: '.' :: '.' :: rest => some rest.reverse
  | _ => none

def requiredBy? : Char → Char → Option Bool
  | '<', '>' => some true
  | '[', ']' => some false
  | _, _ => none

def ofBody (required variadic : Bool) (body : Text) : Except NotationFault Value :=
  match Text.cut '=' body with
  | (_, none) => .ok ⟨body, required, none, variadic⟩
  | (name, some text) =>
    if required then .error .defaultOfRequired
    else if name.isEmpty then .error .nothingBeforeEquals
    else .ok ⟨name, required, some text, variadic⟩

def ofInner (required : Bool) (inner : Text) : Except NotationFault Value :=
  match dropDots? inner with
  | some body =>
    if body.isEmpty then .error .nothingBeforeDots else ofBody required true body
  | none => ofBody required false inner

def ofTrimmed (s : Text) : Except NotationFault Value :=
  if s.length < 3 then .error .tooShort
  else
    match s, s.getLast? with
    | first :: rest, some last =>
      match requiredBy? first last with
      | some required => ofInner required rest.dropLast
      | none => .error .brackets
    | _, _ => .error .tooShort

def read (s : Text) : Except NotationError Value :=
  match ofTrimmed (Text.trim s) with
  | .ok v => .ok v
  | .error fault => .error ⟨Text.trim s, fault⟩

end Value
end ScriptDoc
