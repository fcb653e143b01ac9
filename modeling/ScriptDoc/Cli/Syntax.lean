import ScriptDoc.Text.Basic

/-!
The syntax of options on a command line. Short options can be joined in one argument, a value can
stand in the same argument or in the next, and two hyphens end the options.
-/
namespace ScriptDoc

inductive SyntaxFault where
  | noSuchOption (name : Text)
  | valueMissing (name : Text)
  | valueRefused (name : Text)
  deriving DecidableEq, Repr

structure OptionTable (α : Type) where
  meaning? : Text → Option α
  takesValue : α → Bool

structure Scanned (α : Type) where
  given : List (α × Text)
  arguments : List Text
  deriving DecidableEq, Repr

namespace Scanned

def addOption (given : List (α × Text)) (s : Scanned α) : Scanned α :=
  { s with given := given ++ s.given }

def addArgument (argument : Text) (s : Scanned α) : Scanned α :=
  { s with arguments := argument :: s.arguments }

def value? [DecidableEq α] (s : Scanned α) (option : α) : Option Text :=
  ((s.given.filter fun entry => entry.1 = option).getLast?).map Prod.snd

def has [DecidableEq α] (s : Scanned α) (option : α) : Bool := (s.value? option).isSome

end Scanned

namespace OptionTable

structure Found (α : Type) where
  given : List (α × Text)
  waiting : Option (α × Text)

def long (table : OptionTable α) (argument : Text) : Except SyntaxFault (Found α) :=
  let (name, value) := Text.cut '=' argument
  match table.meaning? name with
  | none => .error (.noSuchOption name)
  | some option =>
    match table.takesValue option, value with
    | true, some value => .ok ⟨[(option, value)], none⟩
    | true, none => .ok ⟨[], some (option, name)⟩
    | false, some _ => .error (.valueRefused name)
    | false, none => .ok ⟨[(option, [])], none⟩

def short (table : OptionTable α) : Text → Except SyntaxFault (Found α)
  | [] => .ok ⟨[], none⟩
  | letter :: rest =>
    match table.meaning? ['-', letter] with
    | none => .error (.noSuchOption ['-', letter])
    | some option =>
      if table.takesValue option then
        if rest.isEmpty then .ok ⟨[], some (option, ['-', letter])⟩
        else .ok ⟨[(option, rest)], none⟩
      else
        match table.short rest with
        | .error e => .error e
        | .ok found => .ok { found with given := (option, []) :: found.given }

def scanFrom (table : OptionTable α) (mixed : Bool) (waiting : Option (α × Text)) :
    List Text → Except SyntaxFault (Scanned α)
  | [] =>
    match waiting with
    | some (_, name) => .error (.valueMissing name)
    | none => .ok ⟨[], []⟩
  | argument :: rest =>
    match waiting, argument with
    | some (option, _), value =>
      (table.scanFrom mixed none rest).map (Scanned.addOption [(option, value)])
    | none, ['-', '-'] => .ok ⟨[], rest⟩
    | none, '-' :: '-' :: _ =>
      match table.long argument with
      | .error e => .error e
      | .ok found =>
        (table.scanFrom mixed found.waiting rest).map (Scanned.addOption found.given)
    | none, '-' :: letter :: letters =>
      match table.short (letter :: letters) with
      | .error e => .error e
      | .ok found =>
        (table.scanFrom mixed found.waiting rest).map (Scanned.addOption found.given)
    | none, argument =>
      if mixed then (table.scanFrom mixed none rest).map (Scanned.addArgument argument)
      else .ok ⟨[], argument :: rest⟩

def scan (table : OptionTable α) (mixed : Bool) (arguments : List Text) :
    Except SyntaxFault (Scanned α) :=
  table.scanFrom mixed none arguments

end OptionTable
end ScriptDoc
