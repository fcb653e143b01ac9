import ScriptDoc.Record

/-!
Documentation blocks: what a script says about one of its commands or functions.
-/
namespace ScriptDoc

inductive Visibility where
  | command
  | subcommand
  | exposed
  | internal
  deriving DecidableEq, Repr

def Visibility.name : Visibility → Text
  | .command => "command"
  | .subcommand => "subcommand"
  | .exposed => "public"
  | .internal => "private"

structure Block where
  visibility : Visibility := .exposed
  name : Option Text := none
  description : Text := []
  functionName : Option Text := none
  line : Int := 0
  flags : List Flag := []
  options : List Opt := []
  operands : List Operand := []
  env : List Variable := []
  reads : List FileUse := []
  stdin : Option Stream := none
  exit : List ExitStatus := []
  stdout : Option Stream := none
  stderr : Option Stream := none
  sets : List Variable := []
  writes : List FileUse := []
  deprecated : Option Deprecation := none
  deriving DecidableEq, Repr

namespace Block

def attach (b : Block) : Record → Block
  | .flag r => { b with flags := b.flags ++ [r] }
  | .option r => { b with options := b.options ++ [r] }
  | .operand r => { b with operands := b.operands ++ [r] }
  | .env r => { b with env := b.env ++ [r] }
  | .reads r => { b with reads := b.reads ++ [r] }
  | .stdin r => { b with stdin := some r }
  | .exit r => { b with exit := b.exit ++ [r] }
  | .stdout r => { b with stdout := some r }
  | .stderr r => { b with stderr := some r }
  | .sets r => { b with sets := b.sets ++ [r] }
  | .writes r => { b with writes := b.writes ++ [r] }
  | .deprecated r => { b with deprecated := some r }

def bindFunction (b : Block) (function : Text) : Block :=
  match b.functionName with
  | some _ => b
  | none => { b with functionName := some function }

end Block

def blockHeader (keyword extra : Text) : Visibility × Option Text :=
  if keyword = "subcommand" then (.subcommand, if extra.isEmpty then none else some extra)
  else if keyword = "command" then (.command, none)
  else if keyword = "private" then (.internal, none)
  else (.exposed, none)

end ScriptDoc
