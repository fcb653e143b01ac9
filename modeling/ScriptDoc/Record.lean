import ScriptDoc.Value

/-!
The records that the tags of a documentation block leave behind, one kind for each tag. Every
record knows the line of its tag.
-/
namespace ScriptDoc

structure Flag where
  short : Option Text := none
  long : Option Text := none
  description : Text := []
  line : Int := 0
  deriving DecidableEq, Repr

structure Opt where
  value : Value
  short : Option Text := none
  long : Option Text := none
  description : Text := []
  line : Int := 0
  deriving DecidableEq, Repr

structure Operand where
  value : Value
  description : Text := []
  line : Int := 0
  deriving DecidableEq, Repr

structure Variable where
  name : Text
  description : Text := []
  line : Int := 0
  deriving DecidableEq, Repr

structure FileUse where
  path : Text
  description : Text := []
  line : Int := 0
  deriving DecidableEq, Repr

structure ExitStatus where
  code : Text
  description : Text := []
  line : Int := 0
  deriving DecidableEq, Repr

structure Stream where
  description : Text := []
  line : Int := 0
  deriving DecidableEq, Repr

structure Deprecation where
  message : Text := []
  line : Int := 0
  deriving DecidableEq, Repr

inductive Record where
  | flag (record : Flag)
  | option (record : Opt)
  | operand (record : Operand)
  | env (record : Variable)
  | reads (record : FileUse)
  | stdin (record : Stream)
  | exit (record : ExitStatus)
  | stdout (record : Stream)
  | stderr (record : Stream)
  | sets (record : Variable)
  | writes (record : FileUse)
  | deprecated (record : Deprecation)
  deriving DecidableEq, Repr

def extendDescription (description addition : Text) : Text :=
  if description.isEmpty then addition else description ++ [' '] ++ addition

def Record.extend (addition : Text) : Record → Record
  | .flag r => .flag { r with description := extendDescription r.description addition }
  | .option r => .option { r with description := extendDescription r.description addition }
  | .operand r => .operand { r with description := extendDescription r.description addition }
  | .env r => .env { r with description := extendDescription r.description addition }
  | .reads r => .reads { r with description := extendDescription r.description addition }
  | .stdin r => .stdin { r with description := extendDescription r.description addition }
  | .exit r => .exit { r with description := extendDescription r.description addition }
  | .stdout r => .stdout { r with description := extendDescription r.description addition }
  | .stderr r => .stderr { r with description := extendDescription r.description addition }
  | .sets r => .sets { r with description := extendDescription r.description addition }
  | .writes r => .writes { r with description := extendDescription r.description addition }
  | .deprecated r => .deprecated { r with message := extendDescription r.message addition }

end ScriptDoc
