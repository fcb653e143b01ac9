import ScriptDoc.Document
import ScriptDoc.Json

/-!
Documents as JSON. Empty entries are left out, except for the entries that make a record what it
is; line numbers are always there.
-/
namespace ScriptDoc
open Json

def Value.toJson (v : Value) : Json :=
  .object (field "name" (.text v.name) ++ field "required" (.bool v.required) ++
    optionalField "default" v.default ++ switchField "variadic" v.variadic)

def Flag.toJson (r : Flag) : Json :=
  .object (optionalField "short" r.short ++ optionalField "long" r.long ++
    textField "description" r.description ++ field "line" (.int r.line))

def Opt.toJson (r : Opt) : Json :=
  .object (optionalField "short" r.short ++ optionalField "long" r.long ++
    field "value" r.value.toJson ++ textField "description" r.description ++
    field "line" (.int r.line))

def Operand.toJson (r : Operand) : Json :=
  .object (field "value" r.value.toJson ++ textField "description" r.description ++
    field "line" (.int r.line))

def Variable.toJson (r : Variable) : Json :=
  .object (field "name" (.text r.name) ++ textField "description" r.description ++
    field "line" (.int r.line))

def FileUse.toJson (r : FileUse) : Json :=
  .object (field "path" (.text r.path) ++ textField "description" r.description ++
    field "line" (.int r.line))

def ExitStatus.toJson (r : ExitStatus) : Json :=
  .object (field "code" (.text r.code) ++ textField "description" r.description ++
    field "line" (.int r.line))

def Stream.toJson (r : Stream) : Json :=
  .object (textField "description" r.description ++ field "line" (.int r.line))

def Deprecation.toJson (r : Deprecation) : Json :=
  .object (textField "message" r.message ++ field "line" (.int r.line))

def Record.toJson : Record → Json
  | .flag r => r.toJson
  | .option r => r.toJson
  | .operand r => r.toJson
  | .env r => r.toJson
  | .reads r => r.toJson
  | .stdin r => r.toJson
  | .exit r => r.toJson
  | .stdout r => r.toJson
  | .stderr r => r.toJson
  | .sets r => r.toJson
  | .writes r => r.toJson
  | .deprecated r => r.toJson

def Block.toJson (b : Block) : Json :=
  .object (field "visibility" (.text b.visibility.name) ++ optionalField "name" b.name ++
    textField "description" b.description ++ optionalField "functionName" b.functionName ++
    field "line" (.int b.line) ++
    listField "flags" (b.flags.map Flag.toJson) ++
    listField "options" (b.options.map Opt.toJson) ++
    listField "operands" (b.operands.map Operand.toJson) ++
    listField "env" (b.env.map Variable.toJson) ++
    listField "reads" (b.reads.map FileUse.toJson) ++
    singleField "stdin" (b.stdin.map Stream.toJson) ++
    listField "exit" (b.exit.map ExitStatus.toJson) ++
    singleField "stdout" (b.stdout.map Stream.toJson) ++
    singleField "stderr" (b.stderr.map Stream.toJson) ++
    listField "sets" (b.sets.map Variable.toJson) ++
    listField "writes" (b.writes.map FileUse.toJson) ++
    singleField "deprecated" (b.deprecated.map Deprecation.toJson))

def Metadata.toJson (m : Metadata) : Json :=
  .object (MetaField.all.flatMap fun field => optionalField field.tag (m.get field))

def Warning.toJson (w : Warning) : Json :=
  .object (field "line" (.int w.line) ++ field "message" (.text w.message))

namespace Document

def toJson (d : Document) : Json :=
  .object (optionalField "path" d.path ++ optionalField "shebang" d.shebang ++
    field "meta" d.metadata.toJson ++
    listField "blocks" (d.blocks.map Block.toJson) ++
    listField "warnings" (d.warnings.map Warning.toJson))

def toJsonText (d : Document) : Text := d.toJson.indented 0 ++ ['\n']

def toJsonLine (d : Document) : Text := d.toJson.compact ++ ['\n']

end Document
end ScriptDoc
