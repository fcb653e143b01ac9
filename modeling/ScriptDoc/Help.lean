import ScriptDoc.Entry

/-!
Help text: a header, the synopsis, and tables of subcommands, options, environment variables and
exit codes. A part without content is left out.
-/
namespace ScriptDoc
namespace Help

def labelWidth : Nat := 24

def header (m : Metadata) : Text :=
  match nonempty? m.name, nonempty? m.description with
  | some name, some description => name ++ " - " ++ Text.firstLine description ++ "\n\n"
  | some name, none => name ++ "\n\n"
  | none, _ => []

def usage (m : Metadata) : Text :=
  match nonempty? m.synopsis with
  | some synopsis => "Usage:\n  " ++ synopsis ++ "\n\n"
  | none => []

def keyWidth (rows : List (Text × Text)) : Nat :=
  rows.foldl (fun width row => max width row.1.length) 0

def tableRow (width : Nat) (row : Text × Text) : Text :=
  if row.2.isEmpty then "  " ++ row.1 ++ "\n"
  else "  " ++ Text.padRight width row.1 ++ "  " ++ row.2 ++ "\n"

def labelRow (e : Entry) : Text :=
  if e.description.isEmpty then "  " ++ e.label ++ "\n"
  else "  " ++ Text.padRight labelWidth e.label ++ e.description ++ "\n"

def part (title : Text) (lines : List Text) : Text :=
  if lines.isEmpty then [] else title ++ ":\n" ++ lines.flatten ++ "\n"

def table (title : Text) (rows : List (Text × Text)) : Text :=
  part title (rows.map (tableRow (keyWidth rows)))

def commands (d : Document) : Text :=
  table "Commands" (d.subcommands.map fun b => (b.name.getD [], b.summary))

def options (b : Block) : Text := part "Options" (b.entries.map labelRow)

def environment (b : Block) : Text :=
  table "Environment" (b.env.map fun r => (r.name, Text.firstLine r.description))

def exitCodes (b : Block) : Text :=
  table "Exit Codes" (b.exit.map fun r => (r.code, r.description))

end Help

def Document.help (d : Document) : Text :=
  Help.header d.metadata ++ Help.usage d.metadata ++ Help.commands d ++
    match d.command? with
    | some b => Help.options b ++ Help.environment b ++ Help.exitCodes b
    | none => []

end ScriptDoc
