import ScriptDoc.Entry
import ScriptDoc.Text.Uppercase

/-!
Manual pages in troff. Backslashes and hyphens of the documentation are escaped, so that a hyphen
stays a hyphen.
-/
namespace ScriptDoc
namespace ManPage

def escape (s : Text) : Text :=
  Text.replace '-' ['\\', '-'] (Text.replace '\\' ['\\', '\\'] s)

def quote (s : Text) : Text :=
  ['"'] ++ Text.replace '"' ['\\', '"'] (Text.replace '\\' ['\\', '\\'] s) ++ ['"']

def textLine (s : Text) : Text := escape s ++ "\n"

def term (name description : Text) : Text :=
  ".TP\n.B " ++ escape name ++ "\n" ++
    if description.isEmpty then [] else textLine description

def heading (m : Metadata) (date : Text) : Text :=
  let name := (nonempty? m.name).getD "UNKNOWN"
  ".TH " ++ escape (Text.upper name) ++ " " ++ (nonempty? m.manSection).getD "1" ++ " " ++
    quote date ++ " " ++ quote (m.version.getD []) ++ "\n"

def nameSection (m : Metadata) : Text :=
  let name := (nonempty? m.name).getD "UNKNOWN"
  ".SH NAME\n" ++
    match nonempty? m.description with
    | some description =>
      escape name ++ " \\- " ++ escape (Text.firstLine description) ++ "\n"
    | none => textLine name

def synopsisSection (m : Metadata) : Text :=
  match nonempty? m.synopsis with
  | some synopsis => ".SH SYNOPSIS\n.B " ++ escape synopsis ++ "\n"
  | none => []

def descriptionSection (m : Metadata) : Text :=
  match nonempty? m.description with
  | some description => ".SH DESCRIPTION\n" ++ textLine description
  | none => []

def termSection (title : Text) (terms : List (Text × Text)) : Text :=
  if terms.isEmpty then []
  else ".SH " ++ title ++ "\n" ++ terms.flatMap fun (name, description) => term name description

def optionsSection (b : Block) : Text :=
  termSection "OPTIONS" (b.entries.map fun e => (e.label, e.description))

def deprecationText (mark : Deprecation) : Text :=
  if mark.message.isEmpty then "This command is deprecated." else mark.message

def subcommandText (b : Block) : Text :=
  match b.deprecated with
  | some mark => deprecationMark ++ textLine (deprecationText mark)
  | none => if b.description.isEmpty then [] else textLine b.description

def nestedEntry (e : Entry) : Text := ".RS\n" ++ term e.label e.description ++ ".RE\n"

def subcommand (b : Block) : Text :=
  ".TP\n.B " ++ escape (b.name.getD []) ++ "\n" ++ subcommandText b ++
    b.entries.flatMap nestedEntry

def commandsSection (d : Document) : Text :=
  if d.subcommands.isEmpty then [] else ".SH COMMANDS\n" ++ d.subcommands.flatMap subcommand

def contextSections (b : Block) : Text :=
  termSection "ENVIRONMENT" (b.env.map fun r => (r.name, r.description)) ++
    termSection "FILES" ((b.reads ++ b.writes).map fun r => (r.path, r.description)) ++
    termSection "EXIT STATUS" (b.exit.map fun r => (r.code, r.description))

def exampleLine (s : Text) : Text := ".PP\n.B " ++ escape s ++ "\n"

def examplesSection (m : Metadata) : Text :=
  match nonempty? m.examples with
  | some examples => ".SH EXAMPLES\n" ++ (Text.splitOn '\n' examples).flatMap exampleLine
  | none => []

def authorSection (m : Metadata) : Text :=
  match nonempty? m.author with
  | some author => ".SH AUTHOR\n" ++ textLine author
  | none => []

end ManPage
open ManPage

def Document.manPage (d : Document) (date : Text) : Text :=
  heading d.metadata date ++ nameSection d.metadata ++ synopsisSection d.metadata ++
    descriptionSection d.metadata ++
    (match d.command? with
    | some b => optionsSection b
    | none => []) ++
    commandsSection d ++
    (match d.command? with
    | some b => contextSections b
    | none => []) ++
    examplesSection d.metadata ++ authorSection d.metadata

end ScriptDoc
