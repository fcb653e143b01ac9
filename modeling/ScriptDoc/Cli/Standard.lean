import ScriptDoc.Cli.Page
import ScriptDoc.Cli.Syntax
import ScriptDoc.Cli.Toolkit
import ScriptDoc.Text.ControlSequence

/-!
The toolkit that the program is run with.
-/
namespace ScriptDoc
namespace Standard

inductive Asked (α : Type) where
  | help
  | option (o : α)
  deriving DecidableEq, Repr

def helpName : Text := "--help"

def tableOf (declared : List (Text × α)) (takesValue : α → Bool) : OptionTable (Asked α) where
  meaning? name :=
    if name = helpName then some .help
    else (declared.find? fun entry => entry.1 = name).map fun entry => .option entry.2
  takesValue
    | .help => false
    | .option o => takesValue o

def renderTable : OptionTable (Asked RenderOption) :=
  tableOf RenderOption.declared RenderOption.takesValue

def completeTable : OptionTable (Asked CompleteOption) := tableOf CompleteOption.declared fun _ => true

inductive PathProblem where
  | isDirectory
  | unreadable
  deriving DecidableEq, Repr

def PathProblem.text : PathProblem → Text
  | .isDirectory => " is a directory."
  | .unreadable => " is not readable."

inductive Fault where
  | options (page : Page) (fault : SyntaxFault)
  | noFiles
  | noScript
  | extraArguments (arguments : List Text)
  | output (path : Text) (problem : PathProblem)
  | script (path : Text) (problem : PathProblem)
  | notChoice (option given : Text) (choices : List Text)
  deriving DecidableEq, Repr

namespace Fault

-- The usage is not shown for a value that is missing or refused.
def page? : Fault → Option Page
  | .options page (.noSuchOption _) => some page
  | .options _ _ => none
  | .noFiles => some .render
  | .output _ _ => some .render
  | _ => some .complete

def invalid (parameter message : Text) : Text := "Invalid value for " ++ parameter ++ ": " ++ message

def message : Fault → Text
  | .options _ (.noSuchOption name) => "No such option " ++ name.quoted ++ "."
  | .options _ (.valueMissing name) => "Option " ++ name.quoted ++ " requires an argument."
  | .options _ (.valueRefused name) => "Option " ++ name.quoted ++ " does not take a value."
  | .noFiles => "Missing argument 'FILES...'."
  | .noScript => "Missing argument 'SCRIPT'."
  | .extraArguments arguments =>
    "Got unexpected extra argument" ++ (if arguments.length = 1 then "" else "s") ++
      " (" ++ Text.join [' '] arguments ++ ")"
  | .output path problem => invalid "'-o' / '--output'" ("File " ++ path.quoted ++ problem.text)
  | .script path problem => invalid "'SCRIPT'" ("File " ++ path.quoted ++ problem.text)
  | .notChoice option given choices =>
    invalid option.quoted (given.quoted ++ " is not one of " ++
      Text.join ", " (choices.map Text.quoted) ++ ".")

end Fault

def report (page? : Option Page) (message : Text) : Text :=
  ((page?.map Page.hint).getD []) ++ "Error: " ++ message ++ "\n"

def Fault.reply (f : Fault) : Reply := { exitCode := 2, stderr := report f.page? f.message }

abbrev Reading (α : Type) := Except Parsed α

def refuse (f : Fault) : Reading α := .error (.replied f.reply)

def checkPath (t : Tree) (directory : Path) (fault : Text → PathProblem → Fault) (given : Text) :
    Reading Unit :=
  if given.contains nul then .error (.crashed .nul)
  else
    match t.stat directory given with
    | .error _ => .ok ()
    | .ok node =>
      if node.isDirectory then refuse (fault given .isDirectory)
      else if node.access.read then .ok ()
      else refuse (fault given .unreadable)

-- Help is given before anything else is looked at.
def scanned [DecidableEq α] (page : Page) (table : OptionTable (Asked α)) (arguments : List Text) :
    Reading (Scanned (Asked α)) :=
  match table.scan true arguments with
  | .error e => refuse (.options page e)
  | .ok found => if found.has .help then .error (.replied { stdout := page.text }) else .ok found

def checkOutput (t : Tree) (directory : Path) : Option Text → Reading Unit
  | none => .ok ()
  | some path => checkPath t directory .output path

def checkFiles (files : List Text) : Reading Unit :=
  if files.isEmpty then refuse .noFiles else .ok ()

def renderRequest (t : Tree) (directory : Path) (s : Scanned (Asked RenderOption)) :
    Reading RenderRequest := do
  let output := s.value? (.option .output)
  checkOutput t directory output
  checkFiles s.arguments
  .ok {
    files := s.arguments
    format := s.value? (.option .format)
    tag := s.value? (.option .tag)
    output := output
    warnings := s.has (.option .warnings)
    quiet := s.has (.option .quiet) }

def shellNamed? (option : CompleteOption) (given : Text) : Option Shell :=
  option.shells.find? fun known => known.name = given

def choice (s : Scanned (Asked CompleteOption)) (option : CompleteOption) : Reading (Option Shell) :=
  match s.value? (.option option) with
  | none => .ok none
  | some given =>
    match shellNamed? option given with
    | some shell => .ok (some shell)
    | none => refuse (.notChoice option.name given (option.shells.map Shell.name))

def checkChoice (s : Scanned (Asked CompleteOption)) : Asked CompleteOption → Reading Unit
  | .help => .ok ()
  | .option option => (choice s option).map fun _ => ()

def checkChoices (s : Scanned (Asked CompleteOption)) : Reading Unit :=
  s.given.forM fun entry => checkChoice s entry.1

def checkRest (rest : List Text) : Reading Unit :=
  if rest.isEmpty then .ok () else refuse (.extraArguments rest)

def completeRequest (t : Tree) (directory : Path) (s : Scanned (Asked CompleteOption)) :
    Reading CompleteRequest := do
  checkChoices s
  match s.arguments with
  | [] => refuse .noScript
  | script :: rest =>
    checkPath t directory .script script
    checkRest rest
    let shell ← choice s .shell
    let setup ← choice s .setup
    .ok ⟨script, shell, setup⟩

inductive ProgramOption where
  | version
  deriving DecidableEq, Repr

def programTable : OptionTable (Asked ProgramOption) := tableOf [("--version", .version)] fun _ => false

def versionText : Text := "shedoc, version 0.1.0\n"

def program (arguments : List Text) : Parsed :=
  match programTable.scan false arguments with
  | .error e => .replied (Fault.options .program e).reply
  | .ok found =>
    match found.given.head? with
    | some (.option .version, _) => .replied { stdout := versionText }
    | _ => .replied { stdout := Page.program.text }

def Reading.parsed : Reading Parsed → Parsed
  | .ok p => p
  | .error p => p

def parseRender (t : Tree) (directory : Path) (arguments : List Text) : Reading Parsed := do
  let found ← scanned .render renderTable arguments
  let r ← renderRequest t directory found
  .ok (.render r)

def parseComplete (t : Tree) (directory : Path) (arguments : List Text) : Reading Parsed := do
  let found ← scanned .complete completeTable arguments
  let r ← completeRequest t directory found
  .ok (.complete r)

def parse (t : Tree) (directory : Path) : List Text → Parsed
  | [] => program []
  | first :: rest =>
    if first = Command.render.name then (parseRender t directory rest).parsed
    else if first = Command.complete.name then (parseComplete t directory rest).parsed
    else program (first :: rest)

def pageOf : Command → Page
  | .render => .render
  | .complete => .complete

def complain (command : Command) (complaint : Complaint) (message : Text) : Reply :=
  match complaint with
  | .failure => { exitCode := 1, stderr := report none message }
  | .usage => { exitCode := 2, stderr := report (pageOf command) message }
  | .badParameter none =>
    { exitCode := 2, stderr := report (pageOf command) ("Invalid value: " ++ message) }
  | .badParameter (some hint) =>
    { exitCode := 2, stderr := report (pageOf command) (Fault.invalid hint message) }

def echo (isTerminal : Bool) (s : Text) : Text := if isTerminal then s else s.withoutSequences

end Standard

def Toolkit.standard : Toolkit where
  helpNames := [Standard.helpName]
  parse := Standard.parse
  complain := Standard.complain
  echo := Standard.echo

end ScriptDoc
