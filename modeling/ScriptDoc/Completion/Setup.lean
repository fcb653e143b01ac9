import ScriptDoc.File.Path
import ScriptDoc.Format

/-!
The snippets that make a shell ask for completions of a documented script.
-/
namespace ScriptDoc

inductive Shell where
  | bash
  | zsh
  | fish
  deriving DecidableEq, Repr

namespace Shell

def all : List Shell := [.bash, .zsh, .fish]

def name : Shell → Text
  | .bash => "bash"
  | .zsh => "zsh"
  | .fish => "fish"

def ofName? (s : Text) : Option Shell := all.find? fun shell => shell.name = s

def snippet (command script : Text) : Shell → Text
  | .bash => "complete -C \"shedoc complete " ++ script ++ "\" " ++ command ++ "\n"
  | .zsh =>
    let function := "_" ++ Text.replace '-' ['_'] command ++ "_shedoc"
    function ++ "() \x7b\n" ++
    "  local COMP_LINE COMP_POINT\n" ++
    "  COMP_LINE=\"$\x7bwords[*]\x7d\"\n" ++
    "  COMP_POINT=$\x7b#COMP_LINE\x7d\n" ++
    "  local completions\n" ++
    "  completions=($(COMP_LINE=\"$COMP_LINE\" COMP_POINT=\"$COMP_POINT\" " ++
    "shedoc complete " ++ script ++ "))\n" ++
    "  compadd -a completions\n" ++
    "\x7d\n" ++
    "compdef " ++ function ++ " " ++ command ++ "\n"
  | .fish =>
    "complete -c " ++ command ++ " -a '(COMP_LINE=(commandline) COMP_POINT=(commandline -C) " ++
    "shedoc complete --shell fish " ++ script ++ ")'\n"

end Shell

def Document.commandName (d : Document) (script : Path) : Text :=
  (nonempty? d.metadata.name).getD script.stem

def Document.setup (d : Document) (directory script : Path) (shell : Shell) : Text :=
  shell.snippet (d.commandName script) (Path.absolute directory script).toText

def Document.setupFor (d : Document) (directory script : Path) (shell : Text) :
    Except RenderError Text :=
  match Shell.ofName? shell with
  | some shell => .ok (d.setup directory script shell)
  | none => .error (.unsupportedShell shell)

end ScriptDoc
