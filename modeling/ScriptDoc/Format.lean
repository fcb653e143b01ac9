import ScriptDoc.Completion.Script
import ScriptDoc.Document.Json
import ScriptDoc.Help
import ScriptDoc.ManPage
import ScriptDoc.Text.Printable

/-!
Output formats, and the catalogue of the names under which they can be asked for.
-/
namespace ScriptDoc

inductive Format where
  | json
  | help
  | man
  | bash
  | zsh
  | fish
  deriving DecidableEq, Repr

inductive RenderError where
  | unnamed
  | unsupportedShell (shell : Text)
  deriving DecidableEq, Repr

def RenderError.message : RenderError → Text
  | .unnamed => "completion generation requires #?/name"
  | .unsupportedShell shell =>
    "unsupported shell: " ++ shell.quoted ++ " (supported: bash, zsh, fish)"

namespace Format

def all : List Format := [.json, .help, .man, .bash, .zsh, .fish]

def name : Format → Text
  | .json => "json"
  | .help => "help"
  | .man => "man"
  | .bash => "completion:bash"
  | .zsh => "completion:zsh"
  | .fish => "completion:fish"

def ofName? (s : Text) : Option Format := all.find? fun format => format.name = s

def named (script : Text → Document → Text) (d : Document) : Except RenderError Text :=
  match nonempty? d.metadata.name with
  | some name => .ok (script name d)
  | none => .error .unnamed

def render (today : Text) (d : Document) : Format → Except RenderError Text
  | .json => .ok d.toJsonText
  | .help => .ok d.help
  | .man => .ok (d.manPage today)
  | .bash => named Bash.script d
  | .zsh => named Zsh.script d
  | .fish => named Fish.script d

end Format

structure Catalogue where
  entries : List (Text × Format) := []
  deriving DecidableEq, Repr

structure UnknownFormat where
  name : Text
  available : List Text
  deriving DecidableEq, Repr

def UnknownFormat.message (e : UnknownFormat) : Text :=
  "unknown format: " ++ e.name.quoted ++ "\navailable formats: " ++ Text.join ", " e.available

namespace Catalogue

def register (c : Catalogue) (name : Text) (format : Format) : Catalogue :=
  ⟨c.entries.filter (fun entry => entry.1 ≠ name) ++ [(name, format)]⟩

def registerAll (c : Catalogue) : Catalogue :=
  Format.all.foldl (fun c format => c.register format.name format) c

def standard : Catalogue := registerAll {}

def names (c : Catalogue) : List Text :=
  (c.entries.map Prod.fst).mergeSort fun a b => !decide (b < a)

def get (c : Catalogue) (name : Text) : Except UnknownFormat Format :=
  match c.entries.find? fun entry => entry.1 = name with
  | some (_, format) => .ok format
  | none => .error ⟨name, c.names⟩

end Catalogue
end ScriptDoc
