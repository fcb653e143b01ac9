import ScriptDoc.Cli.Complete
import ScriptDoc.Cli.Render

/-!
The command line over a toolkit for command lines. What a call asks for, how an error is reported
and how a text is printed is left to the toolkit.
-/
namespace ScriptDoc

inductive Command where
  | render
  | complete
  deriving DecidableEq, Repr

namespace Command

def name : Command → Text
  | .render => "render"
  | .complete => "complete"

def names : List Text := [render.name, complete.name]

end Command

structure Reply where
  exitCode : Nat := 0
  stdout : Text := []
  stderr : Text := []
  deriving DecidableEq, Repr

inductive Parsed where
  | replied (reply : Reply)
  | crashed (crash : Crash)
  | render (r : RenderRequest)
  | complete (r : CompleteRequest)
  deriving DecidableEq, Repr

structure Toolkit where
  helpNames : List Text
  parse : Tree → Path → List Text → Parsed
  complain : Command → Complaint → Text → Reply
  echo : Bool → Text → Text

namespace Toolkit

def withCommand (k : Toolkit) : List Text → List Text
  | [] => [Command.render.name]
  | first :: rest =>
    if Command.names.contains first ∨ first = "--version" ∨ k.helpNames.contains first then
      first :: rest
    else Command.render.name :: first :: rest

def printed (k : Toolkit) (s : Surroundings) (texts : List Text) : Text :=
  texts.flatMap (k.echo s.stderrIsTerminal)

def reply (k : Toolkit) (t : Tree) (s : Surroundings) (warned : List Text) (r : Reply) : Outcome :=
  let stdout := k.echo s.stdoutIsTerminal r.stdout
  match s.encoding.refusal? stdout with
  | some message => .crashed t (k.printed s warned) (.output message)
  | none => ⟨r.exitCode, stdout, k.printed s (warned ++ [r.stderr]), t, none⟩

def conclude (k : Toolkit) (s : Surroundings) (command : Command) (e : Effect) : Outcome :=
  match e.result with
  | .ok text => k.reply e.tree s e.warned { stdout := text }
  | .error (.failure f) => k.reply e.tree s e.warned (k.complain command f.complaint f.message)
  | .error (.crash c) => .crashed e.tree (k.printed s e.warned) c

def answer (k : Toolkit) (t : Tree) (s : Surroundings) : Parsed → Outcome
  | .replied reply => k.reply t s [] reply
  | .crashed c => .crashed t [] c
  | .render r => k.conclude s .render (r.run t s)
  | .complete r => k.conclude s .complete (r.run t s)

/-- Calls the program without a process of its own, so that it is for the caller to handle a crash. -/
def invoke (k : Toolkit) (t : Tree) (s : Surroundings) (arguments : List Text) : Outcome :=
  k.answer t s (k.parse t s.directory (k.withCommand arguments))

def run (k : Toolkit) (t : Tree) (s : Surroundings) (arguments : List Text) : Outcome :=
  (k.invoke t s arguments).reported s

end Toolkit
end ScriptDoc
