import ScriptDoc.Cli.Outcome
import ScriptDoc.Completion.Candidate
import ScriptDoc.Completion.Setup

/-!
The command behind completion: a shell asks it for candidates, and it writes the snippet that
makes a shell ask.
-/
namespace ScriptDoc

inductive CompleteOption where
  | shell
  | setup
  deriving DecidableEq, Repr

namespace CompleteOption

def name : CompleteOption → Text
  | .shell => "--shell"
  | .setup => "--setup"

def declared : List (Text × CompleteOption) := [.shell, .setup].map fun o => (o.name, o)

def shells : CompleteOption → List Shell
  | .shell => [.bash, .fish]
  | .setup => [.bash, .zsh, .fish]

end CompleteOption

structure CompleteRequest where
  script : Text
  shell : Option Shell := none
  setup : Option Shell := none
  deriving DecidableEq, Repr

namespace CompleteRequest

def runSetup (t : Tree) (s : Surroundings) (script : Path) (shell : Shell) : Effect :=
  match t.readScript s.directory script.toText with
  | .error e => .abort t [] (.ofScript script.toText e)
  | .ok d => .success t [] (d.setup s.directory script shell)

def point (s : Surroundings) (line : Text) : Int :=
  (s.completionPoint.bind Text.toInt?).getD line.length

-- Whatever is said about a script would disturb the line that is being typed.
def runHandler (t : Tree) (s : Surroundings) (script : Path) (shell : Shell) : Effect :=
  match nonempty? s.completionLine with
  | none => .success t [] []
  | some line =>
    match t.readScript s.directory script.toText with
    | .error .nul => .abort t [] (.crash .nul)
    | .error _ => .success t [] []
    | .ok d => .success t [] (candidateLines shell.name (d.complete line (point s line)))

def run (r : CompleteRequest) (t : Tree) (s : Surroundings) : Effect :=
  let script := Path.ofText r.script
  match r.shell, r.setup with
  | some _, some _ => .abort t [] (.failure .shellAndSetup)
  | none, some shell => runSetup t s script shell
  | shell, none => runHandler t s script (shell.getD .bash)

end CompleteRequest
end ScriptDoc
