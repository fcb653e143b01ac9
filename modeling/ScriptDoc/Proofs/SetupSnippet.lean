import ScriptDoc.Completion.Setup
import ScriptDoc.Proofs.ShellWords
import ScriptDoc.Reader

/-! The path in a setup snippet. Each snippet writes the path of the script into a command as it is,
which bash and fish find between quotes and zsh does not. The command gets the path as one argument
exactly if each of its characters is plain. -/
namespace ScriptDoc

theorem Path.absoluteNonempty {directory : Path} (above : directory.isAbsolute = true) (p : Path) :
    (absolute directory p).toText ≠ [] := by
  have slashes : (absolute directory p).slashes ≠ 0 := by
    unfold absolute
    split
    · rename_i here
      simpa [isAbsolute] using here
    · simpa [isAbsolute] using above
  rw [toText, if_neg (by simp [slashes])]
  simp [slashes]

namespace Shell

def dialect (w : Conventions) : Shell → Dialect
  | .fish => .fish w
  | _ => .posix w

def command : Shell → List Text
  | .fish => ["shedoc", "complete", "--shell", "fish"]
  | _ => ["shedoc", "complete"]

def opening : Text := "(COMP_LINE=(commandline) COMP_POINT=(commandline -C) "

def closing : Text := ")"

def functionName (name : Text) : Text := "_" ++ Text.replace '-' ['_'] name ++ "_shedoc"

def prelude : Text :=
  "() \x7b\n" ++ ("  local COMP_LINE COMP_POINT\n" ++ ("  COMP_LINE=\"$\x7bwords[*]\x7d\"\n" ++
  ("  COMP_POINT=$\x7b#COMP_LINE\x7d\n" ++ ("  local completions\n" ++
  "  completions=($(COMP_LINE=\"$COMP_LINE\" COMP_POINT=\"$COMP_POINT\" "))))

def postlude : Text := ")\n" ++ ("  compadd -a completions\n" ++ ("\x7d\n" ++ "compdef "))

def front (name : Text) : Shell → Text
  | .bash => "complete -C "
  | .zsh => functionName name ++ prelude
  | .fish => "complete -c " ++ (name ++ " -a ")

def back (name : Text) : Shell → Text
  | .bash => ' ' :: (name ++ "\n")
  | .zsh => ')' :: (postlude ++ (functionName name ++ (" " ++ (name ++ "\n"))))
  | .fish => "\n"

def asking (path left : Text) (shell : Shell) : Text :=
  let words := shell.command.flatMap (· ++ [' '])
  match shell with
  | .bash => Quote.double.sign :: ([] ++ (words ++ (path ++ ([] ++ Quote.double.sign :: left))))
  | .zsh => words ++ (path ++ left)
  | .fish => Quote.single.sign :: (opening ++ (words ++ (path ++ (closing ++ Quote.single.sign :: left))))

def invocation (w : Conventions) : Shell → Text → Option (List Text × Text)
  | .bash => (Dialect.posix w).inner [] []
  | .zsh => (Dialect.posix w).words
  | .fish => (Dialect.fish w).inner opening closing

theorem snippetCut (name path : Text) (shell : Shell) :
    shell.snippet name path = shell.front name ++ shell.asking path (shell.back name) := by
  cases shell with
  | bash =>
    have written : Shell.bash.snippet name path =
      "complete -C \"shedoc complete " ++ path ++ "\" " ++ name ++ "\n" := rfl
    rw [written, List.append_assoc, List.append_assoc, List.append_assoc]
    rfl
  | zsh =>
    have written : Shell.zsh.snippet name path =
      functionName name ++ "() \x7b\n" ++ "  local COMP_LINE COMP_POINT\n" ++
      "  COMP_LINE=\"$\x7bwords[*]\x7d\"\n" ++ "  COMP_POINT=$\x7b#COMP_LINE\x7d\n" ++
      "  local completions\n" ++
      "  completions=($(COMP_LINE=\"$COMP_LINE\" COMP_POINT=\"$COMP_POINT\" " ++
      "shedoc complete " ++ path ++ "))\n" ++ "  compadd -a completions\n" ++ "\x7d\n" ++
      "compdef " ++ functionName name ++ " " ++ name ++ "\n" := rfl
    have cut : Shell.zsh.front name = functionName name ++ prelude := rfl
    have left : Shell.zsh.back name =
      ')' :: (postlude ++ (functionName name ++ (" " ++ (name ++ "\n")))) := rfl
    have asked : Shell.zsh.asking path (Shell.zsh.back name) =
      "shedoc complete " ++ (path ++ Shell.zsh.back name) := rfl
    rw [written, cut, asked, left]
    delta prelude postlude
    simp only [List.append_assoc]
    rfl
  | fish =>
    have written : Shell.fish.snippet name path =
      "complete -c " ++ name ++ " -a '(COMP_LINE=(commandline) COMP_POINT=(commandline -C) " ++
      "shedoc complete --shell fish " ++ path ++ ")'\n" := rfl
    have cut : Shell.fish.front name = "complete -c " ++ (name ++ " -a ") := rfl
    rw [written, cut]
    simp only [List.append_assoc]
    rfl

section Reading
variable (w : Conventions) (name : Text) {path : Text}

theorem commandOrdinary (shell : Shell) :
    (shell.command.all fun word => !word.isEmpty && word.all isOrdinary) = true := by
  cases shell <;> rfl

theorem commandPlain (d : Dialect) (shell : Shell) :
    ∀ word ∈ shell.command, word ≠ [] ∧ ∀ c ∈ word, d.plain c = true := by
  intro word member
  have ordinary := List.all_eq_true.mp (commandOrdinary shell) word member
  simp only [Bool.and_eq_true, Bool.not_eq_true', List.isEmpty_eq_false_iff] at ordinary
  exact ⟨ordinary.1, fun c letter => d.ordinaryPlain (List.all_eq_true.mp ordinary.2 c letter)⟩

theorem invocationExact (some : path ≠ []) (shell : Shell) :
    shell.invocation w (shell.asking path (shell.back name)) =
      .some (shell.command ++ [path], shell.back name) ↔
      ∀ c ∈ path, (shell.dialect w).plain c = true := by
  cases shell with
  | bash =>
    let d := Dialect.posix w
    have stops : d.Stops (Shell.bash.back name) := d.stopsCons d.endsSpace _
    exact d.innerExact .double (fun c member => absurd member List.not_mem_nil)
      (commandPlain d .bash) some (fun c member => absurd member List.not_mem_nil) d.closesNil stops
  | zsh =>
    let d := Dialect.posix w
    exact d.wordsExact (commandPlain d .zsh) some (d.closesOperator rfl rfl _)
  | fish =>
    let d := Dialect.fish w
    have calm : opening.all isCalm = true ∧ closing.all isCalm = true := by decide +kernel
    have stops : d.Stops (Shell.fish.back name) := d.stopsCons (d.endsOperator rfl) _
    exact d.innerExact .single
      (fun c member => d.calmQuiet (List.all_eq_true.mp calm.1 c member)) (commandPlain d .fish) some
      (fun c member => d.calmQuiet (List.all_eq_true.mp calm.2 c member))
      (d.closesOperator rfl rfl _) stops

theorem functionNameUnquoted (unquoted : name.filter isQuoting = []) :
    (functionName name).filter isQuoting = [] := by
  have shape : functionName name = '_' :: (Text.replace '-' ['_'] name ++ "_shedoc") := rfl
  have tail : ("_shedoc" : Text).filter isQuoting = [] := rfl
  have replaced : (Text.replace '-' ['_'] name).filter isQuoting = [] := by
    refine List.filter_eq_nil_iff.mpr fun c member => ?_
    obtain ⟨old, listed, within⟩ := List.mem_flatMap.mp member
    split at within
    · rw [List.mem_singleton.mp within]
      decide
    · rw [List.mem_singleton.mp within]
      exact List.filter_eq_nil_iff.mp unquoted old listed
  rw [shape, List.filter_cons_of_neg (by decide), List.filter_append, replaced, tail]
  rfl

theorem quotesOfFront (unquoted : name.filter isQuoting = []) (shell : Shell) :
    (shell.front name).filter isQuoting = if shell = .zsh then List.replicate 6 '"' else [] := by
  cases shell with
  | bash => rfl
  | zsh =>
    have cut : Shell.zsh.front name = functionName name ++ prelude := rfl
    have quotes : prelude.filter isQuoting = List.replicate 6 '"' := by decide +kernel
    rw [cut, List.filter_append, functionNameUnquoted name unquoted, quotes]
    rfl
  | fish =>
    have cut : Shell.fish.front name = "complete -c " ++ (name ++ " -a ") := rfl
    have outer : ("complete -c " : Text).filter isQuoting = [] ∧
        (" -a " : Text).filter isQuoting = [] := by decide
    rw [cut, List.filter_append, List.filter_append, unquoted, outer.1, outer.2]
    rfl

theorem frontBare (unquoted : name.filter isQuoting = []) (shell : Shell) :
    (shell.front name).foldl (shell.dialect w).next {} = {} := by
  have quotes := quotesOfFront name unquoted shell
  have unmarked : '\\' ∉ shell.front name := by
    intro member
    have listed := List.mem_filter.mpr ⟨member, (rfl : isQuoting '\\' = true)⟩
    rw [quotes] at listed
    cases shell <;> contradiction
  rw [Dialect.quotingRun _ unmarked, quotes]
  cases shell <;> rfl

end Reading

end Shell

theorem setupOfShell (d : Document) (directory script : Path) (shell : Shell) :
    d.setupFor directory script shell.name = .ok (d.setup directory script shell) := by
  have known : Shell.ofName? shell.name = some shell := by cases shell <;> rfl
  rw [Document.setupFor, known]

/- Whatever blanks and pattern signs there are, the command of a snippet gets the absolute path as one
argument exactly if the path is plain. If the name of the command has no quotes of its own, the command
is where a shell reads it as one. -/
theorem setupPassesPlainPath (w : Conventions) (d : Document) (directory script : Path)
    (shell : Shell) (above : directory.isAbsolute = true) :
    let name := d.commandName script
    let path := (Path.absolute directory script).toText
    ∃ text, d.setupFor directory script shell.name = .ok (shell.front name ++ text) ∧
      (name.filter isQuoting = [] → (shell.front name).foldl (shell.dialect w).next {} = {}) ∧
      (shell.invocation w text = some (shell.command ++ [path], shell.back name) ↔
        ∀ c ∈ path, (shell.dialect w).plain c = true) := by
  intro name path
  refine ⟨shell.asking path (shell.back name), ?_, fun unquoted => Shell.frontBare w name unquoted shell,
    Shell.invocationExact w name (Path.absoluteNonempty above script) shell⟩
  rw [setupOfShell, Document.setup, Shell.snippetCut]

def usualConventions : Conventions where
  isWhite c := c = ' ' || c = '\t'
  isPattern c := ['*', '?', '['].contains c
  space := rfl
  blank c white := by
    rcases Bool.or_eq_true_iff.mp white with same | same <;> rw [of_decide_eq_true same] <;> rfl
  signs c sign := by
    simp only [List.contains_eq_mem, decide_eq_true_eq] at sign ⊢
    exact List.Sublist.mem sign (by decide)

def namedTool : Text := "#?/name tool\n"

theorem setupPassesPlainPathFromDirectory :
    let directory : Path := ⟨1, ["srv"]⟩
    let script : Path := ⟨0, ["bin", "deploy-1.sh"]⟩
    directory.isAbsolute = true ∧
    ∃ text, (Document.ofText namedTool).setupFor directory script "fish" =
        .ok (Shell.fish.front "tool" ++ text) ∧
      (Shell.fish.front "tool").foldl (Dialect.fish usualConventions).next {} = {} ∧
      Shell.fish.invocation usualConventions text =
        some (Shell.fish.command ++ ["/srv/bin/deploy-1.sh".toList], "\n".toList) := by
  intro directory script
  obtain ⟨text, setup, bare, passed⟩ :=
    setupPassesPlainPath usualConventions (Document.ofText namedTool) directory script .fish rfl
  have named : (Document.ofText namedTool).commandName script = ("tool" : Text) := by decide +kernel
  have path : (Path.absolute directory script).toText = ("/srv/bin/deploy-1.sh" : Text) := by
    decide +kernel
  rw [named] at setup bare passed
  rw [path] at passed
  have plain : (("/srv/bin/deploy-1.sh" : Text).all (Dialect.fish usualConventions).plain) = true := by
    decide +kernel
  exact ⟨rfl, text, setup, bare rfl, passed.mpr (List.all_eq_true.mp plain)⟩

theorem spacedPathSplit :
    (Document.ofText namedTool).setupFor ⟨1, []⟩ ⟨1, ["sp ace", "tool.sh"]⟩ "bash" =
      .ok (Shell.bash.front "tool" ++ "\"shedoc complete /sp ace/tool.sh\" tool\n".toList) ∧
    Shell.bash.invocation usualConventions "\"shedoc complete /sp ace/tool.sh\" tool\n" =
      some (Shell.bash.command ++ ["/sp".toList, "ace/tool.sh".toList], " tool\n".toList) := by
  let d := Dialect.posix usualConventions
  let front : List Text := ["shedoc", "complete", "/sp"]
  have plain : (front.all fun word => !word.isEmpty && word.all d.plain) = true ∧
      ("ace/tool.sh" : Text).all d.plain = true := by decide +kernel
  have each : ∀ word ∈ front, word ≠ [] ∧ ∀ c ∈ word, d.plain c = true := fun word member => by
    simpa using List.all_eq_true.mp plain.1 word member
  have none : ∀ c ∈ ([] : Text), d.quiet c = true := fun c member => absurd member List.not_mem_nil
  have read : d.inner [] [] ('"' :: ([] ++ (front.flatMap (· ++ [' ']) ++
      ("ace/tool.sh".toList ++ ([] ++ '"' :: " tool\n".toList))))) =
      some (front ++ ["ace/tool.sh".toList], " tool\n".toList) :=
    (d.innerExact .double none each (by decide) none d.closesNil (d.stopsCons d.endsSpace _)).mpr
      (List.all_eq_true.mp plain.2)
  have written : ("\"shedoc complete /sp ace/tool.sh\" tool\n" : Text) =
      '"' :: ([] ++ (front.flatMap (· ++ [' ']) ++
        ("ace/tool.sh".toList ++ ([] ++ '"' :: " tool\n".toList)))) := by decide +kernel
  refine ⟨rfl, ?_⟩
  rw [written]
  exact read

end ScriptDoc
