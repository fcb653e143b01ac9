import ScriptDoc.Proofs.CommandLineGrowth
import ScriptDoc.Proofs.PrintedLines
import ScriptDoc.Proofs.ScriptReading
import ScriptDoc.Proofs.StandardToolkit

/-! A shell that asks for candidates gets candidates or nothing. The command that it runs neither fails
nor says anything else, whatever the line, the cursor and the script are, and each candidate is a line
of its own. What ends it is a script that may not be read, one whose name cannot be looked up at all, and
a candidate that standard output cannot write. -/
namespace ScriptDoc

def Tree.YieldsScript (t : Tree) (directory : Path) (given text : Text) : Prop :=
  t.Yields directory (Path.ofText given) (text.flatMap String.utf8EncodeChar)

def Candidate.body (shell : Shell) (c : Candidate) : Text :=
  if shell = .fish then c.word ++ "\t" ++ Text.replace '\t' [' '] c.description else c.word

/- What there is to offer: nothing, as long as nothing has been typed or the script cannot be read. -/
inductive Offered (t : Tree) (s : Surroundings) (shell : Shell) (script : Text) : List Text → Prop where
  | idle (untyped : nonempty? s.completionLine = none) : Offered t s shell script []
  | unread (unread : ∀ text, ¬ t.YieldsScript s.directory script text) : Offered t s shell script []
  | listed {line text : Text} (typed : nonempty? s.completionLine = some line)
      (read : t.YieldsScript s.directory script text) :
      Offered t s shell script
        (((Document.ofText text).complete line (CompleteRequest.point s line)).map
          (Candidate.body shell))

def endedLines (bodies : List Text) : Text := bodies.flatMap fun body => body ++ ['\n']

structure Answered (t : Tree) (s : Surroundings) (shell : Shell) (script : Text) (o : Outcome)
    (bodies shown : List Text) : Prop where
  offered : Offered t s shell script bodies
  stripped : List.Forall₂ Stripped bodies shown
  verbatim : s.stdoutIsTerminal = true ∨ (∀ body ∈ bodies, '\x1b' ∉ body) → shown = bodies
  written : s.Writes (endedLines shown) →
    o.exitCode = 0 ∧ o.crash = none ∧ o.stderr = [] ∧
      Text.lines o.stdout = shown.map fun body => body ++ ['\n']
  unwritten : ∀ message, s.encoding.refusal? (endedLines shown) = some message →
    o.exitCode = 1 ∧ o.crash = some (.output message) ∧ o.stdout = [] ∧ o.stderr ≠ []

section Paths

namespace Text

theorem splitOnPlain (separator : Char) (s : Text) :
    ∀ piece ∈ splitOn separator s, separator ∉ piece := by
  induction s with
  | nil => simp [splitOn]
  | cons c rest ih =>
    rw [splitOn]
    split
    · exact List.forall_mem_cons.mpr ⟨List.not_mem_nil, ih⟩
    · rename_i other
      split
      · simp [Ne.symm other]
      · rename_i piece pieces same
        rw [same] at ih
        obtain ⟨first, later⟩ := List.forall_mem_cons.mp ih
        exact List.forall_mem_cons.mpr ⟨by simp [Ne.symm other, first], later⟩

theorem splitOnReplicate (separator : Char) (n : Nat) (s : Text) :
    splitOn separator (List.replicate n separator ++ s) =
      List.replicate n [] ++ splitOn separator s := by
  induction n with
  | zero => rfl
  | succ n ih => simp [List.replicate_succ, splitOn, ih]

end Text

namespace Path

structure Proper (p : Path) : Prop where
  slashes : p.slashes ≤ 2
  parts : ∀ part ∈ p.parts, isRealPart part = true ∧ '/' ∉ part

theorem ofTextProper (s : Text) : (ofText s).Proper := by
  constructor
  · unfold ofText
    simp only
    split
    · decide
    · decide
    · decide
  · intro part member
    obtain ⟨piece, real⟩ := List.mem_filter.mp member
    exact ⟨real, Text.splitOnPlain '/' s part piece⟩

variable {p : Path}

theorem joinedParts (proper : p.Proper) :
    (Text.splitOn '/' (Text.join ['/'] p.parts)).filter isRealPart = p.parts := by
  by_cases none : p.parts = []
  · rw [none]
    decide
  · rw [Text.splitOnJoin none fun part member => (proper.parts part member).2]
    exact List.filter_eq_self.mpr fun part member => (proper.parts part member).1

theorem joinedStart (proper : p.Proper) : (Text.join ['/'] p.parts).takeWhile (· = '/') = [] := by
  cases parts : p.parts with
  | nil => rfl
  | cons first rest =>
    obtain ⟨real, plain⟩ := proper.parts first (by simp [parts])
    have filled : first ≠ [] := by
      rintro rfl
      contradiction
    obtain ⟨c, more, rfl⟩ := List.exists_cons_of_ne_nil filled
    have other : c ≠ '/' := fun same => plain (by simp [same])
    cases rest with
    | nil => simp [Text.join, other]
    | cons next rest => simp [Text.join, other]

theorem toTextReadsBack (proper : p.Proper) : ofText p.toText = p := by
  obtain ⟨slashes, parts⟩ := p
  unfold toText
  split
  · rename_i nothing
    obtain ⟨rfl, rfl⟩ : slashes = 0 ∧ parts = [] := by simpa using nothing
    decide
  · have start : ((List.replicate slashes '/' ++ Text.join ['/'] parts).takeWhile
        (· = '/')).length = slashes := by
      rw [List.takeWhile_append_of_pos (by simp), joinedStart proper]
      simp
    have kept : (Text.splitOn '/' (List.replicate slashes '/' ++ Text.join ['/'] parts)).filter
        isRealPart = parts := by
      rw [Text.splitOnReplicate, List.filter_append, joinedParts proper]
      simp [isRealPart]
    rw [ofText, start, kept]
    have few := proper.slashes
    rcases slashes with _ | _ | _ | more
    · rfl
    · rfl
    · rfl
    · simp at few

/- The name of a script is read as a path, written out and read once more before it is looked up. -/
theorem ofTextReadsBack (s : Text) : ofText (ofText s).toText = ofText s :=
  toTextReadsBack (ofTextProper s)

end Path

end Paths

section Candidates

structure Candidate.OneLine (c : Candidate) : Prop where
  word : '\n' ∉ c.word
  description : '\n' ∉ c.description

theorem candidatesOneLine {b : Block} (oneLine : b.OneLine) : ∀ c ∈ b.candidates, c.OneLine := by
  intro c member
  obtain ⟨e, inside, spelled⟩ := List.mem_flatMap.mp member
  obtain ⟨word, spelling, rfl⟩ := List.mem_map.mp spelled
  have entry := oneLine.entries e inside
  exact ⟨entry.spellings word spelling, entry.description⟩

theorem asCandidateOneLine {b : Block} (plain : ∀ s ∈ b.strings, '\n' ∉ s) :
    b.asCandidate.OneLine := by
  refine ⟨wordPlain (blockOneLine plain), ?_⟩
  unfold Block.asCandidate
  cases given : b.deprecated with
  | none => exact firstLinePlain b.description
  | some mark =>
    have message := heldPlain plain (r := .deprecated mark) given mark.message List.mem_cons_self
    exact plainAppend (by decide) message

theorem completeOneLine {d : Document} (plain : ∀ b ∈ d.blocks, ∀ s ∈ b.strings, '\n' ∉ s)
    (line : Text) (point : Int) : ∀ c ∈ d.complete line point, c.OneLine := by
  intro c member
  unfold Document.complete at member
  split at member
  · contradiction
  rename_i typed _
  -- What is offered comes from the block that is selected, or from all subcommands, and the command.
  have offered := List.mem_of_mem_filter member
  rw [Document.offeredSome offered] at offered
  rcases List.mem_append.mp offered with own | global
  · split at own
    · rename_i b selected
      obtain ⟨_, _, _, _, _, named⟩ := (d.selectedExact _ b).mp selected
      obtain ⟨earlier, later, split, _⟩ := named.first
      have inside : b ∈ d.subcommands := by simp [split]
      exact candidatesOneLine (blockOneLine (plain b (List.mem_of_mem_filter inside))) c own
    · obtain ⟨b, inside, rfl⟩ := List.mem_map.mp own
      exact asCandidateOneLine (plain b (List.mem_of_mem_filter inside))
  · cases command : d.command? with
    | none => simp [command] at global
    | some b =>
      rw [command] at global
      exact candidatesOneLine (blockOneLine (plain b (commandMember command))) c global

theorem bodyOneLine (shell : Shell) {c : Candidate} (oneLine : c.OneLine) :
    '\n' ∉ c.body shell := by
  unfold Candidate.body
  split
  · refine plainAppend (plainAppend oneLine.word (by decide)) ?_
    exact plainReplace (by decide) oneLine.description
  · exact oneLine.word

theorem candidateLinesBodies (shell : Shell) (candidates : List Candidate) :
    candidateLines shell.name candidates =
      (candidates.map (Candidate.body shell)).flatMap fun s => s ++ ['\n'] := by
  rw [List.flatMap_map]
  cases shell with
  | bash => rfl
  | zsh => rfl
  | fish => rfl

end Candidates

section Answer
variable {t : Tree} {s : Surroundings} {shell : Shell} {script : Text}

theorem offeredOneLine {bodies : List Text} (offered : Offered t s shell script bodies) :
    ∀ body ∈ bodies, '\n' ∉ body := by
  cases offered with
  | idle untyped => simp
  | unread unread => simp
  | listed typed read =>
    simp only [List.forall_mem_map]
    exact fun c member => bodyOneLine shell
      (completeOneLine (fun _ => blockStringsOneLine) _ _ c member)

theorem offeredListed {bodies : List Text} (offered : Offered t s shell script bodies)
    {line text : Text} (typed : nonempty? s.completionLine = some line)
    (read : t.YieldsScript s.directory script text) :
    bodies = ((Document.ofText text).complete line (CompleteRequest.point s line)).map
      (Candidate.body shell) := by
  cases offered with
  | idle untyped =>
    rw [typed] at untyped
    contradiction
  | unread unread => exact absurd read (unread text)
  | @listed otherLine otherText typedToo readToo =>
    cases Option.some.inj (typed.symm.trans typedToo)
    have same := (Tree.bytesExact.mpr read).symm.trans (Tree.bytesExact.mpr readToo)
    have decoded := Utf8.decodeStandard text
    rw [Except.ok.inj same, Utf8.decodeStandard] at decoded
    cases decoded
    rfl

theorem handlerOffers (t : Tree) (s : Surroundings) (shell : Shell) (legal : nul ∉ script) :
    ∃ bodies, Offered t s shell script bodies ∧
      CompleteRequest.runHandler t s (Path.ofText script) shell =
        .success t [] (bodies.flatMap fun body => body ++ ['\n']) := by
  have still : nul ∉ (Path.ofText script).toText :=
    (Path.memText (by decide) (by decide) script).not.mpr legal
  unfold CompleteRequest.runHandler
  split
  · rename_i untyped
    exact ⟨[], .idle untyped, rfl⟩
  rename_i line typed
  have reading {d : Document} := @Tree.readExact t s.directory (Path.ofText script).toText d
  rw [Path.ofTextReadsBack] at reading
  split
  · rename_i refused
    exact absurd (Tree.readRefused refused still) (by simp [ScriptError.About])
  · rename_i e _ refused
    refine ⟨[], .unread fun text yields => ?_, rfl⟩
    have read := reading.mpr ⟨still, text, yields, rfl⟩
    rw [refused] at read
    contradiction
  · rename_i d read
    obtain ⟨-, text, yields, rfl⟩ := reading.mp read
    exact ⟨_, .listed typed yields, by rw [candidateLinesBodies]; rfl⟩

theorem handlerNul (embedded : nul ∈ script) {line : Text}
    (typed : nonempty? s.completionLine = some line) :
    CompleteRequest.runHandler t s (Path.ofText script) shell = .abort t [] (.crash .nul) := by
  have still : nul ∈ (Path.ofText script).toText :=
    (Path.memText (by decide) (by decide) script).mpr embedded
  have refused : t.readScript s.directory (Path.ofText script).toText = .error .nul := by
    have unopened : t.openScript s.directory (Path.ofText (Path.ofText script).toText) = .error .nul :=
      if_pos (nulText _ |>.mpr still)
    rw [Tree.readScript, unopened]
  rw [CompleteRequest.runHandler, typed]
  simp only [refused]

end Answer

namespace Toolkit
variable {k : Toolkit} (lawful : k.Lawful) {t : Tree} {s : Surroundings} {arguments : List Text}
  {choice : Option Shell} {script : Text}

theorem completes (k : Toolkit) (t : Tree) (s : Surroundings) (arguments : List Text) :
    k.run t s (Command.complete.name :: arguments) =
      (k.answer t s (k.parse t s.directory (Command.complete.name :: arguments))).reported s := by
  rw [run, invoke, withCommandNamed]

theorem handlerRun (t : Tree) (s : Surroundings) (choice : Option Shell) (script : Text) :
    CompleteRequest.run ⟨script, choice, none⟩ t s =
      CompleteRequest.runHandler t s (Path.ofText script) (choice.getD .bash) := by
  cases choice <;> rfl

include lawful

theorem completeTree : (k.run t s (Command.complete.name :: arguments)).tree = t := by
  rw [completes, Outcome.reportedTree]
  cases parsed : k.parse t s.directory (Command.complete.name :: arguments) with
  | replied reply => exact (replyUntouched lawful (lawful.refusalSilent _ _ _ _ parsed)).tree
  | crashed c => rfl
  | render r => exact absurd parsed (lawful.commandKept _ _ _ _)
  | complete r => exact (completeUntouched lawful r).tree

theorem scriptRefusedRun (call : HandlerCall arguments choice script) (legal : nul ∉ script)
    (unfit : t.Unfit s.directory script) :
    let o := k.run t s (Command.complete.name :: arguments)
    o.exitCode = 2 ∧ o.stdout = [] ∧ o.stderr ≠ [] := by
  intro o
  obtain ⟨reply, parsed, code, silent, ended⟩ := lawful.scriptRefused _ _ _ _ _ call legal unfit
  have said : o = ⟨reply.exitCode, [], k.printed s [reply.stderr], t, none⟩ := by
    rw [show o = _ from completes k t s arguments, parsed, answer, replySilent lawful silent]
    rfl
  rw [said]
  refine ⟨code, rfl, fun nothing => ?_⟩
  obtain ⟨front, back, same⟩ := List.append_of_mem ended
  have stripped := lawful.onlySequences s.stderrIsTerminal reply.stderr
  rw [same] at stripped
  obtain ⟨_, _, shown, -⟩ := strippedFeed stripped
  simp [printed, same, shown] at nothing

theorem echoBodies (isTerminal : Bool) (bodies : List Text) :
    ∃ shown, List.Forall₂ Stripped bodies shown ∧
      k.echo isTerminal (endedLines bodies) = endedLines shown ∧
      (isTerminal = true ∨ (∀ body ∈ bodies, '\x1b' ∉ body) → shown = bodies) := by
  by_cases verbatim : isTerminal = true ∨ ∀ body ∈ bodies, '\x1b' ∉ body
  · refine ⟨bodies, List.forall₂_same.mpr fun body _ => .refl body, ?_, fun _ => rfl⟩
    refine echoPlain lawful (verbatim.imp_right fun plain member => ?_)
    obtain ⟨body, inside, escape⟩ := List.mem_flatMap.mp member
    simp [plain body inside] at escape
  · obtain ⟨shown, each, same⟩ := strippedEnded (lawful.onlySequences isTerminal _)
    exact ⟨shown, each, same, fun plain => absurd plain verbatim⟩

theorem handlerAnswers (call : HandlerCall arguments choice script) (legal : nul ∉ script)
    (fit : ¬ t.Unfit s.directory script) :
    ∃ bodies shown, Answered t s (choice.getD .bash) script
      (k.run t s (Command.complete.name :: arguments)) bodies shown := by
  obtain ⟨bodies, offered, ran⟩ := handlerOffers t s (choice.getD .bash) legal
  obtain ⟨shown, each, echoed, verbatim⟩ := echoBodies lawful s.stdoutIsTerminal bodies
  have answered : k.run t s (Command.complete.name :: arguments) =
      (k.conclude s .complete (.success t [] (endedLines bodies))).reported s := by
    rw [completes, lawful.scriptAccepted _ _ _ _ _ call legal fit, answer, handlerRun, ran]
    rfl
  rw [answered]
  refine ⟨bodies, shown, offered, each, verbatim, fun writes => ?_, fun message refused => ?_⟩
  · have lines := linesEnded (shownPlain (offeredOneLine offered) each) []
    rw [List.append_nil] at lines
    rw [concludeWritten lawful (echoed ▸ writes), echoed, Outcome.reportedHandled s rfl]
    exact ⟨rfl, rfl, rfl, lines.trans (by simp [Text.lines])⟩
  · rw [concludeUnwritten (echoed ▸ refused)]
    exact ⟨rfl, rfl, rfl, Outcome.reportedStderr s rfl⟩

end Toolkit

theorem handlerNeverDisturbs {k : Toolkit} (lawful : k.Lawful) (t : Tree) (s : Surroundings)
    {arguments : List Text} {choice : Option Shell} {script : Text}
    (call : HandlerCall arguments choice script) :
    let o := k.run t s (Command.complete.name :: arguments)
    o.tree = t ∧
    (nul ∉ script → ¬ t.Unfit s.directory script →
      ∃ bodies shown, Answered t s (choice.getD .bash) script o bodies shown) ∧
    (nul ∉ script → t.Unfit s.directory script →
      o.exitCode = 2 ∧ o.stdout = [] ∧ o.stderr ≠ []) ∧
    (nul ∈ script → nonempty? s.completionLine ≠ none →
      k.parse t s.directory (Command.complete.name :: arguments) = .complete ⟨script, choice, none⟩ →
      o.exitCode = 1 ∧ o.crash = some .nul ∧ o.stdout = [] ∧ o.stderr ≠ []) := by
  intro o
  refine ⟨Toolkit.completeTree lawful, Toolkit.handlerAnswers lawful call,
    Toolkit.scriptRefusedRun lawful call, fun embedded typed parsed => ?_⟩
  obtain ⟨line, typed⟩ := Option.ne_none_iff_exists'.mp typed
  have crashed : o = (Outcome.crashed t [] .nul).reported s := by
    rw [show o = _ from Toolkit.completes k t s arguments, parsed, Toolkit.answer, Toolkit.handlerRun,
      handlerNul embedded typed]
    rfl
  rw [crashed]
  exact ⟨rfl, rfl, rfl, Outcome.reportedStderr s rfl⟩

def deployText : Text :=
  "#@/command\n # @flag -v | --verbose Says more.\n ##\n#@/subcommand push\n # Sends all.\n ##\n"

def deployTree : Tree :=
  { entries := [(["s.sh"], .file (deployText.flatMap String.utf8EncodeChar)),
      (["secret.sh"], .file [] { read := false })] }

def tabPressed : Surroundings :=
  { directory := ⟨1, []⟩, completionLine := some "s.sh ", completionPoint := some "+9_9",
    today := "2026-01-01" }

theorem unfitExact (t : Tree) (directory : Path) (given : Text) :
    ((t.stat directory given).toOption.any fun node => node.isDirectory || !node.access.read) = true ↔
      t.Unfit directory given := by
  unfold Tree.Unfit
  cases t.stat directory given with
  | error fault => simp [Except.toOption]
  | ok node => simp [Except.toOption]

theorem handlerNeverDisturbsForDeploy :
    let o := Toolkit.standard.run deployTree tabPressed
      ["complete", "--shell", "bash", "./s.sh", "--shell=fish"]
    HandlerCall ["--shell", "bash", "./s.sh", "--shell=fish"] (some .fish) "./s.sh" ∧
      ¬ deployTree.Unfit tabPressed.directory "./s.sh" ∧
      o.exitCode = 0 ∧ o.stderr = [] ∧ o.tree = deployTree ∧
      Text.lines o.stdout = ["push\tSends all.\n", "-v\tSays more.\n", "--verbose\tSays more.\n"] := by
  have call : HandlerCall ["--shell", "bash", "./s.sh", "--shell=fish"] (some .fish) "./s.sh" :=
    ⟨[.bash, .fish], .apart .bash (.argument (Or.inl (by decide)) (.joined .fish .done)), by simp, rfl⟩
  have fit : ¬ deployTree.Unfit tabPressed.directory "./s.sh" := by
    rw [← unfitExact]
    decide +kernel
  obtain ⟨tree, answers, -⟩ := handlerNeverDisturbs standardLawful deployTree tabPressed call
  obtain ⟨bodies, shown, answered⟩ := answers (by decide) fit
  obtain ⟨code, -, stderr, lines⟩ := answered.written rfl
  have read : deployTree.YieldsScript tabPressed.directory "./s.sh" deployText :=
    ⟨["s.sh"], {}, by decide +kernel, rfl, Or.inl (by decide +kernel)⟩
  have listed : bodies = ["push\tSends all.", "-v\tSays more.", "--verbose\tSays more."] :=
    (offeredListed answered.offered rfl read).trans (by decide +kernel)
  subst listed
  rw [answered.verbatim (Or.inr (by simp))] at lines
  exact ⟨call, fit, code, stderr, tree, lines⟩

/- A script that is no directory is refused because it may not be read, and one that has the name of no
file at all is not handled. -/
theorem handlerDisturbed :
    (HandlerCall ["secret.sh"] none "secret.sh" ∧
      deployTree.stat tabPressed.directory "secret.sh" = .ok (.file [] { read := false }) ∧
      (Toolkit.standard.run deployTree tabPressed ["complete", "secret.sh"]).exitCode = 2 ∧
      (Toolkit.standard.run deployTree tabPressed ["complete", "secret.sh"]).stderr ≠ []) ∧
    (HandlerCall [['a', nul, 'b']] none ['a', nul, 'b'] ∧
      (Toolkit.standard.run deployTree tabPressed ["complete", ['a', nul, 'b']]).exitCode = 1 ∧
      (Toolkit.standard.run deployTree tabPressed ["complete", ['a', nul, 'b']]).crash = some .nul) := by
  have plain (given : Text) (other : given.head? ≠ some '-') : HandlerCall [given] none given :=
    ⟨[], .argument (Or.inl other) .done, by simp, rfl⟩
  have secret := plain "secret.sh" (by decide)
  have found : deployTree.stat tabPressed.directory "secret.sh" = .ok (.file [] { read := false }) := by
    decide +kernel
  obtain ⟨code, -, said⟩ := Toolkit.scriptRefusedRun standardLawful secret (by decide)
    ⟨_, found, Or.inr rfl⟩
  exact ⟨⟨secret, found, code, said⟩, plain _ (by decide), by decide +kernel, by decide +kernel⟩

end ScriptDoc
