import ScriptDoc.Cli.Toolkit

/-! What is promised of a toolkit for command lines, and what a run makes of it. Errors go to standard
error and end a run with 1 or 2, options can be given by their long names, a path that is looked up must
be a file that can be read, and what is printed loses at most its control sequences, on a terminal not
even these. -/
namespace ScriptDoc

inductive Stripped : Text → Text → Prop where
  | done : Stripped [] []
  | kept {s out : Text} (c : Char) (rest : Stripped s out) : Stripped (c :: s) (c :: out)
  | dropped {codes s out : Text} {final : Char}
      (inner : ∀ c ∈ codes, 0x20 ≤ c.toNat ∧ c.toNat ≤ 0x3f)
      (ends : 0x40 ≤ final.toNat ∧ final.toNat ≤ 0x7e) (rest : Stripped s out) :
      Stripped ('\x1b' :: '[' :: (codes ++ final :: s)) out

def styleSequence (codes : Text) : Text := "\x1b[" ++ codes ++ "m"

def Surroundings.Writes (s : Surroundings) (text : Text) : Prop := s.encoding.refusal? text = none

def Complaint.exitCode : Complaint → Nat
  | .failure => 1
  | .usage => 2
  | .badParameter _ => 2

def joinedOption (name value : Text) : Text := name ++ ['='] ++ value

def switchOption (name : Text) (given : Bool) : List Text := if given then [name] else []

def RenderRequest.spelled (r : RenderRequest) : List Text :=
  (r.format.map (joinedOption "--to")).toList ++ (r.tag.map (joinedOption "--get")).toList ++
    switchOption "--warnings" r.warnings ++ switchOption "--quiet" r.quiet ++
    ['-', '-'] :: r.files

inductive Asks : List Text → List Shell → List Text → Prop where
  | done : Asks [] [] []
  | ended (rest : List Text) : Asks (['-', '-'] :: rest) [] rest
  | apart {rest others : List Text} {shells : List Shell} (shell : Shell)
      (asks : Asks rest shells others) :
      Asks ("--shell" :: shell.name :: rest) (shell :: shells) others
  | joined {rest others : List Text} {shells : List Shell} (shell : Shell)
      (asks : Asks rest shells others) :
      Asks (joinedOption "--shell" shell.name :: rest) (shell :: shells) others
  | argument {rest others : List Text} {shells : List Shell} {given : Text}
      (plain : given.head? ≠ some '-' ∨ given = ['-']) (asks : Asks rest shells others) :
      Asks (given :: rest) shells (given :: others)

def HandlerCall (arguments : List Text) (choice : Option Shell) (script : Text) : Prop :=
  ∃ shells, Asks arguments shells [script] ∧ (∀ shell ∈ shells, shell = .bash ∨ shell = .fish) ∧
    choice = shells.getLast?

def Tree.Unfit (t : Tree) (directory : Path) (given : Text) : Prop :=
  ∃ node, t.stat directory given = .ok node ∧ (node.isDirectory = true ∨ node.access.read = false)

namespace Toolkit

structure Lawful (k : Toolkit) : Prop where
  complaintCode : ∀ command complaint message,
    (k.complain command complaint message).exitCode = complaint.exitCode
  complaintSilent : ∀ command complaint message, (k.complain command complaint message).stdout = []
  refusalSilent : ∀ t directory arguments reply,
    k.parse t directory arguments = .replied reply → reply.exitCode ≠ 0 → reply.stdout = []
  filesRequired : ∀ t directory arguments r,
    k.parse t directory arguments = .render r → r.files ≠ []
  longNames : ∀ t directory (r : RenderRequest), r.files ≠ [] → r.output = none →
    k.parse t directory (Command.render.name :: r.spelled) = .render r
  scriptAccepted : ∀ t directory arguments choice script,
    HandlerCall arguments choice script → nul ∉ script → ¬ t.Unfit directory script →
    k.parse t directory (Command.complete.name :: arguments) = .complete ⟨script, choice, none⟩
  scriptRefused : ∀ t directory arguments choice script,
    HandlerCall arguments choice script → nul ∉ script → t.Unfit directory script →
    ∃ reply, k.parse t directory (Command.complete.name :: arguments) = .replied reply ∧
      reply.exitCode = 2 ∧ reply.stdout = [] ∧ '\n' ∈ reply.stderr
  commandKept : ∀ t directory arguments r,
    k.parse t directory (Command.complete.name :: arguments) ≠ .render r
  terminalVerbatim : ∀ s, k.echo true s = s
  onlySequences : ∀ isTerminal s, Stripped s (k.echo isTerminal s)
  stylesLeftOut : ∀ before codes after, '\x1b' ∉ before → '\x1b' ∉ after →
    (∀ c ∈ codes, c.isDigit = true ∨ c = ';') →
    k.echo false (before ++ styleSequence codes ++ after) = before ++ after

end Toolkit

section Stripped

theorem Stripped.refl : (s : Text) → Stripped s s
  | [] => .done
  | c :: s => .kept c (refl s)

theorem strippedPlain {s out : Text} (stripped : Stripped s out) (plain : '\x1b' ∉ s) : out = s := by
  induction stripped with
  | done => rfl
  | kept c _ ih => rw [ih fun member => plain (List.mem_cons_of_mem c member)]
  | dropped => exact absurd List.mem_cons_self plain

theorem strippedSublist {s out : Text} (stripped : Stripped s out) : out.Sublist s := by
  induction stripped with
  | done => exact List.nil_sublist _
  | kept c _ ih => exact ih.cons_cons c
  | dropped _ _ _ ih =>
    refine ((ih.trans ?_).cons _).cons _
    exact (List.sublist_cons_self _ _).trans (List.sublist_append_right _ _)

/- No control sequence reaches over the end of a line. -/
theorem strippedFeed {a b out : Text} (stripped : Stripped (a ++ '\n' :: b) out) :
    ∃ front back, out = front ++ '\n' :: back ∧ Stripped a front ∧ Stripped b back := by
  generalize whole : a ++ '\n' :: b = s at stripped
  induction stripped generalizing a with
  | done => simp at whole
  | @kept s out c rest ih =>
    cases a with
    | nil =>
      obtain ⟨rfl, rfl⟩ := List.cons.inj whole
      exact ⟨[], out, rfl, .done, rest⟩
    | cons first a =>
      obtain ⟨rfl, same⟩ := List.cons.inj whole
      obtain ⟨front, back, rfl, left, right⟩ := ih same
      exact ⟨first :: front, back, rfl, .kept first left, right⟩
  | @dropped codes s out final inner ends rest ih =>
    have within : ∀ c ∈ '\x1b' :: '[' :: codes ++ [final], c ≠ '\n' := by
      simp only [List.cons_append, List.forall_mem_cons, List.forall_mem_append]
      refine ⟨by decide, by decide, ⟨fun c member => ?_, ?_⟩⟩
      · rintro rfl
        exact absurd (inner _ member).1 (by decide)
      · refine ⟨?_, by simp⟩
        rintro rfl
        exact absurd ends.1 (by decide)
    have parts : a ++ '\n' :: b = ('\x1b' :: '[' :: codes ++ [final]) ++ s := by simp [whole]
    -- The line feed is none of the characters of the sequence, so it stands behind them.
    have behind : ∃ more, a = ('\x1b' :: '[' :: codes ++ [final]) ++ more ∧ more ++ '\n' :: b = s := by
      rcases List.append_eq_append_iff.mp parts with ⟨more, same, later⟩ | ⟨more, same, later⟩
      · cases more with
        | nil => exact ⟨[], by simpa using same.symm, by simpa using later⟩
        | cons c more =>
          have feed : c = '\n' := (List.cons.inj later).1.symm
          exact absurd feed (within c (by rw [same]; simp))
      · exact ⟨more, same, later.symm⟩
    obtain ⟨more, rfl, same⟩ := behind
    obtain ⟨front, back, rfl, left, right⟩ := ih same
    refine ⟨front, back, rfl, ?_, right⟩
    simpa using Stripped.dropped inner ends left

end Stripped

namespace Outcome
variable (o : Outcome) (s : Surroundings)

@[simp] theorem reportedCode : (o.reported s).exitCode = o.exitCode := by
  unfold reported
  split <;> rfl

@[simp] theorem reportedStdout : (o.reported s).stdout = o.stdout := by
  unfold reported
  split <;> rfl

@[simp] theorem reportedTree : (o.reported s).tree = o.tree := by
  unfold reported
  split <;> rfl

@[simp] theorem reportedCrash : (o.reported s).crash = o.crash := by
  unfold reported
  split <;> rfl

theorem reportedHandled {o : Outcome} (handled : o.crash = none) : o.reported s = o := by
  rw [reported, handled]

theorem reportedStderr {o : Outcome} {c : Crash} (crashed : o.crash = some c) :
    (o.reported s).stderr ≠ [] := by
  simp [reported, crashed]

structure Untouched (o : Outcome) (t : Tree) : Prop where
  tree : o.tree = t
  silent : o.exitCode ≠ 0 → o.stdout = []

theorem crashedUntouched (t : Tree) (stderr : Text) (c : Crash) : (crashed t stderr c).Untouched t :=
  ⟨rfl, fun _ => rfl⟩

end Outcome

theorem CompleteRequest.runUntouched (r : CompleteRequest) (t : Tree) (s : Surroundings) :
    ∃ warned result, r.run t s = ⟨warned, t, result⟩ := by
  simp only [CompleteRequest.run]
  split
  · exact ⟨_, _, rfl⟩
  · unfold CompleteRequest.runSetup
    split
    · exact ⟨_, _, rfl⟩
    · exact ⟨_, _, rfl⟩
  · unfold CompleteRequest.runHandler
    split
    · exact ⟨_, _, rfl⟩
    · split
      · exact ⟨_, _, rfl⟩
      · exact ⟨_, _, rfl⟩
      · exact ⟨_, _, rfl⟩

namespace Toolkit

theorem withCommandNamed (k : Toolkit) (command : Command) (arguments : List Text) :
    k.withCommand (command.name :: arguments) = command.name :: arguments := by
  have named : Command.names.contains command.name = true := by cases command <;> decide
  rw [withCommand, if_pos (Or.inl named)]

variable {k : Toolkit} (lawful : k.Lawful) {t : Tree} {s : Surroundings} {warned : List Text}
include lawful

theorem echoPlain {isTerminal : Bool} {text : Text} (plain : isTerminal = true ∨ '\x1b' ∉ text) :
    k.echo isTerminal text = text := by
  rcases plain with rfl | plain
  · exact lawful.terminalVerbatim text
  · exact strippedPlain (lawful.onlySequences isTerminal text) plain

theorem echoNothing (isTerminal : Bool) : k.echo isTerminal [] = [] :=
  echoPlain lawful (Or.inr List.not_mem_nil)

theorem replySilent {r : Reply} (silent : r.stdout = []) :
    k.reply t s warned r = ⟨r.exitCode, [], k.printed s (warned ++ [r.stderr]), t, none⟩ := by
  simp only [reply, silent, echoNothing lawful, s.encoding.nothing]

theorem concludeWritten {command : Command} {text : Text}
    (writes : s.Writes (k.echo s.stdoutIsTerminal text)) :
    k.conclude s command (.success t warned text) =
      ⟨0, k.echo s.stdoutIsTerminal text, k.printed s warned, t, none⟩ := by
  have writes : s.encoding.refusal? (k.echo s.stdoutIsTerminal text) = none := writes
  simp only [conclude, Effect.success, reply, writes, printed, List.flatMap_append,
    List.flatMap_singleton, echoNothing lawful, List.append_nil]

theorem concludeNothing {command : Command} :
    k.conclude s command (.success t warned []) = ⟨0, [], k.printed s warned, t, none⟩ := by
  have writes : s.Writes (k.echo s.stdoutIsTerminal []) := by
    rw [echoNothing lawful]
    exact s.encoding.nothing
  rw [concludeWritten lawful writes, echoNothing lawful]

omit lawful in
theorem concludeUnwritten {command : Command} {text message : Text}
    (refused : s.encoding.refusal? (k.echo s.stdoutIsTerminal text) = some message) :
    k.conclude s command (.success t warned text) =
      .crashed t (k.printed s warned) (.output message) := by
  simp only [conclude, Effect.success, reply, refused]

theorem replyUntouched {r : Reply} (silent : r.exitCode ≠ 0 → r.stdout = []) :
    (k.reply t s warned r).Untouched t := by
  by_cases failed : r.exitCode = 0
  · unfold reply
    simp only
    split
    · exact Outcome.crashedUntouched t _ _
    · exact ⟨rfl, fun other => absurd failed other⟩
  · rw [replySilent lawful (silent failed)]
    exact ⟨rfl, fun _ => rfl⟩

theorem concludeAbort {command : Command} {a : Abort} :
    let o := k.conclude s command (.abort t warned a)
    o.exitCode ≠ 0 ∧ o.stdout = [] ∧ o.tree = t := by
  intro o
  cases a with
  | crash c => exact ⟨Nat.one_ne_zero, rfl, rfl⟩
  | failure f =>
    have ended : o = _ := replySilent lawful (lawful.complaintSilent command f.complaint f.message)
    have failing : f.complaint.exitCode ≠ 0 := by cases f.complaint <;> simp [Complaint.exitCode]
    rw [ended, lawful.complaintCode]
    exact ⟨failing, rfl, rfl⟩

theorem concludeUntouched (command : Command) (warned : List Text) (result : Except Abort Text) :
    (k.conclude s command ⟨warned, t, result⟩).Untouched t := by
  cases result with
  | ok text => exact replyUntouched lawful fun failed => absurd rfl failed
  | error a =>
    obtain ⟨-, silent, same⟩ := concludeAbort lawful (a := a)
    exact ⟨same, fun _ => silent⟩

theorem completeUntouched (r : CompleteRequest) : (k.answer t s (.complete r)).Untouched t := by
  obtain ⟨warned, result, ran⟩ := r.runUntouched t s
  simp only [answer, ran]
  exact concludeUntouched lawful .complete warned result

end Toolkit

end ScriptDoc
