import ScriptDoc.Format
import ScriptDoc.Settings

/-!
What surrounds a run of the command line, what can go wrong in it and what comes out of it.
-/
namespace ScriptDoc

structure Encoding where
  refusal? : Text → Option Text
  nothing : refusal? [] = none

def Encoding.utf8 : Encoding := ⟨fun _ => none, rfl⟩

def Utf8.text (bytes : Bytes) : Except Text Text := (Utf8.decode bytes).mapError Utf8.Fault.message

inductive Crash where
  | nul
  | input (message : Text)
  | output (message : Text)
  | numeral (digits : Nat)
  | name (error : NameError)
  deriving DecidableEq, Repr

namespace Crash

def kind : Crash → Text
  | .nul => "ValueError"
  | .input _ => "UnicodeDecodeError"
  | .output _ => "UnicodeEncodeError"
  | .numeral _ => "ValueError"
  | .name _ => "TypeError"

def message : Crash → Text
  | .nul => nulMessage
  | .input message => message
  | .output message => message
  | .numeral digits =>
    "Exceeds the limit (" ++ Text.ofNat maxNumeralDigits ++
      " digits) for integer string conversion: value has " ++ Text.ofNat digits ++
      " digits; use sys.set_int_max_str_digits() to increase the limit"
  | .name error => error.message

end Crash

structure Surroundings where
  directory : Path
  sizeLimit : Option Text := none
  completionLine : Option Text := none
  completionPoint : Option Text := none
  stdin : Bytes := []
  decode : Bytes → Except Text Text := Utf8.text
  encoding : Encoding := .utf8
  stdoutIsTerminal : Bool := false
  stderrIsTerminal : Bool := false
  -- The calls on the way to an error, as they are listed before it.
  frames : Crash → Text := fun _ => []
  today : Text

inductive Complaint where
  | failure
  | usage
  | badParameter (hint : Option Text)
  deriving DecidableEq, Repr

inductive Failure where
  | formatAndTag
  | shellAndSetup
  | settings (error : SettingsError)
  | unknownTag (tag : Text)
  | unknownFormat (error : UnknownFormat)
  | limit (error : LimitError)
  | script (given : Text) (error : ScriptError)
  | singleFile (format : Text) (count : Nat)
  | render (error : RenderError)
  | write (path : Text) (error : FileError)
  deriving DecidableEq, Repr

namespace Failure

def complaint : Failure → Complaint
  | .formatAndTag => .usage
  | .shellAndSetup => .usage
  | .settings _ => .badParameter none
  | .unknownTag _ => .badParameter (some "'--get'")
  | .unknownFormat _ => .badParameter (some "'--to'")
  | _ => .failure

def message : Failure → Text
  | .formatAndTag => "--to and --get are mutually exclusive"
  | .shellAndSetup => "--shell and --setup are mutually exclusive"
  | .settings e => e.message
  | .unknownTag tag => "unknown tag: " ++ tag.quoted
  | .unknownFormat e => e.message
  | .limit e => e.message
  | .script given e => "failed to parse " ++ given ++ ": " ++ e.message
  | .singleFile format count =>
    "format " ++ format.quoted ++ " supports a single file; got " ++ Text.ofNat count
  | .render e => e.message
  | .write path e => "Failed to write output file " ++ path ++ ": " ++ e.message

end Failure

inductive Abort where
  | failure (failure : Failure)
  | crash (crash : Crash)
  deriving DecidableEq, Repr

namespace Abort

def ofScript (given : Text) : ScriptError → Abort
  | .nul => .crash .nul
  | e => .failure (.script given e)

def ofWrite (path : Text) : WriteError → Abort
  | .nul => .crash .nul
  | .file e => .failure (.write path e)

def ofBuild : BuildError → Abort
  | .load .nul => .crash .nul
  | .load (.settings e) => .failure (.settings e)
  | .load (.numeral digits) => .crash (.numeral digits)
  | .name e => .crash (.name e)
  | .settings e => .failure (.settings e)

end Abort

structure Effect where
  warned : List Text
  tree : Tree
  result : Except Abort Text

def Effect.success (t : Tree) (warned : List Text) (text : Text) : Effect := ⟨warned, t, .ok text⟩

def Effect.abort (t : Tree) (warned : List Text) (a : Abort) : Effect := ⟨warned, t, .error a⟩

structure Outcome where
  exitCode : Nat
  stdout : Text
  stderr : Text
  tree : Tree
  crash : Option Crash
  deriving DecidableEq, Repr

namespace Outcome

def crashed (t : Tree) (stderr : Text) (c : Crash) : Outcome := ⟨1, [], stderr, t, some c⟩

/-- The outcome of a process, which is the one to say what it was that nothing has handled. -/
def reported (o : Outcome) (s : Surroundings) : Outcome :=
  match o.crash with
  | none => o
  | some c =>
    { o with
      stderr := o.stderr ++ "Traceback (most recent call last):\n" ++ s.frames c ++ c.kind ++ ": " ++
        c.message ++ "\n" }

end Outcome
end ScriptDoc
