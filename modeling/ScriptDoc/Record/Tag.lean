import ScriptDoc.Record

/-!
Tags: the notation `@name text` of a record, and its reading.
-/
namespace ScriptDoc

inductive TagKind where
  | flag
  | option
  | operand
  | env
  | reads
  | stdin
  | exit
  | stdout
  | stderr
  | sets
  | writes
  | deprecated
  deriving DecidableEq, Repr

namespace TagKind

def all : List TagKind :=
  [.flag, .option, .operand, .env, .reads, .stdin, .exit, .stdout, .stderr, .sets, .writes,
    .deprecated]

def name : TagKind → Text
  | .flag => "flag"
  | .option => "option"
  | .operand => "operand"
  | .env => "env"
  | .reads => "reads"
  | .stdin => "stdin"
  | .exit => "exit"
  | .stdout => "stdout"
  | .stderr => "stderr"
  | .sets => "sets"
  | .writes => "writes"
  | .deprecated => "deprecated"

def ofName? (s : Text) : Option TagKind := all.find? fun kind => kind.name = s

end TagKind

inductive TagError where
  | unknown (name : Text)
  | noSpelling
  | emptyOption
  | noOptionValue
  | badOptionValue (error : NotationError)
  | noOperandValue
  | badOperandValue (error : NotationError)
  | noVariable (tag : TagKind)
  | noPath (tag : TagKind)
  | noExitCode
  deriving DecidableEq, Repr

def TagError.message : TagError → Text
  | .unknown name => "unknown tag @" ++ name
  | .noSpelling => "@flag requires at least one flag name"
  | .emptyOption => "@option requires at least one flag name and a value"
  | .noOptionValue => "@option requires a value notation (e.g., <value> or [value])"
  | .badOptionValue e => "@option value: " ++ e.message
  | .noOperandValue => "@operand requires a value notation"
  | .badOperandValue e => "@operand value: " ++ e.message
  | .noVariable tag => "@" ++ tag.name ++ " requires a variable name"
  | .noPath tag => "@" ++ tag.name ++ " requires a path"
  | .noExitCode => "@exit requires an exit code"

def isTokenEnd (c : Char) : Bool := c = ' ' || c = '\t'

def splitToken : Text → Text × Text
  | [] => ([], [])
  | c :: rest =>
    if isTokenEnd c then ([], rest)
    else
      let (token, tail) := splitToken rest
      (c :: token, tail)

def firstToken (s : Text) : Text × Text := splitToken (Text.trim s)

def splitTag? (content : Text) : Option (Text × Text) :=
  match Text.trim content with
  | '@' :: rest =>
    let (name, text) := splitToken rest
    some (name, Text.trim text)
  | _ => none

theorem splitTokenShorter (s : Text) : (splitToken s).2.length ≤ s.length := by
  induction s with
  | nil => simp [splitToken]
  | cons c rest ih =>
    simp only [splitToken]
    split
    · simp
    · simp only [List.length_cons]
      omega

theorem firstTokenShorter {s : Text} (nonempty : s ≠ []) :
    (firstToken s).2.length < s.length := by
  have shorter : ∀ t : Text, t ≠ [] → (splitToken t).2.length < t.length := by
    intro t ht
    cases t with
    | nil => exact absurd rfl ht
    | cons c rest =>
      have := splitTokenShorter rest
      simp only [splitToken]
      split <;> simp only [List.length_cons] <;> omega
  have trimmed := Text.trimShorter s
  by_cases h : Text.trim s = []
  · have positive := List.length_pos_iff.mpr nonempty
    simp only [firstToken, h, splitToken, List.length_nil]
    exact positive
  · exact Nat.lt_of_lt_of_le (shorter _ h) trimmed

structure Spellings where
  short : Option Text
  long : Option Text
  rest : Text
  deriving DecidableEq, Repr

def isLongSpelling (s : Text) : Bool := ['-', '-'].isPrefixOf s

theorem trimBarShorter {tail more : Text}
    (bar : Text.trim (firstToken ('-' :: tail)).2 = '|' :: more) :
    (Text.trim more).length < tail.length + 1 := by
  have first := firstTokenShorter (s := '-' :: tail) (by simp)
  have trimmed := Text.trimShorter (firstToken ('-' :: tail)).2
  have after := Text.trimShorter more
  rw [bar] at trimmed
  simp only [List.length_cons] at first trimmed
  omega

def takeSpellings (short long : Option Text) : Text → Spellings
  | '-' :: tail =>
    let token := (firstToken ('-' :: tail)).1
    let short := if isLongSpelling token then short else some token
    let long := if isLongSpelling token then some token else long
    match bar : Text.trim (firstToken ('-' :: tail)).2 with
    | '|' :: more =>
      have := trimBarShorter bar
      takeSpellings short long (Text.trim more)
    | rest => ⟨short, long, rest⟩
  | rest => ⟨short, long, rest⟩
termination_by s => s.length

def spellings (s : Text) : Spellings := takeSpellings none none (Text.trim s)

namespace Record

def readFlag (s : Text) (line : Int) : Except TagError Record :=
  let found := spellings s
  if found.short.isNone && found.long.isNone then .error .noSpelling
  else .ok (.flag ⟨found.short, found.long, Text.trim found.rest, line⟩)

def readOption (s : Text) (line : Int) : Except TagError Record :=
  if (Text.trim s).isEmpty then .error .emptyOption
  else
    let found := spellings s
    let (written, description) := firstToken found.rest
    if written.isEmpty then .error .noOptionValue
    else
      match Value.read written with
      | .ok value => .ok (.option ⟨value, found.short, found.long, Text.trim description, line⟩)
      | .error e => .error (.badOptionValue e)

def readOperand (s : Text) (line : Int) : Except TagError Record :=
  let (written, description) := firstToken s
  if written.isEmpty then .error .noOperandValue
  else
    match Value.read written with
    | .ok value => .ok (.operand ⟨value, Text.trim description, line⟩)
    | .error e => .error (.badOperandValue e)

def requireToken (missing : TagError) (s : Text) : Except TagError (Text × Text) :=
  let (token, rest) := firstToken s
  if token.isEmpty then .error missing else .ok (token, Text.trim rest)

def readKind (s : Text) (line : Int) : TagKind → Except TagError Record
  | .flag => readFlag s line
  | .option => readOption s line
  | .operand => readOperand s line
  | .env => (requireToken (.noVariable .env) s).map fun (name, text) => .env ⟨name, text, line⟩
  | .reads => (requireToken (.noPath .reads) s).map fun (path, text) => .reads ⟨path, text, line⟩
  | .stdin => .ok (.stdin ⟨Text.trim s, line⟩)
  | .exit => (requireToken .noExitCode s).map fun (code, text) => .exit ⟨code, text, line⟩
  | .stdout => .ok (.stdout ⟨Text.trim s, line⟩)
  | .stderr => .ok (.stderr ⟨Text.trim s, line⟩)
  | .sets => (requireToken (.noVariable .sets) s).map fun (name, text) => .sets ⟨name, text, line⟩
  | .writes => (requireToken (.noPath .writes) s).map fun (path, text) => .writes ⟨path, text, line⟩
  | .deprecated => .ok (.deprecated ⟨Text.trim s, line⟩)

def read (name s : Text) (line : Int) : Except TagError Record :=
  match TagKind.ofName? name with
  | some kind => readKind s line kind
  | none => .error (.unknown name)

end Record
end ScriptDoc
