import ScriptDoc.Text.Basic

/-!
Control sequences of terminals: an escape character and an opening bracket, parameters,
intermediates and one final character. A text that no terminal shows is written without them.
-/
namespace ScriptDoc
namespace ControlSequence

def isParameter (c : Char) : Bool := 0x30 ≤ c.toNat && c.toNat ≤ 0x3f

def isIntermediate (c : Char) : Bool := 0x20 ≤ c.toNat && c.toNat ≤ 0x2f

def isFinal (c : Char) : Bool := 0x40 ≤ c.toNat && c.toNat ≤ 0x7e

def rest? (s : Text) : Option Text :=
  match (s.dropWhile isParameter).dropWhile isIntermediate with
  | c :: rest => if isFinal c then some rest else none
  | [] => none

theorem restShorter {s rest : Text} (found : rest? s = some rest) :
    rest.length < s.length := by
  unfold rest? at found
  have parameters := (List.dropWhile_suffix (l := s) isParameter).length_le
  have intermediates :=
    (List.dropWhile_suffix (l := s.dropWhile isParameter) isIntermediate).length_le
  split at found
  · next c tail split =>
    rw [split] at intermediates
    simp only [List.length_cons] at intermediates
    split at found
    · cases Option.some.inj found
      omega
    · contradiction
  · contradiction

end ControlSequence

/-- The text without its control sequences. What they leave behind is not read again, and a
sequence that has no final character stays. -/
def Text.withoutSequences : Text → Text
  | [] => []
  | '\x1b' :: '[' :: rest =>
    match found : ControlSequence.rest? rest with
    | some after =>
      have := ControlSequence.restShorter found
      Text.withoutSequences after
    | none => '\x1b' :: '[' :: Text.withoutSequences rest
  | c :: rest => c :: Text.withoutSequences rest
termination_by s => s.length

end ScriptDoc
