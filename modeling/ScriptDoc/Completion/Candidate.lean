import ScriptDoc.Entry

/-!
Completion of a command line while it is typed: the words that may follow, given the text before
the cursor.
-/
namespace ScriptDoc

structure Candidate where
  word : Text
  description : Text := []
  deriving DecidableEq, Repr

def Entry.candidates (e : Entry) : List Candidate :=
  e.spellings.map fun word => ⟨word, e.description⟩

def Block.candidates (b : Block) : List Candidate := b.entries.flatMap Entry.candidates

def Block.asCandidate (b : Block) : Candidate :=
  ⟨b.name.getD [],
    match b.deprecated with
    | some mark => deprecationMark ++ mark.message
    | none => Text.firstLine b.description⟩

def Block.expectsValue (b : Block) (word : Text) : Bool :=
  b.options.any fun r => r.short = some word || r.long = some word

/-- The text before the cursor. A negative position counts from the end, and one past the end
means the whole line. -/
def beforeCursor (line : Text) (point : Int) : Text :=
  if point < line.length then
    if point < 0 then line.take (line.length + point).toNat else line.take point.toNat
  else line

structure Typed where
  arguments : List Text
  current : Text
  deriving DecidableEq, Repr

def Typed.ofText? (s : Text) : Option Typed :=
  let words := Text.words s
  if s.getLast? = some ' ' then some ⟨words.drop 1, []⟩
  else
    match words with
    | [] => some ⟨[], []⟩
    | [_] => none
    | _ :: arguments => some ⟨arguments.dropLast, arguments.getLast?.getD []⟩

def selected? (subcommands : List Block) (arguments : List Text) : Option Block :=
  arguments.findSome? fun word => subcommands.find? fun b => b.name = some word

namespace Document

def offered (d : Document) (arguments : List Text) : List Candidate :=
  let selected := selected? d.subcommands arguments
  let blocks := d.command?.toList ++ selected.toList
  match arguments.getLast? with
  | some word =>
    if blocks.any (fun b => b.expectsValue word) then [] else offer selected
  | none => offer selected
where
  offer (selected : Option Block) : List Candidate :=
    (match selected with
    | some b => b.candidates
    | none => d.subcommands.map Block.asCandidate) ++
      (d.command?.map Block.candidates).getD []

def complete (d : Document) (line : Text) (point : Int) : List Candidate :=
  match Typed.ofText? (beforeCursor line point) with
  | none => []
  | some typed =>
    (d.offered typed.arguments).filter fun candidate => typed.current.isPrefixOf candidate.word

end Document

def Candidate.fishLine (c : Candidate) : Text :=
  c.word ++ "\t" ++ Text.replace '\t' [' '] c.description ++ "\n"

def Candidate.plainLine (c : Candidate) : Text := c.word ++ "\n"

def candidateLines (shell : Text) (candidates : List Candidate) : Text :=
  if shell = "fish" then candidates.flatMap Candidate.fishLine
  else candidates.flatMap Candidate.plainLine

end ScriptDoc
