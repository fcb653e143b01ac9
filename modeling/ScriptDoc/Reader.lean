import ScriptDoc.Document
import ScriptDoc.Line
import ScriptDoc.Record.Tag

/-!
Reading the documentation of a script, line by line. Outside of everything a line may open a
metadata value or a block; inside, lines continue or close it, and any other line ends it and is
then read as if it stood outside.
-/
namespace ScriptDoc

structure Draft where
  block : Block
  description : List Text := []
  inTags : Bool := false
  pending : Option Record := none
  continuation : List Text := []
  deriving DecidableEq, Repr

inductive State where
  | top
  | metadata (tag : Text) (lines : List Text)
  | block (draft : Draft)
  deriving DecidableEq, Repr

namespace Draft

def settle (draft : Draft) : Draft :=
  match draft.pending with
  | some record =>
    let record :=
      if draft.continuation.isEmpty then record
      else record.extend (Text.join [' '] draft.continuation)
    { draft with block := draft.block.attach record, pending := none, continuation := [] }
  | none => { draft with continuation := [] }

def finish (draft : Draft) : Block :=
  let settled := draft.settle
  if settled.description.isEmpty then settled.block
  else { settled.block with description := Text.join ['\n'] settled.description }

def takeText (draft : Draft) (content : Text) : Draft :=
  if content.isEmpty then draft.settle
  else if draft.pending.isSome then
    if (Text.trim content).isEmpty then draft
    else { draft with continuation := draft.continuation ++ [Text.trim content] }
  else if draft.inTags then draft
  else { draft with description := draft.description ++ [content] }

end Draft

def finish (state : State) (line : Int) (d : Document) : Document :=
  match state with
  | .top => d
  | .metadata tag lines => d.setMetadata tag (Text.join ['\n'] lines) line
  | .block draft => d.addBlock draft.finish

def stepTop (s : Text) (line : Int) (d : Document) : State × Document :=
  match TopLine.ofText s with
  | .shebang interpreter => (.top, { d with shebang := some interpreter })
  | .metaValue tag value => (.top, d.setMetadata tag value line)
  | .metaOpen tag => (.metadata tag [], d)
  | .blockOpen keyword extra =>
    let (visibility, name) := blockHeader keyword extra
    (.block { block := { visibility, name, line } }, d)
  | .other =>
    match functionName? s with
    | some function => (.top, d.bindFunction function)
    | none => (.top, d)

def stepMetadata (tag : Text) (lines : List Text) (s : Text) (line : Int) (d : Document) :
    State × Document :=
  if isClose s then (.top, finish (.metadata tag lines) line d)
  else
    match continuation? s with
    | some content => (.metadata tag (lines ++ [content]), d)
    | none => stepTop s line (finish (.metadata tag lines) line d)

def stepContent (draft : Draft) (content : Text) (line : Int) (d : Document) : State × Document :=
  match splitTag? content with
  | some (name, text) =>
    let settled := { draft.settle with inTags := true }
    match Record.read name text line with
    | .ok record => (.block { settled with pending := some record }, d)
    | .error e => (.block settled, d.warn line e.message)
  | none => (.block (draft.takeText content), d)

def stepBlock (draft : Draft) (s : Text) (line : Int) (d : Document) : State × Document :=
  if isClose s then (.top, finish (.block draft) line d)
  else
    match continuation? s with
    | some content => stepContent draft content line d
    | none => stepTop s line (finish (.block draft) line d)

def step (state : State) (s : Text) (line : Int) (d : Document) : State × Document :=
  match state with
  | .top => stepTop s line d
  | .metadata tag lines => stepMetadata tag lines s line d
  | .block draft => stepBlock draft s line d

def dropLineEnd (s : Text) : Text :=
  let s := if s.getLast? = some '\n' then s.dropLast else s
  if s.getLast? = some '\r' then s.dropLast else s

def readFrom (state : State) (d : Document) (before : Nat) : List Text → Document
  | [] => finish state before d
  | s :: rest =>
    let (state, d) := step state (dropLineEnd s) (before + 1 : Nat) d
    readFrom state d (before + 1) rest

def Document.ofLines (lines : List Text) : Document := readFrom .top {} 0 lines

def Text.lines : Text → List Text
  | [] => []
  | c :: rest =>
    if c = '\n' then [c] :: Text.lines rest
    else
      match Text.lines rest with
      | [] => [[c]]
      | line :: more => (c :: line) :: more

def Document.ofText (s : Text) : Document := Document.ofLines (Text.lines s)

end ScriptDoc
