import ScriptDoc.Cli.Outcome

/-!
The command that reads scripts and writes their documentation.
-/
namespace ScriptDoc

inductive RenderOption where
  | format
  | tag
  | output
  | warnings
  | quiet
  deriving DecidableEq, Repr

namespace RenderOption

def takesValue : RenderOption → Bool
  | .format => true
  | .tag => true
  | .output => true
  | _ => false

def declared : List (Text × RenderOption) :=
  [("-t", .format), ("--to", .format), ("-g", .tag), ("--get", .tag), ("-o", .output),
    ("--output", .output), ("-w", .warnings), ("--warnings", .warnings), ("-q", .quiet),
    ("--quiet", .quiet)]

end RenderOption

structure RenderRequest where
  files : List Text
  format : Option Text := none
  tag : Option Text := none
  output : Option Text := none
  warnings : Bool := false
  quiet : Bool := false
  deriving DecidableEq, Repr

namespace RenderRequest

def overrides (r : RenderRequest) : List (Text × Datum) :=
  [("format", (r.format.map Datum.text).getD .null),
    ("warnings", if r.warnings then .bool true else .null),
    ("quiet", if r.quiet then .bool true else .null)]

def settings (r : RenderRequest) (t : Tree) (directory : Path) : Except Abort Settings :=
  (t.buildSettings directory r.overrides).mapError .ofBuild

end RenderRequest

def readStdin (bytes : Bytes) (decode : Bytes → Except Text Text := Utf8.text) :
    Except Abort Document :=
  match decode bytes with
  | .ok s => .ok (Document.ofText (Text.unifyNewlines s))
  | .error message => .error (.crash (.input message))

def readLimited (t : Tree) (directory : Path) (limit : Int) (given : Text) :
    Except Abort Document :=
  match t.checkSize directory (Path.ofText given) limit with
  | .error e => .error (.ofScript given e)
  | .ok () =>
    match t.readScript directory given with
    | .error e => .error (.ofScript given e)
    | .ok d => .ok d

-- Standard input is empty once it has been read.
def readScripts (t : Tree) (s : Surroundings) (limit : Int) (stdin : Bytes) :
    List Text → Except Abort (List Document)
  | [] => .ok []
  | given :: rest =>
    if given = ['-'] then do
      let d ← readStdin stdin s.decode
      let ds ← readScripts t s limit [] rest
      .ok (d :: ds)
    else do
      let d ← readLimited t s.directory limit given
      let ds ← readScripts t s limit stdin rest
      .ok (d :: ds)

def warningLine (source : Text) (w : Warning) : Text :=
  source ++ ":" ++ Text.ofInt w.line ++ ": warning: " ++ w.message ++ "\n"

def Document.warningLines (d : Document) : List Text :=
  d.warnings.map (warningLine ((nonempty? d.path).getD "<stdin>"))

def extractTag (tag : Text) (documents : List Document) : Except Failure Text :=
  match MetaField.ofTag? tag with
  | none => .error (.unknownTag tag)
  | some field =>
    .ok (documents.flatMap fun d =>
      match nonempty? (d.metadata.get field) with
      | some value => value ++ ['\n']
      | none => [])

def renderAll (today format : Text) (documents : List Document) : Except Failure Text :=
  if format ≠ "json" ∧ 1 < documents.length then .error (.singleFile format documents.length)
  else
    match Catalogue.standard.get format with
    | .error e => .error (.unknownFormat e)
    | .ok known =>
      match documents with
      | [d] =>
        match known.render today d with
        | .ok s => .ok s
        | .error e => .error (.render e)
      | documents => .ok (documents.flatMap Document.toJsonLine)

namespace RenderRequest

def produce (r : RenderRequest) (today format : Text) (documents : List Document) :
    Except Failure Text :=
  match r.tag with
  | some tag => extractTag tag documents
  | none => renderAll today format documents

def deliver (r : RenderRequest) (t : Tree) (directory : Path) (warned : List Text) (s : Text) :
    Effect :=
  match r.output with
  | none => .success t warned s
  | some given =>
    let path := Path.ofText given
    match t.output directory path s with
    | ⟨written, none⟩ => .success written warned []
    | ⟨left, some e⟩ => .abort left warned (.ofWrite path.toText e)

def load (r : RenderRequest) (t : Tree) (s : Surroundings) :
    Except Abort (Settings × List Document) := do
  let settings ← r.settings t s.directory
  match ScriptDoc.sizeLimit s.sizeLimit settings.maxFileSize with
  | .error e => .error (.failure (.limit e))
  | .ok limit =>
    let documents ← readScripts t s limit s.stdin r.files
    .ok (settings, documents)

def run (r : RenderRequest) (t : Tree) (s : Surroundings) : Effect :=
  if r.format.isSome && r.tag.isSome then .abort t [] (.failure .formatAndTag)
  else
    match r.load t s with
    | .error a => .abort t [] a
    | .ok (settings, documents) =>
      let warned := if settings.quiet then [] else documents.flatMap Document.warningLines
      let kept :=
        if settings.warnings then documents else documents.map fun d => { d with warnings := [] }
      match r.produce s.today settings.format kept with
      | .error f => .abort t warned (.failure f)
      | .ok text => r.deliver t s.directory warned text

end RenderRequest
end ScriptDoc
