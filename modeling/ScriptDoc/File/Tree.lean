import ScriptDoc.File.Path
import ScriptDoc.Text.Utf8

/-!
A tree of files as one user sees it, and what can be asked of it and done to it. Places in the tree
are the names on the way down from its root.
-/
namespace ScriptDoc

structure Access where
  read : Bool := true
  write : Bool := true
  search : Bool := true
  deriving DecidableEq, Repr

inductive FileFault where
  | missing
  | denied
  | notDirectory
  | isDirectory
  | busy
  | noDevice
  | nameTooLong
  deriving DecidableEq, Repr

def FileFault.text : FileFault → Text
  | .missing => "[Errno 2] No such file or directory"
  | .denied => "[Errno 13] Permission denied"
  | .notDirectory => "[Errno 20] Not a directory"
  | .isDirectory => "[Errno 21] Is a directory"
  | .busy => "[Errno 16] Device or resource busy"
  | .noDevice => "[Errno 6] No such device or address"
  | .nameTooLong => "[Errno 36] File name too long"

/-- Devices, pipes and sockets are special: not all of them give bytes to a reader. -/
inductive Node where
  | file (bytes : Bytes) (access : Access := {})
  | special (content : Option Bytes) (access : Access := {})
  | directory (access : Access := {})
  deriving DecidableEq, Repr

namespace Node

def access : Node → Access
  | .file _ access => access
  | .special _ access => access
  | .directory access => access

def isDirectory : Node → Bool
  | .directory _ => true
  | _ => false

def contents (node : Node) : Except FileFault Bytes :=
  if node.access.read then
    match node with
    | .file bytes _ => .ok bytes
    | .special (some bytes) _ => .ok bytes
    | .special none _ => .error .noDevice
    | .directory _ => .error .isDirectory
  else .error .denied

end Node

def findNode (entries : List (List Text × Node)) (place : List Text) : Option Node :=
  (entries.find? fun entry => entry.1 = place).map Prod.snd

-- Above everything but the root there are directories only.
def isNested (entries : List (List Text × Node)) : Bool :=
  entries.all fun entry => (List.range entry.1.length).all fun count =>
    count = 0 || (findNode entries (entry.1.take count)).any Node.isDirectory

structure Tree where
  entries : List (List Text × Node) := []
  root : Access := {}
  nested : isNested entries = true := by decide +kernel
  deriving DecidableEq, Repr

structure FileError where
  fault : FileFault
  path : Text
  target : Option Text := none
  deriving DecidableEq, Repr

def FileError.message (e : FileError) : Text :=
  e.fault.text ++ ": " ++ e.path.quoted ++
    match e.target with
    | some target => " -> " ++ target.quoted
    | none => []

def byteLength (s : Text) : Nat := (Utf8.encode s).length

def maxNameBytes : Nat := 255

def maxPathBytes : Nat := 4095

def isTooLong (path : Text) : Bool := maxPathBytes < byteLength path

def nul : Char := Char.ofNat 0

inductive WriteError where
  | nul
  | file (error : FileError)
  deriving DecidableEq, Repr

structure Written where
  tree : Tree
  error : Option WriteError
  deriving DecidableEq, Repr

namespace Tree

def get? (t : Tree) (place : List Text) : Option Node :=
  if place.isEmpty then some (.directory t.root) else findNode t.entries place

-- A change that would leave something without a directory above it is not made.
def withEntries (t : Tree) (entries : List (List Text × Node)) : Tree :=
  if nested : isNested entries = true then { t with entries, nested } else t

def set (t : Tree) (place : List Text) (node : Node) : Tree :=
  t.withEntries (t.entries.filter (fun entry => entry.1 ≠ place) ++ [(place, node)])

def erase (t : Tree) (place : List Text) : Tree :=
  t.withEntries (t.entries.filter fun entry => entry.1 ≠ place)

def names (t : Tree) : List Text := t.entries.flatMap Prod.fst

def entry (t : Tree) (place : List Text) (name : Text) : Except FileFault (List Text) :=
  match t.get? place with
  | some (.directory access) =>
    if !access.search then .error .denied
    else if maxNameBytes < byteLength name then .error .nameTooLong
    else .ok (Path.pushPart place name)
  | _ => .error .notDirectory

def walk (t : Tree) (place : List Text) : List Text → Except FileFault (List Text)
  | [] => .ok place
  | part :: parts =>
    match t.entry place part with
    | .error fault => .error fault
    | .ok next => if (t.get? next).isSome then t.walk next parts else .error .missing

def resolve (t : Tree) (directory path : Path) : Except FileFault (List Text) :=
  if isTooLong path.toText then .error .nameTooLong
  else t.walk [] (Path.absolute directory path).parts

def node (t : Tree) (directory path : Path) : Except FileFault Node := do
  let place ← t.resolve directory path
  match t.get? place with
  | some node => .ok node
  | none => .error .missing

/-- A text is looked up as it was given. Nothing has an empty name, and only a directory has anything
behind a slash. -/
def stat (t : Tree) (directory : Path) (given : Text) : Except FileFault Node :=
  if given.isEmpty then .error .missing
  else if isTooLong given then .error .nameTooLong
  else
    match t.node directory (Path.ofText given) with
    | .error fault => .error fault
    | .ok node =>
      if Path.endsInside given && !node.isDirectory then .error .notDirectory else .ok node

def bytes (t : Tree) (directory path : Path) : Except FileFault Bytes := do
  let node ← t.node directory path
  node.contents

def temporaryName : Text := "tmpXXXXXXXX"

-- Longer than the names that are taken, and so none of them.
def freshName (taken : List Text) : Text :=
  temporaryName ++ List.replicate taken.flatten.length 'X'

def mayWrite (t : Tree) (place : List Text) : Bool :=
  (t.get? place).any fun node => node.access.write

def newPlace (t : Tree) (directory path : Path) : Except FileFault (List Text) := do
  if isTooLong path.toText then throw .nameTooLong
  let parent ← t.walk [] (Path.absolute directory path).parts.dropLast
  match path.parts.getLast? with
  | none => .error .busy
  | some name =>
    let place ← t.entry parent name
    if name = ['.', '.'] then .error .busy
    else if t.mayWrite parent then .ok place
    else .error .denied

def move (t : Tree) (source : List Text) (directory path : Path) : Except FileFault Tree := do
  let target ← t.newPlace directory path
  match t.get? target, t.get? source with
  | some (.directory _), _ => .error .isDirectory
  | _, some node => .ok ((t.erase source).set target node)
  | _, none => .error .missing

-- Whatever comes of it, no temporary file stays.
def settle (t : Tree) (temporary : List Text) (shown directory path : Path) : Written :=
  if path.toText.contains nul then ⟨t.erase temporary, some .nul⟩
  else
    match t.move temporary directory path with
    | .error fault =>
      ⟨t.erase temporary,
        some (.file { fault, path := shown.toText, target := some path.toText })⟩
    | .ok moved => ⟨moved.erase temporary, none⟩

-- The parent directory is found from its name alone, without double dots.
def output (t : Tree) (directory path : Path) (content : Text) : Written :=
  let shown := (Path.absolute directory path.parent).normal.child temporaryName
  if path.parent.toText.contains nul then ⟨t, some .nul⟩
  else
    match t.newPlace directory shown with
    | .error fault => ⟨t, some (.file { fault, path := shown.toText })⟩
    | .ok place =>
      let name := freshName (t.names ++ directory.parts ++ path.parts)
      let temporary := place.dropLast ++ [name]
      (t.set temporary (.file (Utf8.encode content))).settle temporary shown directory path

def write (t : Tree) (directory path : Path) (content : Text) : Except WriteError Tree :=
  match t.output directory path content with
  | ⟨_, some e⟩ => .error e
  | ⟨written, none⟩ => .ok written

def changes (before after : Tree) : List (List Text × Bytes) :=
  after.entries.filterMap fun (place, node) =>
    match node with
    | .file bytes _ => if before.get? place = some node then none else some (place, bytes)
    | _ => none

end Tree
end ScriptDoc
