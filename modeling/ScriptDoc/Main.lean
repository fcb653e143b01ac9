import ScriptDoc.Cli.Standard
import Std.Time.Format

/-!
The program: it looks at the part of the file system that a call can ask for and at the environment,
runs the command line on what it has seen and carries out the result.
-/
namespace ScriptDoc

def OptionTable.texts (table : OptionTable α) (arguments : List Text) : List Text :=
  match table.scan true arguments with
  | .ok scanned => scanned.arguments ++ scanned.given.map Prod.snd
  | .error _ => []

def namedFiles (arguments : List Text) : List Text :=
  match Toolkit.standard.withCommand arguments with
  | [] => []
  | first :: rest =>
    if first = Command.complete.name then Standard.completeTable.texts rest
    else Standard.renderTable.texts rest

def Path.placesOnTheWay (p : Path) : List (List Text) :=
  p.ancestors.reverse.map fun above => above.normal.parts

def placesOfRun (directory : Path) (arguments : List Text) : List (List Text) :=
  directory.placesOnTheWay ++
    ((namedFiles arguments).flatMap fun given =>
      (Path.absolute directory (Path.ofText given)).placesOnTheWay) ++
    (Tree.settingsFiles directory).map fun source => source.1.parts

def textOf (s : String) : Text := s.toList

def stringOfPlace (place : List Text) : String := String.ofList (Path.toText ⟨1, place⟩)

def succeeds (action : IO α) : IO Bool := do
  match ← action.toBaseIO with
  | .ok _ => return true
  | .error _ => return false

-- What lies at a place. A device may give no end of bytes, so it is read only if the call would.
def nodeAt? (opensDevices : Bool) (place : List Text) : IO (Option Node) := do
  let path := (← IO.currentDir) / stringOfPlace place
  match ← path.metadata.toBaseIO with
  | .error _ => return none
  | .ok found =>
    match found.type with
    | .dir =>
      let search ← succeeds (path / ".").metadata
      return some (.directory { search })
    | .file =>
      match ← (IO.FS.readBinFile path).toBaseIO with
      | .ok bytes => return some (.file bytes.toList)
      | .error _ => return some (.file (List.replicate found.byteSize.toNat 0) { read := false })
    | _ =>
      if opensDevices then
        match ← (IO.FS.readBinFile path).toBaseIO with
        | .ok bytes => return some (.special (some bytes.toList))
        | .error _ => return some (.special none)
      else return some (.special none)

def Tree.put (t : Tree) (place : List Text) (node : Node) : Tree :=
  if place.isEmpty then { t with root := node.access } else t.set place node

def treeAt (opensDevices : Bool) (places : List (List Text)) : IO Tree :=
  places.foldlM (fun t place => do
    return (← nodeAt? opensDevices place).elim t (t.put place)) {}

partial def readAllInput (before : ByteArray) : IO ByteArray := do
  let more ← (← IO.getStdin).read 65536
  if more.isEmpty then return before else readAllInput (before ++ more)

def inputFor (arguments : List Text) : IO Bytes := do
  if (namedFiles arguments).contains ['-'] then return (← readAllInput .empty).toList
  else return []

def surroundingsFor (directory : Path) (arguments : List Text) : IO Surroundings := do
  return {
    directory := directory
    sizeLimit := (← IO.getEnv (String.ofList sizeLimitVariable)).map textOf
    completionLine := (← IO.getEnv "COMP_LINE").map textOf
    completionPoint := (← IO.getEnv "COMP_POINT").map textOf
    stdin := ← inputFor arguments
    stdoutIsTerminal := ← (← IO.getStdout).isTty
    stderrIsTerminal := ← (← IO.getStderr).isTty
    today := textOf (← Std.Time.PlainDate.now).toSQLDateString }

def outputRights : IO.FileRight :=
  ⟨⟨true, true, false⟩, ⟨true, false, false⟩, ⟨true, false, false⟩⟩

def writeAt (place : List Text) (bytes : Bytes) : IO Unit := do
  let temporary := stringOfPlace (place.dropLast ++ [Tree.temporaryName])
  try
    IO.FS.writeBinFile temporary ⟨bytes.toArray⟩
    IO.setAccessRights temporary outputRights
    IO.FS.rename temporary (stringOfPlace place)
  catch error =>
    discard (succeeds (IO.FS.removeFile temporary))
    throw error

-- Whether a directory takes a new file is known once one has been tried.
def carryOut (tree : Tree) (run : Tree → Outcome) : IO Outcome := do
  let outcome := run tree
  for (place, bytes) in tree.changes outcome.tree do
    unless ← succeeds (writeAt place bytes) do
      return run (tree.put place.dropLast (.directory { write := false }))
  return outcome

def program (arguments : List String) : IO UInt32 := do
  let arguments := arguments.map textOf
  let directory := Path.ofText (textOf (toString (← IO.currentDir)))
  let completes := arguments.head? = some Command.complete.name
  let tree ← treeAt completes (placesOfRun directory arguments)
  let s ← surroundingsFor directory arguments
  let outcome ← carryOut tree fun t => Toolkit.standard.run t s arguments
  IO.print (String.ofList outcome.stdout)
  IO.eprint (String.ofList outcome.stderr)
  return UInt32.ofNat outcome.exitCode

end ScriptDoc

def main (arguments : List String) : IO UInt32 := ScriptDoc.program arguments
