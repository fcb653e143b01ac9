import ScriptDoc.File.Script
import ScriptDoc.Toml.Document

/-!
Settings. They come from the nearest directory that has any, can be overridden, and are checked
last, so that until then a setting may hold any value.
-/
namespace ScriptDoc

inductive SettingKey where
  | format
  | warnings
  | quiet
  | maxFileSize
  deriving DecidableEq, Repr

namespace SettingKey

def all : List SettingKey := [.format, .warnings, .quiet, .maxFileSize]

def name : SettingKey → Text
  | .format => "format"
  | .warnings => "warnings"
  | .quiet => "quiet"
  | .maxFileSize => "max_file_size"

def ofName? (s : Text) : Option SettingKey := all.find? fun key => key.name = s

end SettingKey

structure RawSettings where
  format : Datum := .text "json"
  warnings : Datum := .bool false
  quiet : Datum := .bool false
  maxFileSize : Datum := .int defaultSizeLimit
  deriving Repr

structure Settings where
  format : Text
  warnings : Bool
  quiet : Bool
  maxFileSize : Int
  deriving DecidableEq, Repr

inductive SettingsError where
  | table (name : Text) (file : Text)
  | format
  | notSwitch (key : SettingKey)
  | limitNotInteger
  | limitNotPositive
  deriving DecidableEq, Repr

def SettingsError.message : SettingsError → Text
  | .table name file => "Invalid `[" ++ name ++ "]` settings in " ++ file
  | .format => "`format` must be a non-empty string"
  | .notSwitch key => "`" ++ key.name ++ "` must be a boolean"
  | .limitNotInteger => "`max_file_size` must be an integer"
  | .limitNotPositive => "`max_file_size` must be a positive integer"

inductive NamedOperation where
  | create
  | override
  | build
  deriving DecidableEq, Repr

namespace NamedOperation

def label : NamedOperation → Text
  | .create => "ShedocConfig.__init__"
  | .override => "apply_overrides"
  | .build => "build_config"

/-- The name by which an operation knows what it works on, so that no setting can have it. -/
def subject : NamedOperation → Text
  | .create => "self"
  | .override => "config"
  | .build => "search_path"

end NamedOperation

inductive NameError where
  | unknown (name : Text)
  | taken (operation : NamedOperation)
  deriving DecidableEq, Repr

def NameError.message : NameError → Text
  | .unknown name =>
    NamedOperation.create.label ++ "() got an unexpected keyword argument '" ++ name ++ "'"
  | .taken operation =>
    operation.label ++ "() got multiple values for argument '" ++ operation.subject ++ "'"

def NamedOperation.checkNames (operation : NamedOperation) (values : List (Text × Datum)) :
    Except NameError Unit :=
  if values.any fun entry => entry.1 = operation.subject then .error (.taken operation) else .ok ()

def settingNamed (name : Text) : Except NameError SettingKey :=
  if name = NamedOperation.create.subject then .error (.taken .create)
  else
    match SettingKey.ofName? name with
    | none => .error (.unknown name)
    | some key => .ok key

def settingsNamed : List (Text × Datum) → Except NameError (List (SettingKey × Datum))
  | [] => .ok []
  | (name, value) :: rest => do
    let key ← settingNamed name
    let changes ← settingsNamed rest
    .ok ((key, value) :: changes)

namespace RawSettings

def set (s : RawSettings) (value : Datum) : SettingKey → RawSettings
  | .format => { s with format := value }
  | .warnings => { s with warnings := value }
  | .quiet => { s with quiet := value }
  | .maxFileSize => { s with maxFileSize := value }

def assign (s : RawSettings) (changes : List (SettingKey × Datum)) : RawSettings :=
  changes.foldl (fun s change => s.set change.2 change.1) s

def checkFormat : Datum → Except SettingsError Text
  | .text (c :: rest) => .ok (c :: rest)
  | _ => .error .format

def checkSwitch (key : SettingKey) : Datum → Except SettingsError Bool
  | .bool b => .ok b
  | _ => .error (.notSwitch key)

def checkLimit : Datum → Except SettingsError Int
  | .int n => if n ≤ 0 then .error .limitNotPositive else .ok n
  | _ => .error .limitNotInteger

def check (s : RawSettings) : Except SettingsError Settings := do
  let format ← checkFormat s.format
  let warnings ← checkSwitch .warnings s.warnings
  let quiet ← checkSwitch .quiet s.quiet
  let maxFileSize ← checkLimit s.maxFileSize
  .ok { format, warnings, quiet, maxFileSize }

end RawSettings

def Datum.isNull : Datum → Bool
  | .null => true
  | _ => false

def givenOverrides (overrides : List (Text × Datum)) : List (Text × Datum) :=
  overrides.filter fun entry => !entry.2.isNull

inductive Overridden where
  | kept
  | replaced (settings : RawSettings)
  deriving Repr

def Overridden.settings (before : RawSettings) : Overridden → RawSettings
  | .kept => before
  | .replaced settings => settings

def RawSettings.override (s : RawSettings) (overrides : List (Text × Datum)) :
    Except NameError Overridden := do
  NamedOperation.override.checkNames overrides
  let given := givenOverrides overrides
  if given.isEmpty then .ok .kept
  else
    let changes ← settingsNamed given
    .ok (.replaced (s.assign changes))

structure SettingsSource where
  file : Text
  tables : List (List Text)
  deriving DecidableEq, Repr

def settingsSources : List SettingsSource :=
  [⟨"pyproject.toml", [["tool", "shedoc"]]⟩, ⟨".shedoc.toml", [["shedoc"], ["tool", "shedoc"]]⟩]

def tableAt? : List Text → Table → Option Datum
  | [], _ => none
  | [name], t => t.get? name
  | name :: next :: path, t =>
    match t.get? name with
    | some (.table inner) => tableAt? (next :: path) inner
    | _ => none

def firstTable? (paths : List (List Text)) (content : Table) : Option (List Text × Datum) :=
  paths.findSome? fun path => (tableAt? path content).map fun datum => (path, datum)

/-- Why settings cannot be loaded. A directory that cannot be named and a numeral that is too long
are no faults of the settings. -/
inductive LoadError where
  | nul
  | settings (error : SettingsError)
  | numeral (digits : Nat)
  deriving DecidableEq, Repr

inductive BuildError where
  | load (error : LoadError)
  | name (error : NameError)
  | settings (error : SettingsError)
  deriving DecidableEq, Repr

def settingName (key : Text) : Text := Text.replace '-' ['_'] key

def settingsOfDatum (table : List Text) (file : Path) : Datum → Except SettingsError RawSettings
  | .table entries =>
    match settingsNamed (entries.map fun entry => (settingName entry.1, entry.2)) with
    | .ok changes => .ok (RawSettings.assign {} changes)
    | .error _ => .error (.table (Text.join ['.'] table) file.toText)
  | _ => .error (.table (Text.join ['.'] table) file.toText)

namespace Tree

def settingsText? (t : Tree) (file : Path) : Option Text :=
  match t.bytes file.parent file with
  | .error _ => none
  | .ok bytes =>
    match Utf8.decode bytes with
    | .ok s => some (Text.unifyNewlines s)
    | .error _ => none

def settingsIn? (t : Tree) (file : Path) (tables : List (List Text)) :
    Except LoadError (Option RawSettings) :=
  match t.settingsText? file with
  | none => .ok none
  | some s =>
    match Toml.read s with
    | .error .malformed => .ok none
    | .error (.numeralTooLong digits) => .error (.numeral digits)
    | .ok content =>
      match firstTable? tables content with
      | none => .ok none
      | some (table, datum) =>
        match settingsOfDatum table file datum with
        | .ok s => .ok (some s)
        | .error e => .error (.settings e)

def firstSettings (t : Tree) : List (Path × List (List Text)) → Except LoadError RawSettings
  | [] => .ok {}
  | (file, tables) :: rest =>
    match t.settingsIn? file tables with
    | .error e => .error e
    | .ok (some s) => .ok s
    | .ok none => t.firstSettings rest

def settingsFiles (directory : Path) : List (Path × List (List Text)) :=
  directory.ancestors.flatMap fun above =>
    settingsSources.map fun source => (above.child source.file, source.tables)

def loadSettings (t : Tree) (directory : Path) : Except LoadError RawSettings :=
  if directory.toText.contains nul then .error .nul
  else t.firstSettings (settingsFiles { directory.normal with slashes := 1 })

def buildSettings (t : Tree) (directory : Path) (overrides : List (Text × Datum)) :
    Except BuildError Settings := do
  (NamedOperation.build.checkNames overrides).mapError .name
  let loaded ← (t.loadSettings directory).mapError .load
  let overridden ← (loaded.override overrides).mapError .name
  (overridden.settings loaded).check.mapError .settings

end Tree
end ScriptDoc
