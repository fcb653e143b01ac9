import Mathlib.Data.List.Infix
import ScriptDoc.Proofs.ScriptReading
import ScriptDoc.Proofs.SettingsTable

/-! The nearest settings decide, alone. The places where settings may be are listed from a directory
up to the root; the first of them that defines anything gives the settings or the complaint, whatever
the places behind it hold. -/
namespace ScriptDoc

theorem toOptionSome {result : Except ε α} {value : α} :
    result.toOption = some value ↔ result = .ok value := by
  cases result <;> simp [Except.toOption]

structure SettingsPlace where
  file : Path
  table : List Text
  deriving DecidableEq, Repr

def placesIn (directory : Path) : List SettingsPlace :=
  [⟨directory.child "pyproject.toml", ["tool", "shedoc"]⟩,
    ⟨directory.child ".shedoc.toml", ["shedoc"]⟩,
    ⟨directory.child ".shedoc.toml", ["tool", "shedoc"]⟩]

def settingsPlaces (directory : Path) : List SettingsPlace :=
  directory.normal.parts.inits.reverse.flatMap fun above => placesIn ⟨1, above⟩

def SettingsPlace.verdict (place : SettingsPlace) (datum : Datum) : Except LoadError RawSettings :=
  (settingsOfDatum place.table place.file datum).mapError .settings

namespace Tree

def HoldsText (t : Tree) (file : Path) (s : Text) : Prop :=
  t.Yields file.parent file (s.flatMap String.utf8EncodeChar)

def Defines (t : Tree) (place : SettingsPlace) (datum : Datum) : Prop :=
  ∃ s content, t.HoldsText place.file s ∧ Toml.read (Text.unifyNewlines s) = .ok content ∧
    tableAt? place.table content = some datum

/- What is in the file is TOML or is not; it holds no integer that the reader cannot make up its
mind about because it has too many digits. -/
def Decided (t : Tree) (file : Path) : Prop :=
  ∀ s digits, t.HoldsText file s →
    Toml.read (Text.unifyNewlines s) ≠ .error (.numeralTooLong digits)

structure Nearest (t : Tree) (directory : Path) (before : List SettingsPlace)
    (place : SettingsPlace) (datum : Datum) : Prop where
  listed : ∃ after, settingsPlaces directory = before ++ place :: after
  silent : ∀ other ∈ before, ∀ found, ¬ t.Defines other found
  defines : t.Defines place datum

/- The same is at the place, behind directories that both or neither of the trees can be searched at. -/
def SameAt (t u : Tree) (place : List Text) : Prop :=
  u.get? place = t.get? place ∧ ∀ above a b, above <+: place →
    t.get? above = some (.directory a) → u.get? above = some (.directory b) → a.search = b.search

section File
variable {t : Tree} {file : Path}

theorem settingsTextExact {text : Text} :
    t.settingsText? file = some text ↔ ∃ s, t.HoldsText file s ∧ text = Text.unifyNewlines s := by
  unfold settingsText?
  constructor
  · intro read
    split at read
    · contradiction
    rename_i bytes found
    split at read
    · rename_i s decoded
      cases read
      refine ⟨s, ?_, rfl⟩
      rw [HoldsText, ← Utf8.encodeStandard, ← (Utf8.decodeExact bytes s).mp decoded]
      exact bytesExact.mp found
    · contradiction
  · rintro ⟨s, holds, rfl⟩
    simp only [bytesExact.mpr holds, Utf8.decodeStandard]

def found? (t : Tree) (place : SettingsPlace) : Option Datum :=
  (t.settingsText? place.file).bind fun text =>
    (Toml.read text).toOption.bind fun content => tableAt? place.table content

theorem definesExact {place : SettingsPlace} {datum : Datum} :
    t.Defines place datum ↔ t.found? place = some datum := by
  simp only [found?, Option.bind_eq_some_iff, settingsTextExact, toOptionSome]
  constructor
  · rintro ⟨s, content, holds, rest⟩
    exact ⟨_, ⟨s, holds, rfl⟩, content, rest⟩
  · rintro ⟨_, ⟨s, holds, rfl⟩, content, rest⟩
    exact ⟨s, content, holds, rest⟩

def isDecided : Except Toml.Fault Table → Bool
  | .error (.numeralTooLong _) => false
  | _ => true

theorem decidedExact :
    ((t.settingsText? file).all fun text => isDecided (Toml.read text)) = true ↔
      t.Decided file := by
  have each {result : Except Toml.Fault Table} :
      isDecided result = true ↔ ∀ digits, result ≠ .error (.numeralTooLong digits) := by
    fun_cases isDecided result <;> simp_all
  simp only [Option.all_eq_true, settingsTextExact, each]
  constructor
  · intro all s digits holds
    exact all _ ⟨s, holds, rfl⟩ digits
  · rintro decided _ ⟨s, holds, rfl⟩ digits
    exact decided s digits holds

instance : Decidable (t.Decided file) := decidable_of_iff _ decidedExact

theorem firstTableFound {front back : List (List Text)} {table : List Text} {content : Table}
    {datum : Datum} (absent : ∀ other ∈ front, tableAt? other content = none)
    (present : tableAt? table content = some datum) :
    firstTable? (front ++ table :: back) content = some (table, datum) := by
  induction front with
  | nil => simp [firstTable?, present]
  | cons other rest ih =>
    have later := ih fun next member => absent next (List.mem_cons_of_mem _ member)
    simpa [firstTable?, absent other (by simp)] using later

theorem firstTableMissing {tables : List (List Text)} {content : Table}
    (absent : ∀ table ∈ tables, tableAt? table content = none) :
    firstTable? tables content = none := by
  rw [firstTable?, List.findSome?_eq_none_iff]
  intro table member
  rw [absent table member]
  rfl

theorem silentTable {table : List Text} {s : Text} {content : Table}
    (silent : ∀ datum, ¬ t.Defines ⟨file, table⟩ datum) (holds : t.HoldsText file s)
    (read : Toml.read (Text.unifyNewlines s) = .ok content) : tableAt? table content = none := by
  cases found : tableAt? table content with
  | none => rfl
  | some datum => exact absurd ⟨s, content, holds, read, found⟩ (silent datum)

theorem settingsInSilent {tables : List (List Text)} (decided : t.Decided file)
    (silent : ∀ table ∈ tables, ∀ datum, ¬ t.Defines ⟨file, table⟩ datum) :
    t.settingsIn? file tables = .ok none := by
  unfold settingsIn?
  cases text : t.settingsText? file with
  | none => rfl
  | some u =>
    obtain ⟨s, holds, rfl⟩ := settingsTextExact.mp text
    cases read : Toml.read (Text.unifyNewlines s) with
    | error fault =>
      cases fault with
      | malformed => simp only [read]
      | numeralTooLong digits => exact absurd read (decided s digits holds)
    | ok content =>
      have absent : firstTable? tables content = none := firstTableMissing fun table member =>
        silentTable (silent table member) holds read
      simp only [read, absent]

theorem settingsInDefined {front back : List (List Text)} {table : List Text} {datum : Datum}
    (silent : ∀ other ∈ front, ∀ found, ¬ t.Defines ⟨file, other⟩ found)
    (defines : t.Defines ⟨file, table⟩ datum) :
    t.settingsIn? file (front ++ table :: back) =
      (SettingsPlace.verdict ⟨file, table⟩ datum).map some := by
  obtain ⟨s, content, holds, read, found⟩ := defines
  have text : t.settingsText? file = some (Text.unifyNewlines s) :=
    settingsTextExact.mpr ⟨s, holds, rfl⟩
  have first : firstTable? (front ++ table :: back) content = some (table, datum) :=
    firstTableFound (fun other member => silentTable (silent other member) holds read) found
  simp only [settingsIn?, text, read, first, SettingsPlace.verdict]
  cases settingsOfDatum table file datum with
  | ok raw => rfl
  | error e => rfl

end File

section Edit
variable {t u : Tree}

def Open (t : Tree) (place parts : List Text) : Prop :=
  ∀ front name rest, parts = front ++ name :: rest → byteLength name ≤ maxNameBytes ∧
    ∃ access, t.get? (place ++ front) = some (.directory access) ∧ access.search = true

theorem openCons {place rest : List Text} {name : Text} :
    t.Open place (name :: rest) ↔ (byteLength name ≤ maxNameBytes ∧
      ∃ access, t.get? place = some (.directory access) ∧ access.search = true) ∧
      t.Open (place ++ [name]) rest := by
  constructor
  · intro every
    refine ⟨by simpa using every [] name rest rfl, fun front next more same => ?_⟩
    simpa using every (name :: front) next more (by rw [same, List.cons_append])
  · rintro ⟨first, later⟩ front next more same
    rcases List.cons_eq_append_iff.mp same with ⟨rfl, equal⟩ | ⟨front, rfl, equal⟩
    · cases equal
      simpa using first
    · simpa using later front next more equal

theorem walkExact {place parts last : List Text} (plain : ['.', '.'] ∉ parts)
    (start : (t.get? place).isSome) :
    t.walk place parts = .ok last ↔
      last = place ++ parts ∧ (t.get? (place ++ parts)).isSome ∧ t.Open place parts := by
  induction parts generalizing place with
  | nil =>
    have opened : t.Open place [] := fun front name rest same => by simp at same
    rw [List.append_nil, and_iff_left ⟨start, opened⟩, walk, Except.ok.injEq]
    exact eq_comm
  | cons name rest ih =>
    have pushed : Path.pushPart place name = place ++ [name] :=
      if_neg (Ne.symm (List.ne_of_not_mem_cons plain))
    have onwards := @ih (place ++ [name]) (List.not_mem_of_not_mem_cons plain)
    rw [openCons, walk, List.append_cons]
    constructor
    · intro reached
      split at reached
      · contradiction
      rename_i next step
      obtain ⟨access, here, searched, short, rfl⟩ := entryExact.mp step
      rw [pushed] at reached
      split at reached
      · rename_i present
        obtain ⟨rfl, found, later⟩ := (onwards present).mp reached
        exact ⟨rfl, found, ⟨short, access, here, searched⟩, later⟩
      · contradiction
    · rintro ⟨rfl, found, ⟨short, access, here, searched⟩, later⟩
      have step : t.entry place name = .ok (place ++ [name]) :=
        entryExact.mpr ⟨access, here, searched, short, pushed.symm⟩
      obtain ⟨node, present⟩ := Option.isSome_iff_exists.mp found
      have next : (t.get? (place ++ [name])).isSome := by
        cases rest with
        | nil => simpa using found
        | cons below more =>
          have inside : (place ++ [name]).length < (place ++ [name] ++ below :: more).length := by
            simp
          obtain ⟨_, above⟩ := t.aboveNested present inside
          rw [List.take_left] at above
          simp [above]
      simp only [step, next, if_true]
      exact (onwards next).mpr ⟨rfl, found, later⟩

theorem givenPresent {place : List Text} {bytes : Bytes} {access : Access}
    (here : t.get? place = some (.file bytes access) ∨
      t.get? place = some (.special (some bytes) access)) : (t.get? place).isSome := by
  rcases here with regular | special
  · simp [regular]
  · simp [special]

theorem yieldsPlain {directory file : Path} (absolute : file.isAbsolute = true)
    (plain : ['.', '.'] ∉ file.parts) {bytes : Bytes} :
    t.Yields directory file bytes ↔ isTooLong file.toText = false ∧ t.Open [] file.parts ∧
      ∃ access : Access, access.read = true ∧ (t.get? file.parts = some (.file bytes access) ∨
        t.get? file.parts = some (.special (some bytes) access)) := by
  have seen : Path.absolute directory file = file := if_pos absolute
  have walked {place : List Text} := @walkExact t [] file.parts place plain rfl
  unfold Yields resolve
  rw [seen]
  constructor
  · rintro ⟨place, access, reached, readable, here⟩
    split at reached
    · contradiction
    rename_i fits
    obtain ⟨rfl, -, opened⟩ := walked.mp reached
    exact ⟨by simpa using fits, opened, access, readable, here⟩
  · rintro ⟨fits, opened, access, readable, here⟩
    refine ⟨file.parts, access, ?_, readable, here⟩
    rw [fits, if_neg (by simp)]
    exact walked.mpr ⟨rfl, givenPresent here, opened⟩

theorem sameAtSymm {place : List Text} (same : t.SameAt u place) : u.SameAt t place :=
  ⟨same.1.symm, fun above a b inside first second => (same.2 above b a inside second first).symm⟩

theorem openKept {place : List Text} (same : t.SameAt u place) (present : (t.get? place).isSome)
    (opened : t.Open [] place) : u.Open [] place := by
  rintro front name rest rfl
  obtain ⟨short, access, here, searched⟩ := opened front name rest rfl
  rw [← same.1] at present
  obtain ⟨node, present⟩ := Option.isSome_iff_exists.mp present
  obtain ⟨other, there⟩ := u.aboveNested present
    (show front.length < (front ++ name :: rest).length by simp)
  rw [List.take_left] at there
  refine ⟨short, other, there, ?_⟩
  rw [← same.2 front access other (List.prefix_append _ _) here there, searched]

theorem yieldsKept {directory file : Path} (absolute : file.isAbsolute = true)
    (plain : ['.', '.'] ∉ file.parts) (same : t.SameAt u file.parts) {bytes : Bytes}
    (yields : t.Yields directory file bytes) : u.Yields directory file bytes := by
  obtain ⟨fits, opened, access, readable, here⟩ := (yieldsPlain absolute plain).mp yields
  refine (yieldsPlain absolute plain).mpr
    ⟨fits, openKept same (givenPresent here) opened, access, readable, ?_⟩
  rw [same.1]
  exact here

theorem holdsTextKept {file : Path} (absolute : file.isAbsolute = true)
    (plain : ['.', '.'] ∉ file.parts) (same : t.SameAt u file.parts) (s : Text) :
    u.HoldsText file s ↔ t.HoldsText file s :=
  ⟨yieldsKept absolute plain (sameAtSymm same), yieldsKept absolute plain same⟩

end Edit

theorem normalPlain (directory : Path) : ['.', '.'] ∉ directory.normal.parts := by
  have kept (parts : List Text) : ∀ start, ['.', '.'] ∉ start →
      ['.', '.'] ∉ parts.foldl Path.pushPart start := by
    induction parts with
    | nil => exact fun _ plain => plain
    | cons part rest ih =>
      intro start plain
      refine ih _ ?_
      rw [Path.pushPart]
      split
      · exact fun member => plain (List.dropLast_subset _ member)
      · rename_i other
        simp [plain, Ne.symm other]
  exact kept directory.parts [] List.not_mem_nil

theorem placesPlain {directory : Path} {place : SettingsPlace}
    (listed : place ∈ settingsPlaces directory) :
    place.file.isAbsolute = true ∧ ['.', '.'] ∉ place.file.parts := by
  obtain ⟨above, prefixes, here⟩ := List.mem_flatMap.mp listed
  have inside : above <+: directory.normal.parts :=
    (List.mem_inits above _).mp (List.mem_reverse.mp prefixes)
  have plain : ['.', '.'] ∉ above := fun member =>
    normalPlain directory (inside.subset member)
  simp only [placesIn, List.mem_cons, List.not_mem_nil, or_false] at here
  rcases here with rfl | rfl | rfl <;> simp [Path.child, Path.isAbsolute, plain]

section Search
variable {t : Tree}

def placesOf (groups : List (Path × List (List Text))) : List SettingsPlace :=
  groups.flatMap fun group => group.2.map fun table => ⟨group.1, table⟩

theorem initsTaken (parts : List Text) :
    parts.inits = (List.range (parts.length + 1)).map fun count => parts.take count := by
  refine List.ext_getElem (by simp) fun n _ _ => ?_
  rw [List.getElem_inits, List.getElem_map, List.getElem_range]

theorem placesListed (directory : Path) :
    placesOf (settingsFiles { directory.normal with slashes := 1 }) = settingsPlaces directory := by
  rw [settingsPlaces, initsTaken, ← List.map_reverse, List.flatMap_map, placesOf, settingsFiles,
    Path.ancestors, List.flatMap_map, List.flatMap_assoc]
  rfl

theorem groupPasses {group : Path × List (List Text)} (rest : List (Path × List (List Text)))
    (filled : group.2 ≠ [])
    (decided : ∀ place ∈ placesOf [group], t.Decided place.file)
    (silent : ∀ place ∈ placesOf [group], ∀ datum, ¬ t.Defines place datum) :
    t.firstSettings (group :: rest) = t.firstSettings rest := by
  have member {table : List Text} (inside : table ∈ group.2) :
      (⟨group.1, table⟩ : SettingsPlace) ∈ placesOf [group] := by simpa [placesOf] using inside
  obtain ⟨table, _, first⟩ := List.exists_cons_of_ne_nil filled
  have nothing : t.settingsIn? group.1 group.2 = .ok none :=
    settingsInSilent (decided ⟨group.1, table⟩ (member (by simp [first])))
      fun table inside => silent _ (member inside)
  simp only [firstSettings, nothing]

theorem placesCons (group : Path × List (List Text)) (rest : List (Path × List (List Text))) :
    placesOf (group :: rest) = placesOf [group] ++ placesOf rest := by
  simp [placesOf]

theorem firstSilent {groups : List (Path × List (List Text))}
    (filled : ∀ group ∈ groups, group.2 ≠ [])
    (decided : ∀ place ∈ placesOf groups, t.Decided place.file)
    (silent : ∀ place ∈ placesOf groups, ∀ datum, ¬ t.Defines place datum) :
    t.firstSettings groups = .ok {} := by
  induction groups with
  | nil => rfl
  | cons group rest ih =>
    rw [placesCons] at decided silent
    rw [groupPasses rest (filled group (by simp))
      (fun place here => decided place (List.mem_append_left _ here))
      (fun place here => silent place (List.mem_append_left _ here))]
    exact ih (fun other later => filled other (List.mem_cons_of_mem _ later))
      (fun place later => decided place (List.mem_append_right _ later))
      (fun place later => silent place (List.mem_append_right _ later))

theorem firstDecides {groups : List (Path × List (List Text))} {before after : List SettingsPlace}
    {place : SettingsPlace} {datum : Datum} (filled : ∀ group ∈ groups, group.2 ≠ [])
    (listed : placesOf groups = before ++ place :: after)
    (decided : ∀ other ∈ before, t.Decided other.file)
    (silent : ∀ other ∈ before, ∀ found, ¬ t.Defines other found)
    (defines : t.Defines place datum) : t.firstSettings groups = place.verdict datum := by
  induction groups generalizing before with
  | nil =>
    have empty := congrArg List.length listed
    simp [placesOf] at empty
  | cons group rest ih =>
    have later : ∀ other ∈ rest, other.2 ≠ [] := fun other member =>
      filled other (List.mem_cons_of_mem _ member)
    -- The whole group is passed, or the place is in it.
    have passes (more : List SettingsPlace) (same : before = placesOf [group] ++ more)
        (others : placesOf rest = more ++ place :: after) :
        t.firstSettings (group :: rest) = place.verdict datum := by
      subst same
      rw [groupPasses rest (filled group (by simp))
        (fun other here => decided other (List.mem_append_left _ here))
        (fun other here => silent other (List.mem_append_left _ here))]
      exact ih later others (fun other member => decided other (List.mem_append_right _ member))
        (fun other member => silent other (List.mem_append_right _ member))
    rw [placesCons] at listed
    rcases List.append_eq_append_iff.mp listed with ⟨more, same, others⟩ | ⟨more, same, others⟩
    · exact passes more same others
    cases more with
    | nil => exact passes [] (by simpa [placesOf] using same.symm) others.symm
    | cons first tail =>
      obtain ⟨rfl, -⟩ := List.cons.inj others
      have tables : group.2.map (fun table => (⟨group.1, table⟩ : SettingsPlace)) =
          before ++ place :: tail := by simpa [placesOf] using same
      obtain ⟨front, remaining, split, fronts, backs⟩ := List.map_eq_append_iff.mp tables
      obtain ⟨table, back, rfl, rfl, -⟩ := List.map_eq_cons_iff.mp backs
      have found : t.settingsIn? group.1 group.2 =
          (SettingsPlace.verdict ⟨group.1, table⟩ datum).map some := by
        rw [split]
        refine settingsInDefined (fun other member => silent _ ?_) defines
        rw [← fronts]
        exact List.mem_map.mpr ⟨other, member, rfl⟩
      rw [firstSettings, found]
      cases SettingsPlace.verdict ⟨group.1, table⟩ datum with
      | ok raw => rfl
      | error e => rfl

theorem sourcesFilled (directory : Path) : ∀ group ∈ settingsFiles directory, group.2 ≠ [] := by
  intro group member
  obtain ⟨above, -, inside⟩ := List.mem_flatMap.mp member
  obtain ⟨source, listed, rfl⟩ := List.mem_map.mp inside
  have each : ∀ source ∈ settingsSources, source.tables ≠ [] := by simp [settingsSources]
  exact each source listed

end Search

theorem loadDecides {t : Tree} {directory : Path} {before : List SettingsPlace}
    {place : SettingsPlace} {datum : Datum} (legal : nul ∉ directory.toText)
    (decided : ∀ other ∈ before, t.Decided other.file)
    (nearest : t.Nearest directory before place datum) :
    t.loadSettings directory = place.verdict datum := by
  obtain ⟨after, listed⟩ := nearest.listed
  rw [loadSettings, if_neg (by simpa using legal)]
  exact firstDecides (sourcesFilled _) ((placesListed directory).trans listed) decided
    nearest.silent nearest.defines

theorem searchedEntries (t : Tree) (each : ∀ entry ∈ t.entries, entry.2.access.search = true)
    (root : t.root.search = true) {place : List Text} {access : Access}
    (here : t.get? place = some (.directory access)) : access.search = true := by
  by_cases top : place = []
  · subst top
    cases here
    exact root
  · rw [getBelow top] at here
    exact each _ (findMember here)

theorem nearestKept {t u : Tree} {directory : Path} {before : List SettingsPlace}
    {place : SettingsPlace} {datum : Datum} (decided : ∀ other ∈ before, t.Decided other.file)
    (kept : ∀ other ∈ before ++ [place], t.SameAt u other.file.parts)
    (nearest : t.Nearest directory before place datum) :
    (∀ other ∈ before, u.Decided other.file) ∧ u.Nearest directory before place datum := by
  obtain ⟨after, listed⟩ := nearest.listed
  have same {other : SettingsPlace} (member : other ∈ before ++ [place]) (s : Text) :
      u.HoldsText other.file s ↔ t.HoldsText other.file s := by
    have candidate : other ∈ settingsPlaces directory := by
      rw [listed, List.append_cons]
      exact List.mem_append_left _ member
    obtain ⟨absolute, plain⟩ := placesPlain candidate
    exact holdsTextKept absolute plain (kept other member) s
  have front {other : SettingsPlace} (member : other ∈ before) : other ∈ before ++ [place] :=
    List.mem_append_left _ member
  constructor
  · intro other member s digits holds
    exact decided other member s digits ((same (front member) s).mp holds)
  · refine ⟨nearest.listed, ?_, ?_⟩
    · rintro other member found ⟨s, content, holds, read⟩
      exact nearest.silent other member found ⟨s, content, (same (front member) s).mp holds, read⟩
    · obtain ⟨s, content, holds, read⟩ := nearest.defines
      exact ⟨s, content, (same (by simp) s).mpr holds, read⟩

end Tree

theorem SettingsPlace.verdictAccepted {place : SettingsPlace} {datum : Datum} {raw : RawSettings} :
    place.verdict datum = .ok raw ↔ datum.Gives raw := by
  rw [← datumAccepted place.table place.file, verdict]
  cases settingsOfDatum place.table place.file datum <;> simp [Except.mapError]

theorem SettingsPlace.verdictRefused {place : SettingsPlace} {datum : Datum} {e : LoadError} :
    place.verdict datum = .error e ↔ datum.Unfit ∧
      e = .settings (.table (Text.join ['.'] place.table) place.file.toText) := by
  rw [verdict]
  constructor
  · intro refused
    cases found : settingsOfDatum place.table place.file datum with
    | ok raw =>
      rw [found] at refused
      contradiction
    | error fault =>
      rw [found] at refused
      cases refused
      obtain ⟨unfit, rfl⟩ := (datumRefused place.table place.file).mp found
      exact ⟨unfit, rfl⟩
  · rintro ⟨unfit, rfl⟩
    rw [(datumRefused place.table place.file).mpr ⟨unfit, rfl⟩]
    rfl

theorem nearestSettingsDecide (t : Tree) (directory : Path) (legal : nul ∉ directory.toText) :
    (∀ before place datum, t.Nearest directory before place datum →
      (∀ other ∈ before, t.Decided other.file) →
      (∀ raw, t.loadSettings directory = .ok raw ↔ datum.Gives raw) ∧
      (∀ e, t.loadSettings directory = .error e ↔ datum.Unfit ∧
        e = .settings (.table (Text.join ['.'] place.table) place.file.toText)) ∧
      ∀ u : Tree, (∀ other ∈ before ++ [place], t.SameAt u other.file.parts) →
        u.loadSettings directory = t.loadSettings directory) ∧
    ((∀ place ∈ settingsPlaces directory, t.Decided place.file ∧ ∀ datum, ¬ t.Defines place datum) →
      t.loadSettings directory = .ok {}) := by
  constructor
  · intro before place datum nearest decided
    rw [Tree.loadDecides legal decided nearest]
    refine ⟨fun _ => SettingsPlace.verdictAccepted, fun _ => SettingsPlace.verdictRefused, ?_⟩
    intro u kept
    obtain ⟨decidedStill, still⟩ := Tree.nearestKept decided kept nearest
    exact Tree.loadDecides legal decidedStill still
  · intro silent
    rw [Tree.loadSettings, if_neg (by simpa using legal)]
    rw [← Tree.placesListed] at silent
    exact Tree.firstSilent (Tree.sourcesFilled _) (fun place listed => (silent place listed).1)
      fun place listed => (silent place listed).2

/- A project with a broken file beside its settings, in a directory that has settings too. -/
def layeredTree : Tree :=
  { entries := [(["w"], .directory), (["w", "p"], .directory),
      (["w", "pyproject.toml"], .file (Utf8.encode "[tool.shedoc]\nquiet = true\n")),
      (["w", "p", "pyproject.toml"], .file (Utf8.encode "tool =\n")),
      (["w", "p", ".shedoc.toml"],
        .file (Utf8.encode "[shedoc]\nmax-file-size = 5\nmax_file_size = 7\n"))] }

theorem nearestSettingsDecideForProject :
    let directory := Path.ofText "/w/p".toList
    let broken : SettingsPlace := ⟨directory.child "pyproject.toml", ["tool", "shedoc"]⟩
    let place : SettingsPlace := ⟨directory.child ".shedoc.toml", ["shedoc"]⟩
    let pruned := layeredTree.erase ["w", "pyproject.toml"]
    nul ∉ directory.toText ∧
      (∀ other ∈ [broken], layeredTree.Decided other.file) ∧
      (∃ datum raw, layeredTree.Nearest directory [broken] place datum ∧ datum.Gives raw ∧
        raw.check = .ok ⟨"json", false, false, 7⟩) ∧
      (∀ other ∈ [broken] ++ [place], layeredTree.SameAt pruned other.file.parts) ∧
      pruned.loadSettings directory = layeredTree.loadSettings directory := by
  intro directory broken place pruned
  have legal : nul ∉ directory.toText := by decide
  have decided : ∀ other ∈ [broken], layeredTree.Decided other.file := by decide +kernel
  have unfound : layeredTree.found? broken = none :=
    Option.isNone_iff_eq_none.mp (by decide +kernel)
  obtain ⟨datum, found⟩ : ∃ datum, layeredTree.found? place = some datum :=
    Option.isSome_iff_exists.mp (by decide +kernel)
  have nearest : layeredTree.Nearest directory [broken] place datum := by
    refine ⟨⟨_, rfl⟩, ?_, Tree.definesExact.mpr found⟩
    intro other member seen defines
    rw [List.mem_singleton.mp member, Tree.definesExact, unfound] at defines
    cases defines
  have files : ∀ other ∈ [broken] ++ [place],
      pruned.get? other.file.parts = layeredTree.get? other.file.parts := by decide +kernel
  have same : ∀ other ∈ [broken] ++ [place], layeredTree.SameAt pruned other.file.parts :=
    fun other member => ⟨files other member, fun above a b _ first second =>
      (layeredTree.searchedEntries (by decide +kernel) rfl first).trans
        (pruned.searchedEntries (by decide +kernel) (by decide +kernel) second).symm⟩
  have effective : ((layeredTree.loadSettings directory).toOption.bind fun raw =>
      raw.check.toOption) = some ⟨"json", false, false, 7⟩ := by decide +kernel
  obtain ⟨accepted, -, elsewhere⟩ :=
    (nearestSettingsDecide layeredTree directory legal).1 _ _ _ nearest decided
  obtain ⟨raw, loaded, checked⟩ := Option.bind_eq_some_iff.mp effective
  refine ⟨legal, decided, ⟨datum, raw, nearest, ?_, ?_⟩, same, elsewhere pruned same⟩
  · exact (accepted raw).mp (toOptionSome.mp loaded)
  · exact toOptionSome.mp checked

end ScriptDoc
