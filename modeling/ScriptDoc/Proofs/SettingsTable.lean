import ScriptDoc.Proofs.FileTree
import ScriptDoc.Settings

/-! The settings that a table gives. Each of its entries must name a setting, with dashes for
underscores if it likes; where two entries name the same one, the later counts, and what no entry
names keeps its default. -/
namespace ScriptDoc

def RawSettings.get (s : RawSettings) : SettingKey → Datum
  | .format => s.format
  | .warnings => s.warnings
  | .quiet => s.quiet
  | .maxFileSize => s.maxFileSize

def underscored (name : Text) : Text := name.map fun c => if c = '-' then '_' else c

def Table.lastFor? (entries : Table) (key : SettingKey) : Option Datum :=
  (entries.filter fun entry => underscored entry.1 = key.name).getLast?.map Prod.snd

def Table.Known (entries : Table) : Prop :=
  ∀ entry ∈ entries, ∃ key : SettingKey, underscored entry.1 = key.name

def Datum.Gives (datum : Datum) (raw : RawSettings) : Prop :=
  ∃ entries : Table, datum = .table entries ∧ entries.Known ∧
    ∀ key, raw.get key = (entries.lastFor? key).getD (({} : RawSettings).get key)

def Datum.Unfit (datum : Datum) : Prop :=
  (∀ entries, datum ≠ .table entries) ∨
    ∃ entries, datum = .table entries ∧ ∃ entry ∈ entries, ∀ key : SettingKey,
      underscored entry.1 ≠ key.name

theorem settingNameUnderscored (name : Text) : settingName name = underscored name := by
  unfold settingName Text.replace underscored
  induction name with
  | nil => rfl
  | cons c rest ih =>
    rw [List.flatMap_cons, ih, List.map_cons]
    split
    · rfl
    · rfl

namespace RawSettings

theorem getSet (s : RawSettings) (value : Datum) (written read : SettingKey) :
    (s.set value written).get read = if written = read then value else s.get read := by
  cases written <;> cases read <;> rfl

theorem ext {s other : RawSettings} (same : ∀ key, s.get key = other.get key) : s = other := by
  obtain ⟨format, warnings, quiet, maxFileSize⟩ := s
  obtain ⟨otherFormat, otherWarnings, otherQuiet, otherMaxFileSize⟩ := other
  cases same .format
  cases same .warnings
  cases same .quiet
  cases same .maxFileSize
  rfl

theorem assignGet (s : RawSettings) (changes : List (SettingKey × Datum)) (key : SettingKey) :
    (s.assign changes).get key =
      ((changes.filter fun change => change.1 = key).getLast?.map Prod.snd).getD (s.get key) := by
  induction changes generalizing s with
  | nil => rfl
  | cons change rest ih =>
    have later : s.assign (change :: rest) = (s.set change.2 change.1).assign rest := rfl
    rw [later, ih, getSet]
    by_cases here : change.1 = key
    · rw [List.filter_cons_of_pos (by simpa using here), List.getLast?_cons, if_pos here]
      cases (rest.filter fun change => change.1 = key).getLast? with
      | none => rfl
      | some last => rfl
    · rw [List.filter_cons_of_neg (by simpa using here), if_neg here]

end RawSettings

theorem ofNameExact {name : Text} {key : SettingKey} :
    SettingKey.ofName? name = some key ↔ name = key.name := by
  constructor
  · intro found
    have same := List.find?_some found
    exact (of_decide_eq_true same).symm
  · rintro rfl
    cases key <;> rfl

theorem settingNamedExact {name : Text} {key : SettingKey} :
    settingNamed name = .ok key ↔ name = key.name := by
  have free : key.name ≠ NamedOperation.create.subject := by cases key <;> decide
  unfold settingNamed
  split
  · rename_i taken
    rw [taken]
    simp [free.symm]
  · rw [← ofNameExact]
    cases SettingKey.ofName? name <;> simp

theorem settingsNamedSource {values : List (Text × Datum)} {changes : List (SettingKey × Datum)}
    (found : settingsNamed values = .ok changes) :
    values = changes.map fun change => (change.1.name, change.2) := by
  induction values generalizing changes with
  | nil =>
    cases found
    rfl
  | cons value rest ih =>
    obtain ⟨key, named, found⟩ := bindOk found
    obtain ⟨more, later, found⟩ := bindOk found
    cases found
    rw [List.map_cons, ← ih later, ← settingNamedExact.mp named]

theorem settingsNamedReads (changes : List (SettingKey × Datum)) :
    settingsNamed (changes.map fun change => (change.1.name, change.2)) = .ok changes := by
  induction changes with
  | nil => rfl
  | cons change rest ih =>
    have named : settingNamed change.1.name = .ok change.1 := settingNamedExact.mpr rfl
    simp only [List.map_cons, settingsNamed, named, ih, bind, Except.bind]

theorem namedChanges {values : List (Text × Datum)}
    (known : ∀ value ∈ values, ∃ key : SettingKey, value.1 = key.name) :
    ∃ changes : List (SettingKey × Datum),
      values = changes.map fun change => (change.1.name, change.2) := by
  induction values with
  | nil => exact ⟨[], rfl⟩
  | cons value rest ih =>
    obtain ⟨key, named⟩ := known value (by simp)
    obtain ⟨changes, same⟩ := ih fun other member => known other (List.mem_cons_of_mem _ member)
    refine ⟨(key, value.2) :: changes, ?_⟩
    rw [List.map_cons, ← same, ← named]

theorem knownChanges {entries : Table} (known : entries.Known) :
    ∃ changes : List (SettingKey × Datum),
      entries.map (fun entry => (settingName entry.1, entry.2)) =
        changes.map fun change => (change.1.name, change.2) := by
  refine namedChanges fun value member => ?_
  obtain ⟨entry, listed, rfl⟩ := List.mem_map.mp member
  rw [settingNameUnderscored]
  exact known entry listed

theorem changesKnown {entries : Table} {changes : List (SettingKey × Datum)}
    (same : entries.map (fun entry => (settingName entry.1, entry.2)) =
      changes.map fun change => (change.1.name, change.2)) : entries.Known := by
  intro entry member
  have renamed : (settingName entry.1, entry.2) ∈
      changes.map fun change => (change.1.name, change.2) := by
    rw [← same]
    exact List.mem_map.mpr ⟨entry, member, rfl⟩
  obtain ⟨change, -, equal⟩ := List.mem_map.mp renamed
  refine ⟨change.1, ?_⟩
  rw [← settingNameUnderscored]
  exact (congrArg Prod.fst equal).symm

theorem nameInjective {key other : SettingKey} (same : key.name = other.name) : key = other := by
  have found := ofNameExact.mpr same
  rw [ofNameExact.mpr rfl] at found
  exact Option.some.inj found

theorem changesFor (changes : List (SettingKey × Datum)) (key : SettingKey) :
    (changes.filter fun change => change.1 = key).map Prod.snd =
      ((changes.map fun change => (change.1.name, change.2)).filter
        fun value => value.1 = key.name).map Prod.snd := by
  rw [List.filter_map, List.map_map]
  refine congrArg (List.map _) (List.filter_congr fun change _ => ?_)
  simp only [Function.comp, decide_eq_decide]
  exact ⟨fun equal => by rw [equal], nameInjective⟩

theorem lastChange {entries : Table} {changes : List (SettingKey × Datum)}
    (same : entries.map (fun entry => (settingName entry.1, entry.2)) =
      changes.map fun change => (change.1.name, change.2)) (key : SettingKey) :
    (changes.filter fun change => change.1 = key).getLast?.map Prod.snd = entries.lastFor? key := by
  -- Both sides look for the name of the setting in the same list of names and values.
  have right : (entries.filter fun entry => underscored entry.1 = key.name).map Prod.snd =
      ((entries.map fun entry => (settingName entry.1, entry.2)).filter
        fun value => value.1 = key.name).map Prod.snd := by
    rw [List.filter_map, List.map_map]
    refine congrArg (List.map _) (List.filter_congr fun entry _ => ?_)
    simp only [Function.comp, settingNameUnderscored]
  rw [Table.lastFor?, ← List.getLast?_map, ← List.getLast?_map, changesFor, right, same]

theorem fitOrUnfit (datum : Datum) :
    (∃ entries : Table, datum = .table entries ∧ entries.Known) ∨ datum.Unfit := by
  by_cases table : ∃ entries : Table, datum = .table entries
  · obtain ⟨entries, rfl⟩ := table
    by_cases known : entries.Known
    · exact Or.inl ⟨entries, rfl, known⟩
    · simp only [Table.Known, Classical.not_forall, not_exists] at known
      obtain ⟨entry, member, unknown⟩ := known
      exact Or.inr (Or.inr ⟨entries, rfl, entry, member, unknown⟩)
  · exact Or.inr (Or.inl fun entries same => table ⟨entries, same⟩)

section Datum
variable (table : List Text) (file : Path) {datum : Datum}

theorem fitDatum {entries : Table} (known : entries.Known) :
    ∃ raw, settingsOfDatum table file (.table entries) = .ok raw ∧
      Datum.Gives (.table entries) raw := by
  obtain ⟨changes, same⟩ := knownChanges known
  refine ⟨RawSettings.assign {} changes, ?_, entries, rfl, known, fun key => ?_⟩
  · simp only [settingsOfDatum, same, settingsNamedReads]
  · rw [RawSettings.assignGet, lastChange same]

theorem unfitDatum (unfit : datum.Unfit) :
    settingsOfDatum table file datum =
      .error (.table (Text.join ['.'] table) file.toText) := by
  unfold settingsOfDatum
  split
  · rename_i entries
    split
    · rename_i changes found
      have known := changesKnown (settingsNamedSource found)
      rcases unfit with other | ⟨given, same, entry, member, unknown⟩
      · exact absurd rfl (other entries)
      · cases same
        obtain ⟨key, named⟩ := known entry member
        exact absurd named (unknown key)
    · rfl
  · rfl

theorem givesUnique {raw other : RawSettings} (gives : datum.Gives raw)
    (givesToo : datum.Gives other) : raw = other := by
  obtain ⟨entries, rfl, -, values⟩ := gives
  obtain ⟨same, equal, -, otherValues⟩ := givesToo
  cases equal
  exact RawSettings.ext fun key => (values key).trans (otherValues key).symm

theorem givesFit {raw : RawSettings} (gives : datum.Gives raw) : ¬ datum.Unfit := by
  obtain ⟨entries, rfl, known, -⟩ := gives
  rintro (other | ⟨given, same, entry, member, unknown⟩)
  · exact other entries rfl
  · cases same
    obtain ⟨key, named⟩ := known entry member
    exact unknown key named

theorem datumAccepted {raw : RawSettings} :
    settingsOfDatum table file datum = .ok raw ↔ datum.Gives raw := by
  rcases fitOrUnfit datum with ⟨entries, rfl, known⟩ | unfit
  · obtain ⟨found, accepted, gives⟩ := fitDatum table file known
    rw [accepted, Except.ok.injEq]
    constructor
    · rintro rfl
      exact gives
    · exact givesUnique gives
  · rw [unfitDatum table file unfit]
    exact ⟨fun refused => by contradiction, fun gives => absurd unfit (givesFit gives)⟩

theorem datumRefused {e : SettingsError} :
    settingsOfDatum table file datum = .error e ↔
      datum.Unfit ∧ e = .table (Text.join ['.'] table) file.toText := by
  rcases fitOrUnfit datum with ⟨entries, rfl, known⟩ | unfit
  · obtain ⟨found, accepted, gives⟩ := fitDatum table file known
    rw [accepted]
    exact ⟨fun refused => by contradiction, fun both => absurd both.1 (givesFit gives)⟩
  · rw [unfitDatum table file unfit, Except.error.injEq, and_iff_right unfit, eq_comm]

end Datum

end ScriptDoc
