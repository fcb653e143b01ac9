import ScriptDoc.Proofs.SettingsTable

/-! Settings overridden step by step. A step is refused as a whole, or it sets what it gives a value;
after any number of steps each setting has the last value that it was given by a step that was not
refused. -/
namespace ScriptDoc

def valuesFor (key : SettingKey) (step : List (Text × Datum)) : List Datum :=
  (step.filter fun entry => entry.1 = key.name && !entry.2.isNull).map Prod.snd

def isRefused (step : List (Text × Datum)) : Bool :=
  step.any fun entry => entry.1 = "config" ||
    (!entry.2.isNull && !(SettingKey.all.any fun key => entry.1 = key.name))

def lastValue? (steps : List (List (Text × Datum))) (key : SettingKey) : Option Datum :=
  ((steps.filter fun step => !isRefused step).flatMap (valuesFor key)).getLast?

namespace RawSettings

def overrideOr (s : RawSettings) (step : List (Text × Datum)) : RawSettings :=
  match s.override step with
  | .ok overridden => overridden.settings s
  | .error _ => s

def overrideAll (s : RawSettings) (steps : List (List (Text × Datum))) : RawSettings :=
  steps.foldl overrideOr s

section Step
variable (s : RawSettings) {step : List (Text × Datum)}

theorem overrideTaken (taken : step.any (fun entry => entry.1 = "config") = true) :
    s.override step = .error (.taken .override) := by
  have refused : NamedOperation.override.checkNames step = .error (.taken .override) := if_pos taken
  rw [override, refused]
  rfl

theorem overrideFree (free : step.any (fun entry => entry.1 = "config") = false) :
    s.override step =
      if (givenOverrides step).isEmpty then .ok .kept
      else (settingsNamed (givenOverrides step)).map fun changes => .replaced (s.assign changes) := by
  have passed : NamedOperation.override.checkNames step = .ok () :=
    if_neg (Bool.eq_false_iff.mp free)
  rw [override, passed]
  rfl

theorem isRefusedCases : isRefused step = true ↔
    step.any (fun entry => entry.1 = "config") = true ∨
      ∃ entry ∈ givenOverrides step, ∀ key : SettingKey, entry.1 ≠ key.name := by
  have unknown (name : Text) : (SettingKey.all.any fun key => name = key.name) = false ↔
      ∀ key : SettingKey, name ≠ key.name := by
    constructor
    · intro none key
      have listed : key ∈ SettingKey.all := by cases key <;> decide
      simpa using List.any_eq_false.mp none key listed
    · intro other
      exact List.any_eq_false.mpr fun key _ => by simpa using other key
  simp only [isRefused, givenOverrides, List.any_eq_true, List.mem_filter, Bool.or_eq_true,
    Bool.and_eq_true, Bool.not_eq_true', unknown]
  constructor
  · rintro ⟨entry, member, taken | ⟨given, other⟩⟩
    · exact Or.inl ⟨entry, member, taken⟩
    · exact Or.inr ⟨entry, ⟨member, given⟩, other⟩
  · rintro (⟨entry, member, taken⟩ | ⟨entry, ⟨member, given⟩, other⟩)
    · exact ⟨entry, member, Or.inl taken⟩
    · exact ⟨entry, member, Or.inr ⟨given, other⟩⟩

theorem overrideRefused (refused : isRefused step = true) : ∃ e, s.override step = .error e := by
  cases taken : step.any (fun entry => entry.1 = "config") with
  | true => exact ⟨_, s.overrideTaken taken⟩
  | false =>
    rcases isRefusedCases.mp refused with other | ⟨entry, given, unknown⟩
    · rw [taken] at other
      contradiction
    · rw [s.overrideFree taken, if_neg (by simpa using List.ne_nil_of_mem given)]
      cases found : settingsNamed (givenOverrides step) with
      | error e => exact ⟨e, rfl⟩
      | ok changes =>
        rw [settingsNamedSource found] at given
        obtain ⟨change, -, rfl⟩ := List.mem_map.mp given
        exact absurd rfl (unknown change.1)

theorem overrideAccepted (accepted : isRefused step = false) :
    ∃ changes : List (SettingKey × Datum),
      givenOverrides step = changes.map (fun change => (change.1.name, change.2)) ∧
      s.override step = .ok (if changes.isEmpty then .kept else .replaced (s.assign changes)) := by
  have free : step.any (fun entry => entry.1 = "config") = false :=
    Bool.eq_false_iff.mpr fun taken =>
      Bool.eq_false_iff.mp accepted (isRefusedCases.mpr (Or.inl taken))
  have known : ∀ entry ∈ givenOverrides step, ∃ key : SettingKey, entry.1 = key.name :=
    fun entry given => Classical.byContradiction fun unknown =>
      Bool.eq_false_iff.mp accepted
        (isRefusedCases.mpr (Or.inr ⟨entry, given, not_exists.mp unknown⟩))
  obtain ⟨changes, same⟩ := namedChanges known
  refine ⟨changes, same, ?_⟩
  rw [s.overrideFree free, same, settingsNamedReads, List.isEmpty_map]
  cases changes.isEmpty <;> rfl

theorem valuesForGiven (key : SettingKey) {changes : List (SettingKey × Datum)}
    (given : givenOverrides step = changes.map fun change => (change.1.name, change.2)) :
    (changes.filter fun change => change.1 = key).map Prod.snd = valuesFor key step := by
  rw [changesFor, ← given, givenOverrides, List.filter_filter]
  rfl

theorem overrideGet (key : SettingKey) :
    (s.overrideOr step).get key =
      (if isRefused step then none else (valuesFor key step).getLast?).getD (s.get key) := by
  cases refused : isRefused step with
  | true =>
    obtain ⟨e, failed⟩ := s.overrideRefused refused
    rw [overrideOr, failed]
    rfl
  | false =>
    obtain ⟨changes, given, done⟩ := s.overrideAccepted refused
    have settings : s.overrideOr step = s.assign changes := by
      rw [overrideOr, done]
      cases changes <;> rfl
    rw [settings, ← valuesForGiven key given, List.getLast?_map]
    exact s.assignGet changes key

theorem overrideAllGet (steps : List (List (Text × Datum))) (key : SettingKey) :
    (s.overrideAll steps).get key = (lastValue? steps key).getD (s.get key) := by
  induction steps generalizing s with
  | nil => rfl
  | cons step rest ih =>
    have later : s.overrideAll (step :: rest) = (s.overrideOr step).overrideAll rest := rfl
    rw [later, ih, overrideGet]
    cases refused : isRefused step with
    | true =>
      have same : lastValue? (step :: rest) key = lastValue? rest key := by
        rw [lastValue?, List.filter_cons_of_neg (by simp [refused]), lastValue?]
      rw [same]
      rfl
    | false =>
      have first : lastValue? (step :: rest) key =
          (lastValue? rest key).or (valuesFor key step).getLast? := by
        rw [lastValue?, List.filter_cons_of_pos (by simp [refused]), List.flatMap_cons,
          List.getLast?_append, lastValue?]
      rw [first]
      cases lastValue? rest key <;> rfl

theorem overrideNulls (nulls : ∀ entry ∈ step, entry.2.isNull = true) :
    s.override step =
      if step.any (fun entry => entry.1 = "config") then .error (.taken .override) else .ok .kept := by
  cases taken : step.any (fun entry => entry.1 = "config") with
  | true => exact s.overrideTaken taken
  | false =>
    have none : givenOverrides step = [] :=
      List.filter_eq_nil_iff.mpr fun entry member => by simp [nulls entry member]
    rw [s.overrideFree taken, none]
    rfl

end Step

end RawSettings

/- A step is refused exactly if it has a name that is refused, and one that gives no value at all and
is not refused returns the settings as they are. Whatever steps are taken, refused ones among them, each
setting ends with the last value that it was given. -/
theorem overridesCompose (s : RawSettings) :
    (∀ step, (∃ e, s.override step = .error e) ↔ isRefused step = true) ∧
    (∀ step, (∀ entry ∈ step, entry.2.isNull = true) →
      s.override step =
        if step.any (fun entry => entry.1 = "config") then .error (.taken .override) else .ok .kept) ∧
    ∀ steps key, (s.overrideAll steps).get key = (lastValue? steps key).getD (s.get key) := by
  refine ⟨fun step => ⟨fun failed => ?_, s.overrideRefused⟩, fun step => s.overrideNulls,
    s.overrideAllGet⟩
  cases refused : isRefused step with
  | true => rfl
  | false =>
    obtain ⟨e, failed⟩ := failed
    obtain ⟨changes, -, done⟩ := s.overrideAccepted refused
    rw [done] at failed
    contradiction

def mixedSteps : List (List (Text × Datum)) :=
  [[("format", .text "man"), ("config", .null)], [("quiet", .bool true), ("colour", .null)],
    [("quiet", .null), ("format", .text "help"), ("colour", .int 1)]]

theorem overridesComposeForMixedSteps :
    (∀ entry ∈ [("colour".toList, Datum.null)], entry.2.isNull = true) ∧
    RawSettings.override {} [("colour", .null)] = .ok .kept ∧
    ((RawSettings.overrideAll {} mixedSteps).get .quiet = .bool true ∧
      (RawSettings.overrideAll {} mixedSteps).get .format = .text "json") := by
  obtain ⟨-, nulls, run⟩ := overridesCompose {}
  have null : ∀ entry ∈ [("colour".toList, Datum.null)], entry.2.isNull = true := by simp [Datum.isNull]
  exact ⟨null, nulls _ null, run mixedSteps .quiet, run mixedSteps .format⟩

theorem takenNameRefusedWithoutValue :
    (∀ entry ∈ [("config".toList, Datum.null)], entry.2.isNull = true) ∧
    RawSettings.override {} [("config", .null)] = .error (.taken .override) :=
  ⟨by simp [Datum.isNull], rfl⟩

end ScriptDoc
