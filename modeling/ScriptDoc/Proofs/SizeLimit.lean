import Mathlib.Data.List.DropRight
import ScriptDoc.Proofs.ScriptReading
import ScriptDoc.Proofs.WarningSwitches

/-! The size limit is always enforced, with a value that makes sense. A run that succeeds has read
regular files only, none of them larger than a positive limit; the limit is the integer in the
environment, or else in the settings. A limit that is no positive integer makes every run fail,
wherever it comes from. -/
namespace ScriptDoc

inductive Numeral : Text → List Nat → Prop
  | last {c : Char} {d : Nat} (digit : digitValue? c = some d) : Numeral [c] [d]
  | next {c : Char} {d : Nat} {rest : Text} {digits : List Nat} (digit : digitValue? c = some d)
      (later : Numeral rest digits) : Numeral (c :: rest) (d :: digits)
  | gap {c : Char} {d : Nat} {rest : Text} {digits : List Nat} (digit : digitValue? c = some d)
      (later : Numeral rest digits) : Numeral (c :: '_' :: rest) (d :: digits)

inductive Signed (magnitude : Nat) : Text → Int → Prop
  | plain : Signed magnitude [] magnitude
  | plus : Signed magnitude ['+'] magnitude
  | minus : Signed magnitude ['-'] (-magnitude)

def Text.Denotes (s : Text) (n : Int) : Prop :=
  ∃ front sign numeral back digits, s = front ++ (sign ++ numeral) ++ back ∧
    (∀ c ∈ front, isNumeralBlank c = true) ∧ (∀ c ∈ back, isNumeralBlank c = true) ∧
    Numeral numeral digits ∧ digits.length ≤ maxNumeralDigits ∧ Signed (natOfDigits digits) sign n

/- What a run goes by. An option has the say over the settings files, and so has the limit in the
environment. -/
structure RenderRequest.InForce (r : RenderRequest) (s : Surroundings) (raw : RawSettings)
    (settings : Settings) (limit : Int) : Prop where
  positive : 0 < limit
  given : ∀ text, s.sizeLimit = some text → text.Denotes limit
  set : s.sizeLimit = none → raw.maxFileSize = .int limit
  formatFilled : settings.format ≠ []
  formatGiven : ∀ format, r.format = some format → settings.format = format
  formatSet : r.format = none → raw.format = .text settings.format
  warnings : settings.warnings = true ↔ r.warnings = true ∨ raw.warnings = .bool true
  quiet : settings.quiet = true ↔ r.quiet = true ∨ raw.quiet = .bool true

section Numerals

theorem digitSolid {c : Char} {d : Nat} (digit : digitValue? c = some d) :
    isNumeralBlank c = false ∧ c ≠ '+' ∧ c ≠ '-' ∧ c ≠ '_' := by
  have each : ∀ first ∈ digitZeros, ∀ k < 10, isNumeralBlank (Char.ofNat (first + k)) = false ∧
      Char.ofNat (first + k) ≠ '+' ∧ Char.ofNat (first + k) ≠ '-' ∧
      Char.ofNat (first + k) ≠ '_' := by decide +kernel
  obtain ⟨first, found, -⟩ := Option.map_eq_some_iff.mp digit
  have range := List.find?_some found
  simp only [Bool.and_eq_true, decide_eq_true_eq] at range
  have solid := each first (List.mem_of_find?_eq_some found) (c.toNat - first) (by omega)
  rwa [Nat.add_sub_cancel' range.1, Char.ofNat_toNat] at solid

theorem numeralHead {s : Text} {digits : List Nat} (written : Numeral s digits) :
    ∃ c rest d, s = c :: rest ∧ digitValue? c = some d := by
  cases written with
  | last digit => exact ⟨_, _, _, rfl, digit⟩
  | next digit _ => exact ⟨_, _, _, rfl, digit⟩
  | gap digit _ => exact ⟨_, _, _, rfl, digit⟩

theorem numeralLast {s : Text} {digits : List Nat} (written : Numeral s digits) :
    ∃ c d, s.getLast? = some c ∧ digitValue? c = some d := by
  induction written with
  | last digit => exact ⟨_, _, rfl, digit⟩
  | next _ _ ih =>
    obtain ⟨c, d, last, digit⟩ := ih
    exact ⟨c, d, by simp [List.getLast?_cons, last], digit⟩
  | gap _ _ ih =>
    obtain ⟨c, d, last, digit⟩ := ih
    exact ⟨c, d, by simp [List.getLast?_cons, last], digit⟩

theorem numeralExact {s : Text} {digits : List Nat} :
    numeralDigits? s = some digits ↔ Numeral s digits := by
  constructor
  · intro read
    fun_induction numeralDigits? s generalizing digits with
    | case1 => contradiction
    | case2 c =>
      obtain ⟨d, digit, rfl⟩ := Option.map_eq_some_iff.mp read
      exact .last digit
    | case3 c rest ih =>
      obtain ⟨d, digit, read⟩ := Option.bind_eq_some_iff.mp read
      obtain ⟨ds, later, read⟩ := Option.bind_eq_some_iff.mp read
      cases read
      exact .gap digit (ih later)
    | case4 c rest _ _ ih =>
      obtain ⟨d, digit, read⟩ := Option.bind_eq_some_iff.mp read
      obtain ⟨ds, later, read⟩ := Option.bind_eq_some_iff.mp read
      cases read
      exact .next digit (ih later)
  · intro written
    induction written with
    | last digit => simp [numeralDigits?, digit]
    | gap digit later ih => simp [numeralDigits?, digit, ih]
    | next digit later ih =>
      obtain ⟨c, rest, d, rfl, other⟩ := numeralHead later
      rw [numeralDigits?, digit, ih]
      · rfl
      · simp
      · rintro more same
        exact (digitSolid other).2.2.2 (List.cons.inj same).1

theorem naturalExact {s : Text} {n : Nat} : natOfNumeral? s = some n ↔
    ∃ digits, Numeral s digits ∧ digits.length ≤ maxNumeralDigits ∧ natOfDigits digits = n := by
  simp only [natOfNumeral?, ← numeralExact, bind, Option.bind_eq_some_iff]
  refine exists_congr fun digits => and_congr_right fun _ => ?_
  split
  · rename_i short
    simp [short]
  · rename_i long
    simp [long]

theorem stripped {isBlank : Char → Bool} {front core back : Text} {first last : Char}
    (blankFront : ∀ c ∈ front, isBlank c = true) (blankBack : ∀ c ∈ back, isBlank c = true)
    (begins : core.head? = some first) (solidFirst : isBlank first = false)
    (ends : core.getLast? = some last) (solidLast : isBlank last = false) :
    (((front ++ core ++ back).dropWhile isBlank).reverse.dropWhile isBlank).reverse = core := by
  have dropped : (core ++ back).dropWhile isBlank = core ++ back := by
    obtain ⟨rest, rfl⟩ := List.head?_eq_some_iff.mp begins
    exact List.dropWhile_cons_of_neg (by simp [solidFirst])
  have kept : core.reverse.dropWhile isBlank = core.reverse := by
    obtain ⟨rest, rfl⟩ := List.getLast?_eq_some_iff.mp ends
    rw [List.reverse_append]
    exact List.dropWhile_cons_of_neg (by simp [solidLast])
  rw [List.append_assoc, List.dropWhile_append_of_pos blankFront, dropped, List.reverse_append,
    List.dropWhile_append_of_pos (by simpa using blankBack), kept, List.reverse_reverse]

theorem toIntDenotes {s : Text} {n : Int} (read : Text.toInt? s = some n) : s.Denotes n := by
  have whole : s = s.takeWhile isNumeralBlank ++
      (s.dropWhile isNumeralBlank).rdropWhile isNumeralBlank ++
      (s.dropWhile isNumeralBlank).rtakeWhile isNumeralBlank := by
    rw [List.append_assoc, List.rdropWhile_append_rtakeWhile, List.takeWhile_append_dropWhile]
  have denotes (sign : Text) {numeral : Text} {m : Nat}
      (inside : (s.dropWhile isNumeralBlank).rdropWhile isNumeralBlank = sign ++ numeral)
      (value : natOfNumeral? numeral = some m) (signed : Signed m sign n) : s.Denotes n := by
    obtain ⟨digits, written, short, rfl⟩ := naturalExact.mp value
    rw [inside] at whole
    exact ⟨_, sign, numeral, _, digits, whole, fun _ => List.mem_takeWhile_imp,
      fun _ => List.mem_rtakeWhile_imp, written, short, signed⟩
  simp only [Text.toInt?] at read
  split at read
  · rename_i rest inside
    obtain ⟨m, value, rfl⟩ := Option.map_eq_some_iff.mp read
    exact denotes ['+'] inside value .plus
  · rename_i rest inside
    obtain ⟨magnitude, found, rfl⟩ := Option.map_eq_some_iff.mp read
    obtain ⟨m, value, lifted⟩ := Option.bind_eq_some_iff.mp found
    cases lifted
    exact denotes ['-'] inside value .minus
  · obtain ⟨m, value, rfl⟩ := Option.map_eq_some_iff.mp read
    exact denotes [] rfl value .plain

theorem denotesToInt {s : Text} {n : Int} (denotes : s.Denotes n) : Text.toInt? s = some n := by
  obtain ⟨front, sign, numeral, back, digits, rfl, blankFront, blankBack, written, short, signed⟩ :=
    denotes
  have value : natOfNumeral? numeral = some (natOfDigits digits) :=
    naturalExact.mpr ⟨digits, written, short, rfl⟩
  obtain ⟨first, rest, d, rfl, digit⟩ := numeralHead written
  obtain ⟨last, e, ends, lastDigit⟩ := numeralLast written
  obtain ⟨solid, notPlus, notMinus, -⟩ := digitSolid digit
  unfold Text.toInt?
  cases signed with
  | plain =>
    rw [List.nil_append, stripped blankFront blankBack rfl solid ends (digitSolid lastDigit).1]
    simp [notPlus, notMinus, value]
  | plus =>
    rw [stripped blankFront blankBack rfl (by decide) (by simpa [List.getLast?_cons] using ends)
      (digitSolid lastDigit).1]
    simp [value]
  | minus =>
    rw [stripped blankFront blankBack rfl (by decide) (by simpa [List.getLast?_cons] using ends)
      (digitSolid lastDigit).1]
    simp [value]

theorem toIntExact {s : Text} {n : Int} : Text.toInt? s = some n ↔ s.Denotes n :=
  ⟨toIntDenotes, denotesToInt⟩

end Numerals

section Settings

theorem limitExact {datum : Datum} {n : Int} :
    RawSettings.checkLimit datum = .ok n ↔ datum = .int n ∧ 0 < n := by
  unfold RawSettings.checkLimit
  split
  · rename_i m
    split
    · rename_i low
      simp only [reduceCtorEq, Datum.int.injEq, false_iff, not_and]
      rintro rfl
      exact Int.not_lt.mpr low
    · rename_i high
      simp only [Except.ok.injEq, Datum.int.injEq, iff_self_and]
      rintro rfl
      exact Int.not_le.mp high
  · rename_i other
    simp only [reduceCtorEq, false_iff, not_and]
    exact fun same => absurd same (other n)

theorem formatExact {datum : Datum} {format : Text} :
    RawSettings.checkFormat datum = .ok format ↔ datum = .text format ∧ format ≠ [] := by
  unfold RawSettings.checkFormat
  split
  · simp only [Except.ok.injEq, Datum.text.injEq, iff_self_and]
    rintro rfl
    simp
  · rename_i other
    simp only [reduceCtorEq, false_iff, not_and, not_not]
    rintro rfl
    cases format with
    | nil => rfl
    | cons c rest => exact absurd rfl (other c rest)

theorem switchExact {key : SettingKey} {datum : Datum} {on : Bool} :
    RawSettings.checkSwitch key datum = .ok on ↔ datum = .bool on := by
  unfold RawSettings.checkSwitch
  split
  · simp
  · rename_i other
    simp only [reduceCtorEq, false_iff]
    exact other on

theorem switchOr {key : SettingKey} {given on : Bool} {raw : Datum}
    (checked : RawSettings.checkSwitch key (if given then .bool true else raw) = .ok on) :
    on = true ↔ given = true ∨ raw = .bool true := by
  rw [switchExact] at checked
  cases given with
  | true =>
    cases checked
    simp
  | false =>
    rw [if_neg Bool.false_ne_true] at checked
    simp [checked]

theorem variableExact {given : Option Text} {fallback limit : Int} :
    sizeLimit given fallback = .ok limit ↔
      (∀ text, given = some text → text.Denotes limit ∧ 0 < limit) ∧
        (given = none → limit = fallback) := by
  unfold sizeLimit
  split
  · simp [eq_comm]
  · rename_i text
    simp only [Option.some.injEq, forall_eq', reduceCtorEq, false_implies, and_true, ← toIntExact]
    cases Text.toInt? text with
    | none => simp
    | some n =>
      simp only [Option.some.injEq]
      split
      · rename_i low
        simp only [reduceCtorEq, false_iff, not_and]
        rintro rfl
        exact Int.not_lt.mpr low
      · rename_i high
        simp only [Except.ok.injEq, iff_self_and]
        rintro rfl
        exact Int.not_le.mp high

variable {r : RenderRequest} {s : Surroundings} {raw : RawSettings} {settings : Settings}

theorem limitChecked (checked : (r.applied raw).Checked settings) :
    raw.maxFileSize = .int settings.maxFileSize ∧ 0 < settings.maxFileSize :=
  limitExact.mp checked.limit

theorem checkedInForce {limit : Int} (checked : (r.applied raw).Checked settings)
    (fits : sizeLimit s.sizeLimit settings.maxFileSize = .ok limit) :
    r.InForce s raw settings limit := by
  obtain ⟨set, positive⟩ := limitChecked checked
  obtain ⟨given, otherwise⟩ := variableExact.mp fits
  obtain ⟨format, filled⟩ := formatExact.mp checked.format
  refine ⟨?_, fun text some => (given text some).1, fun none => ?_, filled, fun name some => ?_,
    fun none => ?_, switchOr checked.warnings, switchOr checked.quiet⟩
  · cases source : s.sizeLimit with
    | none => exact otherwise source ▸ positive
    | some text => exact (given text source).2
  · rw [otherwise none, set]
  · simp only [RenderRequest.applied, some, Option.map_some, Option.getD_some] at format
    exact (Datum.text.inj format).symm
  · simpa only [RenderRequest.applied, none, Option.map_none, Option.getD_none] using format

end Settings

section Reading
variable {t : Tree} {s : Surroundings} {directory : Path} {limit : Int}

theorem sizeWithin {path : Path} (fits : t.checkSize directory path limit = .ok ()) :
    ∃ bytes access, t.node directory path = .ok (.file bytes access) ∧
      (bytes.length : Int) ≤ limit := by
  unfold Tree.checkSize at fits
  split at fits
  · contradiction
  split at fits
  · contradiction
  · rename_i bytes access found
    split at fits
    · contradiction
    · rename_i small
      exact ⟨bytes, access, found, Int.not_lt.mp small⟩
  · contradiction

theorem limitedWithin {given : Text} {d : Document}
    (read : readLimited t directory limit given = .ok d) :
    ∃ bytes, t.Holds directory (Path.ofText given) bytes ∧ (bytes.length : Int) ≤ limit := by
  unfold readLimited at read
  split at read
  · contradiction
  rename_i fits
  split at read
  · contradiction
  rename_i document opened
  obtain ⟨bytes, access, found, small⟩ := sizeWithin fits
  obtain ⟨place, reached, here⟩ := Tree.nodeExact.mp found
  obtain ⟨-, text, ⟨other, otherAccess, reachedToo, readable, kind⟩, -⟩ := Tree.readExact.mp opened
  cases Except.ok.inj (reached.symm.trans reachedToo)
  rw [here] at kind
  rcases kind with regular | special
  · obtain ⟨-, rfl⟩ := Node.file.inj (Option.some.inj regular)
    exact ⟨bytes, ⟨place, access, reached, readable, here⟩, small⟩
  · cases Option.some.inj special

theorem scriptsWithin {stdin : Bytes} {files : List Text} {documents : List Document}
    (read : readScripts t s limit stdin files = .ok documents) :
    ∀ given ∈ files, given ≠ ['-'] →
      ∃ bytes, t.Holds s.directory (Path.ofText given) bytes ∧ (bytes.length : Int) ≤ limit := by
  induction files generalizing stdin documents with
  | nil => simp
  | cons first rest ih =>
    rw [readScripts] at read
    split at read
    · rename_i hyphen
      obtain ⟨d, -, read⟩ := bindOk read
      obtain ⟨ds, later, -⟩ := bindOk read
      intro given member other
      rcases List.mem_cons.mp member with rfl | inside
      · exact absurd hyphen other
      · exact ih later given inside other
    · obtain ⟨d, limited, read⟩ := bindOk read
      obtain ⟨ds, later, -⟩ := bindOk read
      intro given member other
      rcases List.mem_cons.mp member with rfl | inside
      · exact limitedWithin limited
      · exact ih later given inside other

end Reading

theorem sizeLimitEnforced {k : Toolkit} (lawful : k.Lawful) (r : RenderRequest) (t : Tree)
    (s : Surroundings) :
    ((r.outcome k t s).exitCode = 0 → ∃ raw settings limit documents text,
      t.loadSettings s.directory = .ok raw ∧ r.Succeeds t s settings documents text ∧
      r.InForce s raw settings limit ∧
      ∀ given ∈ r.files, given ≠ ['-'] →
        ∃ bytes, t.Holds s.directory (Path.ofText given) bytes ∧ (bytes.length : Int) ≤ limit) ∧
    (∀ raw, t.loadSettings s.directory = .ok raw → (∀ n, raw.maxFileSize = .int n → n ≤ 0) →
      (r.outcome k t s).exitCode ≠ 0) ∧
    ∀ text, s.sizeLimit = some text → (∀ n, text.Denotes n → n ≤ 0) →
      (r.outcome k t s).exitCode ≠ 0 := by
  have accepted (succeeded : (r.outcome k t s).exitCode = 0) :
      ∃ raw settings limit documents text, t.loadSettings s.directory = .ok raw ∧
        (r.applied raw).Checked settings ∧ r.Succeeds t s settings documents text ∧
        sizeLimit s.sizeLimit settings.maxFileSize = .ok limit ∧
        readScripts t s limit s.stdin r.files = .ok documents := by
    obtain ⟨settings, documents, text, run⟩ := runSucceeds (outcomeSucceeds lawful succeeded)
    obtain ⟨found, limit, fits, scripts⟩ := loadExact.mp run.loaded
    obtain ⟨raw, loaded, checked⟩ := settingsExact.mp found
    exact ⟨raw, settings, limit, documents, text, loaded, checked, run, fits, scripts⟩
  refine ⟨fun succeeded => ?_, fun raw loaded bad succeeded => ?_,
    fun text given bad succeeded => ?_⟩
  · obtain ⟨raw, settings, limit, documents, text, loaded, checked, run, fits, scripts⟩ :=
      accepted succeeded
    exact ⟨raw, settings, limit, documents, text, loaded, run, checkedInForce checked fits,
      scriptsWithin scripts⟩
  · obtain ⟨other, settings, _, _, _, loadedToo, checked, -⟩ := accepted succeeded
    cases Except.ok.inj (loaded.symm.trans loadedToo)
    obtain ⟨set, positive⟩ := limitChecked checked
    exact Int.not_lt.mpr (bad _ set) positive
  · obtain ⟨_, settings, limit, _, _, -, -, -, fits, -⟩ := accepted succeeded
    obtain ⟨denotes, positive⟩ := (variableExact.mp fits).1 text given
    exact Int.not_lt.mpr (bad limit denotes) positive

/- The script has ten bytes, as many as the environment allows; the settings would allow three. -/
def limitedTree : Tree :=
  { entries := [(["s.sh"], .file (Utf8.encode "#?/name x\n")),
      ([".shedoc.toml"], .file (Utf8.encode "[shedoc]\nmax_file_size = 3\nformat = 'help'\n"))] }

def limitedBy (text : Text) : Surroundings := { pipe with sizeLimit := some text }

theorem sizeLimitEnforcedForFullFile :
    let r : RenderRequest := { files := ["s.sh"] }
    (r.outcome .standard limitedTree (limitedBy " +1_0 ")).exitCode = 0 ∧
      (∃ raw settings limit, r.InForce (limitedBy " +1_0 ") raw settings limit ∧
        ∃ bytes, limitedTree.Holds pipe.directory (Path.ofText "s.sh".toList) bytes ∧
          (bytes.length : Int) ≤ limit) ∧
      (r.outcome .standard limitedTree (limitedBy " -1_0 ")).exitCode ≠ 0 := by
  intro r
  have succeeded : (r.outcome .standard limitedTree (limitedBy " +1_0 ")).exitCode = 0 := by
    decide +kernel
  obtain ⟨raw, settings, limit, _, _, _, _, inForce, within⟩ :=
    (sizeLimitEnforced standardLawful r limitedTree (limitedBy " +1_0 ")).1 succeeded
  refine ⟨succeeded, ⟨raw, settings, limit, inForce, within _ (by simp [r]) (by decide)⟩, ?_⟩
  refine (sizeLimitEnforced standardLawful r limitedTree (limitedBy " -1_0 ")).2.2 " -1_0 " rfl ?_
  intro n denotes
  have read : Text.toInt? " -1_0 ".toList = some (-10) := by decide +kernel
  cases Option.some.inj (read.symm.trans (toIntExact.mpr denotes))
  decide

end ScriptDoc
