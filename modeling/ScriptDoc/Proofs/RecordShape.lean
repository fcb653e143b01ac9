import ScriptDoc.Proofs.Grouping
import ScriptDoc.Proofs.Notation
import ScriptDoc.Record.Tag

/-! The shape of every record that a tag can leave behind: its spellings, tokens, value and
description, and that no line feed gets into it or into the message of a tag that fails. Tokens are
cut at spaces and tabs only, while descriptions are trimmed of every blank. -/
namespace ScriptDoc

structure Token (s : Text) : Prop where
  nonempty : s ≠ []
  noSpace : ' ' ∉ s
  noTab : '\t' ∉ s

structure ShortSpelling (s : Text) : Prop where
  dash : ['-'] <+: s
  single : ¬ ['-', '-'] <+: s
  noSpace : ' ' ∉ s
  noTab : '\t' ∉ s

structure LongSpelling (s : Text) : Prop where
  dashes : ['-', '-'] <+: s
  noSpace : ' ' ∉ s
  noTab : '\t' ∉ s

structure Spelled (short long : Option Text) : Prop where
  short : ∀ s, short = some s → ShortSpelling s
  long : ∀ s, long = some s → LongSpelling s

def Value.ReadsBack (v : Value) : Prop := Value.read v.written = .ok v

def Value.strings (v : Value) : List Text := v.name :: v.default.toList

namespace Record

def Shaped : Record → Prop
  | .flag r => (r.short.isSome ∨ r.long.isSome) ∧ Spelled r.short r.long
  | .option r => Spelled r.short r.long ∧ r.value.ReadsBack
  | .operand r => r.value.ReadsBack
  | .env r => Token r.name
  | .reads r => Token r.path
  | .exit r => Token r.code
  | .sets r => Token r.name
  | .writes r => Token r.path
  | .stdin _ | .stdout _ | .stderr _ | .deprecated _ => True

def parts : Record → List Text
  | .flag r => r.short.toList ++ r.long.toList
  | .option r => r.short.toList ++ r.long.toList ++ r.value.strings
  | .operand r => r.value.strings
  | .env r => [r.name]
  | .reads r => [r.path]
  | .exit r => [r.code]
  | .sets r => [r.name]
  | .writes r => [r.path]
  | .stdin _ | .stdout _ | .stderr _ | .deprecated _ => []

def strings (r : Record) : List Text := r.description :: r.parts

structure WellFormed (r : Record) : Prop where
  shaped : r.Shaped
  trimmed : Text.Trimmed r.description

structure Sound (r : Record) : Prop extends r.WellFormed where
  plain : ∀ s ∈ r.strings, '\n' ∉ s

theorem soundOf {r : Record} (shaped : r.Shaped) (trimmed : Text.Trimmed r.description)
    (plainDescription : '\n' ∉ r.description) (plainParts : ∀ s ∈ r.parts, '\n' ∉ s) : r.Sound := by
  refine ⟨⟨shaped, trimmed⟩, fun s member => ?_⟩
  rcases List.mem_cons.mp member with rfl | inParts
  · exact plainDescription
  · exact plainParts s inParts

end Record

theorem plainTrim {s : Text} (plain : '\n' ∉ s) : '\n' ∉ Text.trim s := fun member =>
  plain (Text.memTrim member)

theorem splitTokenEnds (s : Text) : ∀ c ∈ (splitToken s).1, isTokenEnd c = false := by
  induction s with
  | nil => simp [splitToken]
  | cons c rest ih =>
    simp only [splitToken]
    split
    · simp
    · rename_i inside
      intro d member
      rcases List.mem_cons.mp member with rfl | later
      · simpa using inside
      · exact ih d later

theorem splitTokenMem {s : Text} {c : Char}
    (member : c ∈ (splitToken s).1 ∨ c ∈ (splitToken s).2) : c ∈ s := by
  induction s with
  | nil => simp [splitToken] at member
  | cons d rest ih =>
    simp only [splitToken] at member
    split at member
    · exact List.mem_cons_of_mem _ (by simpa using member)
    · rcases member with first | second
      · rcases List.mem_cons.mp first with rfl | later
        · exact List.mem_cons_self
        · exact List.mem_cons_of_mem _ (ih (Or.inl later))
      · exact List.mem_cons_of_mem _ (ih (Or.inr second))

theorem firstTokenPlain {s : Text} (plain : '\n' ∉ s) :
    '\n' ∉ (firstToken s).1 ∧ '\n' ∉ (firstToken s).2 :=
  ⟨fun member => plain (Text.memTrim (splitTokenMem (Or.inl member))),
    fun member => plain (Text.memTrim (splitTokenMem (Or.inr member)))⟩

theorem firstTokenUnspaced (s : Text) : ' ' ∉ (firstToken s).1 ∧ '\t' ∉ (firstToken s).1 :=
  ⟨fun member => absurd (splitTokenEnds _ _ member) (by decide),
    fun member => absurd (splitTokenEnds _ _ member) (by decide)⟩

theorem firstTokenToken {s : Text} (nonempty : (firstToken s).1 ≠ []) : Token (firstToken s).1 :=
  ⟨nonempty, (firstTokenUnspaced s).1, (firstTokenUnspaced s).2⟩

theorem firstTokenDash (tail : Text) : ['-'] <+: (firstToken ('-' :: tail)).1 := by
  obtain ⟨rest, trimmed⟩ := Text.trimCons tail (c := '-') (by decide)
  refine ⟨(splitToken rest).1, ?_⟩
  simp only [firstToken, trimmed, splitToken]
  rfl

structure Spellings.Sound (found : Spellings) : Prop where
  spelled : Spelled found.short found.long
  plainShort : ∀ s, found.short = some s → '\n' ∉ s
  plainLong : ∀ s, found.long = some s → '\n' ∉ s
  plainRest : '\n' ∉ found.rest

theorem spelledToken {short long : Option Text} {tail : Text}
    (sound : Spellings.Sound ⟨short, long, '-' :: tail⟩) :
    Spellings.Sound
      ⟨if isLongSpelling (firstToken ('-' :: tail)).1 then short
          else some (firstToken ('-' :: tail)).1,
        if isLongSpelling (firstToken ('-' :: tail)).1 then some (firstToken ('-' :: tail)).1
          else long,
        Text.trim (firstToken ('-' :: tail)).2⟩ := by
  obtain ⟨noSpace, noTab⟩ := firstTokenUnspaced ('-' :: tail)
  obtain ⟨plainToken, plainAfter⟩ := firstTokenPlain sound.plainRest
  have plainRest := plainTrim plainAfter
  cases dashes : isLongSpelling (firstToken ('-' :: tail)).1 with
  | true =>
    refine ⟨⟨sound.spelled.short, fun s same => ?_⟩, sound.plainShort, fun s same => ?_, plainRest⟩
    · cases Option.some.inj same
      exact ⟨List.isPrefixOf_iff_prefix.mp dashes, noSpace, noTab⟩
    · cases Option.some.inj same
      exact plainToken
  | false =>
    refine ⟨⟨fun s same => ?_, sound.spelled.long⟩, fun s same => ?_, sound.plainLong, plainRest⟩
    · cases Option.some.inj same
      refine ⟨firstTokenDash tail, fun double => ?_, noSpace, noTab⟩
      rw [isLongSpelling, List.isPrefixOf_iff_prefix.mpr double] at dashes
      contradiction
    · cases Option.some.inj same
      exact plainToken

theorem takeSpellingsBar (short long : Option Text) {tail more : Text}
    (bar : Text.trim (firstToken ('-' :: tail)).2 = '|' :: more) :
    takeSpellings short long ('-' :: tail) =
      takeSpellings
        (if isLongSpelling (firstToken ('-' :: tail)).1 then short
          else some (firstToken ('-' :: tail)).1)
        (if isLongSpelling (firstToken ('-' :: tail)).1 then some (firstToken ('-' :: tail)).1
          else long)
        (Text.trim more) := by
  rw [takeSpellings]
  split
  · rename_i other same
    rw [bar] at same
    cases same
    rfl
  · rename_i unbarred
    exact absurd bar (unbarred more)

theorem takeSpellingsLast (short long : Option Text) {tail : Text}
    (unbarred : ∀ more, Text.trim (firstToken ('-' :: tail)).2 ≠ '|' :: more) :
    takeSpellings short long ('-' :: tail) =
      ⟨if isLongSpelling (firstToken ('-' :: tail)).1 then short
          else some (firstToken ('-' :: tail)).1,
        if isLongSpelling (firstToken ('-' :: tail)).1 then some (firstToken ('-' :: tail)).1
          else long,
        Text.trim (firstToken ('-' :: tail)).2⟩ := by
  rw [takeSpellings]
  split
  · rename_i more bar
    exact absurd bar (unbarred more)
  · rfl

theorem takeSpellingsNone (short long : Option Text) {rest : Text}
    (undashed : ∀ tail, rest ≠ '-' :: tail) : takeSpellings short long rest = ⟨short, long, rest⟩ := by
  rw [takeSpellings]
  exact undashed

theorem takeSpellingsSound {short long : Option Text} {s : Text}
    (sound : Spellings.Sound ⟨short, long, s⟩) : (takeSpellings short long s).Sound := by
  induction short, long, s using takeSpellings.induct with
  | case1 short long tail token short' long' more bar shorter ih =>
    have next := spelledToken sound
    have plainMore : '\n' ∉ more := by
      intro member
      apply next.plainRest
      rw [bar]
      exact List.mem_cons_of_mem _ member
    rw [takeSpellingsBar short long bar]
    exact ih ⟨next.spelled, next.plainShort, next.plainLong, plainTrim plainMore⟩
  | case2 short long tail unbarred =>
    rw [takeSpellingsLast short long unbarred]
    exact spelledToken sound
  | case3 short long rest undashed =>
    rw [takeSpellingsNone short long undashed]
    exact sound

theorem spellingsSound {s : Text} (plain : '\n' ∉ s) : (spellings s).Sound :=
  takeSpellingsSound ⟨⟨by simp, by simp⟩, by simp, by simp, plainTrim plain⟩

theorem plainStrings {v : Value} (good : v.WellFormed) (plain : '\n' ∉ v.written) :
    ∀ s ∈ v.strings, '\n' ∉ s := by
  rw [Value.writtenInBrackets good.requiredAlone] at plain
  intro s member inside
  apply plain
  apply List.mem_cons_of_mem
  apply List.mem_append_left
  apply List.mem_append_left
  rcases List.mem_cons.mp member with rfl | later
  · cases default : v.default <;> simp [Value.body, default, inside]
  · have default : v.default = some s := by simpa using later
    simp [Value.body, default, inside]

theorem readValueSound {s : Text} {v : Value} (plain : '\n' ∉ s) (ok : Value.read s = .ok v) :
    v.ReadsBack ∧ ∀ t ∈ v.strings, '\n' ∉ t := by
  obtain ⟨good, written⟩ := Value.readExact.mp ok
  refine ⟨Value.readWritten.mpr good, plainStrings good ?_⟩
  rw [written]
  exact plainTrim plain

namespace Record

theorem requireTokenSound {missing : TagError} {s token rest : Text} (plain : '\n' ∉ s)
    (ok : requireToken missing s = .ok (token, rest)) :
    Token token ∧ Text.Trimmed rest ∧ '\n' ∉ token ∧ '\n' ∉ rest := by
  obtain ⟨plainToken, plainAfter⟩ := firstTokenPlain plain
  simp only [requireToken] at ok
  split at ok
  · contradiction
  · rename_i filled
    cases ok
    exact ⟨firstTokenToken (by simpa using filled), Text.trimTrimmed _, plainToken,
      plainTrim plainAfter⟩

theorem readFlagSound {s : Text} {line : Int} {r : Record} (plain : '\n' ∉ s)
    (ok : readFlag s line = .ok r) : r.Sound := by
  obtain ⟨spelled, plainShort, plainLong, plainRest⟩ := spellingsSound plain
  simp only [readFlag] at ok
  split at ok
  · contradiction
  · rename_i named
    cases ok
    refine soundOf ⟨?_, spelled⟩ (Text.trimTrimmed _) (plainTrim plainRest) (fun t member => ?_)
    · simpa [Option.isSome_iff_ne_none, imp_iff_not_or] using named
    · simp only [parts, List.mem_append, Option.mem_toList] at member
      exact member.elim (plainShort t) (plainLong t)

theorem readOptionSound {s : Text} {line : Int} {r : Record} (plain : '\n' ∉ s)
    (ok : readOption s line = .ok r) : r.Sound := by
  obtain ⟨spelled, plainShort, plainLong, plainRest⟩ := spellingsSound plain
  obtain ⟨plainToken, plainAfter⟩ := firstTokenPlain plainRest
  simp only [readOption] at ok
  split at ok
  · contradiction
  · split at ok
    · contradiction
    · cases value : Value.read (firstToken (spellings s).rest).1 with
      | error e => simp [value] at ok
      | ok v =>
        obtain ⟨back, plainValue⟩ := readValueSound plainToken value
        simp only [value] at ok
        cases ok
        refine soundOf ⟨spelled, back⟩ (Text.trimTrimmed _) (plainTrim plainAfter)
          (fun t member => ?_)
        simp only [parts, List.mem_append, Option.mem_toList] at member
        rcases member with (short | long) | inValue
        · exact plainShort t short
        · exact plainLong t long
        · exact plainValue t inValue

theorem readOperandSound {s : Text} {line : Int} {r : Record} (plain : '\n' ∉ s)
    (ok : readOperand s line = .ok r) : r.Sound := by
  obtain ⟨plainToken, plainAfter⟩ := firstTokenPlain plain
  simp only [readOperand] at ok
  split at ok
  · contradiction
  · cases value : Value.read (firstToken s).1 with
    | error e => simp [value] at ok
    | ok v =>
      obtain ⟨back, plainValue⟩ := readValueSound plainToken value
      simp only [value] at ok
      cases ok
      exact soundOf back (Text.trimTrimmed _) (plainTrim plainAfter) plainValue

theorem tokenRecordSound {missing : TagError} {s : Text} {make : Text × Text → Record} {r : Record}
    (plain : '\n' ∉ s) (shaped : ∀ token rest, Token token → (make (token, rest)).Shaped)
    (described : ∀ token rest, (make (token, rest)).description = rest)
    (held : ∀ token rest, (make (token, rest)).parts = [token])
    (ok : (requireToken missing s).map make = .ok r) : r.Sound := by
  cases found : requireToken missing s with
  | error e => simp [found, Except.map] at ok
  | ok pair =>
    obtain ⟨token, rest⟩ := pair
    obtain ⟨isToken, trimmed, plainToken, plainRest⟩ := requireTokenSound plain found
    rw [found] at ok
    cases ok
    refine soundOf (shaped token rest isToken) ?_ ?_ (fun t member => ?_)
    · rw [described]
      exact trimmed
    · rw [described]
      exact plainRest
    · rw [held, List.mem_singleton] at member
      rw [member]
      exact plainToken

theorem readKindSound {s : Text} {line : Int} {kind : TagKind} {r : Record} (plain : '\n' ∉ s)
    (ok : readKind s line kind = .ok r) : r.Sound := by
  cases kind with
  | flag => exact readFlagSound plain ok
  | option => exact readOptionSound plain ok
  | operand => exact readOperandSound plain ok
  | env | reads | exit | sets | writes =>
    refine tokenRecordSound plain ?_ ?_ ?_ ok
    · exact fun _ _ token => token
    · exact fun _ _ => rfl
    · exact fun _ _ => rfl
  | stdin | stdout | stderr | deprecated =>
    cases ok
    exact soundOf trivial (Text.trimTrimmed s) (plainTrim plain) (by simp [parts])

theorem readSound {name s : Text} {line : Int} {r : Record} (plain : '\n' ∉ s)
    (ok : Record.read name s line = .ok r) : r.Sound := by
  unfold Record.read at ok
  split at ok
  · exact readKindSound plain ok
  · contradiction

theorem extendTrimmed {description addition : Text} (trimmed : Text.Trimmed description)
    (filled : addition ≠ []) (solid : Text.SolidEnds addition) :
    Text.Trimmed (extendDescription description addition) := by
  unfold extendDescription
  split
  · exact Text.trimOfSolidEnds solid
  · rename_i nonempty
    exact Text.trimOfSolidEnds
      (Text.solidJoin [' '] (by simpa using nonempty) filled (Text.trimmedIff.mp trimmed) solid)

theorem extendPlain {description addition : Text} (plain : '\n' ∉ description)
    (plainAddition : '\n' ∉ addition) : '\n' ∉ extendDescription description addition := by
  unfold extendDescription
  split
  · exact plainAddition
  · simp [plain, plainAddition]

theorem extendParts (r : Record) (addition : Text) :
    (r.extend addition).description = extendDescription r.description addition ∧
    ((r.extend addition).Shaped ↔ r.Shaped) ∧ (r.extend addition).parts = r.parts := by
  cases r <;> exact ⟨rfl, Iff.rfl, rfl⟩

theorem extendSound {r : Record} {addition : Text} (sound : r.Sound) (filled : addition ≠ [])
    (solid : Text.SolidEnds addition) (plainAddition : '\n' ∉ addition) :
    (r.extend addition).Sound := by
  obtain ⟨described, shaped, sameParts⟩ := extendParts r addition
  refine soundOf (shaped.mpr sound.shaped) ?_ ?_ ?_
  · rw [described]
    exact extendTrimmed sound.trimmed filled solid
  · rw [described]
    exact extendPlain (sound.plain _ List.mem_cons_self) plainAddition
  · rw [sameParts]
    exact fun s member => sound.plain s (List.mem_cons_of_mem _ member)

end Record

theorem digitsPlain (n : Nat) : '\n' ∉ Nat.toDigits 16 n := by
  induction n using Nat.strongRecOn with
  | _ n ih =>
    rw [Nat.toDigits_eq_if (by decide)]
    split
    · simp
    · rename_i large
      simp [ih (n / 16) (Nat.div_lt_self (by omega) (by decide))]

theorem hexDigitsPlain (width n : Nat) : '\n' ∉ hexDigits width n := by
  simp [hexDigits, digitsPlain n]

theorem quotedCharPlain {mark : Char} (c : Char) (plain : mark ≠ '\n') :
    '\n' ∉ quotedChar mark c := by
  unfold quotedChar
  split
  · decide
  · split
    · simpa using plain.symm
    · split
      · decide
      · rename_i feed
        split
        · decide
        · split
          · decide
          · split
            · simpa using fun same => feed same.symm
            · split
              · exact List.not_mem_append (by decide) (hexDigitsPlain 2 _)
              · split
                · exact List.not_mem_append (by decide) (hexDigitsPlain 4 _)
                · exact List.not_mem_append (by decide) (hexDigitsPlain 8 _)

theorem quotedPlain (s : Text) : '\n' ∉ s.quoted := by
  have mark : quoteMark s ≠ '\n' := by
    unfold quoteMark
    split <;> decide
  intro member
  simp only [Text.quoted, List.mem_append, List.mem_singleton, List.mem_flatMap] at member
  rcases member with (first | ⟨c, _, inside⟩) | last
  · exact mark first.symm
  · exact quotedCharPlain c mark inside
  · exact mark last.symm

theorem notationMessagePlain (e : NotationError) : '\n' ∉ e.message := by
  unfold NotationError.message
  refine List.not_mem_append (List.not_mem_append (by decide) (quotedPlain _)) ?_
  cases e.fault <;> decide

theorem requireTokenError {missing e : TagError} {s : Text} {make : Text × Text → Record}
    (failed : (Record.requireToken missing s).map make = .error e) : e = missing := by
  unfold Record.requireToken at failed
  split at failed
  split at failed
  · cases failed
    rfl
  · contradiction

theorem readUnknown {name s other : Text} {line : Int}
    (failed : Record.read name s line = .error (.unknown other)) : other = name := by
  unfold Record.read at failed
  split at failed
  · rename_i kind _
    cases kind with
    | flag =>
      simp only [Record.readKind, Record.readFlag] at failed
      split at failed <;> cases failed
    | option =>
      simp only [Record.readKind, Record.readOption] at failed
      repeat' split at failed
      all_goals cases failed
    | operand =>
      simp only [Record.readKind, Record.readOperand] at failed
      repeat' split at failed
      all_goals cases failed
    | env | reads | exit | sets | writes =>
      have same := requireTokenError failed
      contradiction
    | stdin | stdout | stderr | deprecated => contradiction
  · cases failed
    rfl

theorem tagMessagePlain {name s : Text} {line : Int} {e : TagError} (plain : '\n' ∉ name)
    (failed : Record.read name s line = .error e) : '\n' ∉ e.message := by
  cases e with
  | unknown other =>
    rw [readUnknown failed]
    exact List.not_mem_append (by decide) plain
  | noVariable tag => cases tag <;> decide
  | noPath tag => cases tag <;> decide
  | badOptionValue e => exact List.not_mem_append (by decide) (notationMessagePlain e)
  | badOperandValue e => exact List.not_mem_append (by decide) (notationMessagePlain e)
  | noSpelling | emptyOption | noOptionValue | noOperandValue | noExitCode => decide

end ScriptDoc
