import ScriptDoc.Proofs.LineNumbers

/-! Records written out as tags. The text of a record is its spellings, its token or value and its
description, with one space between the parts that are there. Reading it gives the record back: each
part is cut off where it ends, whatever the description looks like. The one text that can be mistaken
for something else is that of a flag whose description starts with a bar. -/
namespace ScriptDoc

theorem tokenEndBlank {c : Char} (ends : isTokenEnd c = true) : isBlank c = true := by
  simp only [isTokenEnd, Bool.or_eq_true, decide_eq_true_eq] at ends
  rcases ends with rfl | rfl
  · rfl
  · rfl

theorem splitTokenWord {w : Text} (solid : ∀ c ∈ w, isBlank c = false) (s : Text) :
    splitToken (w ++ s) = (w ++ (splitToken s).1, (splitToken s).2) := by
  induction w with
  | nil => rfl
  | cons c rest ih =>
    have inside : isTokenEnd c = false := by
      cases ends : isTokenEnd c with
      | false => rfl
      | true => exact absurd (tokenEndBlank ends) (by simp [solid c List.mem_cons_self])
    have later := ih fun d member => solid d (List.mem_cons_of_mem _ member)
    rw [List.cons_append, splitToken, inside, later]
    rfl

/- Where a word is followed by a space, a tab or nothing, it is cut off there, and trimming the rest
gives what it would give before the cut. -/
theorem firstTokenWord {w s : Text} (word : Text.Word w)
    (ended : ∀ c, s.head? = some c → isTokenEnd c = true) :
    (firstToken (w ++ s)).1 = w ∧ Text.trim (firstToken (w ++ s)).2 = Text.trim s := by
  rw [firstToken, Text.trimWord word, splitTokenWord word.solid, ← Text.trimOfTrimRight s]
  cases right : Text.trimRight s with
  | nil => simp [splitToken]
  | cons c rest =>
    have ends := ended c (Text.trimRightHead (by rw [right]; rfl))
    have skipped : Text.trim (c :: rest) = Text.trim rest := by
      rw [Text.trim, Text.trim, Text.trimLeft, List.dropWhile_cons_of_pos (tokenEndBlank ends)]
      rfl
    rw [skipped, splitToken, if_pos ends, List.append_nil]
    exact ⟨rfl, rfl⟩

def afterSpelling (short long : Option Text) (rest : Text) : Spellings :=
  if rest.head? = some '|' then takeSpellings short long (Text.trim rest.tail)
  else ⟨short, long, rest⟩

theorem takeSpellingsDashed (short long : Option Text) (tail : Text) :
    takeSpellings short long ('-' :: tail) =
      afterSpelling
        (if isLongSpelling (firstToken ('-' :: tail)).1 then short
          else some (firstToken ('-' :: tail)).1)
        (if isLongSpelling (firstToken ('-' :: tail)).1 then some (firstToken ('-' :: tail)).1
          else long)
        (Text.trim (firstToken ('-' :: tail)).2) := by
  unfold afterSpelling
  split
  · rename_i head
    obtain ⟨more, barred⟩ := List.head?_eq_some_iff.mp head
    rw [takeSpellingsBar short long barred, barred, List.tail_cons]
  · rename_i unbarred
    exact takeSpellingsLast short long fun more barred => unbarred (by rw [barred]; rfl)

theorem takeSpellingsWord (short long : Option Text) {w s : Text} (word : Text.Word w)
    (dash : ['-'] <+: w) (ended : ∀ c, s.head? = some c → isTokenEnd c = true) :
    takeSpellings short long (w ++ s) =
      afterSpelling (if isLongSpelling w then short else some w)
        (if isLongSpelling w then some w else long) (Text.trim s) := by
  obtain ⟨token, rest⟩ := firstTokenWord word ended
  obtain ⟨tail, rfl⟩ := dash
  rw [List.singleton_append, List.cons_append] at token rest ⊢
  rw [takeSpellingsDashed, token, rest]

theorem splitTokenSuffix (s : Text) : (splitToken s).2 <:+ s := by
  induction s with
  | nil => exact List.suffix_refl _
  | cons c rest ih =>
    rw [splitToken]
    split
    · exact List.suffix_cons c rest
    · exact ih.trans (List.suffix_cons c rest)

theorem takeSpellingsSuffix (short long : Option Text) {s : Text} (trimmed : Text.Trimmed s) :
    (takeSpellings short long s).rest <:+ s := by
  induction short, long, s using takeSpellings.induct with
  | case1 short long tail token short' long' more bar shorter ih =>
    have after : Text.trim (firstToken ('-' :: tail)).2 <:+ '-' :: tail := by
      rw [firstToken, trimmed]
      exact Text.trimSuffix (Text.trimmedIff.mp trimmed).2 (splitTokenSuffix _)
    rw [bar] at after
    have behind : Text.trim more <:+ '-' :: tail :=
      Text.trimSuffix (Text.trimmedIff.mp trimmed).2 ((List.suffix_cons '|' more).trans after)
    rw [takeSpellingsBar short long bar]
    exact (ih (Text.trimTrimmed more)).trans behind
  | case2 short long tail unbarred =>
    rw [takeSpellingsLast short long unbarred, firstToken, trimmed]
    exact Text.trimSuffix (Text.trimmedIff.mp trimmed).2 (splitTokenSuffix _)
  | case3 short long rest undashed =>
    simp only [takeSpellingsNone short long undashed, List.suffix_refl]

theorem takeSpellingsTrimmed (short long : Option Text) {w s : Text} (word : Text.Word w)
    (dash : ['-'] <+: w) (ended : ∀ c, s.head? = some c → isTokenEnd c = true) :
    takeSpellings short long (Text.trim (w ++ s)) =
      afterSpelling (if isLongSpelling w then short else some w)
        (if isLongSpelling w then some w else long) (Text.trim s) := by
  rw [Text.trimWord word, ← Text.trimOfTrimRight s]
  exact takeSpellingsWord short long word dash fun c head => ended c (Text.trimRightHead head)

theorem afterBar (short long : Option Text) {blanks : Text} (more : Text)
    (blank : ∀ c ∈ blanks, isBlank c = true) :
    afterSpelling short long (Text.trim (blanks ++ '|' :: more)) =
      takeSpellings short long (Text.trim more) := by
  have bar : Text.trim (blanks ++ '|' :: more) = '|' :: Text.trimRight more := by
    rw [Text.trim, Text.trimLeftOfBlanks blank, ← Text.trim]
    exact Text.trimWord (w := ['|']) (by decide) more
  rw [bar, afterSpelling, List.head?_cons, if_pos rfl, List.tail_cons, Text.trimOfTrimRight]

namespace Text

def apart (s : Text) : Text := if s.isEmpty then [] else ' ' :: s

def spaced (parts : List Text) : Text := join [' '] (parts.filter fun part => !part.isEmpty)

theorem apartEnds {s : Text} : ∀ c, (apart s).head? = some c → isTokenEnd c = true := by
  intro c head
  unfold apart at head
  split at head
  · contradiction
  · cases Option.some.inj head
    rfl

theorem trimApart {s : Text} (trimmed : Trimmed s) : trim (apart s) = s := by
  unfold apart
  split
  · rename_i empty
    rw [List.isEmpty_iff.mp empty]
    rfl
  · have space : ∀ c ∈ [' '], isAsciiBlank c = true := by simp [isAsciiBlank]
    exact (trimBlanksBefore s space).trans trimmed

theorem spacedSkips (parts : List Text) : spaced ([] :: parts) = spaced parts := rfl

theorem spacedAlone (part : Text) : spaced [part] = part := by
  cases part <;> rfl

theorem spacedCons {part : Text} (filled : part ≠ []) (parts : List Text) :
    spaced (part :: parts) = part ++ apart (spaced parts) := by
  rw [spaced, List.filter_cons_of_pos (by simpa using filled), spaced]
  cases more : parts.filter fun part => !part.isEmpty with
  | nil => simp [join, apart]
  | cons next rest =>
    have present : next ≠ [] := by
      have inside : next ∈ parts.filter fun part => !part.isEmpty := by simp [more]
      simpa using (List.mem_filter.mp inside).2
    have joined : (join [' '] (next :: rest)).isEmpty = false := by
      cases rest <;> simp [join, present]
    rw [joinCons _ _ (by simp), apart, joined]
    simp

theorem spacedSolid {parts : List Text} (solid : ∀ part ∈ parts, SolidEnds part) :
    Trimmed (spaced parts) := by
  rw [spaced]
  by_cases none : (parts.filter fun part => !part.isEmpty) = []
  · rw [none]
    rfl
  · refine trimOfSolidEnds (joinSolid [' '] none fun part member => ?_).2
    obtain ⟨inside, present⟩ := List.mem_filter.mp member
    exact ⟨by simpa using present, solid part inside⟩

end Text

section Switches
variable {short long : Option Text} (spelled : Spelled short long)
  (solid : ∀ s ∈ short.toList ++ long.toList, ∀ c ∈ s, isBlank c = false)
include spelled solid

theorem shortWord {s : Text} (given : short = some s) :
    Text.Word s ∧ ['-'] <+: s ∧ isLongSpelling s = false := by
  have shape := spelled.short s given
  refine ⟨⟨?_, solid s (by simp [given])⟩, shape.dash, ?_⟩
  · rintro rfl
    simpa using shape.dash
  · rw [isLongSpelling, Bool.eq_false_iff, ne_eq, List.isPrefixOf_iff_prefix]
    exact shape.single

theorem longWord {s : Text} (given : long = some s) :
    Text.Word s ∧ ['-'] <+: s ∧ isLongSpelling s = true := by
  have shape := spelled.long s given
  refine ⟨⟨?_, solid s (by simp [given])⟩, ?_, List.isPrefixOf_iff_prefix.mpr shape.dashes⟩
  · rintro rfl
    simpa using shape.dashes
  · exact (List.prefix_append ['-'] ['-']).trans shape.dashes

theorem switchesFilled (given : short.isSome ∨ long.isSome) :
    Text.join " | " (short.toList ++ long.toList) ≠ [] := by
  have present : short.toList ++ long.toList ≠ [] := by
    cases short <;> cases long <;> simp at given ⊢
  refine (Text.joinSolid _ present fun s member => ?_).1
  rcases List.mem_append.mp member with inShort | inLong
  · have word := (shortWord spelled solid (Option.mem_toList.mp inShort)).1
    exact ⟨word.filled, Text.wordEnds word⟩
  · have word := (longWord spelled solid (Option.mem_toList.mp inLong)).1
    exact ⟨word.filled, Text.wordEnds word⟩

theorem switchesRead {rest : Text} (given : short.isSome ∨ long.isSome)
    (trimmed : Text.Trimmed rest) :
    spellings (Text.join " | " (short.toList ++ long.toList) ++ Text.apart rest) =
      afterSpelling short long rest := by
  have last (before : Option Text) {w : Text} (word : Text.Word w) (dash : ['-'] <+: w) :
      takeSpellings before none (Text.trim (w ++ Text.apart rest)) =
        afterSpelling (if isLongSpelling w then before else some w)
          (if isLongSpelling w then some w else none) rest := by
    rw [takeSpellingsTrimmed before none word dash Text.apartEnds, Text.trimApart trimmed]
  cases long with
  | none =>
    obtain ⟨s, rfl⟩ : ∃ s, short = some s := Option.isSome_iff_exists.mp (by simpa using given)
    obtain ⟨word, dash, single⟩ := shortWord spelled solid rfl
    exact (last none word dash).trans (by rw [single]; rfl)
  | some l =>
    obtain ⟨word, dash, double⟩ := longWord spelled solid rfl
    cases short with
    | none => exact (last none word dash).trans (by rw [double]; rfl)
    | some s =>
      obtain ⟨wordShort, dashShort, single⟩ := shortWord spelled solid rfl
      have whole : Text.join " | " [s, l] ++ Text.apart rest =
          s ++ ([' '] ++ '|' :: ([' '] ++ (l ++ Text.apart rest))) := by simp [Text.join]
      calc spellings (Text.join " | " [s, l] ++ Text.apart rest)
        _ = takeSpellings none none
              (Text.trim (s ++ ([' '] ++ '|' :: ([' '] ++ (l ++ Text.apart rest))))) := by
            rw [whole, spellings]
        _ = afterSpelling (some s) none
              (Text.trim ([' '] ++ '|' :: ([' '] ++ (l ++ Text.apart rest)))) := by
            rw [takeSpellingsTrimmed none none wordShort dashShort (by simp [isTokenEnd]), single]
            rfl
        _ = takeSpellings (some s) none (Text.trim (l ++ Text.apart rest)) := by
            rw [afterBar _ _ _ (by simp [isBlank, isAsciiBlank]),
              Text.trimBlanksBefore _ (by simp [isAsciiBlank])]
        _ = afterSpelling (some s) (some l) rest := by
            rw [last (some s) word dash, double]
            rfl

end Switches

theorem writtenHead {v : Value} (back : v.ReadsBack) :
    v.written.head? = some '<' ∨ v.written.head? = some '[' := by
  have good := Value.readWritten.mp back
  rw [Value.writtenInBrackets good.requiredAlone]
  cases v.required with
  | true => exact Or.inl rfl
  | false => exact Or.inr rfl

theorem writtenWord {v : Value} (back : v.ReadsBack)
    (solid : ∀ c ∈ v.written, isBlank c = false) : Text.Word v.written := by
  refine ⟨fun empty => ?_, solid⟩
  rcases writtenHead back with first | first <;> simp [empty] at first

namespace Record

def kind : Record → TagKind
  | .flag _ => .flag
  | .option _ => .option
  | .operand _ => .operand
  | .env _ => .env
  | .reads _ => .reads
  | .stdin _ => .stdin
  | .exit _ => .exit
  | .stdout _ => .stdout
  | .stderr _ => .stderr
  | .sets _ => .sets
  | .writes _ => .writes
  | .deprecated _ => .deprecated

def switches : Record → List Text
  | .flag r => r.short.toList ++ r.long.toList
  | .option r => r.short.toList ++ r.long.toList
  | _ => []

def subject : Record → Text
  | .option r => r.value.written
  | .operand r => r.value.written
  | .env r => r.name
  | .reads r => r.path
  | .exit r => r.code
  | .sets r => r.name
  | .writes r => r.path
  | .flag _ | .stdin _ | .stdout _ | .stderr _ | .deprecated _ => []

def text (r : Record) : Text :=
  Text.spaced [Text.join " | " r.switches, r.subject, r.description]

def Solid (r : Record) : Prop := ∀ s ∈ r.subject :: r.switches, ∀ c ∈ s, isBlank c = false

def Unbarred : Record → Prop
  | .flag r => r.description.head? ≠ some '|'
  | _ => True

theorem readOwnKind (r : Record) (s : Text) (line : Int) :
    Record.read r.kind.name s line = readKind s line r.kind := by
  cases r <;> rfl

section Subject
variable {w description : Text} (word : Text.Word w) (trimmed : Text.Trimmed description)
include word trimmed

theorem subjectRead : (firstToken (Text.spaced [w, description])).1 = w ∧
    Text.trim (firstToken (Text.spaced [w, description])).2 = description := by
  rw [Text.spacedCons word.filled, Text.spacedAlone]
  obtain ⟨token, rest⟩ := firstTokenWord word (Text.apartEnds (s := description))
  exact ⟨token, rest.trans (Text.trimApart trimmed)⟩

theorem requireTokenReads (missing : TagError) :
    requireToken missing (Text.spaced [w, description]) = .ok (w, description) := by
  obtain ⟨token, rest⟩ := subjectRead word trimmed
  have present : w.isEmpty = false := by simpa using word.filled
  simp only [requireToken, token, rest, present, Bool.false_eq_true, if_false]

theorem tokenTagReads (missing : TagError) (make : Text × Text → Record) :
    (requireToken missing (Text.spaced [w, description])).map make = .ok (make (w, description)) := by
  rw [requireTokenReads word trimmed]
  rfl

end Subject

theorem operandTagReads {v : Value} {description : Text} (line : Int) (back : v.ReadsBack)
    (word : Text.Word v.written) (trimmed : Text.Trimmed description) :
    readOperand (Text.spaced [v.written, description]) line = .ok (.operand ⟨v, description, line⟩) := by
  obtain ⟨token, rest⟩ := subjectRead word trimmed
  have present : v.written.isEmpty = false := by simpa using word.filled
  have read : Value.read v.written = .ok v := back
  simp only [readOperand, token, rest, present, read, Bool.false_eq_true, if_false]

section Switched
variable {short long : Option Text} (spelled : Spelled short long)
  (solid : ∀ s ∈ short.toList ++ long.toList, ∀ c ∈ s, isBlank c = false)
  {description : Text} (trimmed : Text.Trimmed description)
include spelled solid trimmed

theorem flagTagReads (line : Int) (given : short.isSome ∨ long.isSome) :
    readFlag (Text.spaced [Text.join " | " (short.toList ++ long.toList), [], description]) line =
      .ok (.flag ⟨short, long, description, line⟩) ↔ description.head? ≠ some '|' := by
  have found : spellings
      (Text.spaced [Text.join " | " (short.toList ++ long.toList), [], description]) =
        afterSpelling short long description := by
    rw [Text.spacedCons (switchesFilled spelled solid given), Text.spacedSkips, Text.spacedAlone]
    exact switchesRead spelled solid given trimmed
  constructor
  · intro read barred
    -- All that is behind the bar is shorter than the description.
    have shorter : (afterSpelling short long description).rest.length < description.length := by
      obtain ⟨more, rfl⟩ := List.head?_eq_some_iff.mp barred
      have behind := (takeSpellingsSuffix short long (Text.trimTrimmed more)).length_le
      have bound := Text.trimShorter more
      rw [afterSpelling, if_pos barred, List.tail_cons, List.length_cons]
      omega
    have same : Text.trim (afterSpelling short long description).rest = description := by
      simp only [readFlag, found] at read
      split at read
      · contradiction
      · simp only [Except.ok.injEq, Record.flag.injEq, Flag.mk.injEq] at read
        exact read.2.2.1
    have bound := Text.trimShorter (afterSpelling short long description).rest
    rw [same] at bound
    omega
  · intro unbarred
    have named : (short.isNone && long.isNone) = false := by
      cases short <;> cases long <;> simp at given ⊢
    simp only [readFlag, found, afterSpelling, if_neg unbarred, named, Bool.false_eq_true, if_false,
      show Text.trim description = description from trimmed]

variable {v : Value} (back : v.ReadsBack) (word : Text.Word v.written)
include back word

theorem optionSpellings :
    spellings (Text.spaced [Text.join " | " (short.toList ++ long.toList), v.written, description]) =
      ⟨short, long, Text.spaced [v.written, description]⟩ := by
  have whole : Text.Trimmed (Text.spaced [v.written, description]) :=
    Text.spacedSolid (by simpa using ⟨Text.wordEnds word, Text.trimmedIff.mp trimmed⟩)
  have head : (Text.spaced [v.written, description]).head? = v.written.head? := by
    rw [Text.spacedCons word.filled, List.head?_append_of_ne_nil _ word.filled]
  by_cases given : short.isSome ∨ long.isSome
  · have unbarred : (Text.spaced [v.written, description]).head? ≠ some '|' := by
      rw [head]
      rcases writtenHead back with first | first <;> simp [first]
    rw [Text.spacedCons (switchesFilled spelled solid given), switchesRead spelled solid given whole,
      afterSpelling, if_neg unbarred]
  · obtain ⟨rfl, rfl⟩ : short = none ∧ long = none := by simpa using given
    have undashed : ∀ tail, Text.spaced [v.written, description] ≠ '-' :: tail := by
      intro tail same
      rw [same] at head
      rcases writtenHead back with first | first <;> simp [first] at head
    have skipped : Text.spaced [Text.join " | " [], v.written, description] =
        Text.spaced [v.written, description] := Text.spacedSkips _
    exact (congrArg spellings skipped).trans
      ((congrArg _ whole).trans (takeSpellingsNone none none undashed))

theorem optionTagReads (line : Int) :
    readOption
      (Text.spaced [Text.join " | " (short.toList ++ long.toList), v.written, description]) line =
      .ok (.option ⟨v, short, long, description, line⟩) := by
  have found := optionSpellings spelled solid trimmed back word
  obtain ⟨token, rest⟩ := subjectRead word trimmed
  have present : v.written.isEmpty = false := by simpa using word.filled
  have read : Value.read v.written = .ok v := back
  have filled : (Text.trim (Text.spaced
      [Text.join " | " (short.toList ++ long.toList), v.written, description])).isEmpty = false := by
    rw [List.isEmpty_eq_false_iff]
    intro empty
    rw [spellings, empty, takeSpellingsNone _ _ (by simp)] at found
    have nothing := congrArg Spellings.rest found
    rw [Text.spacedCons word.filled] at nothing
    simp [word.filled] at nothing
  simp only [readOption, filled, found, token, rest, present, read, Bool.false_eq_true, if_false]

end Switched

theorem tagTextReadsBack {r : Record} (good : r.WellFormed) (solid : r.Solid) :
    Record.read r.kind.name r.text r.line = .ok r ↔ r.Unbarred := by
  have solidSubject := solid r.subject List.mem_cons_self
  have solidSwitches : ∀ s ∈ r.switches, ∀ c ∈ s, isBlank c = false := fun s member =>
    solid s (List.mem_cons_of_mem _ member)
  rw [readOwnKind]
  cases r with
  | flag r =>
    obtain ⟨given, spelled⟩ := good.shaped
    exact flagTagReads spelled solidSwitches good.trimmed r.line given
  | option r =>
    obtain ⟨spelled, back⟩ := good.shaped
    have word := writtenWord back solidSubject
    exact iff_of_true (optionTagReads spelled solidSwitches good.trimmed back word r.line) trivial
  | operand r =>
    have back := good.shaped
    have word := writtenWord back solidSubject
    refine iff_of_true ?_ trivial
    simp only [kind, readKind, text, switches, Text.join, Text.spacedSkips]
    exact operandTagReads r.line back word good.trimmed
  | env r | reads r | exit r | sets r | writes r =>
    have token := good.shaped
    refine iff_of_true ?_ trivial
    simp only [kind, readKind, text, switches, Text.join, Text.spacedSkips]
    exact tokenTagReads ⟨token.nonempty, solidSubject⟩ good.trimmed _ _
  | stdin r | stdout r | stderr r | deprecated r =>
    have trimmed := good.trimmed
    refine iff_of_true ?_ trivial
    simp only [kind, readKind, text, switches, subject, Text.join, Text.spacedSkips,
      Text.spacedAlone]
    rw [trimmed]
    rfl

def switchLike : Record :=
  .flag ⟨some "-v", some "--verbose", "--quiet | [x] @exit 1", 7⟩

theorem tagTextReadsBackForSwitchLike :
    switchLike.WellFormed ∧ switchLike.Solid ∧ switchLike.Unbarred ∧
      switchLike.text = "-v | --verbose --quiet | [x] @exit 1" ∧
      Record.read switchLike.kind.name switchLike.text switchLike.line = .ok switchLike := by
  have good : switchLike.WellFormed := by
    refine ⟨⟨Or.inl rfl, ⟨?_, ?_⟩⟩, by decide⟩
    · rintro s ⟨⟩
      exact ⟨by decide, by decide, by decide, by decide⟩
    · rintro s ⟨⟩
      exact ⟨by decide, by decide, by decide⟩
  have solid : switchLike.Solid := by
    simp [switchLike, Solid, subject, switches, isBlank, isAsciiBlank]
  have unbarred : switchLike.Unbarred := by
    simp [switchLike, Unbarred]
  exact ⟨good, solid, unbarred, by decide, (tagTextReadsBack good solid).mpr unbarred⟩

end Record
end ScriptDoc
