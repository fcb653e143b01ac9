import ScriptDoc.Proofs.Endings
import ScriptDoc.Proofs.LineEndings

/-! Blanks behind the tag of a metadata line. One of them changes nothing: the line opens a value, and
the lines that continue it become the value. From the second one on the last blank counts as a value,
which is empty once it is trimmed, and the lines below are left without a meaning. -/
namespace ScriptDoc

def tagLine (tag : Text) : Text := "#?/" ++ tag

def isPadding (c : Char) : Bool := c = ' ' || c = '\t'

section Line
variable {tag padding : Text} (named : tag ≠ []) (word : ∀ c ∈ tag, isWordChar c = true)
  (blank : ∀ c ∈ padding, isPadding c = true)
include blank

theorem paddingBlank : ∀ c ∈ padding, isAsciiBlank c = true := by
  intro c member
  have either := blank c member
  simp only [isPadding, Bool.or_eq_true, decide_eq_true_eq] at either
  rcases either with rfl | rfl
  · rfl
  · rfl

include word

theorem tagLineBare : '\n' ∉ tagLine tag ++ padding ∧ '\r' ∉ tagLine tag ++ padding := by
  have bare (c : Char) (mark : c ∉ "#?/".toList) (other : isWordChar c = false)
      (solid : isPadding c = false) : c ∉ tagLine tag ++ padding := by
    intro member
    rcases List.mem_append.mp member with inTag | inPadding
    · rcases List.mem_append.mp inTag with inMark | inWord
      · exact mark inMark
      · exact absurd (word c inWord) (by simp [other])
    · exact absurd (blank c inPadding) (by simp [solid])
  exact ⟨bare '\n' (by decide) rfl rfl, bare '\r' (by decide) rfl rfl⟩

include named

theorem tagLineOpens (few : padding.length ≤ 1) :
    TopLine.ofText (tagLine tag ++ padding) = .metaOpen tag := by
  have blanks := paddingBlank blank
  have stop : ∀ c, padding.head? = some c → isWordChar c = false := fun c head =>
    Text.asciiBlankNotWord (blanks c (List.mem_of_head? head))
  refine metaOpenReads (tagLineBare word blank).1 ⟨padding, rfl, named, word, blanks⟩ ?_
  -- A value needs a blank before it and a character of its own.
  rintro other value ⟨gap, same, _, wordOther, filled, blankGap, nonempty⟩
  have whole : tag ++ padding = other ++ (gap ++ value) := by
    simpa [tagLine] using same
  have rest := congrArg (List.dropWhile isWordChar) whole
  rw [Text.dropRun word stop, Text.dropRun wordOther (blankStopsWord value filled blankGap)] at rest
  have gapLength := List.length_pos_iff.mpr filled
  have valueLength := List.length_pos_iff.mpr nonempty
  rw [rest, List.length_append] at few
  omega

theorem tagLineEmptyValue (many : 2 ≤ padding.length) :
    TopLine.ofText (tagLine tag ++ padding) = .metaValue tag [] := by
  have blanks := paddingBlank blank
  obtain ⟨first, more, rfl⟩ := List.exists_cons_of_length_pos (Nat.lt_of_lt_of_le Nat.zero_lt_two many)
  have filled : more ≠ [] := by
    rintro rfl
    simp at many
  have trimmed : Text.trim more = [] := by
    have skipped := Text.trimBlanksBefore [] fun c member => blanks c (List.mem_cons_of_mem _ member)
    rwa [List.append_nil] at skipped
  rw [← trimmed]
  exact metaValueReads (tagLineBare word blank).1
    ⟨[first], by simp [tagLine], named, word, by simp, by simpa using blanks first (by simp), filled⟩

end Line

theorem continuesOutside {s : Text} (continuing : continues s = true) (line : Int) (d : Document) :
    stepTop s line d = (.top, d) := by
  obtain ⟨_, content, found⟩ := continuesExact.mp continuing
  have meaningless : TopLine.ofText s = .other := by
    by_contra means
    rw [(meaningInterrupts means).2] at found
    contradiction
  have undeclared : functionName? s = none := by
    unfold continuation? at found
    split at found
    · rfl
    · rfl
    · contradiction
  simp only [stepTop, meaningless, undeclared]

theorem runOutside (d : Document) (before : Nat) (body tail : List Text)
    (continuing : ∀ s ∈ body, continues s = true) :
    readPlain .top d before (body ++ tail) = readPlain .top d (before + body.length) tail := by
  induction body generalizing before with
  | nil => rfl
  | cons s rest ih =>
    have first : step .top s (before + 1 : Nat) d = (.top, d) :=
      continuesOutside (continuing s (by simp)) _ d
    rw [List.cons_append, readPlain, first,
      ih (before + 1) fun t member => continuing t (List.mem_cons_of_mem _ member)]
    rw [List.length_cons, Nat.add_right_comm, Nat.add_assoc]

theorem runEndOutside (d : Document) (before : Nat) (lines : List Text) :
    readPlain .top d before lines =
      readPlain .top d (runEnd before lines).after (runEnd before lines).rest := by
  obtain ⟨whole, continuing, _⟩ := runParts lines
  have read := runOutside d before _ (lines.dropWhile continues) continuing
  rw [← whole] at read
  rw [read, runEnd]
  cases lines.dropWhile continues with
  | nil => rfl
  | cons z rest =>
    cases closed : isClose z with
    | true =>
      have first (line : Int) : step .top z line d = (.top, d) := closeOutside closed line d
      simp only [endRun, closed, if_true, readPlain, first]
    | false => simp only [endRun, closed, Bool.false_eq_true, if_false]

section Write
variable (d : Document) (tag value : Text) (line before : Nat) (lines : List Text)

def readAfterWrite : Document := readPlain .top (d.setMetadata tag value line) before lines

theorem writeElsewhere (other : Text) (there : Nat) :
    (readAfterWrite d tag value line before lines).path =
      (readAfterWrite d tag other there before lines).path ∧
    (readAfterWrite d tag value line before lines).shebang =
      (readAfterWrite d tag other there before lines).shebang ∧
    (readAfterWrite d tag value line before lines).blocks =
      (readAfterWrite d tag other there before lines).blocks := by
  obtain ⟨path, shebang, blocks⟩ := setMetadataElse d tag value line
  obtain ⟨otherPath, otherShebang, otherBlocks⟩ := setMetadataElse d tag other there
  unfold readAfterWrite
  rw [readSegments, readSegments]
  refine ⟨?_, ?_, ?_⟩
  · rw [samePath, samePath, path, otherPath]
  · rw [lastWrite Document.shebang _ applyShebang, lastWrite Document.shebang _ applyShebang, shebang,
      otherShebang]
  · rw [allBlocks, allBlocks, blocks, otherBlocks]

theorem writeSeen (field : MetaField) :
    (readAfterWrite d tag value line before lines).metadata.get field =
      ((segments before lines).filterMap (Segment.write? field)).getLast?.or
        (if tag = field.tag then some value else d.metadata.get field) := by
  rw [readAfterWrite, readSegments, lastWrite (fun d => d.metadata.get field) _ (applyWrites field),
    setMetadataGet]
  split
  · rfl
  · rfl

theorem writeWarned :
    (readAfterWrite d tag value line before lines).warnings =
      d.warnings ++ Segment.unknownTag line tag ++
        (segments before lines).flatMap Segment.warnings := by
  rw [readAfterWrite, readSegments, allWarnings, setMetadataWarnings]

end Write

def readUpTo (xs : List Text) : Document :=
  finish (readSoFar xs).1 (xs.length + 1 : Nat) (readSoFar xs).2

section Script
variable (xs ys : List Text) {tag padding : Text} (named : tag ≠ [])
  (word : ∀ c ∈ tag, isWordChar c = true) (blank : ∀ c ∈ padding, isPadding c = true)
include named word blank

theorem tagLineInterrupts :
    Document.ofLines (xs ++ (tagLine tag ++ padding) :: ys) =
      readPlain .top (readUpTo xs) xs.length
        ((tagLine tag ++ padding) :: ys.map dropLineEnd) := by
  have bare := tagLineBare word blank
  have means : TopLine.ofText (tagLine tag ++ padding) ≠ .other := by
    rcases Nat.lt_or_ge 1 padding.length with many | few
    · simp [tagLineEmptyValue named word blank many]
    · simp [tagLineOpens named word blank few]
  obtain ⟨unclosed, interrupts⟩ := meaningInterrupts means
  rw [ofLinesAppend, List.map_cons, dropBare bare]
  exact readInterrupted _ _ _ _ unclosed interrupts

theorem openedReads (few : padding.length ≤ 1) :
    Document.ofLines (xs ++ (tagLine tag ++ padding) :: ys) =
      readAfterWrite (readUpTo xs) tag (Text.join ['\n'] (runContents (ys.map dropLineEnd)))
        (runEnd (xs.length + 1) (ys.map dropLineEnd)).ending
        (runEnd (xs.length + 1) (ys.map dropLineEnd)).after
        (runEnd (xs.length + 1) (ys.map dropLineEnd)).rest := by
  rw [tagLineInterrupts xs ys named word blank, readPlain]
  simp only [step, stepTop, tagLineOpens named word blank few]
  exact readMetadataRun tag _ _ _

theorem emptyValueReads (many : 2 ≤ padding.length) :
    Document.ofLines (xs ++ (tagLine tag ++ padding) :: ys) =
      readAfterWrite (readUpTo xs) tag [] (xs.length + 1)
        (runEnd (xs.length + 1) (ys.map dropLineEnd)).after
        (runEnd (xs.length + 1) (ys.map dropLineEnd)).rest := by
  rw [tagLineInterrupts xs ys named word blank, readPlain]
  simp only [step, stepTop, tagLineEmptyValue named word blank many]
  exact runEndOutside _ _ _

end Script

theorem tagBlanksDecide (xs ys : List Text) {tag padding : Text} (named : tag ≠ [])
    (word : ∀ c ∈ tag, isWordChar c = true) (blank : ∀ c ∈ padding, isPadding c = true) :
    let plain := Document.ofLines (xs ++ tagLine tag :: ys)
    let padded := Document.ofLines (xs ++ (tagLine tag ++ padding) :: ys)
    let below := ys.map dropLineEnd
    let stop := runEnd (xs.length + 1) below
    let later := segments stop.after stop.rest
    (∀ field : MetaField, tag = field.tag → plain.metadata.get field =
      some ((later.filterMap (Segment.write? field)).getLast?.getD
        (Text.join ['\n'] (runContents below)))) ∧
    (padding.length ≤ 1 → padded = plain) ∧
    (2 ≤ padding.length →
      padded.path = plain.path ∧ padded.shebang = plain.shebang ∧ padded.blocks = plain.blocks ∧
      (∀ field : MetaField, padded.metadata.get field =
        if tag = field.tag then some ((later.filterMap (Segment.write? field)).getLast?.getD [])
        else plain.metadata.get field) ∧
      ∃ earlier,
        plain.warnings = earlier ++ Segment.unknownTag stop.ending tag ++
          later.flatMap Segment.warnings ∧
        padded.warnings = earlier ++ Segment.unknownTag (xs.length + 1) tag ++
          later.flatMap Segment.warnings) := by
  intro plain padded below stop later
  have opened : plain = readAfterWrite (readUpTo xs) tag (Text.join ['\n'] (runContents below))
      stop.ending stop.after stop.rest := by
    have unpadded : ∀ c ∈ ([] : Text), isPadding c = true := by simp
    have read := openedReads xs ys named word unpadded (Nat.zero_le 1)
    rwa [List.append_nil] at read
  refine ⟨fun field same => ?_, fun few => ?_, fun many => ?_⟩
  · rw [opened, writeSeen, if_pos same]
    exact Option.or_some
  · rw [opened]
    exact openedReads xs ys named word blank few
  · have emptied := emptyValueReads xs ys named word blank many
    obtain ⟨path, shebang, blocks⟩ := writeElsewhere (readUpTo xs) tag [] (xs.length + 1) stop.after
      stop.rest (Text.join ['\n'] (runContents below)) stop.ending
    rw [opened, show padded = _ from emptied]
    refine ⟨path, shebang, blocks, fun field => ?_, _, writeWarned .., writeWarned ..⟩
    rw [writeSeen, writeSeen]
    split
    · exact Option.or_some
    · rfl

def describedFront : List Text := ["#!/bin/sh"]

def describedBelow : List Text := [" # Deploys.", " # Quickly.", " ##", "#@/command"]

theorem tagBlanksDecideForDescription :
    (∀ c ∈ "description".toList, isWordChar c = true) ∧ (∀ c ∈ "\t".toList, isPadding c = true) ∧
    Document.ofLines (describedFront ++ (tagLine "description" ++ "\t") :: describedBelow) =
      Document.ofLines (describedFront ++ tagLine "description" :: describedBelow) ∧
    (Document.ofLines (describedFront ++ (tagLine "description" ++ "  ") :: describedBelow)).blocks =
      (Document.ofLines (describedFront ++ tagLine "description" :: describedBelow)).blocks := by
  have word : ∀ c ∈ "description".toList, isWordChar c = true := by simp [isWordChar]
  have tab : ∀ c ∈ "\t".toList, isPadding c = true := by simp [isPadding]
  have spaces : ∀ c ∈ "  ".toList, isPadding c = true := by simp [isPadding]
  have one := tagBlanksDecide describedFront describedBelow (by simp) word tab
  have two := tagBlanksDecide describedFront describedBelow (by simp) word spaces
  exact ⟨word, tab, one.2.1 (by simp), (two.2.2 (by simp)).2.2.1⟩

theorem paddedValueLost :
    (Document.ofLines [tagLine "description", " # Deploys.", " ##"]).metadata.description =
      some "Deploys.".toList ∧
    (Document.ofLines [tagLine "description" ++ "  ", " # Deploys.", " ##"]).metadata.description =
      some [] ∧
    Document.ofLines [tagLine "description" ++ "  ", " # Deploys.", " ##"] ≠
      Document.ofLines [tagLine "description", " # Deploys.", " ##"] := by
  refine ⟨?_, ?_, ?_⟩
  · decide +kernel
  · decide +kernel
  · decide +kernel

end ScriptDoc
