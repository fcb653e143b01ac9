import ScriptDoc.Proofs.TagBlanks

/-! Metadata values of several lines are kept as they were written. Behind the mark of a continuing
line nothing has a meaning, so a value may hold lines that would close it, open a block or declare a
function anywhere else. All that is lost is a carriage return at the end of a line. -/
namespace ScriptDoc

def marked (line : Text) : Text := " # " ++ line

def closer : Text := " ##"

def valueScript (field : MetaField) (v : Text) : List Text :=
  tagLine field.tag :: ((Text.splitOn '\n' v).map marked ++ [closer])

theorem splitLines (v : Text) : Text.splitOn '\n' v ≠ [] ∧
    (∀ line ∈ Text.splitOn '\n' v, '\n' ∉ line) ∧ Text.join ['\n'] (Text.splitOn '\n' v) = v := by
  induction v using lineInduction with
  | last s plain =>
    rw [Text.splitOnWhole plain]
    exact ⟨by simp, by simpa using plain, rfl⟩
  | next line rest plain ih =>
    obtain ⟨more, later, joined⟩ := ih
    rw [Text.splitOnFirst plain, Text.joinCons _ _ more, joined]
    exact ⟨by simp, by simpa using ⟨plain, later⟩, by simp⟩

theorem dropPlain {line : Text} (plain : '\n' ∉ line) :
    dropLineEnd line = line ↔ line.getLast? ≠ some '\r' := by
  constructor
  · intro same last
    obtain ⟨front, rfl⟩ := List.getLast?_eq_some_iff.mp last
    have shorter := congrArg List.length same
    simp [dropLineEnd] at shorter
  · intro kept
    rcases carriageReturn plain with same | ended
    · exact same
    · rw [ended] at kept
      simp at kept

theorem markedPlain {line : Text} (plain : '\n' ∉ line) : '\n' ∉ marked line := by
  simp [marked, plain]

theorem dropMarked {line : Text} (plain : '\n' ∉ line) :
    dropLineEnd (marked line) = marked (dropLineEnd line) := by
  rcases carriageReturn plain with same | ended
  · rw [same, dropPlain (markedPlain plain)]
    have kept := (dropPlain plain).mp same
    cases line with
    | nil => decide
    | cons c rest => rwa [marked, List.getLast?_append_of_ne_nil _ (by simp)]
  · have whole : marked line = marked (dropLineEnd line) ++ ['\r'] := by
      rw [marked, marked, List.append_assoc, ← ended]
    rw [whole]
    simp [dropLineEnd]

theorem markedContinues {content : Text} (plain : '\n' ∉ content) :
    isClose (marked content) = false ∧ continuation? (marked content) = some content :=
  ⟨rfl, restOfPlain plain⟩

theorem markedRun (before : Nat) (rest : List Text) {contents : List Text}
    (plain : ∀ content ∈ contents, '\n' ∉ content) :
    runContents (contents.map marked ++ closer :: rest) = contents ∧
    (runEnd before (contents.map marked ++ closer :: rest)).rest = rest := by
  induction contents generalizing before with
  | nil =>
    obtain ⟨nothing, stop⟩ := runStops before rest (s := closer) (by decide)
    rw [List.map_nil, List.nil_append, nothing, stop]
    exact ⟨rfl, rfl⟩
  | cons content more ih =>
    obtain ⟨unclosed, found⟩ := markedContinues (plain content List.mem_cons_self)
    obtain ⟨contents, ending⟩ := ih (before + 1) fun c member =>
      plain c (List.mem_cons_of_mem _ member)
    obtain ⟨first, same⟩ := runContinues before (more.map marked ++ closer :: rest) unclosed found
    rw [List.map_cons, List.cons_append, first, same, contents]
    exact ⟨rfl, ending⟩

theorem tagWord (field : MetaField) : field.tag ≠ [] ∧ ∀ c ∈ field.tag, isWordChar c = true := by
  cases field <;> exact ⟨by decide, List.all_eq_true.mp (by decide)⟩

def keptLines (v : Text) : List Text := (Text.splitOn '\n' v).map dropLineEnd

theorem keptLinesPlain (v : Text) : ∀ line ∈ keptLines v, '\n' ∉ line := by
  intro kept member
  obtain ⟨line, inside, rfl⟩ := List.mem_map.mp member
  exact dropLineEndPlain ((splitLines v).2.1 line inside)

theorem keptLinesSame (v : Text) :
    keptLines v = Text.splitOn '\n' v ↔
      ∀ line ∈ Text.splitOn '\n' v, line.getLast? ≠ some '\r' := by
  have plain := (splitLines v).2.1
  have each : keptLines v = (Text.splitOn '\n' v).map id ↔
      ∀ line ∈ Text.splitOn '\n' v, dropLineEnd line = line := List.map_inj_left
  rw [List.map_id] at each
  rw [each]
  exact forall₂_congr fun line member => dropPlain (plain line member)

theorem keptVerbatim (v : Text) :
    Text.join ['\n'] (keptLines v) = v ↔
      ∀ line ∈ Text.splitOn '\n' v, line.getLast? ≠ some '\r' := by
  obtain ⟨some, _, joined⟩ := splitLines v
  rw [← keptLinesSame]
  constructor
  · intro same
    have lines := Text.splitOnJoin (by simpa [keptLines] using some) (keptLinesPlain v)
    rw [same] at lines
    exact lines.symm
  · intro same
    rw [same, joined]

theorem valueScriptReads (xs : List Text) (field : MetaField) (v : Text) :
    Document.ofLines (xs ++ valueScript field v) =
      { readUpTo xs with
        metadata := (readUpTo xs).metadata.set (Text.join ['\n'] (keptLines v)) field } := by
  obtain ⟨named, word⟩ := tagWord field
  have stripped : ((Text.splitOn '\n' v).map marked ++ [closer]).map dropLineEnd =
      (keptLines v).map marked ++ [closer] := by
    rw [List.map_append, keptLines, List.map_map, List.map_map]
    congr 1
    exact List.map_congr_left fun line member => dropMarked ((splitLines v).2.1 line member)
  obtain ⟨contents, rest⟩ := markedRun (xs.length + 1) [] (keptLinesPlain v)
  have unpadded : ∀ c ∈ ([] : Text), isPadding c = true := by simp
  have read := openedReads xs ((Text.splitOn '\n' v).map marked ++ [closer]) named word unpadded
    (Nat.zero_le 1)
  rw [List.append_nil, stripped, contents, rest] at read
  refine read.trans ?_
  simp only [readAfterWrite, readPlain, finish, Document.setMetadata, ofTagExact.mpr rfl]

theorem readUpToAlone (xs : List Text) :
    (readUpTo xs).path = (Document.ofLines xs).path ∧
    (readUpTo xs).shebang = (Document.ofLines xs).shebang ∧
    (readUpTo xs).metadata = (Document.ofLines xs).metadata ∧
    (readUpTo xs).blocks = (Document.ofLines xs).blocks := by
  rw [readUpTo, finishElsewhere _ _ xs.length, ← ofLinesFinish]
  exact ⟨rfl, rfl, rfl, rfl⟩

theorem valuesReadVerbatim (xs : List Text) (field : MetaField) (v : Text) :
    let alone := Document.ofLines xs
    let whole := Document.ofLines (xs ++ valueScript field v)
    (whole.metadata.get field = some v ↔
      ∀ line ∈ Text.splitOn '\n' v, line.getLast? ≠ some '\r') ∧
    (∀ other, other ≠ field → whole.metadata.get other = alone.metadata.get other) ∧
    whole.path = alone.path ∧ whole.shebang = alone.shebang ∧ whole.blocks = alone.blocks ∧
    ∀ z, '\n' ∉ dropLineEnd z → Ends (dropLineEnd z) →
      whole.warnings = (Document.ofLines (xs ++ [z])).warnings := by
  intro alone whole
  have read : whole = _ := valueScriptReads xs field v
  obtain ⟨path, shebang, metadata, blocks⟩ := readUpToAlone xs
  rw [read]
  refine ⟨?_, fun other different => ?_, path, shebang, blocks, fun z plain ends => ?_⟩
  · rw [setGet, if_pos rfl, Option.some.injEq]
    exact keptVerbatim v
  · rw [setGet, if_neg different.symm, metadata]
  · rw [endingReads xs plain ends]
    rfl

/- Lines that close, open, declare, interpret and tag, and one that is empty. -/
def imitation : Text := " ##\n#@/command\n\nf()\n#!/bin/sh\n # @exit "

def openedFront : List Text := ["#@/command", " # @exit"]

theorem valuesReadVerbatimForImitation :
    (∀ line ∈ Text.splitOn '\n' imitation, line.getLast? ≠ some '\r') ∧
    ('\n' ∉ dropLineEnd "echo" ∧ Ends (dropLineEnd "echo")) ∧
    (Document.ofLines (openedFront ++ valueScript .description imitation)).metadata.description =
      some imitation ∧
    (Document.ofLines (openedFront ++ valueScript .description imitation)).blocks =
      (Document.ofLines openedFront).blocks ∧
    (Document.ofLines (openedFront ++ valueScript .description imitation)).warnings =
      (Document.ofLines (openedFront ++ ["echo".toList])).warnings := by
  have unended : ∀ line ∈ Text.splitOn '\n' imitation, line.getLast? ≠ some '\r' := by decide
  have plain : '\n' ∉ dropLineEnd "echo" := by decide
  have ends : Ends (dropLineEnd "echo") := by
    refine Or.inr ⟨fun content shape => ?_, otherShape plain rfl, rfl⟩
    simp [Continuation, dropLineEnd] at shape
  obtain ⟨verbatim, _, _, _, blocks, warned⟩ :=
    valuesReadVerbatim openedFront .description imitation
  exact ⟨unended, ⟨plain, ends⟩, verbatim.mpr unended, blocks, warned _ plain ends⟩

end ScriptDoc
