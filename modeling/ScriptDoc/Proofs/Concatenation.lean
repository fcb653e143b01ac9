import ScriptDoc.Proofs.LineNumbers

/-! Reading one script after another. A block that opens the second one ends whatever the first one left
open, and from there on the second is read as if it stood alone, further down. -/
namespace ScriptDoc

def Record.moved (n : Nat) (r : Record) : Record := r.atLine (r.line + n)

def Block.moved (n : Nat) (b : Block) : Block :=
  { b with
    line := b.line + n
    flags := b.flags.map fun r => { r with line := r.line + n }
    options := b.options.map fun r => { r with line := r.line + n }
    operands := b.operands.map fun r => { r with line := r.line + n }
    env := b.env.map fun r => { r with line := r.line + n }
    reads := b.reads.map fun r => { r with line := r.line + n }
    stdin := b.stdin.map fun r => { r with line := r.line + n }
    exit := b.exit.map fun r => { r with line := r.line + n }
    stdout := b.stdout.map fun r => { r with line := r.line + n }
    stderr := b.stderr.map fun r => { r with line := r.line + n }
    sets := b.sets.map fun r => { r with line := r.line + n }
    writes := b.writes.map fun r => { r with line := r.line + n }
    deprecated := b.deprecated.map fun r => { r with line := r.line + n } }

def Warning.moved (n : Nat) (w : Warning) : Warning := { w with line := w.line + n }

def TagGroup.moved (n : Nat) (group : TagGroup) : TagGroup := { group with line := group.line + n }

theorem readMoved (n : Nat) (name s : Text) (line : Nat) :
    Record.read name s (line + n : Nat) = (Record.read name s line).map (Record.moved n) := by
  rw [Record.readAtLine, Record.readAtLine name s line]
  cases Record.read name s 0 with
  | error e => rfl
  | ok r => cases r <;> rfl

theorem continuedMoved (n : Nat) (r : Record) (followers : List Text) :
    (r.moved n).continued followers = (r.continued followers).moved n := by
  rw [Record.continuedExtends, Record.continuedExtends]
  split
  · rfl
  · cases r <;> rfl

theorem tagGroupsMoved (n before : Nat) (contents : List Text) :
    tagGroups (before + n) contents = (tagGroups before contents).map (TagGroup.moved n) := by
  induction contents generalizing before with
  | nil => rfl
  | cons content rest ih =>
    have next : before + n + 1 = before + 1 + n := Nat.add_right_comm before n 1
    simp only [tagGroups, next, ih]
    split <;> rfl

theorem tagRecordsMoved (n before : Nat) (contents : List Text) :
    tagRecords (before + n) contents = (tagRecords before contents).map (Record.moved n) := by
  have one : ∀ group : TagGroup, (group.moved n).record? = group.record?.map (Record.moved n) := by
    intro group
    simp only [TagGroup.record?, TagGroup.read, TagGroup.moved, readMoved]
    cases Record.read group.name group.text group.line with
    | error e => rfl
    | ok r => exact congrArg some (continuedMoved n r group.followers)
  rw [tagRecords, tagGroupsMoved, List.filterMap_map, tagRecords, List.map_filterMap]
  exact congrArg (List.filterMap · _) (funext one)

theorem tagWarningsMoved (n before : Nat) (contents : List Text) :
    tagWarnings (before + n) contents = (tagWarnings before contents).map (Warning.moved n) := by
  have one : ∀ group : TagGroup, (group.moved n).warning? = group.warning?.map (Warning.moved n) := by
    intro group
    simp only [TagGroup.warning?, TagGroup.read, TagGroup.moved, readMoved]
    cases Record.read group.name group.text group.line <;> rfl
  rw [tagWarnings, tagGroupsMoved, List.filterMap_map, tagWarnings, List.map_filterMap]
  exact congrArg (List.filterMap · _) (funext one)

theorem attachMoved (n : Nat) (b : Block) (r : Record) :
    (b.attach r).moved n = (b.moved n).attach (r.moved n) := by
  cases r <;> simp [Block.attach, Block.moved, Record.moved, Record.atLine, Record.line]

theorem attachAllMoved (n : Nat) (b : Block) (records : List Record) :
    (records.foldl Block.attach b).moved n =
      (records.map (Record.moved n)).foldl Block.attach (b.moved n) := by
  induction records generalizing b with
  | nil => rfl
  | cons r rest ih => rw [List.foldl_cons, ih, attachMoved, List.map_cons, List.foldl_cons]

theorem documentedMoved (n line : Nat) (keyword extra : Text) (contents : List Text) :
    Block.documented keyword extra (line + n) contents =
      (Block.documented keyword extra line contents).moved n := by
  rw [Block.documented, tagRecordsMoved, ← Block.attachRecords, Block.documented,
    ← Block.attachRecords, attachAllMoved]
  rfl

namespace Segment

def moved (n : Nat) : Segment → Segment
  | .metaValue line tag value => .metaValue (line + n) tag value
  | .metadata tag contents ending => .metadata tag contents (ending + n)
  | .block line keyword extra contents => .block (line + n) keyword extra contents
  | segment => segment

theorem movedWrites (n : Nat) (field : MetaField) (segment : Segment) :
    (segment.moved n).write? field = segment.write? field := by
  cases segment <;> rfl

theorem movedInterpreter (n : Nat) (segment : Segment) :
    (segment.moved n).interpreter? = segment.interpreter? := by
  cases segment <;> rfl

theorem unknownTagMoved (n line : Nat) (tag : Text) :
    unknownTag (line + n) tag = (unknownTag line tag).map (Warning.moved n) := by
  unfold unknownTag
  split <;> rfl

theorem movedWarnings (n : Nat) (segment : Segment) :
    (segment.moved n).warnings = segment.warnings.map (Warning.moved n) := by
  cases segment with
  | metaValue line tag value => exact unknownTagMoved n line tag
  | metadata tag contents ending => exact unknownTagMoved n ending tag
  | block line keyword extra contents => exact tagWarningsMoved n line contents
  | shebang _ | function _ | inert => rfl

theorem pickedMoved {α : Type} {pick : Segment → Option α} (n : Nat)
    (same : ∀ segment : Segment, pick (segment.moved n) = pick segment) (found : List Segment) :
    (found.map (moved n)).filterMap pick = found.filterMap pick := by
  rw [List.filterMap_map]
  exact congrArg (List.filterMap · found) (funext same)

theorem warningsMoved (n : Nat) (found : List Segment) :
    (found.map (moved n)).flatMap warnings = (found.flatMap warnings).map (Warning.moved n) := by
  rw [List.flatMap_map, List.map_flatMap]
  exact congrArg (List.flatMap · found) (funext (movedWarnings n))

theorem declaredMoved (n : Nat) (found : List Segment) :
    declared? (found.map (moved n)) = declared? found := by
  induction found with
  | nil => rfl
  | cons segment rest ih => cases segment <;> first | rfl | exact ih

theorem blocksMoved (n : Nat) (found : List Segment) :
    blocks (found.map (moved n)) = (blocks found).map (Block.moved n) := by
  induction found with
  | nil => rfl
  | cons segment rest ih =>
    cases segment with
    | block line keyword extra contents =>
      simp only [List.map_cons, moved, blocks, declaredMoved, documentedMoved, ih]
      rfl
    | shebang _ | metaValue _ _ _ | metadata _ _ _ | function _ | inert => exact ih

theorem OneLine.moved {line : Nat} {s : Text} {segment : Segment} (n : Nat)
    (one : segment.OneLine line s) : (segment.moved n).OneLine (line + n) s := by
  cases one with
  | shebang shape => exact .shebang shape
  | metaValue shape => exact .metaValue shape
  | function shape declares => exact .function shape declares
  | inert shape declares => exact .inert shape declares

end Segment

theorem runEndMoved (n before : Nat) (lines : List Text) :
    runEnd (before + n) lines =
      ⟨(runEnd before lines).ending + n, (runEnd before lines).after + n,
        (runEnd before lines).rest⟩ := by
  unfold runEnd
  rw [Nat.add_right_comm]
  cases lines.dropWhile continues with
  | nil => rfl
  | cons z rest =>
    simp only [endRun]
    split <;> simp only [Nat.add_right_comm]

theorem segmentsMoved (n before : Nat) (lines : List Text) :
    segments (before + n) lines = (segments before lines).map (Segment.moved n) := by
  refine segmentsInduction (motive := fun before lines found =>
    segments (before + n) lines = found.map (Segment.moved n)) ?_ ?_ ?_ ?_ before lines
  · intro before
    rw [segments]
    rfl
  · intro before s rest segment one ih
    have lower := one.moved n
    rw [Nat.add_right_comm] at lower ih
    rw [segmentsOneLine rest lower, ih]
    rfl
  · intro before s rest tag opens ih
    rw [segmentsMetadata _ rest opens, Nat.add_right_comm, runEndMoved, ih]
    rfl
  · intro before s rest keyword extra opens ih
    rw [segmentsBlock _ rest opens, Nat.add_right_comm, runEndMoved, ih]
    rfl

def advance (state : State) (d : Document) (before : Nat) : List Text → State × Document
  | [] => (state, d)
  | s :: rest =>
    advance (step state s (before + 1 : Nat) d).1 (step state s (before + 1 : Nat) d).2
      (before + 1) rest

theorem readAppend (state : State) (d : Document) (before : Nat) (xs ys : List Text) :
    readPlain state d before (xs ++ ys) =
      readPlain (advance state d before xs).1 (advance state d before xs).2
        (before + xs.length) ys := by
  induction xs generalizing state d before with
  | nil => rfl
  | cons s rest ih =>
    rw [List.cons_append, readPlain, ih, List.length_cons, Nat.add_right_comm, Nat.add_assoc]
    rfl

def readSoFar (lines : List Text) : State × Document := advance .top {} 0 (lines.map dropLineEnd)

theorem ofLinesAppend (xs ys : List Text) :
    Document.ofLines (xs ++ ys) =
      readPlain (readSoFar xs).1 (readSoFar xs).2 xs.length (ys.map dropLineEnd) := by
  rw [Document.ofLines, readFromPlain, List.map_append, readAppend, List.length_map, Nat.zero_add]
  rfl

theorem ofLinesFinish (lines : List Text) :
    Document.ofLines lines = finish (readSoFar lines).1 lines.length (readSoFar lines).2 := by
  have ended := ofLinesAppend lines []
  rwa [List.append_nil] at ended

/- The warning about an unknown tag whose value is still being read when the script ends. -/
def State.endWarnings (line : Nat) : State → List Warning
  | .metadata tag _ => Segment.unknownTag line tag
  | .top | .block _ => []

theorem finishElsewhere (state : State) (here there : Nat) (d : Document) :
    finish state here d =
      { finish state there d with warnings := d.warnings ++ state.endWarnings here } := by
  cases state with
  | top => simp [finish, State.endWarnings]
  | block draft => simp [finish, State.endWarnings, Document.addBlock]
  | metadata tag lines =>
    rcases setMetadataCases d tag (Text.join ['\n'] lines) here with
      ⟨field, same, none, set⟩ | ⟨unknown, warned⟩
    · have found := ofTagExact.mpr same
      simp [finish, Document.setMetadata, found, State.endWarnings, none]
    · have found : MetaField.ofTag? tag = none := by
        cases read : MetaField.ofTag? tag with
        | none => rfl
        | some field => exact absurd (ofTagExact.mp read) (unknown field)
      simp only [finish, State.endWarnings, warned]
      simp [Document.setMetadata, found, Document.warn, Document.withWarnings]

theorem blockMarkKept {s : Text} (marked : ['#', '@', '/'] <+: s) :
    ['#', '@', '/'] <+: dropLineEnd s := by
  have one : ∀ (c : Char) (t : Text), c ≠ '/' → ['#', '@', '/'] <+: t →
      ['#', '@', '/'] <+: if t.getLast? = some c then t.dropLast else t := by
    intro c t other start
    obtain ⟨rest, rfl⟩ := start
    split
    · rename_i last
      cases rest with
      | nil => exact absurd (Option.some.inj last).symm other
      | cons d more => exact ⟨(d :: more).dropLast, rfl⟩
    · exact ⟨rest, rfl⟩
  exact one '\r' _ (by decide) (one '\n' s (by decide) marked)

theorem blockMarkOpens {s : Text} (plain : '\n' ∉ s) (marked : ['#', '@', '/'] <+: s) :
    ∃ keyword extra, TopLine.ofText (dropLineEnd s) = .blockOpen keyword extra := by
  have stripped := dropLineEndPlain plain
  obtain ⟨rest, same⟩ := blockMarkKept marked
  rw [← same] at stripped ⊢
  have plainRest : '\n' ∉ (rest.dropWhile isWordChar).dropWhile isAsciiBlank := fun member =>
    stripped (List.mem_append_right _
      (((List.dropWhile_sublist _).trans (List.dropWhile_sublist _)).subset member))
  refine ⟨rest.takeWhile isWordChar,
    Text.trim ((rest.dropWhile isWordChar).dropWhile isAsciiBlank), ?_⟩
  simp only [List.cons_append, List.nil_append, TopLine.ofText, TopLine.ofBlock,
    restOfPlain plainRest]

theorem openedLater {s keyword extra : Text} (before : Nat) (rest : List Text)
    (opens : TopLine.ofText s = .blockOpen keyword extra) :
    Segment.declared? (segments before (s :: rest)) = none := by
  rw [segmentsBlock before rest opens]
  rfl

theorem laterBlocksReadAlone (xs rest : List Text) {opener : Text} (plain : '\n' ∉ opener)
    (marked : ['#', '@', '/'] <+: opener) :
    let first := Document.ofLines xs
    let second := Document.ofLines (opener :: rest)
    let whole := Document.ofLines (xs ++ opener :: rest)
    let sofar := readSoFar xs
    whole.blocks = first.blocks ++ second.blocks.map (Block.moved xs.length) ∧
    whole.shebang = second.shebang.or first.shebang ∧
    (∀ field, whole.metadata.get field =
      (second.metadata.get field).or (first.metadata.get field)) ∧
    first.warnings = sofar.2.warnings ++ sofar.1.endWarnings xs.length ∧
    whole.warnings = sofar.2.warnings ++ sofar.1.endWarnings (xs.length + 1) ++
      second.warnings.map (Warning.moved xs.length) := by
  intro first second whole sofar
  obtain ⟨keyword, extra, opens⟩ := blockMarkOpens plain marked
  obtain ⟨unclosed, interrupts⟩ := blockOpenInterrupts opens
  have ended : first = finish sofar.1 xs.length sofar.2 := ofLinesFinish xs
  have alone : second = interpret (segments 0 ((opener :: rest).map dropLineEnd)) :=
    readingInterpretsSegments _
  have joined : whole = ((segments 0 ((opener :: rest).map dropLineEnd)).map
      (Segment.moved xs.length)).foldl Segment.apply
        { first with
          warnings := sofar.2.warnings ++ sofar.1.endWarnings (xs.length + 1) } := by
    rw [ended, ← finishElsewhere, ← segmentsMoved, ← readSegments, Nat.zero_add]
    exact (ofLinesAppend xs (opener :: rest)).trans
      (readInterrupted _ _ _ _ unclosed interrupts)
  have unbound : Segment.declared? (segments 0 ((opener :: rest).map dropLineEnd)) = none :=
    openedLater 0 _ opens
  refine ⟨?_, ?_, fun field => ?_, ?_, ?_⟩
  · rw [joined, allBlocks, Segment.declaredMoved, unbound, Segment.blocksMoved, alone]
    rfl
  · rw [joined, lastWrite Document.shebang Segment.interpreter? applyShebang,
      Segment.pickedMoved _ (Segment.movedInterpreter _), alone]
    rfl
  · have last := lastWrite (fun d => d.metadata.get field) _ (applyWrites field)
    rw [joined, last, Segment.pickedMoved _ (Segment.movedWrites _ field), alone, interpret,
      ofFieldsGet]
  · rw [ended, finishElsewhere _ _ xs.length]
  · rw [joined, allWarnings, Segment.warningsMoved, alone]
    rfl

theorem laterBlocksReadAloneForCommand :
    ('\n' ∉ "#@/command".toList ∧ ['#', '@', '/'] <+: "#@/command".toList) ∧
    (readSoFar ["f()".toList, "#?/nmae".toList, " # x".toList]).1.endWarnings 4 =
      [⟨4, "unknown shedoc tag: #?/nmae".toList⟩] ∧
    (Document.ofLines (["f()".toList, "#?/nmae".toList, " # x".toList] ++
        "#@/command".toList :: [" # @exit".toList, "g()".toList])).warnings =
      (readSoFar ["f()".toList, "#?/nmae".toList, " # x".toList]).2.warnings ++
        (readSoFar ["f()".toList, "#?/nmae".toList, " # x".toList]).1.endWarnings 4 ++
        (Document.ofLines ("#@/command".toList :: [" # @exit".toList, "g()".toList])).warnings.map
          (Warning.moved 3) :=
  ⟨⟨by decide, by decide⟩, by decide,
    (laterBlocksReadAlone ["f()".toList, "#?/nmae".toList, " # x".toList]
      [" # @exit".toList, "g()".toList] (by decide) (by decide)).2.2.2.2⟩

end ScriptDoc
