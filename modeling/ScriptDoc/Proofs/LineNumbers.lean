import Mathlib.Data.List.Perm.Subperm
import ScriptDoc.Proofs.WellFormed

/-! The line numbers of a document point into the script, in the order of its lines. Records are
attached later than they are read and blocks later than they are opened; the segments say where each of
them stands, whenever the machine got round to it. -/
namespace ScriptDoc

namespace Record

def line : Record → Int
  | .flag r => r.line
  | .option r => r.line
  | .operand r => r.line
  | .env r => r.line
  | .reads r => r.line
  | .stdin r => r.line
  | .exit r => r.line
  | .stdout r => r.line
  | .stderr r => r.line
  | .sets r => r.line
  | .writes r => r.line
  | .deprecated r => r.line

def atLine (line : Int) : Record → Record
  | .flag r => .flag { r with line }
  | .option r => .option { r with line }
  | .operand r => .operand { r with line }
  | .env r => .env { r with line }
  | .reads r => .reads { r with line }
  | .stdin r => .stdin { r with line }
  | .exit r => .exit { r with line }
  | .stdout r => .stdout { r with line }
  | .stderr r => .stderr { r with line }
  | .sets r => .sets { r with line }
  | .writes r => .writes { r with line }
  | .deprecated r => .deprecated { r with line }

theorem lineAtLine (line : Int) (r : Record) : (r.atLine line).line = line := by
  cases r <;> rfl

theorem continuedLine (r : Record) (followers : List Text) :
    (r.continued followers).line = r.line := by
  rw [continuedExtends]
  split
  · rfl
  · cases r <;> rfl

theorem readKindAtLine (s : Text) (line : Int) (kind : TagKind) :
    readKind s line kind = (readKind s 0 kind).map (atLine line) := by
  cases kind with
  | flag =>
    simp only [readKind, readFlag]
    split <;> rfl
  | option =>
    simp only [readKind, readOption]
    split
    · rfl
    · split
      · rfl
      · cases Value.read (firstToken (spellings s).rest).1 <;> rfl
  | operand =>
    simp only [readKind, readOperand]
    split
    · rfl
    · cases Value.read (firstToken s).1 <;> rfl
  | env | reads | exit | sets | writes =>
    simp only [readKind]
    generalize requireToken _ s = found
    cases found <;> rfl
  | stdin | stdout | stderr | deprecated => rfl

theorem readAtLine (name s : Text) (line : Int) :
    Record.read name s line = (Record.read name s 0).map (atLine line) := by
  unfold Record.read
  split
  · exact readKindAtLine s line _
  · rfl

theorem readLine {name s : Text} {line : Int} {r : Record} (ok : Record.read name s line = .ok r) :
    r.line = line := by
  rw [readAtLine] at ok
  cases found : Record.read name s 0 with
  | error e => simp [found, Except.map] at ok
  | ok first =>
    rw [found] at ok
    cases ok
    exact lineAtLine line first

end Record

structure Ordered (order : Int → Int → Prop) (low high : Int) (lines : List Int) : Prop where
  sorted : lines.Pairwise order
  bounded : ∀ line ∈ lines, low < line ∧ line ≤ high

theorem Ordered.sublist {order : Int → Int → Prop} {low high : Int} {few many : List Int}
    (ordered : Ordered order low high many) (part : few.Sublist many) : Ordered order low high few :=
  ⟨ordered.sorted.sublist part, fun line member => ordered.bounded line (part.subset member)⟩

theorem linesKept {α β : Type} (pick : α → Option β) (here : α → Int) (there : β → Int)
    (kept : ∀ a b, pick a = some b → there b = here a) (items : List α) :
    ((items.filterMap pick).map there).Sublist (items.map here) := by
  induction items with
  | nil => exact List.Sublist.slnil
  | cons item rest ih =>
    cases picked : pick item with
    | none =>
      rw [List.filterMap_cons_none picked]
      exact ih.cons _
    | some found =>
      rw [List.filterMap_cons_some picked, List.map_cons, List.map_cons, kept item found picked]
      exact ih.cons_cons _

theorem tagGroupsAscend (before : Nat) (contents : List Text) :
    Ordered (· < ·) before (before + contents.length)
      ((tagGroups before contents).map fun group => (group.line : Int)) := by
  induction contents generalizing before with
  | nil => exact ⟨.nil, by simp [tagGroups]⟩
  | cons content rest ih =>
    obtain ⟨sorted, bounded⟩ := ih (before + 1)
    have later : ∀ line ∈ (tagGroups (before + 1) rest).map fun group => (group.line : Int),
        (before + 1 : Int) < line ∧ line ≤ before + (content :: rest).length := by
      intro line member
      have bounds := bounded line member
      simp only [List.length_cons]
      omega
    simp only [tagGroups]
    split
    · rw [List.map_cons]
      refine ⟨List.pairwise_cons.mpr ⟨fun line member => ?_, sorted⟩,
        List.forall_mem_cons.mpr ⟨?_, fun line member => ?_⟩⟩
      · have := later line member
        simp only
        omega
      · simp only [List.length_cons]
        omega
      · have := later line member
        omega
    · refine ⟨sorted, fun line member => ?_⟩
      have := later line member
      omega

theorem tagRecordsAscend (before : Nat) (contents : List Text) :
    Ordered (· < ·) before (before + contents.length) ((tagRecords before contents).map Record.line) := by
  refine (tagGroupsAscend before contents).sublist (linesKept _ _ _ (fun group r found => ?_) _)
  unfold TagGroup.record? at found
  split at found
  · rename_i read ok
    cases Option.some.inj found
    rw [Record.continuedLine]
    exact Record.readLine ok
  · contradiction

theorem tagWarningsAscend (before : Nat) (contents : List Text) :
    Ordered (· < ·) before (before + contents.length)
      ((tagWarnings before contents).map Warning.line) := by
  refine (tagGroupsAscend before contents).sublist (linesKept _ _ _ (fun group w found => ?_) _)
  unfold TagGroup.warning? at found
  split at found
  · contradiction
  · cases Option.some.inj found
    rfl

namespace Block

structure FieldsAscend (b : Block) : Prop where
  flags : (b.flags.map Flag.line).Pairwise (· < ·)
  options : (b.options.map Opt.line).Pairwise (· < ·)
  operands : (b.operands.map Operand.line).Pairwise (· < ·)
  env : (b.env.map Variable.line).Pairwise (· < ·)
  reads : (b.reads.map FileUse.line).Pairwise (· < ·)
  exit : (b.exit.map ExitStatus.line).Pairwise (· < ·)
  sets : (b.sets.map Variable.line).Pairwise (· < ·)
  writes : (b.writes.map FileUse.line).Pairwise (· < ·)

theorem documentedAscends (keyword extra : Text) (line : Nat) (contents : List Text)
    (function : Option Text) :
    { Block.documented keyword extra line contents with functionName := function }.FieldsAscend := by
  have sorted := (tagRecordsAscend line contents).sorted
  constructor <;>
  · refine sorted.sublist (linesKept _ Record.line _ (fun record r same => ?_) _)
    split at same <;> cases same
    rfl

theorem attachSubperm (b : Block) (r : Record) : (b.attach r).records.Subperm (r :: b.records) := by
  apply List.subperm_iff_count.mpr
  intro other
  cases r <;> simp [attach, records, List.count_append, List.count_cons] <;> omega

theorem attachAllSubperm (b : Block) (records : List Record) :
    (records.foldl attach b).records.Subperm (records ++ b.records) := by
  induction records generalizing b with
  | nil => exact List.Subperm.refl _
  | cons r rest ih =>
    have moved : (rest ++ r :: b.records).Perm (r :: rest ++ b.records) := List.perm_middle
    exact (ih (b.attach r)).trans
      (((List.subperm_append_left rest).mpr (b.attachSubperm r)).trans moved.subperm)

theorem documentedSubperm (keyword extra : Text) (line : Nat) (contents : List Text)
    (function : Option Text) :
    { Block.documented keyword extra line contents with functionName := function }.records.Subperm
      (tagRecords line contents) := by
  have attached := attachAllSubperm
    { opened keyword extra line with description := Text.join ['\n'] (leadingText contents) }
    (tagRecords line contents)
  have none : { opened keyword extra line with
      description := Text.join ['\n'] (leadingText contents) }.records = [] := rfl
  rw [attachRecords, none, List.append_nil] at attached
  exact attached

theorem documentedDistinct (keyword extra : Text) (line : Nat) (contents : List Text)
    (function : Option Text) :
    ({ Block.documented keyword extra line contents with
      functionName := function }.records.map Record.line).Nodup := by
  obtain ⟨some, same, part⟩ := documentedSubperm keyword extra line contents function
  have distinct : ((tagRecords line contents).map Record.line).Nodup :=
    (tagRecordsAscend line contents).sorted.imp Int.ne_of_lt
  exact (same.map Record.line).nodup_iff.mp (distinct.sublist (part.map Record.line))

theorem documentedLine (keyword extra : Text) (line : Nat) (contents : List Text)
    (function : Option Text) :
    { Block.documented keyword extra line contents with functionName := function }.line =
      (line : Int) := rfl

theorem documentedBetween {keyword extra : Text} {line : Nat} {contents : List Text}
    {function : Option Text} {r : Record}
    (held : r ∈ { Block.documented keyword extra line contents with
      functionName := function }.records) :
    line < r.line ∧ r.line ≤ line + contents.length :=
  (tagRecordsAscend line contents).bounded _
    (List.mem_map_of_mem (documentedHolds (memRecords.mp held)))

end Block

inductive Placed (last : Int) : Int → List Block → Prop where
  | nil (before) : Placed last before []
  | cons {before after b rest} (below : before < b.line) (span : b.line ≤ after)
      (records : ∀ r ∈ b.records, b.line < r.line ∧ r.line ≤ after) (above : after ≤ last)
      (next : Placed last after rest) : Placed last before (b :: rest)

theorem placedEarlier {last before earlier : Int} {blocks : List Block} (order : earlier ≤ before)
    (placed : Placed last before blocks) : Placed last earlier blocks := by
  cases placed with
  | nil => exact .nil earlier
  | cons below span records above next => exact .cons (by omega) span records above next

theorem placedBounds {last before : Int} {blocks : List Block} (placed : Placed last before blocks) :
    ∀ b ∈ blocks, before < b.line ∧ b.line ≤ last := by
  induction placed with
  | nil => simp
  | cons below span records above next ih =>
    intro b member
    rcases List.mem_cons.mp member with rfl | later
    · exact ⟨below, by omega⟩
    · have bounds := ih b later
      exact ⟨by omega, bounds.2⟩

theorem placedSorted {last before : Int} {blocks : List Block} (placed : Placed last before blocks) :
    (blocks.map Block.line).Pairwise (· < ·) := by
  induction placed with
  | nil => exact .nil
  | cons below span records above next ih =>
    refine List.pairwise_cons.mpr ⟨fun line member => ?_, ih⟩
    obtain ⟨b, later, rfl⟩ := List.mem_map.mp member
    have bounds := placedBounds next b later
    omega

theorem placedRecords {last before : Int} {blocks : List Block} (placed : Placed last before blocks)
    {i : Nat} {b : Block} (found : blocks[i]? = some b) :
    ∀ r ∈ b.records, b.line < r.line ∧
      r.line < ((blocks[i + 1]?).map Block.line).getD (last + 1) := by
  induction placed generalizing i with
  | nil => simp at found
  | @cons before after head rest below span records above next ih =>
    cases i with
    | zero =>
      cases Option.some.inj found
      intro r held
      have between := records r held
      refine ⟨between.1, ?_⟩
      cases following : rest[0]? with
      | none => simp [following]; omega
      | some second =>
        have bounds := placedBounds next second (List.mem_of_getElem? following)
        simp [following]
        omega
    | succ i => exact ih (by simpa using found)

theorem runSpan (before : Nat) (lines : List Text) :
    before + (runContents lines).length ≤ (runEnd before lines).after ∧
    (runEnd before lines).after + (runEnd before lines).rest.length = before + lines.length ∧
    (runEnd before lines).after ≤ (runEnd before lines).ending ∧
    (runEnd before lines).ending ≤ (runEnd before lines).after + 1 ∧
    (runEnd before lines).ending ≤ before + lines.length := by
  have contents : (runContents lines).length ≤ (lines.takeWhile continues).length :=
    List.length_filterMap_le _ _
  have whole := congrArg List.length (List.takeWhile_append_dropWhile (p := continues) (l := lines))
  rw [List.length_append] at whole
  unfold runEnd
  cases tail : lines.dropWhile continues with
  | nil =>
    rw [tail, List.length_nil] at whole
    simp only [endRun, List.length_nil]
    omega
  | cons z rest =>
    rw [tail, List.length_cons] at whole
    simp only [endRun]
    split <;> simp only [List.length_cons] <;> omega

theorem blocksPlaced (before : Nat) (lines : List Text) :
    ∀ last : Nat, last = before + lines.length →
      Placed last before (Segment.blocks (segments before lines)) := by
  refine segmentsInduction (motive := fun before lines found => ∀ last : Nat,
    last = before + lines.length → Placed last before (Segment.blocks found)) ?_ ?_ ?_ ?_ before lines
  · intro before last _
    exact .nil before
  · intro before s rest segment one ih last whole
    rw [one.blocks]
    rw [List.length_cons] at whole
    exact placedEarlier (by omega) (ih last (by omega))
  · intro before s rest tag _ ih last whole
    obtain ⟨contents, left, _⟩ := runSpan (before + 1) rest
    rw [List.length_cons] at whole
    exact placedEarlier (by omega) (ih last (by omega))
  · intro before s rest keyword extra _ ih last whole
    obtain ⟨contents, left, _⟩ := runSpan (before + 1) rest
    rw [List.length_cons] at whole
    refine .cons ?_ ?_ (fun r held => ?_) ?_ (ih last (by omega))
    · rw [Block.documentedLine]
      omega
    · rw [Block.documentedLine]
      omega
    · have between := Block.documentedBetween held
      rw [Block.documentedLine]
      omega
    · omega

theorem Ordered.append {low middle high : Int} {first second : List Int}
    (before : Ordered (· ≤ ·) low high first) (after : Ordered (· ≤ ·) middle high second)
    (order : low ≤ middle) (meet : ∀ line ∈ first, line ≤ middle + 1) :
    Ordered (· ≤ ·) low high (first ++ second) := by
  refine ⟨List.pairwise_append.mpr ⟨before.sorted, after.sorted, fun x early y late => ?_⟩,
    fun line member => ?_⟩
  · have := meet x early
    have := (after.bounded y late).1
    omega
  · rcases List.mem_append.mp member with early | late
    · exact before.bounded line early
    · have := after.bounded line late
      omega

theorem Ordered.oneLine {line low high : Int} {lines : List Int} (same : ∀ x ∈ lines, x = line)
    (below : low < line) (above : line ≤ high) : Ordered (· ≤ ·) low high lines := by
  refine ⟨List.pairwise_of_forall_mem_list fun x first y second => ?_, fun x member => ?_⟩
  · exact Int.le_of_eq ((same x first).trans (same y second).symm)
  · rw [same x member]
    exact ⟨below, above⟩

theorem unknownTagLine {line : Nat} {tag : Text} :
    ∀ x ∈ (Segment.unknownTag line tag).map Warning.line, x = line := by
  unfold Segment.unknownTag
  split <;> simp

theorem oneLineWarnings {line : Nat} {s : Text} {segment : Segment} (one : segment.OneLine line s) :
    ∀ x ∈ segment.warnings.map Warning.line, x = line := by
  cases one with
  | metaValue shape => exact unknownTagLine
  | shebang shape | function shape declares | inert shape declares => simp [Segment.warnings]

/- A metadata value that is interrupted warns on the line that interrupts it, which may raise a
warning of its own: that is why the lines of two segments may meet. -/
theorem warningsOrdered (before : Nat) (lines : List Text) :
    ∀ last : Nat, last = before + lines.length →
      Ordered (· ≤ ·) before last
        (((segments before lines).flatMap Segment.warnings).map Warning.line) := by
  refine segmentsInduction (motive := fun before lines found => ∀ last : Nat,
    last = before + lines.length →
      Ordered (· ≤ ·) before last ((found.flatMap Segment.warnings).map Warning.line))
    ?_ ?_ ?_ ?_ before lines
  · intro before last _
    exact ⟨.nil, by simp⟩
  · intro before s rest segment one ih last whole
    rw [List.length_cons] at whole
    have later := ih last (by omega)
    have here := oneLineWarnings one
    rw [List.flatMap_cons, List.map_append]
    refine (Ordered.oneLine here (by omega) (by omega)).append later (by omega)
      (fun line member => ?_)
    rw [here line member]
    omega
  · intro before s rest tag _ ih last whole
    rw [List.length_cons] at whole
    obtain ⟨contents, left, started, near, inside⟩ := runSpan (before + 1) rest
    have later := ih last (by omega)
    rw [List.flatMap_cons, List.map_append]
    refine (Ordered.oneLine unknownTagLine (by omega) (by omega)).append later (by omega)
      (fun line member => ?_)
    rw [unknownTagLine line member]
    omega
  · intro before s rest keyword extra _ ih last whole
    rw [List.length_cons] at whole
    obtain ⟨contents, left, _⟩ := runSpan (before + 1) rest
    have later := ih last (by omega)
    have own := tagWarningsAscend (before + 1) (runContents rest)
    rw [List.flatMap_cons, List.map_append]
    refine Ordered.append ⟨own.sorted.imp Int.le_of_lt, fun line member => ?_⟩ later (by omega)
      (fun line member => ?_)
    · have := own.bounded line member
      omega
    · have := own.bounded line member
      omega

theorem blockFromSegment {found : List Segment} {b : Block} (member : b ∈ Segment.blocks found) :
    ∃ line keyword extra contents function,
      b = { Block.documented keyword extra line contents with functionName := function } := by
  induction found with
  | nil => contradiction
  | cons segment rest ih =>
    cases segment with
    | block line keyword extra contents =>
      rcases List.mem_cons.mp member with rfl | later
      · exact ⟨line, keyword, extra, contents, _, rfl⟩
      · exact ih later
    | shebang _ | metaValue _ _ _ | metadata _ _ _ | function _ | inert => exact ih member

structure Document.Numbered (d : Document) (n : Nat) : Prop where
  blocksSorted : (d.blocks.map Block.line).Pairwise (· < ·)
  blocksInside : ∀ b ∈ d.blocks, 1 ≤ b.line ∧ b.line ≤ n
  recordsBetween : ∀ i b, d.blocks[i]? = some b → ∀ r ∈ b.records,
    b.line < r.line ∧ r.line < ((d.blocks[i + 1]?).map Block.line).getD (n + 1)
  fieldsSorted : ∀ b ∈ d.blocks, b.FieldsAscend
  recordsDistinct : ∀ b ∈ d.blocks, (b.records.map Record.line).Nodup
  warningsSorted : (d.warnings.map Warning.line).Pairwise (· ≤ ·)
  warningsInside : ∀ w ∈ d.warnings, 1 ≤ w.line ∧ w.line ≤ n

theorem lineNumbersPointIntoScript (lines : List Text) :
    (Document.ofLines lines).Numbered lines.length := by
  have whole : lines.length = 0 + (lines.map dropLineEnd).length := by simp
  have placed := blocksPlaced 0 (lines.map dropLineEnd) lines.length whole
  have warnings := warningsOrdered 0 (lines.map dropLineEnd) lines.length whole
  rw [readingInterpretsSegments lines]
  refine ⟨placedSorted placed, placedBounds placed, fun i b found => placedRecords placed found,
    fun b member => ?_, fun b member => ?_, warnings.sorted, fun w member => ?_⟩
  · obtain ⟨line, keyword, extra, contents, function, rfl⟩ := blockFromSegment member
    exact Block.documentedAscends keyword extra line contents function
  · obtain ⟨line, keyword, extra, contents, function, rfl⟩ := blockFromSegment member
    exact Block.documentedDistinct keyword extra line contents function
  · exact warnings.bounded w.line (List.mem_map_of_mem member)

end ScriptDoc
