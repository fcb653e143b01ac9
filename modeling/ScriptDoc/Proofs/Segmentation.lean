import ScriptDoc.Proofs.Grouping
import ScriptDoc.Proofs.LineShape

/-! Reading a script is cutting it into segments and then saying what each segment means. A segment is
a line outside of everything, or the line that opens a metadata value or a block together with the
lines that continue it. What a list of segments means is said field by field, with no state. -/
namespace ScriptDoc

inductive Segment where
  | shebang (interpreter : Text)
  | metaValue (line : Nat) (tag value : Text)
  | metadata (tag : Text) (contents : List Text) (ending : Nat)
  | block (line : Nat) (keyword extra : Text) (contents : List Text)
  | function (name : Text)
  | inert
  deriving DecidableEq, Repr

/- The lines that continue an opening line, after `before` lines: their contents, the line where
the run ends, how many lines come before the next segment, and the lines from there on. The line
where a run ends closes it or interrupts it; if there is none, it is the last line of all. -/
inductive Run : Nat → List Text → List Text → Nat → Nat → List Text → Prop where
  | more {before s lines content contents ending after rest}
      (shape : Continuation s content) (unclosed : ¬ Closing s)
      (next : Run (before + 1) lines contents ending after rest) :
      Run before (s :: lines) (content :: contents) ending after rest
  | closed {before s rest} (shape : Closing s) :
      Run before (s :: rest) [] (before + 1) (before + 1) rest
  | interrupted {before s rest} (unclosed : ¬ Closing s)
      (other : ∀ content, ¬ Continuation s content) :
      Run before (s :: rest) [] (before + 1) before (s :: rest)
  | ended {before} : Run before [] [] before before []

inductive Segmented : Nat → List Text → List Segment → Prop where
  | nil (before) : Segmented before [] []
  | shebang {before s rest interpreter segments} (shape : TopShape s (.shebang interpreter))
      (next : Segmented (before + 1) rest segments) :
      Segmented before (s :: rest) (.shebang interpreter :: segments)
  | metaValue {before s rest tag value segments} (shape : TopShape s (.metaValue tag value))
      (next : Segmented (before + 1) rest segments) :
      Segmented before (s :: rest) (.metaValue (before + 1) tag value :: segments)
  | metadata {before s lines tag contents ending after rest segments}
      (shape : TopShape s (.metaOpen tag)) (run : Run (before + 1) lines contents ending after rest)
      (next : Segmented after rest segments) :
      Segmented before (s :: lines) (.metadata tag contents ending :: segments)
  | block {before s lines keyword extra contents ending after rest segments}
      (shape : TopShape s (.blockOpen keyword extra))
      (run : Run (before + 1) lines contents ending after rest)
      (next : Segmented after rest segments) :
      Segmented before (s :: lines) (.block (before + 1) keyword extra contents :: segments)
  | function {before s rest name segments} (shape : TopShape s .other)
      (declares : functionName? s = some name) (next : Segmented (before + 1) rest segments) :
      Segmented before (s :: rest) (.function name :: segments)
  | inert {before s rest segments} (shape : TopShape s .other)
      (declares : functionName? s = none) (next : Segmented (before + 1) rest segments) :
      Segmented before (s :: rest) (.inert :: segments)

namespace Segment

def interpreter? : Segment → Option Text
  | .shebang interpreter => some interpreter
  | _ => none

def write? (field : MetaField) : Segment → Option Text
  | .metaValue _ tag value => if tag = field.tag then some value else none
  | .metadata tag contents _ => if tag = field.tag then some (Text.join ['\n'] contents) else none
  | _ => none

def unknownTag (line : Nat) (tag : Text) : List Warning :=
  if tag ∈ MetaField.all.map MetaField.tag then []
  else [⟨line, "unknown shedoc tag: #?/" ++ tag⟩]

def warnings : Segment → List Warning
  | .metaValue line tag _ => unknownTag line tag
  | .metadata tag _ ending => unknownTag ending tag
  | .block line _ _ contents => tagWarnings line contents
  | _ => []

/- The function that the block before these segments documents: the first one declared before the
next block. -/
def declared? : List Segment → Option Text
  | [] => none
  | .function name :: _ => some name
  | .block .. :: _ => none
  | _ :: rest => declared? rest

def blocks : List Segment → List Block
  | [] => []
  | .block line keyword extra contents :: rest =>
    { Block.documented keyword extra line contents with functionName := declared? rest } ::
      blocks rest
  | _ :: rest => blocks rest

end Segment

def Metadata.ofFields (value : MetaField → Option Text) : Metadata :=
  ⟨value .name, value .version, value .synopsis, value .description, value .examples,
    value .manSection, value .author, value .license⟩

def interpret (segments : List Segment) : Document :=
  { shebang := (segments.filterMap Segment.interpreter?).getLast?
    metadata := .ofFields fun field => (segments.filterMap (Segment.write? field)).getLast?
    blocks := Segment.blocks segments
    warnings := segments.flatMap Segment.warnings }

structure RunEnd where
  ending : Nat
  after : Nat
  rest : List Text
  deriving DecidableEq, Repr

def endRun (before : Nat) : List Text → RunEnd
  | [] => ⟨before, before, []⟩
  | z :: rest =>
    if isClose z then ⟨before + 1, before + 1, rest⟩ else ⟨before + 1, before, z :: rest⟩

def runContents (lines : List Text) : List Text := (lines.takeWhile continues).filterMap continuation?

def runEnd (before : Nat) (lines : List Text) : RunEnd :=
  endRun (before + (lines.takeWhile continues).length) (lines.dropWhile continues)

theorem endRunSuffix (before : Nat) (lines : List Text) : (endRun before lines).rest <:+ lines := by
  cases lines with
  | nil => exact List.suffix_refl _
  | cons z rest =>
    simp only [endRun]
    split
    · exact List.suffix_cons z rest
    · exact List.suffix_refl _

theorem runEndSuffix (before : Nat) (lines : List Text) : (runEnd before lines).rest <:+ lines :=
  (endRunSuffix _ _).trans (List.dropWhile_suffix continues)

theorem runEndShorter (before : Nat) (lines : List Text) :
    (runEnd before lines).rest.length < lines.length + 1 :=
  Nat.lt_succ_of_le (runEndSuffix before lines).length_le

def segments (before : Nat) : List Text → List Segment
  | [] => []
  | s :: rest =>
    match TopLine.ofText s with
    | .shebang interpreter => .shebang interpreter :: segments (before + 1) rest
    | .metaValue tag value => .metaValue (before + 1) tag value :: segments (before + 1) rest
    | .metaOpen tag =>
      have := runEndShorter (before + 1) rest
      .metadata tag (runContents rest) (runEnd (before + 1) rest).ending ::
        segments (runEnd (before + 1) rest).after (runEnd (before + 1) rest).rest
    | .blockOpen keyword extra =>
      have := runEndShorter (before + 1) rest
      .block (before + 1) keyword extra (runContents rest) ::
        segments (runEnd (before + 1) rest).after (runEnd (before + 1) rest).rest
    | .other =>
      match functionName? s with
      | some name => .function name :: segments (before + 1) rest
      | none => .inert :: segments (before + 1) rest
termination_by lines => lines.length

theorem segmentsMetadata {s tag : Text} (before : Nat) (rest : List Text)
    (opens : TopLine.ofText s = .metaOpen tag) :
    segments before (s :: rest) =
      .metadata tag (runContents rest) (runEnd (before + 1) rest).ending ::
        segments (runEnd (before + 1) rest).after (runEnd (before + 1) rest).rest := by
  rw [segments, opens]

theorem segmentsBlock {s keyword extra : Text} (before : Nat) (rest : List Text)
    (opens : TopLine.ofText s = .blockOpen keyword extra) :
    segments before (s :: rest) =
      .block (before + 1) keyword extra (runContents rest) ::
        segments (runEnd (before + 1) rest).after (runEnd (before + 1) rest).rest := by
  rw [segments, opens]

inductive Segment.OneLine (line : Nat) (s : Text) : Segment → Prop where
  | shebang {interpreter} (shape : TopLine.ofText s = .shebang interpreter) :
      OneLine line s (.shebang interpreter)
  | metaValue {tag value} (shape : TopLine.ofText s = .metaValue tag value) :
      OneLine line s (.metaValue line tag value)
  | function {name} (shape : TopLine.ofText s = .other) (declares : functionName? s = some name) :
      OneLine line s (.function name)
  | inert (shape : TopLine.ofText s = .other) (declares : functionName? s = none) :
      OneLine line s .inert

theorem Segment.OneLine.blocks {line : Nat} {s : Text} {segment : Segment}
    (one : segment.OneLine line s) (found : List Segment) :
    Segment.blocks (segment :: found) = Segment.blocks found := by
  cases one <;> rfl

theorem segmentsOneLine {before : Nat} {s : Text} {segment : Segment} (rest : List Text)
    (one : segment.OneLine (before + 1) s) :
    segments before (s :: rest) = segment :: segments (before + 1) rest := by
  cases one with
  | shebang shape => rw [segments, shape]
  | metaValue shape => rw [segments, shape]
  | function shape declares => rw [segments, shape, declares]
  | inert shape declares => rw [segments, shape, declares]

theorem segmentsInduction {motive : Nat → List Text → List Segment → Prop}
    (nil : ∀ before, motive before [] [])
    (oneLine : ∀ before s rest segment, segment.OneLine (before + 1) s →
      motive (before + 1) rest (segments (before + 1) rest) →
      motive before (s :: rest) (segment :: segments (before + 1) rest))
    (metadata : ∀ before s rest tag, TopLine.ofText s = .metaOpen tag →
      motive (runEnd (before + 1) rest).after (runEnd (before + 1) rest).rest
        (segments (runEnd (before + 1) rest).after (runEnd (before + 1) rest).rest) →
      motive before (s :: rest)
        (.metadata tag (runContents rest) (runEnd (before + 1) rest).ending ::
          segments (runEnd (before + 1) rest).after (runEnd (before + 1) rest).rest))
    (block : ∀ before s rest keyword extra, TopLine.ofText s = .blockOpen keyword extra →
      motive (runEnd (before + 1) rest).after (runEnd (before + 1) rest).rest
        (segments (runEnd (before + 1) rest).after (runEnd (before + 1) rest).rest) →
      motive before (s :: rest)
        (.block (before + 1) keyword extra (runContents rest) ::
          segments (runEnd (before + 1) rest).after (runEnd (before + 1) rest).rest))
    (before : Nat) (lines : List Text) : motive before lines (segments before lines) := by
  induction before, lines using segments.induct with
  | case1 before => rw [segments]; exact nil before
  | case2 before s rest interpreter shape ih =>
    rw [segments, shape]
    exact oneLine _ _ _ _ (.shebang shape) ih
  | case3 before s rest tag value shape ih =>
    rw [segments, shape]
    exact oneLine _ _ _ _ (.metaValue shape) ih
  | case4 before s rest tag shape _ ih =>
    rw [segmentsMetadata before rest shape]
    exact metadata _ _ _ _ shape ih
  | case5 before s rest keyword extra shape _ ih =>
    rw [segmentsBlock before rest shape]
    exact block _ _ _ _ _ shape ih
  | case6 before s rest shape name declares ih =>
    rw [segments, shape, declares]
    exact oneLine _ _ _ _ (.function shape declares) ih
  | case7 before s rest shape declares ih =>
    rw [segments, shape, declares]
    exact oneLine _ _ _ _ (.inert shape declares) ih

theorem runContinues {s content : Text} (before : Nat) (lines : List Text)
    (unclosed : isClose s = false) (found : continuation? s = some content) :
    runContents (s :: lines) = content :: runContents lines ∧
      runEnd before (s :: lines) = runEnd (before + 1) lines := by
  have more : continues s = true := continuesExact.mpr ⟨unclosed, content, found⟩
  constructor
  · simp [runContents, more, found]
  · simp only [runEnd, List.takeWhile_cons_of_pos more, List.dropWhile_cons_of_pos more,
      List.length_cons]
    congr 1
    omega

theorem runStops {s : Text} (before : Nat) (lines : List Text) (stop : continues s = false) :
    runContents (s :: lines) = [] ∧ runEnd before (s :: lines) = endRun before (s :: lines) := by
  constructor <;> simp [runContents, runEnd, stop]

theorem runExists {before : Nat} {lines : List Text} (plain : ∀ s ∈ lines, '\n' ∉ s) :
    Run before lines (runContents lines) (runEnd before lines).ending (runEnd before lines).after
      (runEnd before lines).rest := by
  induction lines generalizing before with
  | nil => exact .ended
  | cons s lines ih =>
    have plainS : '\n' ∉ s := plain s (by simp)
    have plainLines : ∀ t ∈ lines, '\n' ∉ t := fun t member => plain t (by simp [member])
    cases closed : isClose s with
    | true =>
      obtain ⟨none, same⟩ := runStops before lines (s := s) (by simp [continues, closed])
      simp only [none, same, endRun, closed, if_true]
      exact .closed (closingExact.mpr closed)
    | false =>
      have unclosed : ¬ Closing s := by rw [closingExact, closed]; simp
      cases found : continuation? s with
      | some content =>
        obtain ⟨first, same⟩ := runContinues before lines closed found
        rw [first, same]
        exact .more ((continuationExact plainS).mpr found) unclosed (ih plainLines)
      | none =>
        obtain ⟨none, same⟩ := runStops before lines (s := s) (by simp [continues, found])
        simp only [none, same, endRun, closed, Bool.false_eq_true, if_false]
        refine .interrupted unclosed (fun content shape => ?_)
        rw [(continuationExact plainS).mp shape] at found
        contradiction

theorem runUnique {before : Nat} {lines contents rest : List Text} {ending after : Nat}
    (plain : ∀ s ∈ lines, '\n' ∉ s) (run : Run before lines contents ending after rest) :
    contents = runContents lines ∧ runEnd before lines = ⟨ending, after, rest⟩ := by
  induction run with
  | @more before s lines content contents ending after rest shape unclosed next ih =>
    have closed : isClose s = false := by simpa [closingExact] using unclosed
    have found := (continuationExact (plain s (by simp))).mp shape
    obtain ⟨sameContents, sameEnd⟩ := ih (fun t member => plain t (by simp [member]))
    obtain ⟨first, same⟩ := runContinues before lines closed found
    exact ⟨by rw [first, sameContents], same.trans sameEnd⟩
  | @closed before s rest shape =>
    have closed := closingExact.mp shape
    obtain ⟨none, same⟩ := runStops before rest (s := s) (by simp [continues, closed])
    exact ⟨none.symm, by simp only [same, endRun, closed, if_true]⟩
  | @interrupted before s rest unclosed other =>
    have closed : isClose s = false := by simpa [closingExact] using unclosed
    have missing : continuation? s = none := by
      cases found : continuation? s with
      | none => rfl
      | some content => exact absurd ((continuationExact (plain s (by simp))).mpr found) (other content)
    obtain ⟨none, same⟩ := runStops before rest (s := s) (by simp [continues, missing])
    exact ⟨none.symm, by simp only [same, endRun, closed, Bool.false_eq_true, if_false]⟩
  | ended => exact ⟨rfl, rfl⟩

theorem plainRest (before : Nat) {lines : List Text} (plain : ∀ s ∈ lines, '\n' ∉ s) :
    ∀ s ∈ (runEnd before lines).rest, '\n' ∉ s := fun s member =>
  plain s ((runEndSuffix before lines).subset member)

theorem segmentsExist {before : Nat} {lines : List Text} (plain : ∀ s ∈ lines, '\n' ∉ s) :
    Segmented before lines (segments before lines) := by
  -- The recursion of `segments` itself: after a run it goes on at the end of the run.
  induction before, lines using segments.induct with
  | case1 before => rw [segments]; exact .nil before
  | case2 before s rest interpreter shape ih =>
    rw [segments, shape]
    exact .shebang ((topShapeExact (plain s (by simp))).mpr shape)
      (ih (fun t member => plain t (by simp [member])))
  | case3 before s rest tag value shape ih =>
    rw [segments, shape]
    exact .metaValue ((topShapeExact (plain s (by simp))).mpr shape)
      (ih (fun t member => plain t (by simp [member])))
  | case4 before s rest tag shape _ ih =>
    have later : ∀ t ∈ rest, '\n' ∉ t := fun t member => plain t (by simp [member])
    rw [segmentsMetadata before rest shape]
    exact .metadata ((topShapeExact (plain s (by simp))).mpr shape) (runExists later)
      (ih (plainRest _ later))
  | case5 before s rest keyword extra shape _ ih =>
    have later : ∀ t ∈ rest, '\n' ∉ t := fun t member => plain t (by simp [member])
    rw [segmentsBlock before rest shape]
    exact .block ((topShapeExact (plain s (by simp))).mpr shape) (runExists later)
      (ih (plainRest _ later))
  | case6 before s rest shape name declares ih =>
    rw [segments, shape, declares]
    exact .function ((topShapeExact (plain s (by simp))).mpr shape) declares
      (ih (fun t member => plain t (by simp [member])))
  | case7 before s rest shape declares ih =>
    rw [segments, shape, declares]
    exact .inert ((topShapeExact (plain s (by simp))).mpr shape) declares
      (ih (fun t member => plain t (by simp [member])))

theorem segmentsUnique {before : Nat} {lines : List Text} {found : List Segment}
    (plain : ∀ s ∈ lines, '\n' ∉ s) (cut : Segmented before lines found) :
    found = segments before lines := by
  induction cut with
  | nil before => rw [segments]
  | @shebang before s rest interpreter found shape next ih =>
    have read := (topShapeExact (plain s (by simp))).mp shape
    rw [segments, read, ih (fun t member => plain t (by simp [member]))]
  | @metaValue before s rest tag value found shape next ih =>
    have read := (topShapeExact (plain s (by simp))).mp shape
    rw [segments, read, ih (fun t member => plain t (by simp [member]))]
  | @metadata before s lines tag contents ending after rest found shape run next ih =>
    have read := (topShapeExact (plain s (by simp))).mp shape
    have later : ∀ t ∈ lines, '\n' ∉ t := fun t member => plain t (by simp [member])
    obtain ⟨sameContents, same⟩ := runUnique later run
    have plainTail := plainRest (before + 1) later
    rw [same] at plainTail
    rw [segmentsMetadata before lines read, same, ih plainTail, sameContents]
  | @block before s lines keyword extra contents ending after rest found shape run next ih =>
    have read := (topShapeExact (plain s (by simp))).mp shape
    have later : ∀ t ∈ lines, '\n' ∉ t := fun t member => plain t (by simp [member])
    obtain ⟨sameContents, same⟩ := runUnique later run
    have plainTail := plainRest (before + 1) later
    rw [same] at plainTail
    rw [segmentsBlock before lines read, same, ih plainTail, sameContents]
  | @function before s rest name found shape declares next ih =>
    have read := (topShapeExact (plain s (by simp))).mp shape
    rw [segments, read, declares, ih (fun t member => plain t (by simp [member]))]
  | @inert before s rest found shape declares next ih =>
    have read := (topShapeExact (plain s (by simp))).mp shape
    rw [segments, read, declares, ih (fun t member => plain t (by simp [member]))]

def Segment.apply (d : Document) : Segment → Document
  | .shebang interpreter => { d with shebang := some interpreter }
  | .metaValue line tag value => d.setMetadata tag value line
  | .metadata tag contents ending => d.setMetadata tag (Text.join ['\n'] contents) ending
  | .block line keyword extra contents => d.withBlock keyword extra line contents
  | .function name => d.bindFunction name
  | .inert => d

theorem readMetaContents (tag : Text) (contents : List Text) (d : Document) (before : Nat)
    (body tail : List Text) (continuing : ∀ s ∈ body, continues s = true) :
    readPlain (.metadata tag contents) d before (body ++ tail) =
      readPlain (.metadata tag (contents ++ body.filterMap continuation?)) d
        (before + body.length) tail := by
  induction body generalizing contents before with
  | nil => simp
  | cons s rest ih =>
    obtain ⟨unclosed, content, found⟩ := continuesExact.mp (continuing s (by simp))
    have first : step (.metadata tag contents) s (before + 1 : Nat) d =
        (.metadata tag (contents ++ [content]), d) := by
      simp only [step, stepMetadata, unclosed, found, Bool.false_eq_true, if_false]
    rw [List.cons_append, readPlain, first,
      ih _ _ (fun t member => continuing t (List.mem_cons_of_mem _ member))]
    simp only [List.filterMap_cons, found, List.append_assoc, List.singleton_append,
      List.length_cons]
    rw [Nat.add_right_comm, Nat.add_assoc]

theorem readRunEnd {state : State} (d : Document) (before : Nat) (tail : List Text)
    (inside : state ≠ .top) (stop : ∀ z, tail.head? = some z → continues z = false) :
    readPlain state d before tail =
      readPlain .top (finish state (endRun before tail).ending d) (endRun before tail).after
        (endRun before tail).rest := by
  cases tail with
  | nil => rfl
  | cons z rest =>
    cases closed : isClose z with
    | true => simp only [readClosed d before rest inside closed, endRun, closed, if_true]
    | false =>
      have interrupts : continuation? z = none := by
        simpa [continues, closed] using stop z rfl
      simp only [readInterrupted state d before rest closed interrupts, endRun, closed,
        Bool.false_eq_true, if_false]

theorem runParts (lines : List Text) :
    lines = lines.takeWhile continues ++ lines.dropWhile continues ∧
    (∀ s ∈ lines.takeWhile continues, continues s = true) ∧
    (∀ z, (lines.dropWhile continues).head? = some z → continues z = false) := by
  refine ⟨List.takeWhile_append_dropWhile.symm, fun s member => List.mem_takeWhile_imp member,
    fun z head => ?_⟩
  have stop := List.head?_dropWhile_not continues lines
  simpa only [head] using stop

theorem readMetadataRun (tag : Text) (d : Document) (before : Nat) (lines : List Text) :
    readPlain (.metadata tag []) d before lines =
      readPlain .top
        (d.setMetadata tag (Text.join ['\n'] (runContents lines)) (runEnd before lines).ending)
        (runEnd before lines).after (runEnd before lines).rest := by
  obtain ⟨whole, continuing, stop⟩ := runParts lines
  have read := readMetaContents tag [] d before _ (lines.dropWhile continues) continuing
  rw [← whole] at read
  rw [read, readRunEnd d _ _ (by simp) stop]
  rfl

theorem readBlockRun {s keyword extra : Text} (d : Document) (before : Nat) (lines : List Text)
    (opens : TopLine.ofText s = .blockOpen keyword extra) :
    readPlain .top d before (s :: lines) =
      readPlain .top (d.withBlock keyword extra (before + 1) (runContents lines))
        (runEnd (before + 1) lines).after (runEnd (before + 1) lines).rest := by
  obtain ⟨whole, continuing, stop⟩ := runParts lines
  have read := readBlock .top d before _ (lines.dropWhile continues) opens continuing
  rw [← whole] at read
  rw [read, readRunEnd _ _ _ (by simp) stop, finishBlock]
  rfl

theorem readSegments (d : Document) (before : Nat) (lines : List Text) :
    readPlain .top d before lines = (segments before lines).foldl Segment.apply d := by
  induction before, lines using segments.induct generalizing d with
  | case1 before => rw [segments]; rfl
  | case2 before s rest interpreter shape ih =>
    rw [segments, shape, readPlain]
    simp only [step, stepTop, shape]
    exact ih _
  | case3 before s rest tag value shape ih =>
    rw [segments, shape, readPlain]
    simp only [step, stepTop, shape]
    exact ih _
  | case4 before s rest tag shape _ ih =>
    rw [segmentsMetadata before rest shape, readPlain]
    simp only [step, stepTop, shape]
    exact (readMetadataRun tag d (before + 1) rest).trans (ih _)
  | case5 before s rest keyword extra shape _ ih =>
    rw [segmentsBlock before rest shape]
    exact (readBlockRun d before rest shape).trans (ih _)
  | case6 before s rest shape name declares ih =>
    rw [segments, shape, declares, readPlain]
    simp only [step, stepTop, shape, declares]
    exact ih _
  | case7 before s rest shape declares ih =>
    rw [segments, shape, declares, readPlain]
    simp only [step, stepTop, shape, declares]
    exact ih _

theorem ofTagExact {s : Text} {field : MetaField} :
    MetaField.ofTag? s = some field ↔ s = field.tag := by
  constructor
  · intro found
    have same := List.find?_some found
    exact (of_decide_eq_true same).symm
  · rintro rfl
    cases field <;> decide

theorem ofTagNone {s : Text} :
    MetaField.ofTag? s = none ↔ s ∉ MetaField.all.map MetaField.tag := by
  simp only [MetaField.ofTag?, List.find?_eq_none, List.mem_map, not_exists, not_and,
    decide_eq_true_eq]

theorem setGet (m : Metadata) (value : Text) (written read : MetaField) :
    (m.set value written).get read = if written = read then some value else m.get read := by
  cases written <;> cases read <;> rfl

theorem metadataExt {m n : Metadata} (same : ∀ field, m.get field = n.get field) : m = n := by
  have views : m.get = n.get := funext same
  calc m = .ofFields m.get := rfl
    _ = .ofFields n.get := by rw [views]
    _ = n := rfl

theorem ofFieldsGet (value : MetaField → Option Text) (field : MetaField) :
    (Metadata.ofFields value).get field = value field := by
  cases field <;> rfl

theorem setMetadataCases (d : Document) (tag value : Text) (line : Nat) :
    (∃ field : MetaField, tag = field.tag ∧ Segment.unknownTag line tag = [] ∧
      d.setMetadata tag value line = { d with metadata := d.metadata.set value field }) ∨
    ((∀ field : MetaField, tag ≠ field.tag) ∧
      d.setMetadata tag value line = d.withWarnings (Segment.unknownTag line tag)) := by
  cases found : MetaField.ofTag? tag with
  | some field =>
    have known : tag ∈ MetaField.all.map MetaField.tag := by
      by_contra absent
      rw [ofTagNone.mpr absent] at found
      contradiction
    exact Or.inl ⟨field, ofTagExact.mp found, if_pos known, by simp only [Document.setMetadata, found]⟩
  | none =>
    refine Or.inr ⟨fun field same => ?_, ?_⟩
    · rw [ofTagExact.mpr same] at found
      contradiction
    · simp only [Document.setMetadata, found, Segment.unknownTag, if_neg (ofTagNone.mp found)]
      rfl

theorem setMetadataGet (d : Document) (tag value : Text) (line : Nat) (field : MetaField) :
    (d.setMetadata tag value line).metadata.get field =
      (if tag = field.tag then some value else none).or (d.metadata.get field) := by
  rcases setMetadataCases d tag value line with ⟨known, same, _, set⟩ | ⟨unknown, warned⟩
  · have injective : known = field ↔ tag = field.tag := by
      rw [← ofTagExact, ofTagExact.mpr same, Option.some.injEq]
    rw [set, setGet]
    by_cases equal : tag = field.tag <;> simp [equal, injective]
  · rw [warned, if_neg (unknown field)]
    rfl

theorem setMetadataWarnings (d : Document) (tag value : Text) (line : Nat) :
    (d.setMetadata tag value line).warnings = d.warnings ++ Segment.unknownTag line tag := by
  rcases setMetadataCases d tag value line with ⟨_, _, none, set⟩ | ⟨_, warned⟩
  · rw [set, none, List.append_nil]
  · rw [warned]
    rfl

theorem setMetadataElse (d : Document) (tag value : Text) (line : Nat) :
    (d.setMetadata tag value line).path = d.path ∧
    (d.setMetadata tag value line).shebang = d.shebang ∧
    (d.setMetadata tag value line).blocks = d.blocks := by
  rcases setMetadataCases d tag value line with ⟨_, _, _, set⟩ | ⟨_, warned⟩
  · rw [set]; exact ⟨rfl, rfl, rfl⟩
  · rw [warned]; exact ⟨rfl, rfl, rfl⟩

def bindLast (blocks : List Block) : Option Text → List Block
  | none => blocks
  | some name =>
    match blocks.getLast? with
    | some last => blocks.dropLast ++ [last.bindFunction name]
    | none => blocks

theorem bindLastConcat (blocks : List Block) (b : Block) (name : Text) :
    bindLast (blocks ++ [b]) (some name) = blocks ++ [b.bindFunction name] := by
  simp [bindLast]

theorem bindLastTwice (blocks : List Block) (name : Text) (other : Option Text) :
    bindLast (bindLast blocks (some name)) other = bindLast blocks (some name) := by
  cases other with
  | none => rfl
  | some second =>
    induction blocks using List.reverseRecOn with
    | nil => rfl
    | append_singleton before last _ =>
      have kept : (last.bindFunction name).bindFunction second = last.bindFunction name := by
        obtain ⟨first, bound⟩ : ∃ first, (last.bindFunction name).functionName = some first := by
          cases function : last.functionName with
          | none => exact ⟨name, by simp only [Block.bindFunction, function]⟩
          | some first => exact ⟨first, by simp only [Block.bindFunction, function]⟩
        rw [Block.bindFunction, bound]
      rw [bindLastConcat, bindLastConcat, kept]

theorem bindFunctionExact (d : Document) (name : Text) :
    d.bindFunction name = { d with blocks := bindLast d.blocks (some name) } := by
  unfold Document.bindFunction bindLast
  cases d.blocks.getLast? <;> rfl

theorem bindDocumented (blocks : List Block) (keyword extra : Text) (line : Nat)
    (contents : List Text) (name : Option Text) :
    bindLast (blocks ++ [.documented keyword extra line contents]) name =
      blocks ++ [{ Block.documented keyword extra line contents with functionName := name }] := by
  cases name with
  | none => rfl
  | some name => rw [bindLastConcat]; rfl

theorem applyWrites (field : MetaField) (d : Document) (segment : Segment) :
    (segment.apply d).metadata.get field =
      (segment.write? field).or (d.metadata.get field) := by
  cases segment with
  | metaValue line tag value => exact setMetadataGet d tag value line field
  | metadata tag contents ending => exact setMetadataGet d tag _ ending field
  | function name => rw [Segment.apply, bindFunctionExact]; rfl
  | _ => rfl

theorem applyShebang (d : Document) (segment : Segment) :
    (segment.apply d).shebang = segment.interpreter?.or d.shebang := by
  cases segment with
  | metaValue line tag value => exact (setMetadataElse d tag value line).2.1
  | metadata tag contents ending => exact (setMetadataElse d tag _ ending).2.1
  | function name => rw [Segment.apply, bindFunctionExact]; rfl
  | _ => rfl

theorem applyWarnings (d : Document) (segment : Segment) :
    (segment.apply d).warnings = d.warnings ++ segment.warnings := by
  cases segment with
  | metaValue line tag value => exact setMetadataWarnings d tag value line
  | metadata tag contents ending => exact setMetadataWarnings d tag _ ending
  | block line keyword extra contents => rfl
  | function name => rw [Segment.apply, bindFunctionExact]; simp [Segment.warnings]
  | shebang interpreter => simp [Segment.apply, Segment.warnings]
  | inert => simp [Segment.apply, Segment.warnings]

theorem applyPath (d : Document) (segment : Segment) : (segment.apply d).path = d.path := by
  cases segment with
  | metaValue line tag value => exact (setMetadataElse d tag value line).1
  | metadata tag contents ending => exact (setMetadataElse d tag _ ending).1
  | function name => rw [Segment.apply, bindFunctionExact]
  | _ => rfl

theorem lastWrite {α : Type} (view : Document → Option α) (write : Segment → Option α)
    (one : ∀ d (segment : Segment), view (segment.apply d) = (write segment).or (view d))
    (d : Document) (segments : List Segment) :
    view (segments.foldl Segment.apply d) =
      (segments.filterMap write).getLast?.or (view d) := by
  induction segments generalizing d with
  | nil => rfl
  | cons segment rest ih =>
    rw [List.foldl_cons, ih, one]
    cases written : write segment with
    | none => simp [written]
    | some value =>
      rw [List.filterMap_cons_some written, List.getLast?_cons]
      cases (rest.filterMap write).getLast? <;> rfl

theorem allWarnings (d : Document) (segments : List Segment) :
    (segments.foldl Segment.apply d).warnings = d.warnings ++ segments.flatMap Segment.warnings := by
  induction segments generalizing d with
  | nil => simp
  | cons segment rest ih =>
    rw [List.foldl_cons, ih, applyWarnings, List.append_assoc, List.flatMap_cons]

theorem samePath (d : Document) (segments : List Segment) :
    (segments.foldl Segment.apply d).path = d.path := by
  induction segments generalizing d with
  | nil => rfl
  | cons segment rest ih => rw [List.foldl_cons, ih, applyPath]

/- The last block read so far still waits for its function, which the segments to come may declare:
that is why the induction carries more than the blocks to come. -/
theorem allBlocks (d : Document) (segments : List Segment) :
    (segments.foldl Segment.apply d).blocks =
      bindLast d.blocks (Segment.declared? segments) ++ Segment.blocks segments := by
  induction segments generalizing d with
  | nil => simp [Segment.declared?, Segment.blocks, bindLast]
  | cons segment rest ih =>
    rw [List.foldl_cons, ih]
    cases segment with
    | metaValue line tag value =>
      rw [Segment.apply, (setMetadataElse d tag value line).2.2]
      rfl
    | metadata tag contents ending =>
      rw [Segment.apply, (setMetadataElse d tag _ ending).2.2]
      rfl
    | block line keyword extra contents =>
      simp only [Segment.apply, Document.withBlock, bindDocumented, Segment.declared?,
        Segment.blocks, List.append_assoc, List.singleton_append]
      rfl
    | function name =>
      rw [Segment.apply, bindFunctionExact]
      simp only [bindLastTwice, Segment.declared?, Segment.blocks]
    | shebang interpreter => rfl
    | inert => rfl

theorem applyInterprets (segments : List Segment) :
    segments.foldl Segment.apply {} = interpret segments := by
  have shebang := lastWrite Document.shebang Segment.interpreter? applyShebang {} segments
  have metadata : (segments.foldl Segment.apply {}).metadata = (interpret segments).metadata := by
    apply metadataExt
    intro field
    rw [lastWrite (fun d => d.metadata.get field) _ (applyWrites field), interpret, ofFieldsGet]
    cases field <;> exact Option.or_none
  have blocks := allBlocks {} segments
  have nothing : bindLast [] (Segment.declared? segments) = [] := by
    cases Segment.declared? segments <;> rfl
  rw [nothing, List.nil_append] at blocks
  have path := samePath {} segments
  have warnings := allWarnings {} segments
  rw [Option.or_none] at shebang
  cases read : segments.foldl Segment.apply {} with
  | mk path' shebang' metadata' blocks' warnings' =>
    rw [read] at path shebang metadata blocks warnings
    simp only at path shebang metadata blocks warnings
    simp only [path, shebang, metadata, blocks, warnings, List.nil_append]
    rfl

theorem readingInterpretsSegments (lines : List Text) :
    Document.ofLines lines = interpret (segments 0 (lines.map dropLineEnd)) := by
  rw [Document.ofLines, readFromPlain, readSegments, applyInterprets]

theorem dropLineEndSublist (s : Text) : (dropLineEnd s).Sublist s := by
  have one : ∀ (c : Char) (t : Text),
      (if t.getLast? = some c then t.dropLast else t).Sublist t := by
    intro c t
    split
    · exact List.dropLast_sublist t
    · exact List.Sublist.refl t
  exact (one '\r' _).trans (one '\n' s)

theorem dropLineEndPlain {s : Text} (plain : '\n' ∉ s) : '\n' ∉ dropLineEnd s := fun member =>
  plain ((dropLineEndSublist s).subset member)

theorem linesSegmentThenInterpret (lines : List Text) (plain : ∀ s ∈ lines, '\n' ∉ s) :
    ∃ segments, Segmented 0 (lines.map dropLineEnd) segments ∧
      (∀ other, Segmented 0 (lines.map dropLineEnd) other → other = segments) ∧
      Document.ofLines lines = interpret segments := by
  have stripped : ∀ s ∈ lines.map dropLineEnd, '\n' ∉ s := by
    intro s member
    obtain ⟨raw, inside, rfl⟩ := List.mem_map.mp member
    exact dropLineEndPlain (plain raw inside)
  exact ⟨segments 0 (lines.map dropLineEnd), segmentsExist stripped,
    fun other cut => segmentsUnique stripped cut, readingInterpretsSegments lines⟩

theorem linesSegmentThenInterpretForCommand :
    (∀ s ∈ ["#?/nmae".toList, " # x".toList, "#@/command".toList, " ##".toList, "f()".toList],
      '\n' ∉ s) ∧
    ∃ segments,
      Segmented 0 (["#?/nmae".toList, " # x".toList, "#@/command".toList, " ##".toList,
        "f()".toList].map dropLineEnd) segments ∧
      (∀ other, Segmented 0 (["#?/nmae".toList, " # x".toList, "#@/command".toList, " ##".toList,
        "f()".toList].map dropLineEnd) other → other = segments) ∧
      Document.ofLines ["#?/nmae".toList, " # x".toList, "#@/command".toList, " ##".toList,
        "f()".toList] = interpret segments :=
  ⟨by decide, linesSegmentThenInterpret _ (by decide)⟩

end ScriptDoc
