import ScriptDoc.Reader

/-! The content of a documentation block, said without the machine that reads it. Every tag line
owns the text that follows it up to the next tag line or the next empty line; the lines before the
first tag line are the description; whatever else stands in the block leaves no trace. -/
namespace ScriptDoc

def isTagLine (content : Text) : Bool := (Text.trim content).head? = some '@'

def followers (contents : List Text) : List Text :=
  ((contents.takeWhile fun content => !content.isEmpty && !isTagLine content).map Text.trim).filter
    fun content => !content.isEmpty

def leadingText (contents : List Text) : List Text :=
  (contents.takeWhile fun content => !isTagLine content).filter fun content => !content.isEmpty

structure TagGroup where
  line : Nat
  name : Text
  text : Text
  followers : List Text
  deriving DecidableEq, Repr

def tagGroups (before : Nat) : List Text → List TagGroup
  | [] => []
  | content :: rest =>
    match splitTag? content with
    | some (name, text) => ⟨before + 1, name, text, followers rest⟩ :: tagGroups (before + 1) rest
    | none => tagGroups (before + 1) rest

namespace Record

def description : Record → Text
  | .flag r => r.description
  | .option r => r.description
  | .operand r => r.description
  | .env r => r.description
  | .reads r => r.description
  | .stdin r => r.description
  | .exit r => r.description
  | .stdout r => r.description
  | .stderr r => r.description
  | .sets r => r.description
  | .writes r => r.description
  | .deprecated r => r.message

def withDescription (description : Text) : Record → Record
  | .flag r => .flag { r with description }
  | .option r => .option { r with description }
  | .operand r => .operand { r with description }
  | .env r => .env { r with description }
  | .reads r => .reads { r with description }
  | .stdin r => .stdin { r with description }
  | .exit r => .exit { r with description }
  | .stdout r => .stdout { r with description }
  | .stderr r => .stderr { r with description }
  | .sets r => .sets { r with description }
  | .writes r => .writes { r with description }
  | .deprecated r => .deprecated { r with message := description }

def continued (record : Record) (followers : List Text) : Record :=
  record.withDescription
    (Text.join [' '] ((if record.description = [] then [] else [record.description]) ++ followers))

theorem withOwnDescription (record : Record) :
    record.withDescription record.description = record := by
  cases record <;> rfl

theorem extendWith (record : Record) (addition : Text) :
    record.extend addition =
      record.withDescription (extendDescription record.description addition) := by
  cases record <;> rfl

theorem continuedExtends (record : Record) (followers : List Text) :
    record.continued followers =
      if followers.isEmpty then record else record.extend (Text.join [' '] followers) := by
  cases followers with
  | nil =>
    by_cases empty : record.description = []
    · simpa [continued, empty, Text.join] using empty ▸ record.withOwnDescription
    · simpa [continued, empty, Text.join] using record.withOwnDescription
  | cons first rest =>
    rw [if_neg (by simp), extendWith, extendDescription, continued]
    by_cases empty : record.description = []
    · simp [empty]
    · simp [empty, Text.join]

end Record

namespace TagGroup

def read (group : TagGroup) : Except TagError Record :=
  Record.read group.name group.text group.line

def record? (group : TagGroup) : Option Record :=
  match group.read with
  | .ok record => some (record.continued group.followers)
  | .error _ => none

def warning? (group : TagGroup) : Option Warning :=
  match group.read with
  | .ok _ => none
  | .error e => some ⟨group.line, e.message⟩

end TagGroup

def tagRecords (before : Nat) (contents : List Text) : List Record :=
  (tagGroups before contents).filterMap TagGroup.record?

def tagWarnings (before : Nat) (contents : List Text) : List Warning :=
  (tagGroups before contents).filterMap TagGroup.warning?

namespace Block

def withRecords (b : Block) (records : List Record) : Block :=
  { b with
    flags := b.flags ++ records.filterMap fun | .flag r => some r | _ => none
    options := b.options ++ records.filterMap fun | .option r => some r | _ => none
    operands := b.operands ++ records.filterMap fun | .operand r => some r | _ => none
    env := b.env ++ records.filterMap fun | .env r => some r | _ => none
    reads := b.reads ++ records.filterMap fun | .reads r => some r | _ => none
    stdin := (records.filterMap fun | .stdin r => some r | _ => none).getLast?.or b.stdin
    exit := b.exit ++ records.filterMap fun | .exit r => some r | _ => none
    stdout := (records.filterMap fun | .stdout r => some r | _ => none).getLast?.or b.stdout
    stderr := (records.filterMap fun | .stderr r => some r | _ => none).getLast?.or b.stderr
    sets := b.sets ++ records.filterMap fun | .sets r => some r | _ => none
    writes := b.writes ++ records.filterMap fun | .writes r => some r | _ => none
    deprecated := (records.filterMap fun | .deprecated r => some r | _ => none).getLast?.or
      b.deprecated }

theorem withNoRecords (b : Block) : b.withRecords [] = b := by
  simp [withRecords]

theorem attachRecords (b : Block) (records : List Record) :
    records.foldl attach b = b.withRecords records := by
  induction records generalizing b with
  | nil => exact (withNoRecords b).symm
  | cons record rest ih =>
    rw [List.foldl_cons, ih]
    cases record <;> simp [attach, withRecords, List.getLast?_cons, Option.or_some]

def opened (keyword extra : Text) (line : Nat) : Block :=
  { visibility := (blockHeader keyword extra).1, name := (blockHeader keyword extra).2, line }

def documented (keyword extra : Text) (line : Nat) (contents : List Text) : Block :=
  { opened keyword extra line with
    description := Text.join ['\n'] (leadingText contents) }.withRecords (tagRecords line contents)

end Block

theorem splitTagNone {content : Text} (plain : isTagLine content = false) :
    splitTag? content = none := by
  unfold splitTag?
  split
  · rename_i rest tagged
    simp [isTagLine, tagged] at plain
  · rfl

theorem splitTagSome {content : Text} (tagged : isTagLine content = true) :
    ∃ name text, splitTag? content = some (name, text) := by
  cases trimmed : Text.trim content with
  | nil => simp [isTagLine, trimmed] at tagged
  | cons c rest =>
    have mark : c = '@' := by simpa [isTagLine, trimmed] using tagged
    subst mark
    exact ⟨(splitToken rest).1, Text.trim (splitToken rest).2, by simp only [splitTag?, trimmed]⟩

theorem followersStop {content : Text} (rest : List Text)
    (stop : content.isEmpty = true ∨ isTagLine content = true) :
    followers (content :: rest) = [] := by
  rcases stop with empty | tagged <;> simp [followers, *]

theorem followersText {content : Text} (rest : List Text) (filled : content.isEmpty = false)
    (plain : isTagLine content = false) :
    followers (content :: rest) =
      (if (Text.trim content).isEmpty then [] else [Text.trim content]) ++ followers rest := by
  simp only [followers, List.takeWhile_cons, filled, plain, Bool.not_false, Bool.and_self, if_true,
    List.map_cons, List.filter_cons]
  cases (Text.trim content).isEmpty <;> simp

theorem leadingTag {content : Text} (rest : List Text) (tagged : isTagLine content = true) :
    leadingText (content :: rest) = [] := by
  simp [leadingText, tagged]

theorem leadingUntagged {content : Text} (rest : List Text) (plain : isTagLine content = false) :
    leadingText (content :: rest) =
      (if content.isEmpty then [] else [content]) ++ leadingText rest := by
  simp only [leadingText, List.takeWhile_cons, plain, Bool.not_false, if_true, List.filter_cons]
  cases content.isEmpty <;> simp

theorem tagRecordsUntagged {content : Text} (before : Nat) (rest : List Text)
    (plain : isTagLine content = false) :
    tagRecords before (content :: rest) = tagRecords (before + 1) rest := by
  simp only [tagRecords, tagGroups, splitTagNone plain]

theorem tagRecordsTag {content name text : Text} (before : Nat) (rest : List Text)
    (split : splitTag? content = some (name, text)) :
    tagRecords before (content :: rest) =
      ((Record.read name text (before + 1 : Nat)).toOption.map
        fun record => record.continued (followers rest)).toList ++ tagRecords (before + 1) rest := by
  simp only [tagRecords, tagGroups, split, List.filterMap_cons, TagGroup.record?, TagGroup.read]
  cases Record.read name text (before + 1 : Nat) <;> simp [Except.toOption]

namespace Draft

def take (draft : Draft) (content : Text) (line : Int) : Draft :=
  match splitTag? content with
  | some (name, text) =>
    { draft.settle with inTags := true, pending := (Record.read name text line).toOption }
  | none => draft.takeText content

def takeAll (draft : Draft) (before : Nat) : List Text → Draft
  | [] => draft
  | content :: rest => (draft.take content (before + 1 : Nat)).takeAll (before + 1) rest

def owed (draft : Draft) (contents : List Text) : List Record :=
  match draft.pending with
  | some record => [record.continued (draft.continuation ++ followers contents)]
  | none => []

theorem settled (draft : Draft) : draft.settle =
    { draft with
      block := (draft.owed []).foldl Block.attach draft.block, pending := none,
      continuation := [] } := by
  obtain ⟨block, description, inTags, pending, continuation⟩ := draft
  cases pending <;> simp [settle, owed, followers, Record.continuedExtends]

theorem finished (draft : Draft) :
    draft.finish = { (draft.owed []).foldl Block.attach draft.block with
      description :=
        if draft.description.isEmpty then
          ((draft.owed []).foldl Block.attach draft.block).description
        else Text.join ['\n'] draft.description } := by
  simp only [finish, settled]
  split <;> rfl

theorem owedStop (draft : Draft) {content : Text} (rest : List Text)
    (stop : content.isEmpty = true ∨ isTagLine content = true) :
    draft.owed (content :: rest) = draft.owed [] := by
  have none : followers ([] : List Text) = [] := rfl
  simp only [owed, followersStop rest stop, none]

theorem takeKeepsRecords (draft : Draft) (content : Text) (rest : List Text) (before : Nat) :
    ((draft.take content (before + 1 : Nat)).owed rest ++ tagRecords (before + 1) rest).foldl
        Block.attach (draft.take content (before + 1 : Nat)).block =
      (draft.owed (content :: rest) ++ tagRecords before (content :: rest)).foldl
        Block.attach draft.block := by
  cases tagged : isTagLine content with
  | true =>
    obtain ⟨name, text, split⟩ := splitTagSome tagged
    rw [draft.owedStop rest (Or.inr tagged), tagRecordsTag before rest split]
    simp only [take, split, settled]
    cases read : Record.read name text (before + 1 : Nat) <;> simp [owed, Except.toOption]
  | false =>
    rw [tagRecordsUntagged before rest tagged]
    simp only [take, splitTagNone tagged, takeText]
    cases empty : content.isEmpty with
    | true =>
      rw [draft.owedStop rest (Or.inl empty)]
      simp only [if_true, settled, List.foldl_append]
      rfl
    | false =>
      have more := followersText rest empty tagged
      cases pending : draft.pending with
      | none =>
        simp only [Bool.false_eq_true, if_false, Option.isSome_none]
        split <;> simp [owed, pending]
      | some record =>
        simp only [Bool.false_eq_true, if_false, Option.isSome_some, if_true]
        split <;> rename_i blank <;> simp [owed, pending, more, blank]

theorem takeAllRecords (draft : Draft) (before : Nat) (contents : List Text) :
    ((draft.takeAll before contents).owed []).foldl Block.attach
        (draft.takeAll before contents).block =
      (draft.owed contents ++ tagRecords before contents).foldl Block.attach draft.block := by
  induction contents generalizing draft before with
  | nil => simp [takeAll, tagRecords, tagGroups]
  | cons content rest ih => exact (ih _ _).trans (takeKeepsRecords draft content rest before)

/- Only tags leave a record behind to wait for text, so text cannot be taken for a description
while one waits. -/
def Tagging (draft : Draft) : Prop := draft.pending.isSome = true → draft.inTags = true

theorem takeTagging {draft : Draft} (tagging : draft.Tagging) (content : Text) (line : Int) :
    (draft.take content line).Tagging := by
  unfold take
  split
  · intro _
    rfl
  · unfold takeText
    split
    · intro waits
      rw [settled] at waits
      contradiction
    · split
      · split <;> exact tagging
      · split <;> exact tagging

theorem takeDescription {draft : Draft} (tagging : draft.Tagging) (content : Text)
    (rest : List Text) (line : Int) :
    (draft.take content line).description ++
        (if (draft.take content line).inTags then [] else leadingText rest) =
      draft.description ++ (if draft.inTags then [] else leadingText (content :: rest)) := by
  cases tagged : isTagLine content with
  | true =>
    obtain ⟨name, text, split⟩ := splitTagSome tagged
    simp [take, split, settled, leadingTag rest tagged]
  | false =>
    rw [leadingUntagged rest tagged]
    simp only [take, splitTagNone tagged, takeText]
    cases empty : content.isEmpty with
    | true => simp [settled]
    | false =>
      cases pending : draft.pending with
      | none =>
        simp only [Bool.false_eq_true, if_false, Option.isSome_none]
        cases inTags : draft.inTags <;> simp [inTags]
      | some record =>
        have inTags : draft.inTags = true := tagging (by rw [pending]; rfl)
        simp only [Bool.false_eq_true, if_false, Option.isSome_some, if_true]
        rw [inTags]
        split <;> simp only [if_true]

theorem takeAllDescription {draft : Draft} (tagging : draft.Tagging) (before : Nat)
    (contents : List Text) :
    (draft.takeAll before contents).description =
      draft.description ++ (if draft.inTags then [] else leadingText contents) := by
  induction contents generalizing draft before with
  | nil => simp [takeAll, leadingText]
  | cons content rest ih =>
    rw [takeAll, ih (takeTagging tagging content _)]
    exact takeDescription tagging content rest _

theorem takeAllFinish (keyword extra : Text) (line : Nat) (contents : List Text) :
    (takeAll { block := .opened keyword extra line } line contents).finish =
      .documented keyword extra line contents := by
  have records := (takeAllRecords { block := .opened keyword extra line } line contents).trans
    (Block.attachRecords (.opened keyword extra line) (tagRecords line contents))
  have description :
      (takeAll { block := .opened keyword extra line } line contents).description =
        leadingText contents :=
    takeAllDescription (fun waits => absurd waits (by simp)) line contents
  rw [finished, records, description]
  cases leading : leadingText contents <;>
    simp [Block.documented, Block.opened, Block.withRecords, Text.join, leading]

end Draft

def readPlain (state : State) (d : Document) (before : Nat) : List Text → Document
  | [] => finish state before d
  | s :: rest =>
    readPlain (step state s (before + 1 : Nat) d).1 (step state s (before + 1 : Nat) d).2
      (before + 1) rest

theorem readFromPlain (state : State) (d : Document) (before : Nat) (lines : List Text) :
    readFrom state d before lines = readPlain state d before (lines.map dropLineEnd) := by
  induction lines generalizing state d before with
  | nil => rfl
  | cons s rest ih => exact ih _ _ _

def continues (s : Text) : Bool := !isClose s && (continuation? s).isSome

theorem continuesExact {s : Text} :
    continues s = true ↔ isClose s = false ∧ ∃ content, continuation? s = some content := by
  simp [continues, Option.isSome_iff_exists]

def Document.withWarnings (d : Document) (warnings : List Warning) : Document :=
  { d with warnings := d.warnings ++ warnings }

theorem tagWarningsUntagged {content : Text} (before : Nat) (rest : List Text)
    (plain : isTagLine content = false) :
    tagWarnings before (content :: rest) = tagWarnings (before + 1) rest := by
  simp only [tagWarnings, tagGroups, splitTagNone plain]

theorem stepContentExact (draft : Draft) (content : Text) (before : Nat) (d : Document) :
    stepContent draft content (before + 1 : Nat) d =
      (.block (draft.take content (before + 1 : Nat)),
        d.withWarnings (tagWarnings before [content])) := by
  cases tagged : isTagLine content with
  | true =>
    obtain ⟨name, text, split⟩ := splitTagSome tagged
    simp only [stepContent, Draft.take, tagWarnings, tagGroups, split, List.filterMap_cons,
      TagGroup.warning?, TagGroup.read, List.filterMap_nil]
    cases Record.read name text (before + 1 : Nat) with
    | ok record => simp [Document.withWarnings, Except.toOption]
    | error e => simp [Document.withWarnings, Document.warn, Except.toOption, Draft.settled]
  | false =>
    simp only [stepContent, Draft.take, splitTagNone tagged, tagWarningsUntagged before [] tagged]
    simp [Document.withWarnings, tagWarnings, tagGroups]

theorem tagWarningsCons (before : Nat) (content : Text) (rest : List Text) :
    tagWarnings before (content :: rest) =
      tagWarnings before [content] ++ tagWarnings (before + 1) rest := by
  cases tagged : isTagLine content with
  | true =>
    obtain ⟨name, text, split⟩ := splitTagSome tagged
    simp only [tagWarnings, tagGroups, split, List.filterMap_cons, TagGroup.warning?, TagGroup.read]
    cases Record.read name text (before + 1 : Nat) <;> simp
  | false =>
    rw [tagWarningsUntagged before rest tagged, tagWarningsUntagged before [] tagged]
    simp [tagWarnings, tagGroups]

theorem readContents (draft : Draft) (d : Document) (before : Nat) (body tail : List Text)
    (continuing : ∀ s ∈ body, continues s = true) :
    readPlain (.block draft) d before (body ++ tail) =
      readPlain (.block (draft.takeAll before (body.filterMap continuation?)))
        (d.withWarnings (tagWarnings before (body.filterMap continuation?)))
        (before + body.length) tail := by
  induction body generalizing draft d before with
  | nil => simp [Draft.takeAll, Document.withWarnings, tagWarnings, tagGroups]
  | cons s rest ih =>
    obtain ⟨unclosed, content, found⟩ := continuesExact.mp (continuing s (by simp))
    have later : ∀ s ∈ rest, continues s = true := fun s member =>
      continuing s (List.mem_cons_of_mem _ member)
    have first : step (.block draft) s (before + 1 : Nat) d =
        (.block (draft.take content (before + 1 : Nat)),
          d.withWarnings (tagWarnings before [content])) := by
      simp only [step, stepBlock, unclosed, found, Bool.false_eq_true, if_false, stepContentExact]
    rw [List.cons_append, readPlain, first, ih _ _ _ later]
    simp only [List.filterMap_cons, found, Draft.takeAll, List.length_cons]
    rw [tagWarningsCons before content (rest.filterMap continuation?), Nat.add_right_comm,
      Nat.add_assoc]
    simp only [Document.withWarnings, List.append_assoc]

/- A line that means something outside starts with a hash sign, so it continues nothing and closes
nothing: whatever was being read ends there. -/
theorem meaningInterrupts {s : Text} (means : TopLine.ofText s ≠ .other) :
    isClose s = false ∧ continuation? s = none := by
  unfold TopLine.ofText at means
  split at means <;> first | contradiction | exact ⟨rfl, rfl⟩

theorem blockOpenInterrupts {s keyword extra : Text}
    (opens : TopLine.ofText s = .blockOpen keyword extra) :
    isClose s = false ∧ continuation? s = none :=
  meaningInterrupts (by simp [opens])

theorem stepInterrupted {s : Text} (state : State) (line : Int) (d : Document)
    (unclosed : isClose s = false) (interrupts : continuation? s = none) :
    step state s line d = stepTop s line (finish state line d) := by
  cases state <;> simp [step, stepMetadata, stepBlock, unclosed, interrupts, finish]

theorem stepClosed {s : Text} {state : State} (line : Int) (d : Document)
    (inside : state ≠ .top) (closed : isClose s = true) :
    step state s line d = (.top, finish state line d) := by
  cases state with
  | top => contradiction
  | metadata tag lines => simp [step, stepMetadata, closed]
  | block draft => simp [step, stepBlock, closed]

inductive Reads (state : State) (s : Text) (line : Int) (d : Document) : State × Document → Prop where
  | closes (inside : state ≠ .top) (closed : isClose s = true) :
      Reads state s line d (.top, finish state line d)
  | outside (free : state = .top ∨ (isClose s = false ∧ continuation? s = none)) :
      Reads state s line d (stepTop s line (finish state line d))
  | value {tag : Text} {lines : List Text} {content : Text} (here : state = .metadata tag lines)
      (unclosed : isClose s = false) (found : continuation? s = some content) :
      Reads state s line d (.metadata tag (lines ++ [content]), d)
  | content {draft : Draft} {content : Text} (here : state = .block draft)
      (unclosed : isClose s = false) (found : continuation? s = some content) :
      Reads state s line d (stepContent draft content line d)

theorem stepReads (state : State) (s : Text) (line : Int) (d : Document) :
    Reads state s line d (step state s line d) := by
  by_cases outside : state = .top
  · subst outside
    exact .outside (Or.inl rfl)
  · cases closed : isClose s with
    | true =>
      rw [stepClosed line d outside closed]
      exact .closes outside closed
    | false =>
      cases found : continuation? s with
      | none =>
        rw [stepInterrupted state line d closed found]
        exact .outside (Or.inr ⟨closed, found⟩)
      | some content =>
        cases state with
        | top => contradiction
        | metadata tag lines =>
          simp only [step, stepMetadata, closed, found, Bool.false_eq_true, if_false]
          exact .value rfl closed found
        | block draft =>
          simp only [step, stepBlock, closed, found, Bool.false_eq_true, if_false]
          exact .content rfl closed found

theorem stepTopOpens {s keyword extra : Text} (line : Nat) (d : Document)
    (opens : TopLine.ofText s = .blockOpen keyword extra) :
    stepTop s line d = (.block { block := .opened keyword extra line }, d) := by
  simp only [stepTop, opens]
  rfl

theorem readBlock (state : State) (d : Document) (before : Nat) {opener keyword extra : Text}
    (body tail : List Text) (opens : TopLine.ofText opener = .blockOpen keyword extra)
    (continuing : ∀ s ∈ body, continues s = true) :
    readPlain state d before (opener :: (body ++ tail)) =
      readPlain (.block (Draft.takeAll { block := .opened keyword extra (before + 1) } (before + 1)
          (body.filterMap continuation?)))
        ((finish state (before + 1 : Nat) d).withWarnings
          (tagWarnings (before + 1) (body.filterMap continuation?)))
        (before + 1 + body.length) tail := by
  obtain ⟨unclosed, interrupts⟩ := blockOpenInterrupts opens
  rw [readPlain, stepInterrupted state _ d unclosed interrupts, stepTopOpens _ _ opens]
  exact readContents _ _ _ body tail continuing

theorem readClosed {z : Text} {state : State} (d : Document) (before : Nat) (rest : List Text)
    (inside : state ≠ .top) (closed : isClose z = true) :
    readPlain state d before (z :: rest) =
      readPlain .top (finish state (before + 1 : Nat) d) (before + 1) rest := by
  rw [readPlain, stepClosed _ d inside closed]

theorem readInterrupted {z : Text} (state : State) (d : Document) (before : Nat)
    (rest : List Text) (unclosed : isClose z = false) (interrupts : continuation? z = none) :
    readPlain state d before (z :: rest) =
      readPlain .top (finish state (before + 1 : Nat) d) before (z :: rest) := by
  rw [readPlain, readPlain, stepInterrupted state _ d unclosed interrupts]
  rfl

def Document.withBlock (d : Document) (keyword extra : Text) (line : Nat) (contents : List Text) :
    Document :=
  { d with
    blocks := d.blocks ++ [.documented keyword extra line contents]
    warnings := d.warnings ++ tagWarnings line contents }

theorem finishBlock (d : Document) (keyword extra : Text) (line : Nat) (contents : List Text)
    (ending : Int) :
    finish (.block (Draft.takeAll { block := .opened keyword extra line } line contents)) ending
        (d.withWarnings (tagWarnings line contents)) =
      d.withBlock keyword extra line contents := by
  simp only [finish, Draft.takeAllFinish]
  rfl

theorem blockIsItsTagGroups (state : State) (d : Document) (before : Nat)
    (opener keyword extra : Text) (body : List Text)
    (opens : TopLine.ofText (dropLineEnd opener) = .blockOpen keyword extra)
    (continuing : ∀ s ∈ body, continues (dropLineEnd s) = true) :
    let contents := body.filterMap fun s => continuation? (dropLineEnd s)
    let after := (finish state (before + 1 : Nat) d).withBlock keyword extra (before + 1) contents
    readFrom state d before (opener :: body) = after ∧
    (∀ z rest, isClose (dropLineEnd z) = true →
      readFrom state d before (opener :: (body ++ z :: rest)) =
        readFrom .top after (before + body.length + 2) rest) ∧
    (∀ z rest, isClose (dropLineEnd z) = false → continuation? (dropLineEnd z) = none →
      readFrom state d before (opener :: (body ++ z :: rest)) =
        readFrom .top after (before + body.length + 1) (z :: rest)) := by
  intro contents after
  have plain : ∀ s ∈ body.map dropLineEnd, continues s = true := by
    intro s member
    obtain ⟨raw, inside, same⟩ := List.mem_map.mp member
    rw [← same]
    exact continuing raw inside
  have read := fun tail => readBlock state d before (body.map dropLineEnd) tail opens plain
  have sameContents : (body.map dropLineEnd).filterMap continuation? = contents := by
    rw [List.filterMap_map]
    rfl
  rw [sameContents, List.length_map] at read
  simp only [readFromPlain, List.map_cons, List.map_append]
  refine ⟨?_, fun z rest closed => ?_, fun z rest unclosed interrupts => ?_⟩
  · have ended := read []
    rw [List.append_nil] at ended
    rw [ended]
    exact finishBlock _ keyword extra (before + 1) contents _
  · rw [read, readClosed _ _ _ (by simp) closed, finishBlock]
    congr 1
    omega
  · rw [read, readInterrupted _ _ _ _ unclosed interrupts, finishBlock]
    congr 1
    omega

def commandLines : List Text :=
  [" # Runs.\n", " # @exit 1 on\n", " #  failure\n", " # @deprecated\n", " # Use other.\n",
    " # @exit\n", " # lost\n"]

def commandRead : Document :=
  { blocks := [{
      visibility := .command
      description := "Runs."
      line := 1
      exit := [{ code := "1", description := "on failure", line := 3 }]
      deprecated := some { message := "Use other.", line := 5 } }]
    warnings := [⟨7, "@exit requires an exit code"⟩] }

theorem blockIsItsTagGroupsForCommand :
    TopLine.ofText (dropLineEnd "#@/command\n".toList) = .blockOpen "command".toList [] ∧
    (∀ s ∈ commandLines, continues (dropLineEnd s) = true) ∧
    ∀ z rest, isClose (dropLineEnd z) = true →
      readFrom .top {} 0 ("#@/command\n".toList :: (commandLines ++ z :: rest)) =
        readFrom .top commandRead 9 rest := by
  have opens : TopLine.ofText (dropLineEnd "#@/command\n".toList) =
      .blockOpen "command".toList [] := by decide
  have continuing : ∀ s ∈ commandLines, continues (dropLineEnd s) = true := by decide
  have shown : (finish .top (0 + 1 : Nat) {}).withBlock "command".toList [] (0 + 1)
      (commandLines.filterMap fun s => continuation? (dropLineEnd s)) = commandRead := by decide
  obtain ⟨-, closed, -⟩ := blockIsItsTagGroups .top {} 0 _ _ _ commandLines opens continuing
  rw [shown] at closed
  exact ⟨opens, continuing, closed⟩

end ScriptDoc
