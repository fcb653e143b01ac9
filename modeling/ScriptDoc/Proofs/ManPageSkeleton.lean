import ScriptDoc.Proofs.ManPageRequests

/-! The skeleton of a manual page: its headings, and the indentations between them. Every section that
has a content has its heading, in a fixed order, and nothing is indented but the flags and options of
subcommands. -/
namespace ScriptDoc
namespace ManPage

inductive Section where
  | name
  | synopsis
  | description
  | options
  | commands
  | environment
  | files
  | exitStatus
  | examples
  | author
  deriving DecidableEq, Repr

namespace Section

def all : List Section :=
  [.name, .synopsis, .description, .options, .commands, .environment, .files, .exitStatus, .examples,
    .author]

def title : Section → Text
  | .name => "NAME"
  | .synopsis => "SYNOPSIS"
  | .description => "DESCRIPTION"
  | .options => "OPTIONS"
  | .commands => "COMMANDS"
  | .environment => "ENVIRONMENT"
  | .files => "FILES"
  | .exitStatus => "EXIT STATUS"
  | .examples => "EXAMPLES"
  | .author => "AUTHOR"

def filled (d : Document) : Section → Bool
  | .name => true
  | .synopsis => (nonempty? d.metadata.synopsis).isSome
  | .description => (nonempty? d.metadata.description).isSome
  | .options => d.command?.any fun b => !(b.flags.isEmpty && b.options.isEmpty)
  | .commands => !d.subcommands.isEmpty
  | .environment => d.command?.any fun b => !b.env.isEmpty
  | .files => d.command?.any fun b => !(b.reads.isEmpty && b.writes.isEmpty)
  | .exitStatus => d.command?.any fun b => !b.exit.isEmpty
  | .examples => (nonempty? d.metadata.examples).isSome
  | .author => (nonempty? d.metadata.author).isSome

def heading (s : Section) : Text := ".SH " ++ s.title ++ "\n"

end Section

def isHeading (line : Text) : Bool := (".SH " : Text).isPrefixOf line

def isIndentation (line : Text) : Bool :=
  (".RS" : Text).isPrefixOf line || (".RE" : Text).isPrefixOf line

def indentations (d : Document) : List Text :=
  (d.subcommands.flatMap Block.entries).flatMap fun _ => [".RS\n", ".RE\n"]

namespace PageLine

def isHeading : PageLine → Bool
  | .request .heading (some _) => true
  | _ => false

def isIndentation : PageLine → Bool
  | .request .indent _ => true
  | .request .outdent _ => true
  | _ => false

def isFrame (line : PageLine) : Bool := line.isHeading || line.isIndentation

end PageLine

theorem frameWritten {line : PageLine} (undotted : ∀ s, line = .text s → s.head? ≠ some '.') :
    isHeading line.written = line.isHeading ∧
      isIndentation line.written = line.isIndentation := by
  cases line with
  | request kind argument =>
    cases argument with
    | none => cases kind <;> exact ⟨rfl, rfl⟩
    | some argument => cases kind <;> exact ⟨rfl, rfl⟩
  | text s =>
    cases s with
    | nil => exact ⟨rfl, rfl⟩
    | cons x rest =>
      have other : ('.' == x) = false :=
        beq_eq_false_iff_ne.mpr fun same => undotted (x :: rest) rfl (same ▸ rfl)
      have unlike (mark : Text) : ('.' :: mark).isPrefixOf (x :: rest ++ ['\n']) = false := by
        rw [List.cons_append, List.isPrefixOf, other, Bool.false_and]
      constructor
      · exact unlike "SH "
      · exact Bool.or_eq_false_iff.mpr ⟨unlike "RS", unlike "RE"⟩

section Frame

def frame (lines : List PageLine) : List PageLine := lines.filter PageLine.isFrame

def indentPair : List PageLine := [.request .indent none, .request .outdent none]

theorem frameAppend (a b : List PageLine) : frame (a ++ b) = frame a ++ frame b :=
  List.filter_append a b

theorem frameFlatMap {α : Type} (items : List α) (lay : α → List PageLine) :
    frame (items.flatMap lay) = items.flatMap fun item => frame (lay item) := List.filter_flatMap

theorem frameText (s : Text) : frame (textLines s) = [] := by
  rw [frame, textLines, List.filter_map, List.map_eq_nil_iff, List.filter_eq_nil_iff]
  exact fun _ _ => Bool.false_ne_true

theorem frameRequest {kind : Request} (quiet : ∀ a, (PageLine.request kind a).isFrame = false)
    (s : Text) : frame (requestLines kind s) = [] := by
  rw [frame, requestLines, List.filter_cons_of_neg (by simp [quiet]), List.filter_map,
    List.map_eq_nil_iff, List.filter_eq_nil_iff]
  exact fun _ _ => Bool.false_ne_true

theorem frameBold (s : Text) : frame (requestLines .bold s) = [] := frameRequest (fun _ => rfl) s

theorem frameTagged (s : Text) :
    frame (.request .tagged none :: requestLines .bold s) = [] := frameBold s

theorem frameTerm (name description : Text) : frame (termLines name description) = [] := by
  rw [termLines, frameAppend, frameTagged, List.nil_append]
  split
  · rfl
  · exact frameText _

theorem frameHeaded (title : Text) (lines : List PageLine) :
    frame (headed title lines) = .request .heading (some title) :: frame lines := rfl

theorem frameOptional (title : Text) (value : Option Text) {lay : Text → List PageLine}
    (quiet : ∀ s, frame (lay s) = []) : frame (optionalLines title value lay) =
      if (nonempty? value).isSome then [.request .heading (some title)] else [] := by
  unfold optionalLines
  cases nonempty? value with
  | none => rfl
  | some s =>
    rw [Option.elim_some, frameHeaded, quiet]
    rfl

theorem frameTerms (title : Text) (terms : List (Text × Text)) :
    frame (termSectionLines title terms) =
      if terms.isEmpty then [] else [.request .heading (some title)] := by
  unfold termSectionLines
  split
  · rfl
  · rw [frameHeaded, frameFlatMap, List.flatMap_eq_nil_iff.mpr fun item _ => frameTerm item.1 item.2]

theorem frameNested (e : Entry) : frame (nestedLines e) = indentPair := by
  have inner : frame (termLines e.label e.description ++ [.request .outdent none]) =
      [.request .outdent none] := by
    rw [frameAppend, frameTerm]
    rfl
  exact congrArg (PageLine.request .indent none :: ·) inner

theorem frameSubcommandText (b : Block) : frame (subcommandTextLines b) = [] := by
  unfold subcommandTextLines
  cases b.deprecated with
  | some mark => exact frameText _
  | none =>
    simp only
    split
    · rfl
    · exact frameText _

theorem frameSubcommand (b : Block) :
    frame (subcommandLines b) = b.entries.flatMap fun _ => indentPair := by
  rw [subcommandLines, frameAppend, frameAppend, frameTagged, frameSubcommandText, frameFlatMap]
  simp only [frameNested, List.nil_append]

theorem frameSubcommands (blocks : List Block) : frame (blocks.flatMap subcommandLines) =
    (blocks.flatMap Block.entries).flatMap fun _ => indentPair := by
  rw [frameFlatMap, List.flatMap_assoc]
  simp only [frameSubcommand]

def Section.frame (d : Document) (s : Section) : List PageLine :=
  .request .heading (some s.title) :: if s = .commands then
    (d.subcommands.flatMap Block.entries).flatMap fun _ => indentPair
  else []

end Frame

def Framed (d : Document) (lines : List PageLine) (sections : List Section) : Prop :=
  frame lines = (sections.filter (Section.filled d)).flatMap (Section.frame d)

section Framed
variable {d : Document}

theorem framedAppend {a b : List PageLine} {first second : List Section} (front : Framed d a first)
    (back : Framed d b second) : Framed d (a ++ b) (first ++ second) := by
  unfold Framed at front back ⊢
  rw [frameAppend, front, back, List.filter_append, List.flatMap_append]

theorem framedOne {lines : List PageLine} {s : Section}
    (filled : s.filled d = true → frame lines = s.frame d)
    (empty : s.filled d = false → frame lines = []) : Framed d lines [s] := by
  unfold Framed
  cases present : s.filled d with
  | true => rw [List.filter_cons_of_pos present, filled present, List.filter_nil,
      List.flatMap_singleton]
  | false => rw [List.filter_cons_of_neg (by simp [present]), empty present]; rfl

theorem framedTitle (date : Text) :
    Framed d (requestLines .title (titleArgument d.metadata date)) [] := frameRequest (fun _ => rfl) _

theorem framedName : Framed d (headed "NAME" (textLines (nameText d.metadata))) [.name] := by
  refine framedOne (fun _ => ?_) fun (empty : true = false) =>
    absurd empty (by decide)
  rw [frameHeaded, frameText]
  rfl

theorem framedValue {s : Section} {value : Option Text} {lay : Text → List PageLine}
    (other : s ≠ .commands) (present : s.filled d = (nonempty? value).isSome)
    (quiet : ∀ v, frame (lay v) = []) : Framed d (optionalLines s.title value lay) [s] := by
  refine framedOne (fun filled => ?_) fun empty => ?_
  · rw [frameOptional _ _ quiet, ← present, if_pos filled, Section.frame, if_neg other]
  · rw [frameOptional _ _ quiet, ← present, if_neg (by simp [empty])]

theorem framedTerms {s : Section} (terms : Block → List (Text × Text)) {listed : Block → Bool}
    (other : s ≠ .commands) (present : s.filled d = d.command?.any listed)
    (each : ∀ b, listed b = !(terms b).isEmpty) :
    Framed d (termSectionLines s.title (commandTerms d terms)) [s] := by
  have counted : (commandTerms d terms).isEmpty = !s.filled d := by
    rw [present, commandTerms]
    cases d.command? with
    | none => rfl
    | some b => simp [each]
  refine framedOne (fun filled => ?_) fun empty => ?_
  · rw [frameTerms, counted, filled, if_neg (by decide), Section.frame, if_neg other]
  · rw [frameTerms, counted, empty, if_pos (by decide)]

theorem framedCommands : Framed d (commandsLines d) [.commands] := by
  refine framedOne (fun filled => ?_) fun empty => ?_
  · have some : d.subcommands.isEmpty = false := by
      simpa only [Section.filled, Bool.not_eq_true'] using filled
    rw [commandsLines, some, if_neg Bool.false_ne_true, frameHeaded, frameSubcommands, Section.frame,
      if_pos rfl]
    rfl
  · have none : d.subcommands.isEmpty = true := by
      simpa only [Section.filled, Bool.not_eq_false'] using empty
    rw [commandsLines, none, if_pos rfl]
    rfl

theorem framedExamples :
    Framed d (optionalLines "EXAMPLES" d.metadata.examples fun s =>
      (Text.splitOn '\n' s).flatMap exampleLines) [.examples] := by
  refine framedValue (s := .examples) (by decide) rfl fun v => ?_
  rw [frameFlatMap]
  exact List.flatMap_eq_nil_iff.mpr fun line _ => frameBold (escape line)

theorem framedLayout (date : Text) : Framed d (layout d date) Section.all := by
  have synopsis := framedValue (d := d) (s := .synopsis) (by decide) rfl fun v => frameBold (escape v)
  have description := framedValue (d := d) (s := .description) (by decide) rfl fun v =>
    frameText (escape v)
  have options := framedTerms (d := d) (s := .options)
    (fun b => b.entries.map fun e => (e.label, e.description)) (by decide) rfl fun b => by
      cases flags : b.flags <;> simp [Block.entries, flags]
  have environment := framedTerms (d := d) (s := .environment)
    (fun b => b.env.map fun r => (r.name, r.description)) (by decide) rfl fun b => by
      rw [List.isEmpty_map]
  have files := framedTerms (d := d) (s := .files)
    (fun b => (b.reads ++ b.writes).map fun r => (r.path, r.description)) (by decide) rfl fun b => by
      cases reads : b.reads <;> simp
  have exitStatus := framedTerms (d := d) (s := .exitStatus)
    (fun b => b.exit.map fun r => (r.code, r.description)) (by decide) rfl fun b => by
      rw [List.isEmpty_map]
  have author := framedValue (d := d) (s := .author) (by decide) rfl fun v => frameText (escape v)
  exact framedAppend (framedAppend (framedAppend (framedAppend (framedAppend (framedAppend
    (framedAppend (framedAppend (framedAppend (framedAppend (framedTitle date) framedName) synopsis)
    description) options) framedCommands) environment) files) exitStatus) framedExamples) author

end Framed

section Written
variable {d : Document}

def isFrame (line : Text) : Bool := isHeading line || isIndentation line

def Section.written (d : Document) (s : Section) : List Text :=
  s.heading :: if s = .commands then indentations d else []

theorem sectionWritten (s : Section) :
    (Section.frame d s).map PageLine.written = Section.written d s := by
  have heading : PageLine.written (.request .heading (some s.title)) = s.heading := rfl
  rw [Section.frame, Section.written, List.map_cons, heading]
  split
  · rw [List.map_flatMap, indentations]
    rfl
  · rfl

theorem writtenFrame {lines : List PageLine} (undotted : ¬ Leads '.' lines) :
    (lines.map PageLine.written).filter isFrame = (frame lines).map PageLine.written := by
  rw [List.filter_map, frame]
  refine congrArg _ (List.filter_congr fun line member => ?_)
  have known := frameWritten fun s (same : line = .text s) first =>
    undotted ⟨s, same ▸ member, first⟩
  rw [Function.comp_apply, isFrame, known.1, known.2, PageLine.isFrame]

theorem indentationsApart :
    ∀ line ∈ indentations d, isHeading line = false ∧ isIndentation line = true := by
  intro line member
  obtain ⟨_, _, inside⟩ := List.mem_flatMap.mp member
  rcases List.mem_pair.mp inside with rfl | rfl <;> exact ⟨rfl, rfl⟩

theorem headingApart (s : Section) : isHeading s.heading = true ∧ isIndentation s.heading = false := by
  cases s <;> exact ⟨rfl, rfl⟩

theorem sectionHeadings (s : Section) : (Section.written d s).filter isHeading = [s.heading] := by
  rw [Section.written, List.filter_cons_of_pos (headingApart s).1]
  refine congrArg _ (List.filter_eq_nil_iff.mpr fun line member => ?_)
  split at member
  · simp [(indentationsApart line member).1]
  · contradiction

theorem sectionIndentations (s : Section) :
    (Section.written d s).filter isIndentation = if s = .commands then indentations d else [] := by
  rw [Section.written, List.filter_cons_of_neg (by simp [(headingApart s).2])]
  refine List.filter_eq_self.mpr fun line member => ?_
  split at member
  · exact (indentationsApart line member).2
  · contradiction

theorem unfilledIndentations (empty : Section.filled d .commands = false) : indentations d = [] := by
  have none : d.subcommands = [] :=
    List.isEmpty_iff.mp (by simpa only [Section.filled, Bool.not_eq_false'] using empty)
  rw [indentations, none]
  rfl

theorem indentedSections (front back : List Section) (before : .commands ∉ front)
    (after : .commands ∉ back) :
    (((front ++ .commands :: back).filter (Section.filled d)).flatMap fun s =>
      if s = .commands then indentations d else []) = indentations d := by
  have others {sections : List Section} (absent : .commands ∉ sections) :
      ((sections.filter (Section.filled d)).flatMap fun s =>
        if s = .commands then indentations d else []) = [] := by
    refine List.flatMap_eq_nil_iff.mpr fun s member => if_neg fun same => ?_
    exact absent (same ▸ List.mem_of_mem_filter member)
  rw [List.filter_append, List.flatMap_append, others before, List.nil_append]
  cases present : Section.filled d .commands with
  | true =>
    rw [List.filter_cons_of_pos present, List.flatMap_cons, others after, if_pos rfl, List.append_nil]
  | false =>
    rw [List.filter_cons_of_neg (by simp [present]), others after, unfilledIndentations present]

end Written

end ManPage

def Document.texts (d : Document) : List Text :=
  d.strings ++ d.blocks.map Block.description ++ MetaField.all.filterMap d.metadata.get

section Texts
variable {d : Document} {b : Block}

theorem heldDescription {r : Record} (held : b.Holds r) : r.description ∈ b.strings :=
  List.mem_append_right _ (List.mem_flatMap.mpr ⟨r, memRecords.mpr held, List.mem_cons_self⟩)

theorem entryDescription {e : Entry} (member : e ∈ b.entries) : e.description ∈ b.strings := by
  rcases List.mem_append.mp member with flag | option
  · obtain ⟨r, held, rfl⟩ := List.mem_map.mp flag
    exact heldDescription (r := .flag r) held
  · obtain ⟨r, held, rfl⟩ := List.mem_map.mp option
    exact heldDescription (r := .option r) held

theorem termTextsHeld : b.termTexts ⊆ b.strings := by
  intro s member
  simp only [Block.termTexts, List.mem_append, List.mem_map] at member
  rcases member with ((⟨e, inside, rfl⟩ | ⟨r, held, rfl⟩) | ⟨r, held | held, rfl⟩) | ⟨r, held, rfl⟩
  · exact entryDescription inside
  · exact heldDescription (r := .env r) held
  · exact heldDescription (r := .reads r) held
  · exact heldDescription (r := .writes r) held
  · exact heldDescription (r := .exit r) held

theorem commandTextsHeld : b.commandTexts ⊆ b.description :: b.strings := by
  intro s member
  rcases List.mem_append.mp member with own | entry
  · split at own
    · contradiction
    · exact List.mem_singleton.mp own ▸ List.mem_cons_self
  · obtain ⟨e, inside, rfl⟩ := List.mem_map.mp entry
    exact List.mem_cons_of_mem _ (entryDescription inside)

theorem blockTexts (member : b ∈ d.blocks) : b.description :: b.strings ⊆ d.texts := by
  intro s inside
  simp only [Document.texts, Document.strings, List.mem_append, List.mem_map, List.mem_flatMap]
  rcases List.mem_cons.mp inside with rfl | held
  · exact Or.inl (Or.inr ⟨b, member, rfl⟩)
  · exact Or.inl (Or.inl (Or.inl (Or.inr ⟨b, member, held⟩)))

theorem valueText (field : MetaField) : (d.metadata.get field).toList ⊆ d.texts := by
  intro s inside
  have listed : field ∈ MetaField.all := by cases field <;> decide
  exact List.mem_append_right _ (List.mem_filterMap.mpr ⟨field, listed, Option.mem_toList.mp inside⟩)

theorem openTextsHeld : d.openTexts ⊆ d.texts := by
  intro s member
  simp only [Document.openTexts, List.mem_append, List.mem_flatMap, Option.mem_toList] at member
  rcases member with (((name | description) | author) | ⟨b, command, inside⟩) | ⟨b, sub, inside⟩
  · exact valueText .name (Option.mem_toList.mpr name)
  · exact valueText .description (Option.mem_toList.mpr description)
  · exact valueText .author (Option.mem_toList.mpr author)
  · exact blockTexts (commandMember command) (List.mem_cons_of_mem _ (termTextsHeld inside))
  · exact blockTexts (List.mem_of_mem_filter sub) (commandTextsHeld inside)

theorem trailingTextsHeld : d.trailingTexts ⊆ d.texts :=
  List.append_subset.mpr ⟨List.append_subset.mpr ⟨valueText .manSection, valueText .version⟩,
    valueText .synopsis⟩

end Texts

/- The headings of a page are those of its filled sections in order, and its indentations come in
pairs, all in the section of subcommands. -/
theorem pageSkeletonFixed (t : Text) {date : Text} (day : '\n' ∉ date)
    (undotted : ∀ s ∈ (Document.ofText t).texts, ¬ StartsLine '.' s) :
    let d := Document.ofText t
    let sections := ManPage.Section.all.filter (ManPage.Section.filled d)
    ∃ page, Format.man.render date d = .ok page ∧
      (Text.lines page).filter ManPage.isHeading = sections.map ManPage.Section.heading ∧
      (Text.lines page).filter ManPage.isIndentation = ManPage.indentations d ∧
      (Text.lines page).filter ManPage.isFrame = sections.flatMap (ManPage.Section.written d) := by
  intro d sections
  have silent : ¬ ManPage.Leads '.' (ManPage.layout d date) := by
    rw [ManPage.leadsLayout (Or.inl rfl) day fun _ => blockStringsOneLine]
    rintro (⟨s, member, starts⟩ | ⟨s, member, later⟩)
    · exact undotted s (openTextsHeld member) starts
    · exact undotted s (trailingTextsHeld member) (Or.inr later)
  have framed : (Text.lines (d.manPage date)).filter ManPage.isFrame =
      sections.flatMap (ManPage.Section.written d) := by
    rw [(ManPage.laidPage d date).lines, ManPage.writtenFrame silent, ManPage.framedLayout,
      List.map_flatMap]
    exact congrArg (sections.flatMap ·) (funext ManPage.sectionWritten)
  have headings : (Text.lines (d.manPage date)).filter ManPage.isHeading =
      ((Text.lines (d.manPage date)).filter ManPage.isFrame).filter ManPage.isHeading := by
    rw [List.filter_filter]
    exact List.filter_congr fun line _ => by simp +contextual [ManPage.isFrame]
  have indentations : (Text.lines (d.manPage date)).filter ManPage.isIndentation =
      ((Text.lines (d.manPage date)).filter ManPage.isFrame).filter ManPage.isIndentation := by
    rw [List.filter_filter]
    exact List.filter_congr fun line _ => by simp +contextual [ManPage.isFrame]
  refine ⟨d.manPage date, rfl, ?_, ?_, framed⟩
  · rw [headings, framed, List.filter_flatMap, List.map_eq_flatMap]
    exact congrArg (sections.flatMap ·) (funext ManPage.sectionHeadings)
  · rw [indentations, framed, List.filter_flatMap]
    simp only [ManPage.sectionIndentations]
    exact ManPage.indentedSections [.name, .synopsis, .description, .options]
      [.environment, .files, .exitStatus, .examples, .author] (by decide) (by decide)

def pushScript : Text :=
  "#?/name tool\n#?/author Jane Developer\n#@/command\n # @flag -q Say less\n ##\n" ++
    "#@/subcommand push\n # @flag -f Overwrite\n # @option -o <file> Where to write\n ##\n"

theorem pageSkeletonFixedForPush :
    '\n' ∉ ("2024-01-02" : Text) ∧
      (∀ s ∈ (Document.ofText pushScript).texts, ¬ StartsLine '.' s) ∧
      ∃ page, Format.man.render "2024-01-02" (Document.ofText pushScript) = .ok page ∧
        (Text.lines page).filter ManPage.isHeading =
          [".SH NAME\n", ".SH OPTIONS\n", ".SH COMMANDS\n", ".SH AUTHOR\n"].map String.toList ∧
        (Text.lines page).filter ManPage.isIndentation =
          [".RS\n", ".RE\n", ".RS\n", ".RE\n"].map String.toList := by
  have day : '\n' ∉ ("2024-01-02" : Text) := by decide
  have read : (∀ s ∈ (Document.ofText pushScript).texts, ¬ StartsLine '.' s) ∧
      ManPage.Section.all.filter (ManPage.Section.filled (Document.ofText pushScript)) =
        [.name, .options, .commands, .author] ∧
      ManPage.indentations (Document.ofText pushScript) =
        [".RS\n", ".RE\n", ".RS\n", ".RE\n"].map String.toList := by decide +kernel
  obtain ⟨page, rendered, headings, indentations, _⟩ := pageSkeletonFixed pushScript day read.1
  rw [read.2.1] at headings
  rw [read.2.2] at indentations
  exact ⟨day, read.1, page, rendered, headings, indentations⟩

end ScriptDoc
