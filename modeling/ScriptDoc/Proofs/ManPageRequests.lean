import ScriptDoc.Proofs.HelpListing
import ScriptDoc.Proofs.LineStarts
import ScriptDoc.Proofs.ManPageLayout

/-! Running text that becomes a request. A line of a page that starts with a control character is a
request to troff, whoever wrote it. Nothing in the formatter keeps text from that, so it happens exactly
if the documentation has a line of that kind in a place where a line of the page starts. -/
namespace ScriptDoc

def Block.termTexts (b : Block) : List Text :=
  b.entries.map Entry.description ++ b.env.map Variable.description ++
    (b.reads ++ b.writes).map FileUse.description ++ b.exit.map ExitStatus.description

def Block.commandTexts (b : Block) : List Text :=
  (if b.deprecated.isSome then [] else [b.description]) ++ b.entries.map Entry.description

def Document.openTexts (d : Document) : List Text :=
  d.metadata.name.toList ++ d.metadata.description.toList ++ d.metadata.author.toList ++
    d.command?.toList.flatMap Block.termTexts ++ d.subcommands.flatMap Block.commandTexts

def Document.trailingTexts (d : Document) : List Text :=
  d.metadata.manSection.toList ++ d.metadata.version.toList ++ d.metadata.synopsis.toList

namespace ManPage

def Leads (c : Char) (lines : List PageLine) : Prop := ∃ s, .text s ∈ lines ∧ s.head? = some c

section Leads
variable {c : Char}

theorem leadsNil : ¬ Leads c [] := by simp [Leads]

theorem leadsRequest {kind : Request} {argument : Option Text} {lines : List PageLine} :
    Leads c (.request kind argument :: lines) ↔ Leads c lines := by simp [Leads]

theorem leadsAppend {a b : List PageLine} : Leads c (a ++ b) ↔ Leads c a ∨ Leads c b := by
  simp [Leads, or_and_right, exists_or]

theorem leadsFlatMap {α : Type} {items : List α} {lay : α → List PageLine} :
    Leads c (items.flatMap lay) ↔ ∃ item ∈ items, Leads c (lay item) := by
  simp only [Leads, List.mem_flatMap]
  constructor
  · intro ⟨s, ⟨item, member, inside⟩, first⟩
    exact ⟨item, member, s, inside, first⟩
  · intro ⟨item, member, s, inside, first⟩
    exact ⟨s, ⟨item, member, inside⟩, first⟩

theorem leadsHeaded {title : Text} {lines : List PageLine} :
    Leads c (headed title lines) ↔ Leads c lines := leadsRequest

theorem leadsOptional {title : Text} {value : Option Text} {lay : Text → List PageLine}
    {starts : Text → Prop} (each : ∀ s, Leads c (lay s) ↔ starts s) (empty : ¬ starts []) :
    Leads c (optionalLines title value lay) ↔ ∃ s ∈ value.toList, starts s := by
  unfold optionalLines nonempty?
  split
  · simp [leadsHeaded, each]
  · rename_i other
    cases value with
    | none => simp [leadsNil]
    | some s =>
      cases s with
      | nil => simp [leadsNil, empty]
      | cons x rest => exact absurd rfl (other x rest)

theorem leadsDefault {starts : Text → Prop} {value : Option Text} {default : Text}
    (plain : ¬ starts default) (empty : ¬ starts []) :
    starts ((nonempty? value).getD default) ↔ ∃ s ∈ value.toList, starts s := by
  unfold nonempty?
  split
  · simp
  · rename_i other
    cases value with
    | none => simpa using plain
    | some s =>
      cases s with
      | nil => simpa [empty] using plain
      | cons x rest => exact absurd rfl (other x rest)

variable (control : Control c)
include control

theorem controlSolid : c ≠ '\n' := (controlOther control (by decide) (by decide)).symm

theorem leadsText (s : Text) : Leads c (textLines s) ↔ StartsLine c s := by
  rw [← (startsPieces (controlSolid control) s).1]
  simp [Leads, textLines]

theorem leadsBehind (kind : Request) (s : Text) : Leads c (requestLines kind s) ↔ LaterLine c s := by
  rw [← (startsPieces (controlSolid control) s).2, requestLines, leadsRequest]
  simp only [Leads, List.mem_map, PageLine.text.injEq, exists_eq_right]

theorem leadsEscaped (s : Text) : Leads c (textLines (escape s)) ↔ StartsLine c s := by
  rw [leadsText control, escapeStarts control]

theorem leadsEscapedBehind (kind : Request) (s : Text) :
    Leads c (requestLines kind (escape s)) ↔ LaterLine c s := by
  rw [leadsBehind control, escapeLater control]

theorem laterSpaced {a b : Text} : LaterLine c (a ++ " " ++ b) ↔ LaterLine c a ∨ LaterLine c b := by
  rw [List.append_assoc]
  exact laterMiddle (by decide) (controlOther control (by decide) (by decide))

theorem leadsTitle (m : Metadata) {date : Text} (day : '\n' ∉ date) :
    Leads c (requestLines .title (titleArgument m date)) ↔
      (∃ s ∈ m.name.toList, LaterLine c s) ∨ (∃ s ∈ m.manSection.toList, LaterLine c s) ∨
        ∃ s ∈ m.version.toList, LaterLine c s := by
  have version : LaterLine c (m.version.getD []) ↔ ∃ s ∈ m.version.toList, LaterLine c s := by
    cases m.version <;> simp [laterNil]
  rw [leadsBehind control, titleArgument, laterSpaced control, laterSpaced control,
    laterSpaced control, escapeLater control, upperLater control, quoteLater control,
    quoteLater control, version, leadsDefault (laterPlain (by decide)) laterNil,
    leadsDefault (laterPlain (by decide)) laterNil]
  simp only [laterPlain day, or_false, or_assoc]

theorem leadsName (m : Metadata) :
    Leads c (headed "NAME" (textLines (nameText m))) ↔ ∃ s ∈ m.name.toList, StartsLine c s := by
  have unknown : ¬ StartsLine c ("UNKNOWN" : Text) := by
    rw [startsPlain (by decide)]
    exact fun same => controlOther control (x := 'U') (by decide) (by decide) (Option.some.inj same)
  have behind : StartsLine c (nameText m) ↔ StartsLine c ((nonempty? m.name).getD "UNKNOWN") := by
    unfold nameText
    cases nonempty? m.description with
    | none => rw [List.append_nil, escapeStarts control]
    | some description =>
      have plain : ¬ LaterLine c ("\\- " ++ escape (Text.firstLine description)) := by
        rw [laterBehind (by decide), escapeLater control]
        exact laterPlain (firstLinePlain description)
      have apart : StartsLine c (escape ((nonempty? m.name).getD "UNKNOWN") ++
          ' ' :: ("\\- " ++ escape (Text.firstLine description))) ↔
            StartsLine c ((nonempty? m.name).getD "UNKNOWN") := by
        rw [startsMiddle (by decide) (controlOther control (by decide) (by decide)),
          escapeStarts control]
        exact or_iff_left plain
      exact apart
  rw [leadsHeaded, leadsText control, behind, leadsDefault unknown startsNil]

theorem leadsTerm {name : Text} (plain : '\n' ∉ name) (description : Text) :
    Leads c (termLines name description) ↔ StartsLine c description := by
  rw [termLines, leadsAppend, leadsRequest, leadsEscapedBehind control]
  split
  · rename_i empty
    simp [laterPlain plain, leadsNil, List.isEmpty_iff.mp empty, startsNil]
  · simp [laterPlain plain, leadsEscaped control]

theorem leadsTerms {title : Text} {terms : List (Text × Text)}
    (plain : ∀ term ∈ terms, '\n' ∉ term.1) :
    Leads c (termSectionLines title terms) ↔ ∃ s ∈ terms.map Prod.snd, StartsLine c s := by
  unfold termSectionLines
  split
  · rename_i empty
    simp [leadsNil, List.isEmpty_iff.mp empty]
  · simp only [leadsHeaded, leadsFlatMap, List.mem_map, exists_exists_and_eq_and]
    exact exists_congr fun term => and_congr_right fun member =>
      leadsTerm control (plain term member) term.2

theorem leadsNested {e : Entry} (plain : '\n' ∉ e.label) :
    Leads c (nestedLines e) ↔ StartsLine c e.description := by
  rw [nestedLines, leadsAppend, leadsRequest, leadsTerm control plain, leadsRequest]
  simp [leadsNil]

theorem leadsSubcommandText {b : Block} (plain : ∀ s ∈ b.strings, '\n' ∉ s) :
    Leads c (subcommandTextLines b) ↔ b.deprecated = none ∧ StartsLine c b.description := by
  unfold subcommandTextLines
  cases deprecated : b.deprecated with
  | some mark =>
    have message : '\n' ∉ deprecationText mark := by
      unfold deprecationText
      split
      · decide
      · exact heldPlain plain (r := .deprecated mark) deprecated _ List.mem_cons_self
    have behind : StartsLine c (deprecationMark ++ escape (deprecationText mark)) ↔
        LaterLine c (escape (deprecationText mark)) :=
      startsBehind (by decide) (controlOther control (by decide) (by decide))
    simp only [leadsText control, behind, escapeLater control, laterPlain message]
    simp
  | none =>
    simp only
    split
    · rename_i empty
      simp [leadsNil, List.isEmpty_iff.mp empty, startsNil]
    · simp [leadsEscaped control]

theorem leadsSubcommand {b : Block} (plain : ∀ s ∈ b.strings, '\n' ∉ s) :
    Leads c (subcommandLines b) ↔ ∃ s ∈ b.commandTexts, StartsLine c s := by
  have name : '\n' ∉ b.name.getD [] := wordPlain (blockOneLine plain)
  have entries : Leads c (b.entries.flatMap nestedLines) ↔
      ∃ s ∈ b.entries.map Entry.description, StartsLine c s := by
    simp only [leadsFlatMap, List.mem_map, exists_exists_and_eq_and]
    exact exists_congr fun e => and_congr_right fun member =>
      leadsNested control (Help.entriesPlain plain e member).1
  rw [subcommandLines, leadsAppend, leadsAppend, leadsRequest, leadsEscapedBehind control, entries,
    leadsSubcommandText control plain, Block.commandTexts]
  cases b.deprecated <;> simp [laterPlain name]

theorem leadsCommands {d : Document} (plain : ∀ b ∈ d.blocks, ∀ s ∈ b.strings, '\n' ∉ s) :
    Leads c (commandsLines d) ↔ ∃ s ∈ d.subcommands.flatMap Block.commandTexts, StartsLine c s := by
  unfold commandsLines
  split
  · rename_i empty
    simp [leadsNil, List.isEmpty_iff.mp empty]
  · simp only [leadsHeaded, leadsFlatMap, List.mem_flatMap]
    constructor
    · intro ⟨b, member, leads⟩
      have own := plain b (List.mem_of_mem_filter member)
      obtain ⟨s, inside, starts⟩ := (leadsSubcommand control own).mp leads
      exact ⟨s, ⟨b, member, inside⟩, starts⟩
    · intro ⟨s, ⟨b, member, inside⟩, starts⟩
      have own := plain b (List.mem_of_mem_filter member)
      exact ⟨b, member, (leadsSubcommand control own).mpr ⟨s, inside, starts⟩⟩

theorem leadsCommandTerms {d : Document} (plain : ∀ b ∈ d.blocks, ∀ s ∈ b.strings, '\n' ∉ s) :
    (Leads c (termSectionLines "OPTIONS"
        (commandTerms d fun b => b.entries.map fun e => (e.label, e.description))) ∨
      Leads c (termSectionLines "ENVIRONMENT"
        (commandTerms d fun b => b.env.map fun r => (r.name, r.description))) ∨
      Leads c (termSectionLines "FILES"
        (commandTerms d fun b => (b.reads ++ b.writes).map fun r => (r.path, r.description))) ∨
      Leads c (termSectionLines "EXIT STATUS"
        (commandTerms d fun b => b.exit.map fun r => (r.code, r.description)))) ↔
      ∃ s ∈ d.command?.toList.flatMap Block.termTexts, StartsLine c s := by
  cases command : d.command? with
  | none => simp [commandTerms, command, termSectionLines, leadsNil]
  | some b =>
    have own := plain b (commandMember command)
    have labels := fun e member => (Help.entriesPlain own e member).1
    have subjects {r : Record} {subject : Text} (held : b.Holds r) (part : r.parts = [subject]) :
        '\n' ∉ subject :=
      heldPlain own held subject (List.mem_cons_of_mem _ (part ▸ List.mem_cons_self))
    simp only [commandTerms, command, Option.toList_some, List.flatMap_singleton]
    rw [leadsTerms control (List.forall_mem_map.mpr labels),
      leadsTerms control (List.forall_mem_map.mpr fun r member =>
        subjects (r := .env r) member rfl),
      leadsTerms control (List.forall_mem_map.mpr fun r member => ?_),
      leadsTerms control (List.forall_mem_map.mpr fun r member =>
        subjects (r := .exit r) member rfl)]
    · simp only [List.map_map, Function.comp_def, Block.termTexts, List.mem_append, or_and_right,
        exists_or, or_assoc]
    · rcases List.mem_append.mp member with read | written
      · exact subjects (r := .reads r) read rfl
      · exact subjects (r := .writes r) written rfl

theorem leadsExamples (value : Option Text) :
    ¬ Leads c (optionalLines "EXAMPLES" value fun s => (Text.splitOn '\n' s).flatMap exampleLines) := by
  have none (s : Text) : Leads c ((Text.splitOn '\n' s).flatMap exampleLines) ↔ False := by
    rw [leadsFlatMap, iff_false]
    intro ⟨line, member, leads⟩
    rw [exampleLines, leadsRequest, leadsEscapedBehind control] at leads
    exact laterPlain ((splitLines s).2.1 line member) leads
  rw [leadsOptional none id]
  simp

theorem leadsLayout {d : Document} {date : Text} (day : '\n' ∉ date)
    (plain : ∀ b ∈ d.blocks, ∀ s ∈ b.strings, '\n' ∉ s) :
    Leads c (layout d date) ↔
      (∃ s ∈ d.openTexts, StartsLine c s) ∨ ∃ s ∈ d.trailingTexts, LaterLine c s := by
  have name : (∃ s ∈ d.metadata.name.toList, LaterLine c s) ∨
      (∃ s ∈ d.metadata.name.toList, StartsLine c s) ↔
        ∃ s ∈ d.metadata.name.toList, StartsLine c s := by
    refine or_iff_right_of_imp ?_
    intro ⟨s, member, later⟩
    exact ⟨s, member, Or.inr later⟩
  simp only [layout, leadsAppend, leadsTitle control d.metadata day, leadsName control,
    leadsOptional (leadsEscapedBehind control .bold) laterNil,
    leadsOptional (leadsEscaped control) startsNil, leadsCommands control plain,
    leadsExamples control, Document.openTexts, Document.trailingTexts, List.mem_append, or_and_right,
    exists_or, ← leadsCommandTerms control plain, or_false]
  rw [← name]
  exact iff_of_eq (by ac_rfl)

end Leads

def PageLine.IsRequest (line : PageLine) : Prop := ∃ kind argument, line = .request kind argument

theorem leadsWritten {c : Char} (control : Control c) (lines : List PageLine) :
    Leads c lines ↔ ∃ line ∈ lines, line.written.head? = some c ∧ ¬ line.IsRequest := by
  constructor
  · intro leads
    obtain ⟨s, member, first⟩ := leads
    refine ⟨.text s, member, ?_, fun request => ?_⟩
    · rw [PageLine.written, List.head?_append, first]
      rfl
    · obtain ⟨_, _, same⟩ := request
      contradiction
  · intro own
    obtain ⟨line, member, first, other⟩ := own
    cases line with
    | request kind argument => exact absurd ⟨kind, argument, rfl⟩ other
    | text s =>
      refine ⟨s, member, ?_⟩
      cases s with
      | nil => exact absurd (Option.some.inj first).symm (controlSolid control)
      | cons x rest => exact first

end ManPage

/- All lines of a page that start with a control character are the formatter's own requests exactly if
no text that is set there has such a line where a line of the page starts. -/
theorem ownRequestsIfUncontrolled (t : Text) {date : Text} {c : Char} (day : '\n' ∉ date)
    (control : Control c) :
    let d := Document.ofText t
    ∃ page, Format.man.render date d = .ok page ∧
      Text.lines page = (ManPage.layout d date).map ManPage.PageLine.written ∧
      ((∀ line ∈ ManPage.layout d date, line.written.head? = some c → line.IsRequest) ↔
        (∀ s ∈ d.openTexts, ¬ StartsLine c s) ∧ ∀ s ∈ d.trailingTexts, ¬ LaterLine c s) := by
  intro d
  refine ⟨d.manPage date, rfl, (ManPage.laidPage d date).lines, ?_⟩
  have leads := ManPage.leadsLayout control day (d := d) fun _ => blockStringsOneLine
  rw [ManPage.leadsWritten control] at leads
  have exact := not_congr leads
  simpa only [not_exists, not_and, not_or, not_not] using exact

def quotedScript : Text := "#?/name tool\n#?/author\n # Jane Developer,\n # 'deploy' team\n ##\n"

theorem ownRequestsIfUncontrolledForQuoted :
    '\n' ∉ ("2024-01-02" : Text) ∧ Control '\'' ∧
      ∃ page, Format.man.render "2024-01-02" (Document.ofText quotedScript) = .ok page ∧
        Text.lines page = (ManPage.layout (Document.ofText quotedScript) "2024-01-02").map
          ManPage.PageLine.written ∧
        ¬ ∀ line ∈ ManPage.layout (Document.ofText quotedScript) "2024-01-02",
          line.written.head? = some '\'' → line.IsRequest := by
  have day : '\n' ∉ ("2024-01-02" : Text) := by decide
  obtain ⟨page, rendered, lines, owned⟩ :=
    ownRequestsIfUncontrolled quotedScript day (c := '\'') (Or.inr rfl)
  have author : ("Jane Developer,\n'deploy' team" : Text) ∈
      (Document.ofText quotedScript).openTexts := by decide +kernel
  have later : StartsLine '\'' ("Jane Developer,\n'deploy' team" : Text) :=
    Or.inr ⟨"Jane Developer,", "deploy' team", by decide⟩
  exact ⟨day, Or.inr rfl, page, rendered, lines, fun all => (owned.mp all).1 _ author later⟩

def dottedScript : Text :=
  "#?/name tool\n#?/description\n # Deploys with the settings of\n" ++
    " # .deployrc in the home directory.\n ##\n"

theorem dottedLineBecomesRequest :
    ∃ line ∈ ManPage.layout (Document.ofText dottedScript) "2024-01-02",
      line.written ∈ Text.lines ((Document.ofText dottedScript).manPage "2024-01-02") ∧
        line.written.head? = some '.' ∧ ¬ line.IsRequest := by
  have member : .text ".deployrc in the home directory." ∈
      ManPage.layout (Document.ofText dottedScript) "2024-01-02" := by decide +kernel
  refine ⟨_, member, ?_, rfl, ?_⟩
  · rw [(ManPage.laidPage _ _).lines]
    exact List.mem_map_of_mem member
  · intro ⟨_, _, same⟩
    cases same

end ScriptDoc
