import ScriptDoc.Proofs.PrintedLines

/-! Help, line by line. Each part lists its items one to a line between a title and an empty line. In a
table the keys have the room of the longest one, so that all descriptions start in the same column. -/
namespace ScriptDoc
namespace Help

def partLines (title : Text) (bodies : List Text) : List Text :=
  if bodies = [] then [] else (title ++ ":\n") :: bodies.map (fun s => s ++ ['\n']) ++ [['\n']]

structure LongestKey (rows : List (Text × Text)) (width : Nat) : Prop where
  attained : ∃ row ∈ rows, row.1.length = width
  bound : ∀ row ∈ rows, row.1.length ≤ width

structure TableLine (width : Nat) (row : Text × Text) (line : Text) : Prop where
  bare : row.2 = [] → line = "  " ++ row.1
  described : row.2 ≠ [] →
    line = "  " ++ row.1 ++ List.replicate (width - row.1.length) ' ' ++ "  " ++ row.2
  uncut : ' ' :: ' ' :: row.1 <+: line
  column : line.drop (width + 4) = row.2

def Tabulated (rows : List (Text × Text)) (bodies : List Text) : Prop :=
  ∃ width, (rows ≠ [] → LongestKey rows width) ∧ List.Forall₂ (TableLine width) rows bodies

structure Listed (title : Text) (bodies : List Text) (text : Text) : Prop where
  whole : WholeLines text
  lines : Text.lines text = partLines title bodies

theorem keyWidthFrom (rows : List (Text × Text)) (start : Nat) :
    let width := rows.foldl (fun width row => max width row.1.length) start
    start ≤ width ∧ (∀ row ∈ rows, row.1.length ≤ width) ∧
      (width = start ∨ ∃ row ∈ rows, row.1.length = width) := by
  induction rows generalizing start with
  | nil => simp
  | cons row rest ih =>
    obtain ⟨grown, bound, reached⟩ := ih (max start row.1.length)
    rw [List.foldl_cons]
    refine ⟨by omega, List.forall_mem_cons.mpr ⟨by omega, bound⟩, ?_⟩
    rcases reached with same | ⟨other, member, long⟩
    · rcases Nat.le_total start row.1.length with shorter | longer
      · exact Or.inr ⟨row, List.mem_cons_self, by omega⟩
      · exact Or.inl (by omega)
    · exact Or.inr ⟨other, List.mem_cons_of_mem _ member, long⟩

theorem keyWidthLongest {rows : List (Text × Text)} (filled : rows ≠ []) :
    LongestKey rows (keyWidth rows) := by
  obtain ⟨-, bound, reached⟩ := keyWidthFrom rows 0
  refine ⟨?_, bound⟩
  rcases reached with zero | found
  · obtain ⟨row, rest, rfl⟩ := List.exists_cons_of_ne_nil filled
    have short := bound row List.mem_cons_self
    exact ⟨row, List.mem_cons_self, by rw [keyWidth]; omega⟩
  · exact found

def rowBody (width : Nat) (row : Text × Text) : Text :=
  if row.2.isEmpty then "  " ++ row.1 else "  " ++ Text.padRight width row.1 ++ "  " ++ row.2

theorem tableRowEnded (width : Nat) (row : Text × Text) :
    tableRow width row = rowBody width row ++ ['\n'] := by
  unfold tableRow rowBody
  split
  · rfl
  · rfl

theorem rowBodyLine {width : Nat} {row : Text × Text} (fits : row.1.length ≤ width) :
    TableLine width row (rowBody width row) := by
  unfold rowBody
  split
  · rename_i empty
    have nothing : row.2 = [] := List.isEmpty_iff.mp empty
    refine ⟨fun _ => rfl, fun described => absurd nothing described, List.prefix_refl _, ?_⟩
    rw [nothing, List.drop_eq_nil_iff]
    simp only [List.length_append, String.length_toList]
    exact Nat.le_trans (Nat.add_le_add_left fits 2) (by omega)
  · rename_i filled
    have described : row.2 ≠ [] := by simpa using filled
    refine ⟨fun nothing => absurd nothing described, fun _ => ?_, ?_, ?_⟩
    · simp [Text.padRight]
    · exact ⟨List.replicate (width - row.1.length) ' ' ++ "  " ++ row.2, by simp [Text.padRight]⟩
    · refine List.drop_left' ?_
      simp [Text.padRight]
      omega

theorem rowBodyPlain (width : Nat) {row : Text × Text} (key : '\n' ∉ row.1)
    (description : '\n' ∉ row.2) : '\n' ∉ rowBody width row := by
  unfold rowBody
  split
  · simp [key]
  · simp [Text.padRight, key, description]

theorem partListed {title : Text} (plainTitle : '\n' ∉ title) {bodies : List Text}
    (plain : ∀ s ∈ bodies, '\n' ∉ s) :
    Listed title bodies (part title (bodies.map fun s => s ++ ['\n'])) := by
  unfold part
  by_cases none : bodies = []
  · subst none
    exact ⟨Or.inl rfl, rfl⟩
  · have some : (bodies.map fun s => s ++ ['\n']).isEmpty = false := by simpa using none
    have head : '\n' ∉ title ++ [':'] := by simpa using plainTitle
    have whole : title ++ ":\n" ++ (bodies.map fun s => s ++ ['\n']).flatten ++ "\n" =
        (title ++ [':']) ++ '\n' :: (bodies.flatMap (fun s => s ++ ['\n']) ++ ['\n']) := by
      simp [List.flatMap_def]
    rw [some, if_neg Bool.false_ne_true]
    refine ⟨Or.inr List.getLast?_concat, ?_⟩
    rw [whole, linesNext head, linesEnded plain, partLines, if_neg none]
    simp [Text.lines]

theorem tableListed {title : Text} (plainTitle : '\n' ∉ title) {rows : List (Text × Text)}
    (plain : ∀ row ∈ rows, '\n' ∉ row.1 ∧ '\n' ∉ row.2) :
    ∃ bodies, Listed title bodies (table title rows) ∧ Tabulated rows bodies := by
  refine ⟨rows.map (rowBody (keyWidth rows)), ?_, keyWidth rows, keyWidthLongest, ?_⟩
  · have ended : rows.map (tableRow (keyWidth rows)) =
        (rows.map (rowBody (keyWidth rows))).map fun s => s ++ ['\n'] := by
      simp [tableRowEnded]
    rw [table, ended]
    refine partListed plainTitle (List.forall_mem_map.mpr fun row member => ?_)
    exact rowBodyPlain _ (plain row member).1 (plain row member).2
  · rw [List.forall₂_map_right_iff, List.forall₂_same]
    exact fun row member => rowBodyLine ((keyWidthFrom rows 0).2.1 row member)

def entryBody (e : Entry) : Text :=
  if e.description.isEmpty then "  " ++ e.label
  else "  " ++ Text.padRight labelWidth e.label ++ e.description

theorem labelRowEnded (e : Entry) : labelRow e = entryBody e ++ ['\n'] := by
  unfold labelRow entryBody
  split
  · rfl
  · rfl

theorem entryBodyPlain {e : Entry} (label : '\n' ∉ e.label) (description : '\n' ∉ e.description) :
    '\n' ∉ entryBody e := by
  unfold entryBody
  split
  · simp [label]
  · simp [Text.padRight, label, description]

theorem optionsListed {b : Block} (plain : ∀ e ∈ b.entries, '\n' ∉ e.label ∧ '\n' ∉ e.description) :
    Listed "Options" (b.entries.map entryBody) (options b) := by
  have ended : b.entries.map labelRow = (b.entries.map entryBody).map fun s => s ++ ['\n'] := by
    simp [labelRowEnded]
  rw [options, ended]
  refine partListed (by decide) (List.forall_mem_map.mpr fun e member => ?_)
  exact entryBodyPlain (plain e member).1 (plain e member).2

section Parts

theorem emptyLineWhole (s : Text) : WholeLines (s ++ "\n\n") := by
  right
  rw [List.getLast?_append]
  rfl

theorem headerWhole (m : Metadata) : WholeLines (header m) := by
  unfold header
  split
  · exact emptyLineWhole _
  · exact emptyLineWhole _
  · exact Or.inl rfl

theorem usageWhole (m : Metadata) : WholeLines (usage m) := by
  unfold usage
  split
  · exact emptyLineWhole _
  · exact Or.inl rfl

theorem writtenPlain {v : Value} (plain : ∀ s ∈ v.strings, '\n' ∉ s) : '\n' ∉ v.written := by
  have name := plain v.name List.mem_cons_self
  have tail : '\n' ∉ (if v.variadic then Value.dots else []) := by
    split
    · decide
    · exact List.not_mem_nil
  unfold Value.written
  simp only
  generalize (if v.variadic then Value.dots else []) = dots at tail ⊢
  split
  · simp [name, tail]
  · split
    · rename_i text given
      have default := plain text (by simp [Value.strings, given])
      simp [name, default, tail]
    · simp [name, tail]

theorem flagLabelPlain {short long : Option Text}
    (plain : ∀ s ∈ short.toList ++ long.toList, '\n' ∉ s) : '\n' ∉ flagLabel short long := by
  have given {o : Option Text} (part : o.toList ⊆ short.toList ++ long.toList) {s : Text}
      (found : nonempty? o = some s) : '\n' ∉ s :=
    plain s (part (by simp [nonemptySome found]))
  have first : short.toList ⊆ short.toList ++ long.toList := List.subset_append_left _ _
  have second : long.toList ⊆ short.toList ++ long.toList := List.subset_append_right _ _
  unfold flagLabel
  split
  · rename_i s l foundShort foundLong
    simp [given first foundShort, given second foundLong]
  · rename_i s foundShort none
    exact given first foundShort
  · rename_i l none foundLong
    simp [given second foundLong]
  · exact List.not_mem_nil

theorem labelPlain {e : Entry} (spellings : ∀ s ∈ e.spellings, '\n' ∉ s)
    (value : ∀ v, e.value = some v → '\n' ∉ v.written) : '\n' ∉ e.label := by
  have spelled := flagLabelPlain spellings
  unfold Entry.label
  cases given : e.value with
  | none => exact spelled
  | some v =>
    have written := value v given
    simp only [optionLabel]
    split
    · exact written
    · simp [spelled, written]

theorem entriesPlain {b : Block} (plain : ∀ s ∈ b.strings, '\n' ∉ s) :
    ∀ e ∈ b.entries, '\n' ∉ e.label ∧ '\n' ∉ e.description := by
  intro e member
  have oneLine := (blockOneLine plain).entries e member
  refine ⟨labelPlain oneLine.spellings fun v given => ?_, oneLine.description⟩
  rcases List.mem_append.mp member with flag | option
  · obtain ⟨r, -, rfl⟩ := List.mem_map.mp flag
    contradiction
  · obtain ⟨r, held, rfl⟩ := List.mem_map.mp option
    cases Option.some.inj given
    refine writtenPlain fun s part => heldPlain plain (r := .option r) held s ?_
    exact List.mem_cons_of_mem _ (List.mem_append_right _ part)

end Parts

theorem commandsListed {d : Document} (plain : ∀ b ∈ d.blocks, ∀ s ∈ b.strings, '\n' ∉ s) :
    ∃ bodies, Listed "Commands" bodies (commands d) ∧
      Tabulated (d.subcommands.map fun b => (b.name.getD [], b.summary)) bodies := by
  refine tableListed (by decide) (List.forall_mem_map.mpr fun b member => ?_)
  have oneLine := blockOneLine (plain b (List.mem_of_mem_filter member))
  exact ⟨wordPlain oneLine, oneLine.summary⟩

theorem optionsPlaced {d : Document} {b : Block} (plain : ∀ b ∈ d.blocks, ∀ s ∈ b.strings, '\n' ∉ s)
    (command : d.command? = some b) :
    Text.lines d.help = Text.lines (header d.metadata ++ usage d.metadata ++ commands d) ++
      partLines "Options" (b.entries.map entryBody) ++
      Text.lines (environment b ++ exitCodes b) := by
  have above := wholeAppend (headerWhole d.metadata) (usageWhole d.metadata)
  obtain ⟨_, commandsPart, _⟩ := commandsListed plain
  have listed := optionsListed (entriesPlain (plain b (commandMember command)))
  have own : Text.lines (options b ++ environment b ++ exitCodes b) =
      partLines "Options" (b.entries.map entryBody) ++ Text.lines (environment b ++ exitCodes b) := by
    rw [List.append_assoc, linesAppend listed.whole, listed.lines]
  rw [Document.help, command, linesAppend (wholeAppend above commandsPart.whole),
    List.append_assoc (Text.lines _), ← own]

end Help

namespace Help

def labelled (b : Block) : List (Text × Text) :=
  b.flags.map (fun r => (flagLabel r.short r.long, r.description)) ++
    b.options.map fun r => (optionLabel r.short r.long r.value, r.description)

def Apart (item : Text × Text) (line : Text) : Prop :=
  ∃ gap, gap ≠ [] ∧ (∀ c ∈ gap, c = ' ') ∧ line = "  " ++ item.1 ++ gap ++ item.2

structure LabelLine (item : Text × Text) (line : Text) : Prop where
  bare : item.2 = [] → line = "  " ++ item.1
  filled : item.2 ≠ [] →
    line = "  " ++ item.1 ++ List.replicate (labelWidth - item.1.length) ' ' ++ item.2
  apart : item.2 ≠ [] → (Apart item line ↔ item.1.length < labelWidth)

theorem nonemptyTwice (o : Option Text) : nonempty? (nonempty? o) = nonempty? o := by
  cases found : nonempty? o with
  | none => rfl
  | some s => rwa [nonemptySome found] at found

theorem entriesLabelled (b : Block) :
    b.entries.map (fun e => (e.label, e.description)) = labelled b := by
  have spelled (short long : Option Text) :
      flagLabel (nonempty? short) (nonempty? long) = flagLabel short long := by
    rw [flagLabel, nonemptyTwice, nonemptyTwice, flagLabel]
  simp [Block.entries, labelled, Entry.label, Flag.entry, Opt.entry, optionLabel, spelled,
    Function.comp_def]

/- A gap that is not the filling would move the description, so its length decides. -/
theorem apartExact {label description : Text} (filling : Nat) :
    Apart (label, description) ("  " ++ label ++ List.replicate filling ' ' ++ description) ↔
      0 < filling := by
  constructor
  · rintro ⟨gap, some, _, same⟩
    have lengths := congrArg List.length same
    have long := List.length_pos_iff.mpr some
    simp only [List.length_append, List.length_replicate] at lengths
    omega
  · intro positive
    refine ⟨List.replicate filling ' ', ?_, by simp, rfl⟩
    simpa using Nat.pos_iff_ne_zero.mp positive

theorem entryBodyLabels (e : Entry) : LabelLine (e.label, e.description) (entryBody e) := by
  have written (described : e.description ≠ []) : entryBody e =
      "  " ++ e.label ++ List.replicate (labelWidth - e.label.length) ' ' ++ e.description := by
    rw [entryBody, if_neg (by simpa using described), Text.padRight]
    simp only [List.append_assoc]
  refine ⟨fun empty => ?_, written, fun described => ?_⟩
  · rw [entryBody, if_pos (by simpa using empty)]
  · rw [written described, apartExact, Nat.sub_pos_iff_lt]

end Help

theorem labelsApartIfShort (today t : Text) {b : Block}
    (command : (Document.ofText t).command? = some b) :
    let d := Document.ofText t
    ∃ text options, Format.help.render today d = .ok text ∧
      Text.lines text =
        Text.lines (Help.header d.metadata ++ Help.usage d.metadata ++ Help.commands d) ++
          Help.partLines "Options" options ++
          Text.lines (Help.environment b ++ Help.exitCodes b) ∧
      List.Forall₂ Help.LabelLine (Help.labelled b) options := by
  intro d
  have placed := Help.optionsPlaced (d := d) (fun _ => blockStringsOneLine) command
  refine ⟨d.help, b.entries.map Help.entryBody, rfl, placed, ?_⟩
  rw [← Help.entriesLabelled, List.forall₂_map_left_iff, List.forall₂_map_right_iff,
    List.forall₂_same]
  exact fun e _ => Help.entryBodyLabels e

def wideScript : Text :=
  "#@/command\n # @flag -q Say less\n # @option -c | --config-file <path> Path to the settings\n"

def wideBlock : Block :=
  { visibility := .command
    line := 1
    flags := [{ short := some "-q", description := "Say less", line := 2 }]
    options := [{
      value := { name := "path", required := true }
      short := some "-c"
      long := some "--config-file"
      description := "Path to the settings"
      line := 3 }] }

theorem wideRead : Document.ofText wideScript = { blocks := [wideBlock] } := by decide +kernel

theorem labelsApartIfShortForWide :
    (Document.ofText wideScript).command? = some wideBlock ∧
      ∃ text options, Format.help.render [] (Document.ofText wideScript) = .ok text ∧
        Text.lines text = Help.partLines "Options" options ∧
        List.Forall₂ Help.LabelLine
          [("-q", "Say less"), ("-c, --config-file <path>", "Path to the settings")] options := by
  have command : (Document.ofText wideScript).command? = some wideBlock := by
    rw [wideRead]
    rfl
  obtain ⟨text, options, rendered, lines, labels⟩ := labelsApartIfShort [] wideScript command
  have above : Text.lines (Help.header (Document.ofText wideScript).metadata ++
      Help.usage (Document.ofText wideScript).metadata ++
      Help.commands (Document.ofText wideScript)) = [] := by
    rw [wideRead]
    rfl
  have below : Text.lines (Help.environment wideBlock ++ Help.exitCodes wideBlock) = [] := by
    decide +kernel
  rw [above, below, List.nil_append, List.append_nil] at lines
  exact ⟨command, text, options, rendered, lines, labels⟩

theorem wideLabelTouches :
    ∃ item ∈ Help.labelled wideBlock, item.2 ≠ [] ∧
      (Document.ofText wideScript).command? = some wideBlock ∧
      ∀ line, line ++ ['\n'] ∈ Text.lines (Document.ofText wideScript).help →
        ¬ Help.Apart item line := by
  rw [wideRead]
  refine ⟨("-c, --config-file <path>", "Path to the settings"), by decide +kernel, by decide, rfl, ?_⟩
  have spaced : ∀ line ∈ Text.lines (Document.help { blocks := [wideBlock] }),
      ¬ ("  -c, --config-file <path> " : Text) <+: line := by decide +kernel
  intro line member apart
  obtain ⟨gap, some, spaces, same⟩ := apart
  obtain ⟨c, rest, rfl⟩ := List.exists_cons_of_ne_nil some
  cases spaces c List.mem_cons_self
  exact spaced _ member ⟨rest ++ "Path to the settings" ++ ['\n'], by simp [same]⟩

end ScriptDoc
