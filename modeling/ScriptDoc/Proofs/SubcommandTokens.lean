import ScriptDoc.Completion.Candidate
import ScriptDoc.Format
import ScriptDoc.Proofs.CompletionScripts
import ScriptDoc.Proofs.WellFormed

/-! The subcommands that the completion scripts and the completions name. They are the same in all of
them exactly if every subcommand has a name: one without a name is nothing to bash, an empty word to
the completions, and "None" to zsh and fish. -/
namespace ScriptDoc

structure Document.Plain (d : Document) : Prop where
  title : ∀ name, d.metadata.name = some name → '\n' ∉ name
  strings : ∀ s ∈ d.strings, '\n' ∉ s
  names : ∀ b ∈ d.subcommands, b.ProperlyNamed

section Strings
variable {b : Block}

theorem nonemptySome {o : Option Text} {s : Text} (found : nonempty? o = some s) : o = some s := by
  unfold nonempty? at found
  split at found
  · exact found
  · contradiction

theorem firstLinePlain (s : Text) : '\n' ∉ Text.firstLine s := by
  rw [Text.firstLine]
  rcases Text.cutCases '\n' s with ⟨absent, uncut⟩ | ⟨before, after, absent, -, cut⟩
  · rwa [uncut]
  · rwa [cut]

theorem summaryPlain (messages : ∀ mark, b.deprecated = some mark → '\n' ∉ mark.message) :
    '\n' ∉ b.summary := by
  have first := firstLinePlain b.description
  have mark : '\n' ∉ deprecationMark := by decide
  unfold Block.summary
  cases deprecated : b.deprecated with
  | none => exact first
  | some given =>
    have message := messages given deprecated
    simp only [List.mem_append, not_or]
    refine ⟨mark, ?_⟩
    split
    · exact message
    · exact first

theorem spellingsGiven {short long : Option Text} {s : Text}
    (member : s ∈ (nonempty? short).toList ++ (nonempty? long).toList) :
    s ∈ short.toList ++ long.toList := by
  rcases List.mem_append.mp member with first | second
  · simp [nonemptySome (Option.mem_toList.mp first)]
  · simp [nonemptySome (Option.mem_toList.mp second)]

theorem flagOneLine {r : Flag} (plain : ∀ s ∈ (Record.flag r).strings, '\n' ∉ s) :
    r.entry.OneLine where
  spellings s member := plain s (List.mem_cons_of_mem _ (spellingsGiven member))
  description := plain _ List.mem_cons_self
  value v none := by contradiction

theorem optionOneLine {r : Opt} (plain : ∀ s ∈ (Record.option r).strings, '\n' ∉ s) :
    r.entry.OneLine where
  spellings s member :=
    plain s (List.mem_cons_of_mem _ (List.mem_append_left _ (spellingsGiven member)))
  description := plain _ List.mem_cons_self
  value v given := by
    cases Option.some.inj given
    exact plain _ (List.mem_cons_of_mem _ (List.mem_append_right _ List.mem_cons_self))

theorem heldPlain (plain : ∀ s ∈ b.strings, '\n' ∉ s) {r : Record} (held : b.Holds r) :
    ∀ s ∈ r.strings, '\n' ∉ s := fun s member =>
  plain s (List.mem_append_right _ (List.mem_flatMap.mpr ⟨r, memRecords.mpr held, member⟩))

theorem blockOneLine (plain : ∀ s ∈ b.strings, '\n' ∉ s) : b.OneLine := by
  refine ⟨?_, summaryPlain fun mark given => ?_, fun e inside => ?_⟩
  · unfold Block.token
    cases named : b.name with
    | none => decide
    | some name => exact plain name (by simp [Block.strings, named])
  · exact heldPlain plain (r := .deprecated mark) given _ List.mem_cons_self
  · rcases List.mem_append.mp inside with flag | option
    · obtain ⟨r, held, rfl⟩ := List.mem_map.mp flag
      exact flagOneLine (heldPlain plain (r := .flag r) held)
    · obtain ⟨r, held, rfl⟩ := List.mem_map.mp option
      exact optionOneLine (heldPlain plain (r := .option r) held)

theorem blockStringsPlain {d : Document} (plain : ∀ s ∈ d.strings, '\n' ∉ s) (member : b ∈ d.blocks) :
    ∀ s ∈ b.strings, '\n' ∉ s := by
  intro s inside
  refine plain s ?_
  simp only [Document.strings, List.mem_append, List.mem_flatMap]
  exact Or.inl (Or.inr ⟨b, member, inside⟩)

theorem blocksOneLine {d : Document} (plain : d.Plain) : ∀ b ∈ d.blocks, b.OneLine := fun _ member =>
  blockOneLine (blockStringsPlain plain.strings member)

end Strings

def Mention.listed? : Mention → Option Text
  | .listed token => some token
  | .label _ => none

def listed (mentions : List Mention) : List Text := mentions.filterMap Mention.listed?

def Document.HasCase (d : Document) (token : Text) : Prop :=
  ∃ b ∈ d.subcommands, b.spellings ≠ [] ∧ token = b.token

theorem memCaseLabels {b : Block} {mention : Mention} :
    mention ∈ b.caseLabels ↔ b.spellings ≠ [] ∧ mention = .label b.token := by
  unfold Block.caseLabels
  split
  · rename_i unspelled
    simp [List.isEmpty_iff.mp unspelled]
  · rename_i spelled
    simp [List.isEmpty_iff.not.mp spelled]

theorem memSeenLabels {b : Block} {mention : Mention} :
    mention ∈ Fish.seenLabels b ↔ b.spellings ≠ [] ∧ mention = .label b.token := by
  have each (e : Entry) : (mention ∈ if e.spellings.isEmpty then [] else [Mention.label b.token]) ↔
      e.spellings ≠ [] ∧ mention = .label b.token := by
    cases e.spellings <;> simp
  simp only [Fish.seenLabels, List.mem_flatMap, each, Block.spellings, ne_eq,
    List.flatMap_eq_nil_iff, not_forall, ← and_assoc, exists_and_right, exists_prop]

theorem listedFirst (d : Document) (tokens : List Text) {labels : Block → List Mention}
    (each : ∀ {b mention}, mention ∈ labels b ↔ b.spellings ≠ [] ∧ mention = .label b.token) :
    listed (tokens.map .listed ++ d.subcommands.flatMap labels) = tokens ∧
      ∀ token, .label token ∈ tokens.map .listed ++ d.subcommands.flatMap labels ↔
        d.HasCase token := by
  constructor
  · have tokensOnly : listed (tokens.map .listed) = tokens := by
      simp [listed, List.filterMap_map, Function.comp_def, Mention.listed?]
    have labelsOnly : listed (d.subcommands.flatMap labels) = [] := by
      rw [listed, List.filterMap_eq_nil_iff]
      intro mention member
      obtain ⟨b, -, inside⟩ := List.mem_flatMap.mp member
      rw [(each.mp inside).2]
      rfl
    rw [listed, List.filterMap_append, ← listed, ← listed, tokensOnly, labelsOnly, List.append_nil]
  · intro token
    simp [Document.HasCase, each]

theorem offeredFirst (d : Document) : (d.complete "x " 2).map Candidate.word =
    d.subcommands.map (fun b => b.name.getD []) ++ (d.command?.map Block.spellings).getD [] := by
  have typed : Typed.ofText? (beforeCursor "x " 2) = some ⟨[], []⟩ := by decide
  have words (b : Block) : b.candidates.map Candidate.word = b.spellings := by
    simp [Block.candidates, Block.spellings, Entry.candidates, List.map_flatMap, Function.comp_def]
  have all : d.offered [] =
      d.subcommands.map Block.asCandidate ++ (d.command?.map Block.candidates).getD [] := rfl
  rw [Document.complete, typed]
  simp only [all]
  cases d.command? <;> simp [Block.asCandidate, words, Function.comp_def]

theorem namesComplete {blocks : List Block} :
    blocks.filterMap Block.name = blocks.map Block.token ↔ ∀ b ∈ blocks, b.name ≠ none := by
  constructor
  · intro same b member unnamed
    have counted := congrArg List.length same
    rw [List.length_map, List.length_filterMap_eq_countP] at counted
    have some := List.countP_eq_length.mp counted b member
    rw [unnamed] at some
    contradiction
  · intro named
    induction blocks with
    | nil => rfl
    | cons b rest ih =>
      obtain ⟨name, given⟩ := Option.ne_none_iff_exists'.mp (named b (by simp))
      have later := ih fun other member => named other (List.mem_cons_of_mem _ member)
      simp [given, Block.token, later]

theorem wordsComplete {blocks : List Block} (named : ∀ b ∈ blocks, b.name ≠ none) :
    blocks.map (fun b => b.name.getD []) = blocks.map Block.token := by
  refine List.map_congr_left fun b member => ?_
  obtain ⟨name, given⟩ := Option.ne_none_iff_exists'.mp (named b member)
  rw [Block.token, given]
  rfl

theorem completionsNameSubcommands (today : Text) {d : Document} {name : Text}
    (titled : nonempty? d.metadata.name = some name) (filled : d.subcommands ≠ [])
    (plain : d.Plain) :
    let offered := (d.complete "x " 2).map Candidate.word
    let globals := (d.command?.map Block.spellings).getD []
    ∃ bash zsh fish, Format.render today d .bash = .ok bash ∧
      Format.render today d .zsh = .ok zsh ∧ Format.render today d .fish = .ok fish ∧
      listed (Bash.mentions bash) = d.subcommands.filterMap Block.name ∧
      listed (Zsh.mentions zsh) = d.subcommands.map Block.token ∧
      listed (Fish.mentions name fish) = d.subcommands.map Block.token ∧
      offered = d.subcommands.map (fun b => b.name.getD []) ++ globals ∧
      (∀ mentions ∈ [Bash.mentions bash, Zsh.mentions zsh, Fish.mentions name fish],
        ∀ token, .label token ∈ mentions ↔ d.HasCase token) ∧
      ((listed (Bash.mentions bash) = listed (Zsh.mentions zsh) ∧
          listed (Zsh.mentions zsh) = listed (Fish.mentions name fish) ∧
          offered = listed (Fish.mentions name fish) ++ globals) ↔
        ∀ b ∈ d.subcommands, b.name ≠ none) := by
  intro offered globals
  have plainName : '\n' ∉ name := plain.title name (nonemptySome titled)
  have oneLine := blocksOneLine plain
  have bash := Bash.scriptMentions plainName filled oneLine plain.names
  have zsh := Zsh.scriptMentions plainName filled oneLine plain.names
  have fish := Fish.scriptMentions plainName filled oneLine plain.names
  obtain ⟨bashListed, bashLabels⟩ :=
    listedFirst d (d.subcommands.filterMap Block.name) memCaseLabels
  obtain ⟨zshListed, zshLabels⟩ := listedFirst d (d.subcommands.map Block.token) memCaseLabels
  obtain ⟨fishListed, fishLabels⟩ := listedFirst d (d.subcommands.map Block.token) memSeenLabels
  rw [← bash] at bashListed bashLabels
  rw [← zsh] at zshListed zshLabels
  rw [← fish] at fishListed fishLabels
  refine ⟨Bash.script name d, Zsh.script name d, Fish.script name d, ?_, ?_, ?_, bashListed,
    zshListed, fishListed, offeredFirst d, ?_, ?_⟩
  · simp only [Format.render, Format.named, titled]
  · simp only [Format.render, Format.named, titled]
  · simp only [Format.render, Format.named, titled]
  · simpa using ⟨bashLabels, zshLabels, fishLabels⟩
  · rw [bashListed, zshListed, fishListed]
    constructor
    · exact fun agree => namesComplete.mp agree.1
    · intro named
      refine ⟨namesComplete.mpr named, rfl, (offeredFirst d).trans ?_⟩
      rw [wordsComplete named]

def halfNamed : Document :=
  { metadata := { name := some "x" }
    blocks := [{ visibility := .subcommand, name := some "push" },
      { visibility := .subcommand, flags := [{ short := some "-v" }] }] }

theorem completionsNameSubcommandsForHalfNamed :
    nonempty? halfNamed.metadata.name = some "x" ∧ halfNamed.subcommands ≠ [] ∧ halfNamed.Plain ∧
      ∃ bash zsh fish, Format.render [] halfNamed .bash = .ok bash ∧
        Format.render [] halfNamed .zsh = .ok zsh ∧ Format.render [] halfNamed .fish = .ok fish ∧
        listed (Bash.mentions bash) = ["push"] ∧ listed (Zsh.mentions zsh) = ["push", "None"] ∧
        listed (Fish.mentions "x" fish) = ["push", "None"] := by
  have titled : nonempty? halfNamed.metadata.name = some "x" := rfl
  have filled : halfNamed.subcommands ≠ [] := by decide
  have plain : halfNamed.Plain := by
    refine ⟨?_, by decide +kernel, ?_⟩
    · rintro name ⟨⟩
      decide
    · have each : ∀ b ∈ halfNamed.subcommands, b.name = some "push" ∨ b.name = none := by decide
      intro b member name named
      rcases each b member with push | unnamed
      · cases Option.some.inj (push.symm.trans named)
        simp [nameEnds]
      · rw [unnamed] at named
        contradiction
  obtain ⟨bash, zsh, fish, bashMade, zshMade, fishMade, bashListed, zshListed, fishListed, -⟩ :=
    completionsNameSubcommands [] titled filled plain
  exact ⟨titled, filled, plain, bash, zsh, fish, bashMade, zshMade, fishMade, bashListed, zshListed,
    fishListed⟩

theorem unnamedSubcommandMentioned :
    (∀ b ∈ halfNamed.blocks, b.name ≠ some "None") ∧
      ∃ zsh, Format.render [] halfNamed .zsh = .ok zsh ∧ .listed "None" ∈ Zsh.mentions zsh ∧
        .label "None" ∈ Zsh.mentions zsh :=
  ⟨by decide, _, rfl, by decide +kernel, by decide +kernel⟩

end ScriptDoc
