import ScriptDoc.Completion.Candidate
import ScriptDoc.Format

/-! What users never see. Help, manual pages, completion scripts and completions are made from the
metadata, the last command block and the subcommands of a document. A block for programmers, and a
command block that a later one overrules, can come and go without any of them changing. -/
namespace ScriptDoc

def Block.Library (b : Block) : Prop := b.visibility = .exposed ∨ b.visibility = .internal

inductive HiddenInsertion : List Block → List Block → Prop where
  | library (before after : List Block) {b : Block} (library : b.Library) :
      HiddenInsertion (before ++ after) (before ++ b :: after)
  | overruled (before after : List Block) {b last : Block} (command : b.visibility = .command)
      (later : last ∈ after) (overrules : last.visibility = .command) :
      HiddenInsertion (before ++ after) (before ++ b :: after)

inductive HiddenEdits : List Block → List Block → Prop where
  | none (blocks : List Block) : HiddenEdits blocks blocks
  | insert {old middle new : List Block} (edit : HiddenInsertion old middle)
      (next : HiddenEdits middle new) : HiddenEdits old new
  | delete {old middle new : List Block} (edit : HiddenInsertion middle old)
      (next : HiddenEdits middle new) : HiddenEdits old new

structure SameForUsers (d e : Document) : Prop where
  metadata : d.metadata = e.metadata
  blocks : HiddenEdits d.blocks e.blocks

def lastCommand? (blocks : List Block) : Option Block :=
  (blocks.filter fun b => b.visibility = .command).getLast?

def subcommandsOf (blocks : List Block) : List Block :=
  blocks.filter fun b => b.visibility = .subcommand

theorem filterWithout {p : Block → Bool} (before after : List Block) {b : Block}
    (unseen : p b = false) : (before ++ b :: after).filter p = (before ++ after).filter p := by
  rw [List.filter_append, List.filter_cons_of_neg (by simp [unseen]), List.filter_append]

theorem lastCommandAppend (before after : List Block) :
    lastCommand? (before ++ after) = (lastCommand? after).or (lastCommand? before) := by
  rw [lastCommand?, List.filter_append, List.getLast?_append]
  rfl

theorem lastCommandExists {blocks : List Block} {b : Block} (member : b ∈ blocks)
    (command : b.visibility = .command) : ∃ last, lastCommand? blocks = some last := by
  have kept : b ∈ blocks.filter fun b => b.visibility = .command :=
    List.mem_filter.mpr ⟨member, by simp [command]⟩
  exact ⟨_, List.getLast?_eq_some_getLast (List.ne_nil_of_mem kept)⟩

theorem insertionKeepsCommand {old new : List Block} (edit : HiddenInsertion old new) :
    lastCommand? new = lastCommand? old := by
  cases edit with
  | library before after library =>
    refine congrArg List.getLast? (filterWithout before after ?_)
    rcases library with exposed | internal
    · simp [exposed]
    · simp [internal]
  | @overruled before after b last command later overrules =>
    obtain ⟨c, found⟩ := lastCommandExists later overrules
    have behind : lastCommand? (b :: after) = some c := by
      rw [← List.singleton_append, lastCommandAppend, found]
      rfl
    rw [lastCommandAppend, lastCommandAppend, behind, found]

theorem insertionKeepsSubcommands {old new : List Block} (edit : HiddenInsertion old new) :
    subcommandsOf new = subcommandsOf old := by
  cases edit with
  | library before after library =>
    refine filterWithout before after ?_
    rcases library with exposed | internal
    · simp [exposed]
    · simp [internal]
  | overruled before after command later overrules =>
    exact filterWithout before after (by simp [command])

theorem editsKeep {old new : List Block} (edits : HiddenEdits old new) :
    lastCommand? old = lastCommand? new ∧ subcommandsOf old = subcommandsOf new := by
  induction edits with
  | none blocks => exact ⟨rfl, rfl⟩
  | insert edit _ ih =>
    exact ⟨(insertionKeepsCommand edit).symm.trans ih.1,
      (insertionKeepsSubcommands edit).symm.trans ih.2⟩
  | delete edit _ ih =>
    exact ⟨(insertionKeepsCommand edit).trans ih.1, (insertionKeepsSubcommands edit).trans ih.2⟩

structure UserView where
  metadata : Metadata
  command? : Option Block
  subcommands : List Block
  deriving DecidableEq, Repr

def Document.userView (d : Document) : UserView := ⟨d.metadata, d.command?, d.subcommands⟩

theorem sameView {d e : Document} (same : SameForUsers d e) : d.userView = e.userView := by
  obtain ⟨command, subcommands⟩ := editsKeep same.blocks
  exact UserView.mk.injEq .. ▸ ⟨same.metadata, command, subcommands⟩

section
variable {d e : Document} (view : d.userView = e.userView)
include view

theorem viewParts : d.metadata = e.metadata ∧ d.command? = e.command? ∧
    d.subcommands = e.subcommands := by
  simpa [Document.userView] using view

theorem helpFromView : d.help = e.help := by
  obtain ⟨metadata, command, subcommands⟩ := viewParts view
  simp only [Document.help, Help.commands, metadata, command, subcommands]

theorem manPageFromView (date : Text) : d.manPage date = e.manPage date := by
  obtain ⟨metadata, command, subcommands⟩ := viewParts view
  simp only [Document.manPage, ManPage.commandsSection, metadata, command, subcommands]

theorem namedFromView {script : Text → Document → Text}
    (same : ∀ name, script name d = script name e) :
    Format.named script d = Format.named script e := by
  obtain ⟨metadata, _, _⟩ := viewParts view
  simp only [Format.named, metadata, same]

theorem bashFromView (name : Text) : Bash.script name d = Bash.script name e := by
  obtain ⟨_, command, subcommands⟩ := viewParts view
  unfold Bash.script
  rw [command, subcommands]

theorem zshFromView (name : Text) : Zsh.script name d = Zsh.script name e := by
  obtain ⟨_, command, subcommands⟩ := viewParts view
  unfold Zsh.script
  rw [command, subcommands]

theorem fishFromView (name : Text) : Fish.script name d = Fish.script name e := by
  obtain ⟨_, command, subcommands⟩ := viewParts view
  unfold Fish.script
  rw [command, subcommands]

theorem offeredFromView (arguments : List Text) : d.offered arguments = e.offered arguments := by
  obtain ⟨_, command, subcommands⟩ := viewParts view
  simp only [Document.offered, Document.offered.offer, command, subcommands]

theorem completeFromView (line : Text) (point : Int) :
    d.complete line point = e.complete line point := by
  simp only [Document.complete, offeredFromView view]

end

theorem hiddenBlocksStayHidden {d e : Document} (same : SameForUsers d e) :
    (∀ format : Format, format ≠ .json → ∀ today, format.render today d = format.render today e) ∧
    (∀ line point, d.complete line point = e.complete line point) := by
  have view := sameView same
  refine ⟨fun format readable today => ?_, completeFromView view⟩
  cases format with
  | json => contradiction
  | help => exact congrArg Except.ok (helpFromView view)
  | man => exact congrArg Except.ok (manPageFromView view today)
  | bash => exact namedFromView view (bashFromView view)
  | zsh => exact namedFromView view (zshFromView view)
  | fish => exact namedFromView view (fishFromView view)

def shownCommand : Block := { visibility := .command, flags := [{ short := some "-v".toList }] }

def overruledCommand : Block := { visibility := .command, flags := [{ short := some "-x".toList }] }

def shownSubcommand : Block := { visibility := .subcommand, name := some "push".toList }

def helper : Block := { visibility := .internal, description := "secret".toList }

def plainScript : Document :=
  { metadata := { name := some "x".toList }, blocks := [shownCommand, {}, shownSubcommand] }

def editedScript : Document :=
  { path := some "x.sh".toList
    metadata := { name := some "x".toList }
    blocks := [helper, overruledCommand, shownCommand, shownSubcommand]
    warnings := [⟨1, "secret".toList⟩] }

theorem hiddenBlocksStayHiddenForCommand :
    SameForUsers plainScript editedScript ∧
    Format.bash.render [] plainScript = Format.bash.render [] editedScript := by
  have exposed : HiddenInsertion [shownCommand, shownSubcommand] plainScript.blocks :=
    .library [shownCommand] [shownSubcommand] (Or.inl rfl)
  have overruled : HiddenInsertion [shownCommand, shownSubcommand]
      [overruledCommand, shownCommand, shownSubcommand] :=
    .overruled [] [shownCommand, shownSubcommand] rfl List.mem_cons_self rfl
  have internal : HiddenInsertion [overruledCommand, shownCommand, shownSubcommand]
      editedScript.blocks :=
    .library [] [overruledCommand, shownCommand, shownSubcommand] (Or.inr rfl)
  have same : SameForUsers plainScript editedScript :=
    ⟨rfl, .delete exposed (.insert overruled (.insert internal (.none _)))⟩
  exact ⟨same, (hiddenBlocksStayHidden same).1 .bash (by decide) []⟩

end ScriptDoc
