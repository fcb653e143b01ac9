import Mathlib.Data.List.Forall2
import ScriptDoc.Format
import ScriptDoc.Reader
import ScriptDoc.Proofs.CommandLineGrowth

/-! What the completions cover. Each script, and the completion of a command line, goes through the
flags and options of a block on its own; all of them offer those that have a spelling, in the order in
which the block holds them. -/
namespace ScriptDoc

inductive Switch where
  | flag (record : Flag)
  | option (record : Opt)
  deriving DecidableEq, Repr

namespace Switch

def short : Switch → Option Text
  | .flag r => r.short
  | .option r => r.short

def long : Switch → Option Text
  | .flag r => r.long
  | .option r => r.long

def description : Switch → Text
  | .flag r => r.description
  | .option r => r.description

def value? : Switch → Option Value
  | .flag _ => none
  | .option r => some r.value

def words (s : Switch) : List Text := (s.short.toList ++ s.long.toList).filter (· ≠ [])

def entry : Switch → Entry
  | .flag r => r.entry
  | .option r => r.entry

end Switch

namespace Block

def allSwitches (b : Block) : List Switch := b.flags.map .flag ++ b.options.map .option

def switches (b : Block) : List Switch := b.allSwitches.filter fun s => s.words ≠ []

end Block

section Switches
variable (b : Block) (s : Switch)

theorem nonemptyListed (o : Option Text) : (nonempty? o).toList = o.toList.filter (· ≠ []) := by
  cases o with
  | none => rfl
  | some text => cases text <;> rfl

theorem entrySpells : s.entry.spellings = s.words := by
  cases s <;> simp only [Switch.entry, Flag.entry, Opt.entry, Entry.spellings, Switch.words,
    Switch.short, Switch.long, nonemptyListed, List.filter_append]

theorem entriesOfSwitches : b.entries = b.allSwitches.map Switch.entry := by
  simp only [Block.entries, Block.allSwitches, List.map_append, List.map_map]
  rfl

theorem picksEach {α β : Type} {p : α → Bool} {write : α → Option β} {R : α → β → Prop}
    (items : List α) (picked : ∀ item, p item = true → ∃ out, write item = some out ∧ R item out)
    (passed : ∀ item, p item = false → write item = none) :
    List.Forall₂ R (items.filter p) (items.filterMap write) := by
  induction items with
  | nil => exact .nil
  | cons item rest ih =>
    cases kept : p item with
    | true =>
      obtain ⟨out, found, related⟩ := picked item kept
      rw [List.filter_cons_of_pos kept, List.filterMap_cons_some found]
      exact .cons related ih
    | false =>
      rw [List.filter_cons_of_neg (by simp [kept]), List.filterMap_cons_none (passed item kept)]
      exact ih

end Switches

namespace Zsh

def spelledPair (short long : Text) : Text :=
  "(" ++ short ++ " " ++ long ++ ")'" ++ ("\x7b" ++ short ++ "," ++ long ++ "\x7d'")

def spelled : List Text → Text
  | [word] => word
  | [short, long] => spelledPair short long
  | _ => []

def valueSpec : Option Value → Text
  | some value => ":" ++ value.name ++ ":"
  | none => []

def Specifies (s : Switch) (spec : Text) : Prop :=
  spec = "'" ++ spelled s.words ++ "[" ++ escape s.description ++ "]" ++ valueSpec s.value? ++ "'"

theorem specUnspelled {e : Entry} (none : e.spellings = []) : spec? e = Option.none := by
  obtain ⟨short, long, _, _⟩ := e
  obtain ⟨noShort, noLong⟩ := List.append_eq_nil_iff.mp none
  cases Option.toList_eq_nil_iff.mp noShort
  cases Option.toList_eq_nil_iff.mp noLong
  rfl

theorem specSpelled {e : Entry} (some : e.spellings ≠ []) :
    spec? e = Option.some ("'" ++ spelled e.spellings ++ "[" ++ escape e.description ++ "]" ++
      valueSpec e.value ++ "'") := by
  obtain ⟨short, long, description, value⟩ := e
  cases short <;> cases long
  case none.none => exact absurd rfl some
  all_goals cases value
  all_goals
    simp only [spec?, spelled, spelledPair, valueSpec, Entry.spellings, Option.toList_some, Option.toList_none,
      List.nil_append, List.append_nil, List.singleton_append, List.append_assoc]
  -- With one spelling the two sides are the same text, with two they differ in where a literal is cut.
  all_goals rfl

theorem specsCovered (b : Block) : List.Forall₂ Specifies b.switches (specs b) := by
  rw [specs, entriesOfSwitches, List.filterMap_map]
  refine picksEach b.allSwitches (fun s kept => ?_) fun s passed => ?_
  · have filled : s.entry.spellings ≠ [] := by simpa [entrySpells] using kept
    refine ⟨_, specSpelled filled, ?_⟩
    rw [Specifies, entrySpells]
    cases s <;> rfl
  · exact specUnspelled (by simpa [entrySpells] using passed)

end Zsh

namespace Fish

structure Command where
  condition : Option Text
  words : List Text
  description : Text
  deriving DecidableEq, Repr

def conditionPart : Option Text → Text
  | none => []
  | some condition => " -n '" ++ condition ++ "'"

def wordPart (word : Text) : Text := " " ++ word

def descriptionPart (description : Text) : Text :=
  if description = [] then [] else " -d '" ++ escape description ++ "'"

namespace Command

def front (name : Text) (c : Command) : Text :=
  "complete -c " ++ name ++ conditionPart c.condition ++ c.words.flatMap wordPart

def written (name : Text) (c : Command) : Text :=
  c.front name ++ descriptionPart c.description ++ "\n"

end Command

def shortWord (spelling : Text) : Text := "-s " ++ spelling.drop 1

def longWord (spelling : Text) : Text := "-l " ++ spelling.drop 2

def switchWords (s : Switch) : List Text :=
  (s.short.toList.filter (· ≠ [])).map shortWord ++ (s.long.toList.filter (· ≠ [])).map longWord ++
    if s.value?.isSome then ["-r".toList] else []

def switchCommand (condition : Option Text) (s : Switch) : Command :=
  ⟨condition, switchWords s, s.description⟩

def Offers (name : Text) (condition : Option Text) (s : Switch) (command : Text) : Prop :=
  command = (switchCommand condition s).written name

theorem conditionSpread (condition : Option Text) :
    (condition.map conditionArg).toList.flatMap wordPart = conditionPart condition := by
  cases condition with
  | none => rfl
  | some text => exact List.flatMap_singleton _ _

theorem descriptionSpread (description : Text) :
    (if description.isEmpty then [] else [descriptionArg description]).flatMap wordPart =
      descriptionPart description := by
  cases description with
  | nil => rfl
  | cons c rest => exact List.flatMap_singleton _ _

theorem commandSpread (name : Text) (rest : List Text) :
    Text.join [' '] (("complete -c " ++ name) :: rest) =
      "complete -c " ++ name ++ rest.flatMap wordPart := Text.joinSpread _ _ _

theorem commandWritten (name : Text) (condition : Option Text) (words : List Text)
    (description : Text) :
    Text.join [' '] (["complete -c " ++ name] ++ (condition.map conditionArg).toList ++ words ++
        if description.isEmpty then [] else [descriptionArg description]) ++ ['\n'] =
      Command.written name ⟨condition, words, description⟩ := by
  rw [List.append_assoc ["complete -c " ++ name], List.append_assoc, List.singleton_append,
    commandSpread, List.flatMap_append, List.flatMap_append, conditionSpread, descriptionSpread]
  unfold Command.written Command.front
  simp only [List.append_assoc]
  rfl

theorem entryOffered (name : Text) (condition : Option Text) {s : Switch}
    (spelled : s.entry.spellings ≠ []) :
    entryCommand? name condition s.entry = some ((switchCommand condition s).written name) := by
  have shorts : (s.entry.short.map shortArg).toList =
      (s.short.toList.filter (· ≠ [])).map shortWord := by
    rw [Option.toList_map, ← nonemptyListed]
    cases s <;> rfl
  have longs : (s.entry.long.map longArg).toList =
      (s.long.toList.filter (· ≠ [])).map longWord := by
    rw [Option.toList_map, ← nonemptyListed]
    cases s <;> rfl
  have values : (if s.entry.value.isSome then [valueArg] else []) =
      if s.value?.isSome then ["-r".toList] else [] := by
    cases s <;> rfl
  have described : s.entry.description = s.description := by cases s <;> rfl
  rw [entryCommand?, if_neg (by simpa using spelled), entryWords, shorts, longs, values, described,
    switchCommand, ← commandWritten]
  simp only [switchWords, List.append_assoc]

theorem commandsCovered (name : Text) (condition : Option Text) (b : Block) :
    ∃ commands : List Text, entryCommands name condition b = commands.flatten ∧
      List.Forall₂ (Offers name condition) b.switches commands := by
  refine ⟨_, rfl, ?_⟩
  rw [entriesOfSwitches, List.filterMap_map]
  refine picksEach b.allSwitches (fun s kept => ?_) fun s passed => ?_
  · have filled : s.entry.spellings ≠ [] := by simpa [entrySpells] using kept
    exact ⟨_, entryOffered name condition filled, rfl⟩
  · have unspelled : s.entry.spellings = [] := by simpa [entrySpells] using passed
    exact if_pos (by simpa using unspelled)

end Fish

namespace Bash

def opening (name : Text) : Text :=
  "# bash completion for " ++ name ++ "\n" ++
  "_" ++ Text.replace '-' ['_'] name ++ "() \x7b\n" ++
  "  local cur prev words cword\n" ++
  "  _init_completion || return\n" ++
  "\n"

def closing (name : Text) : Text :=
  "\x7d\n\n" ++
  "complete -F " ++ "_" ++ Text.replace '-' ['_'] name ++ " " ++ name ++ "\n"

end Bash

end ScriptDoc
