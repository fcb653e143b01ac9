import ScriptDoc.Proofs.CompletionCoverage
import Mathlib.Data.List.Infix
import Mathlib.Tactic.MkIffOfInductiveProp

/-! Descriptions in apostrophes. A fish script quotes every description that it is given, and marks the
apostrophes in it but not the backslashes. What fish reads there is the description again exactly if
none of its backslashes is taken for a mark. -/
namespace ScriptDoc
namespace Fish

section Reading

def push (c : Char) (read : Text × Text) : Text × Text := (c :: read.1, read.2)

def unquote : Text → Option (Text × Text)
  | [] => none
  | '\'' :: rest => some ([], rest)
  | '\\' :: '\'' :: rest => (unquote rest).map (push '\'')
  | '\\' :: '\\' :: rest => (unquote rest).map (push '\\')
  | c :: rest => (unquote rest).map (push c)

def readQuoted : Text → Option (Text × Text)
  | '\'' :: rest => unquote rest
  | _ => none

/- Texts that have no backslash before a backslash or an apostrophe, or at their end. -/
@[mk_iff literalExact]
structure Literal (s : Text) : Prop where
  single : ¬ ['\\', '\\'] <:+: s
  apart : ¬ ['\\', '\''] <:+: s
  last : s.getLast? ≠ some '\\'

instance (s : Text) : Decidable (Literal s) := decidable_of_iff _ (literalExact s).symm

variable {c : Char} {s v rest : Text}

theorem unquoteMarked (marked : c = '\'' ∨ c = '\\') :
    unquote ('\\' :: c :: s) = (unquote s).map (push c) := by
  rcases marked with rfl | rfl <;> rfl

theorem unquoteBackslash (quote : c ≠ '\'') (backslash : c ≠ '\\') :
    unquote ('\\' :: c :: s) = (unquote (c :: s)).map (push '\\') := by
  rw [unquote]
  · decide
  · intro _ _ same
    exact quote (List.cons.inj same).1
  · intro _ _ same
    exact backslash (List.cons.inj same).1

theorem unquoteOther (quote : c ≠ '\'') (backslash : c ≠ '\\') :
    unquote (c :: s) = (unquote s).map (push c) := by
  rw [unquote]
  · exact quote
  · exact fun _ same => absurd same backslash
  · exact fun _ same => absurd same backslash

theorem pushed {read : Option (Text × Text)} (same : read.map (push c) = some (v, rest)) :
    ∃ tail, v = c :: tail ∧ read = some (tail, rest) := by
  obtain ⟨⟨tail, left⟩, found, both⟩ := Option.map_eq_some_iff.mp same
  cases both
  exact ⟨tail, rfl, found⟩

theorem unquoteShorter (read : unquote s = some (v, rest)) : rest.length < s.length := by
  fun_induction unquote s generalizing v with
  | case1 => contradiction
  | case2 left =>
    cases read
    exact Nat.lt_succ_self _
  | case3 left ih | case4 left ih =>
    obtain ⟨tail, _, found⟩ := pushed read
    exact Nat.lt_succ_of_lt (Nat.lt_succ_of_lt (ih found))
  | case5 c left _ _ _ ih =>
    obtain ⟨tail, _, found⟩ := pushed read
    exact Nat.lt_succ_of_lt (ih found)

theorem escapeQuote (s : Text) : escape ('\'' :: s) = '\\' :: '\'' :: escape s := rfl

theorem escapeOther (quote : c ≠ '\'') (s : Text) : escape (c :: s) = c :: escape s := by
  rw [escape, Text.replace, List.flatMap_cons, if_neg quote]
  rfl

theorem literalNil : Literal [] := by decide

def Unmarked (s : Text) : Prop := ∃ next more, s = next :: more ∧ next ≠ '\'' ∧ next ≠ '\\'

theorem literalCons : Literal (c :: s) ↔ (c = '\\' → Unmarked s) ∧ Literal s := by
  simp only [literalExact, Text.pairCons, Unmarked]
  cases s with
  | nil => simp
  | cons next more =>
    simp only [List.head?_cons, List.getLast?_cons_cons]
    grind

theorem literalDenotes (literal : Literal s) (rest : Text) :
    unquote (escape s ++ '\'' :: rest) = some (s, rest) := by
  induction s with
  | nil => rfl
  | cons c s ih =>
    obtain ⟨followed, literal⟩ := literalCons.mp literal
    by_cases quote : c = '\''
    · rw [quote, escapeQuote, List.cons_append, List.cons_append, unquoteMarked (Or.inl rfl),
        ih literal]
      rfl
    by_cases backslash : c = '\\'
    · obtain ⟨next, more, rfl, other, single⟩ := followed backslash
      rw [backslash, escapeOther (by decide), escapeOther other, List.cons_append, List.cons_append,
        unquoteBackslash other single, ← List.cons_append, ← escapeOther other, ih literal]
      rfl
    · rw [escapeOther quote, List.cons_append, unquoteOther quote backslash, ih literal]
      rfl

def Bounds (s v : Text) : Prop := v.length ≤ s.length ∧ (v.length = s.length → Literal s)

theorem boundsCons (followed : c = '\\' → Unmarked s) (bounds : Bounds s v) :
    Bounds (c :: s) (c :: v) :=
  ⟨Nat.succ_le_succ bounds.1, fun same =>
    literalCons.mpr ⟨followed, bounds.2 (Nat.succ.inj same)⟩⟩

theorem denotedBounds {s v : Text}
    (read : unquote (escape s ++ '\'' :: rest) = some (v, rest)) : Bounds s v := by
  cases s with
  | nil =>
    cases read
    exact ⟨le_rfl, fun _ => literalNil⟩
  | cons c s =>
    by_cases quote : c = '\''
    · subst quote
      obtain ⟨tail, rfl, found⟩ := pushed ((unquoteMarked (Or.inl rfl)).symm.trans read)
      exact boundsCons (fun same => absurd same (by decide)) (denotedBounds found)
    by_cases backslash : c = '\\'
    · subst backslash
      rw [escapeOther quote] at read
      cases s with
      | nil =>
        -- the apostrophe that was to end the string is read as marked
        obtain ⟨tail, _, found⟩ := pushed ((unquoteMarked (Or.inl rfl)).symm.trans read)
        exact absurd (unquoteShorter found) (lt_irrefl _)
      | cons next more =>
        by_cases marked : next = '\''
        · -- the mark of the apostrophe is read as marked, and the apostrophe ends the string
          subst marked
          have left : escape more ++ '\'' :: rest = rest := by
            injection read with both
            exact (Prod.mk.inj both).2
          have longer := congrArg List.length left
          rw [List.length_append, List.length_cons] at longer
          omega
        rw [escapeOther marked] at read
        by_cases double : next = '\\'
        · subst double
          obtain ⟨tail, rfl, found⟩ := pushed ((unquoteMarked (Or.inr rfl)).symm.trans read)
          have shorter := (denotedBounds found).1
          constructor
          · exact Nat.succ_le_succ (Nat.le_succ_of_le shorter)
          · intro same
            simp only [List.length_cons] at same
            omega
        · obtain ⟨tail, rfl, found⟩ := pushed ((unquoteBackslash marked double).symm.trans read)
          refine boundsCons (fun _ => ⟨next, more, rfl, marked, double⟩) (denotedBounds ?_)
          rw [escapeOther marked]
          exact found
    · rw [escapeOther quote] at read
      obtain ⟨tail, rfl, found⟩ := pushed ((unquoteOther quote backslash).symm.trans read)
      exact boundsCons (fun same => absurd same backslash) (denotedBounds found)
termination_by s.length

theorem quotedDenotes (s rest : Text) :
    readQuoted ('\'' :: escape s ++ '\'' :: rest) = some (s, rest) ↔ Literal s :=
  ⟨fun read => (denotedBounds read).2 rfl, fun literal => literalDenotes literal rest⟩

end Reading

section Script

inductive Piece where
  | blank
  | remark (s : Text)
  | command (c : Command)
  deriving DecidableEq, Repr

namespace Piece

def written (name : Text) : Piece → Text
  | .blank => "\n"
  | .remark s => "# " ++ s ++ "\n"
  | .command c => c.written name

def description? : Piece → Option Text
  | .command c => if c.description = [] then none else some c.description
  | _ => none

end Piece

def switchPieces (condition : Option Text) (b : Block) : List Piece :=
  b.switches.map fun s => .command (switchCommand condition s)

def subcommandPiece (b : Block) : Piece :=
  .command ⟨some "__fish_use_subcommand", ["-a " ++ b.token], b.summary⟩

def partPieces (b : Block) : List Piece :=
  if b.allSwitches = [] then []
  else [.blank, .remark (b.token ++ " subcommand")] ++
    switchPieces (some ("__fish_seen_subcommand_from " ++ b.token)) b

def scriptPieces (name : Text) (d : Document) : List Piece :=
  [.remark ("fish completion for " ++ name), .blank] ++
    d.command?.toList.flatMap
      (switchPieces (if d.subcommands = [] then none else some "__fish_use_subcommand")) ++
    (if d.subcommands = [] then []
      else [.blank, .remark "Subcommands"] ++ d.subcommands.map subcommandPiece ++
        d.subcommands.flatMap partPieces) ++
    [.blank]

def given (s : Text) : List Text := if s = [] then [] else [s]

def givenSwitches (b : Block) : List Text := b.switches.flatMap fun s => given s.description

def givenTexts (d : Document) : List Text :=
  d.command?.toList.flatMap givenSwitches ++ d.subcommands.flatMap (fun b => given b.summary) ++
    d.subcommands.flatMap givenSwitches

theorem offersWritten {name : Text} {condition : Option Text} {switches : List Switch}
    {commands : List Text} (offered : List.Forall₂ (Offers name condition) switches commands) :
    commands.flatten =
      (switches.map fun s => Piece.command (switchCommand condition s)).flatMap
        (Piece.written name) := by
  induction offered with
  | nil => rfl
  | cons first _ ih =>
    rw [List.flatten_cons, ih, List.map_cons, List.flatMap_cons, first]
    rfl

theorem entriesWritten (name : Text) (condition : Option Text) (b : Block) :
    entryCommands name condition b = (switchPieces condition b).flatMap (Piece.written name) := by
  obtain ⟨commands, flat, offered⟩ := commandsCovered name condition b
  rw [flat, offersWritten offered, switchPieces]

theorem subcommandWritten (name : Text) (b : Block) :
    subcommandCommand name b = (subcommandPiece b).written name :=
  commandWritten name (some "__fish_use_subcommand") ["-a " ++ b.token] b.summary

theorem partWritten (name : Text) (b : Block) :
    subcommandPart name b = (partPieces b).flatMap (Piece.written name) := by
  have unlisted : b.entries.isEmpty = true ↔ b.allSwitches = [] := by
    rw [entriesOfSwitches, List.isEmpty_iff, List.map_eq_nil_iff]
  rw [subcommandPart, partPieces]
  by_cases none : b.allSwitches = []
  · rw [if_pos (unlisted.mpr none), if_pos none]
    rfl
  · rw [if_neg (fun empty => none (unlisted.mp empty)), if_neg none, List.flatMap_append,
      entriesWritten]
    simp only [List.flatMap_cons, List.flatMap_nil, Piece.written, List.append_assoc]
    rfl

theorem partsWritten (name : Text) (subcommands : List Block) :
    subcommandParts name subcommands =
      (if subcommands = [] then []
        else [.blank, .remark "Subcommands"] ++ subcommands.map subcommandPiece ++
          subcommands.flatMap partPieces).flatMap (Piece.written name) := by
  rw [subcommandParts]
  by_cases none : subcommands = []
  · rw [if_pos (List.isEmpty_iff.mpr none), if_pos none]
    rfl
  · rw [if_neg (fun empty => none (List.isEmpty_iff.mp empty)), if_neg none, List.flatMap_append,
      List.flatMap_append, List.flatMap_map, List.flatMap_assoc]
    have commands : subcommands.flatMap (subcommandCommand name) =
        subcommands.flatMap fun b => (subcommandPiece b).written name :=
      List.flatMap_congr fun b _ => subcommandWritten name b
    have parts : subcommands.flatMap (subcommandPart name) =
        subcommands.flatMap fun b => (partPieces b).flatMap (Piece.written name) :=
      List.flatMap_congr fun b _ => partWritten name b
    rw [commands, parts]
    rfl

theorem scriptWritten (name : Text) (d : Document) :
    script name d = (scriptPieces name d).flatMap (Piece.written name) := by
  have condition : (if d.subcommands.isEmpty then none else some "__fish_use_subcommand".toList) =
      if d.subcommands = [] then none else some "__fish_use_subcommand".toList := by
    cases d.subcommands <;> rfl
  have command (condition : Option Text) :
      (d.command?.map (entryCommands name condition)).getD [] =
        (d.command?.toList.flatMap (switchPieces condition)).flatMap (Piece.written name) := by
    cases d.command? with
    | none => rfl
    | some b => rw [Option.toList_some, List.flatMap_singleton, ← entriesWritten]; rfl
  unfold script scriptPieces
  simp only [condition, command, partsWritten, List.flatMap_append]
  have opening : "# fish completion for " ++ name ++ "\n\n" =
      [.remark ("fish completion for " ++ name), .blank].flatMap (Piece.written name) := by
    simp only [List.flatMap_cons, List.flatMap_nil, Piece.written, List.append_nil,
      List.append_assoc]
    rfl
  rw [opening]
  rfl

theorem commandsDescribed {α : Type} (items : List α) (command : α → Command) :
    (items.map fun item => Piece.command (command item)).filterMap Piece.description? =
      items.flatMap fun item => given (command item).description := by
  induction items with
  | nil => rfl
  | cons item rest ih =>
    rw [List.map_cons, List.flatMap_cons, ← ih, List.filterMap_cons, Piece.description?, given]
    by_cases empty : (command item).description = []
    · rw [if_pos empty, if_pos empty]
      rfl
    · rw [if_neg empty, if_neg empty]
      rfl

theorem partDescribed (b : Block) :
    (partPieces b).filterMap Piece.description? = givenSwitches b := by
  rw [partPieces]
  split
  · rename_i none
    rw [givenSwitches, Block.switches, none]
    rfl
  · rw [List.filterMap_append]
    exact commandsDescribed b.switches _

theorem scriptDescribed (name : Text) (d : Document) :
    (scriptPieces name d).filterMap Piece.description? = givenTexts d := by
  have opening (s : Text) : [Piece.remark s, .blank].filterMap Piece.description? = [] := rfl
  have heading (s : Text) : [Piece.blank, .remark s].filterMap Piece.description? = [] := rfl
  have closing : [Piece.blank].filterMap Piece.description? = [] := rfl
  have switches (condition : Option Text) (b : Block) :
      (switchPieces condition b).filterMap Piece.description? = givenSwitches b :=
    commandsDescribed b.switches _
  have summaries : (d.subcommands.map subcommandPiece).filterMap Piece.description? =
      d.subcommands.flatMap fun b => given b.summary :=
    commandsDescribed d.subcommands fun b => ⟨_, _, b.summary⟩
  rw [scriptPieces, givenTexts]
  by_cases none : d.subcommands = []
  · simp only [none, if_true, List.filterMap_append, List.filterMap_flatMap, opening, closing,
      switches, List.flatMap_nil, List.nil_append, List.append_nil]
  · simp only [none, if_false, List.filterMap_append, List.filterMap_flatMap, opening, heading,
      closing, switches, summaries, partDescribed, List.nil_append, List.append_nil,
      List.append_assoc]

theorem descriptionDenotes (name : Text) {c : Command} (before after : List Piece)
    (described : c.description ≠ []) :
    ∃ argument, (before ++ .command c :: after).flatMap (Piece.written name) =
        before.flatMap (Piece.written name) ++ c.front name ++ " -d " ++ argument ∧
      (readQuoted argument = some (c.description, '\n' :: after.flatMap (Piece.written name)) ↔
        Literal c.description) := by
  refine ⟨'\'' :: escape c.description ++ '\'' :: '\n' :: after.flatMap (Piece.written name), ?_,
    quotedDenotes _ _⟩
  have described : descriptionPart c.description =
      " -d " ++ ('\'' :: escape c.description ++ ['\'']) := by
    rw [descriptionPart, if_neg described]
    rfl
  rw [List.flatMap_append, List.flatMap_cons, Piece.written]
  unfold Command.written
  rw [described]
  simp only [List.append_assoc, List.cons_append, List.nil_append]
  rfl

end Script

end Fish

theorem fishQuotesIfLiteral (today : Text) :
    (∀ s, Fish.readQuoted ('\'' :: Fish.escape s ++ ['\'']) = some (s, []) ↔ Fish.Literal s) ∧
    ∀ (name : Text) (d : Document), nonempty? d.metadata.name = some name →
      let pieces := Fish.scriptPieces name d
      let text := pieces.flatMap (Fish.Piece.written name)
      Format.fish.render today d = .ok text ∧
      pieces.filterMap Fish.Piece.description? = Fish.givenTexts d ∧
      ∀ before c after, pieces = before ++ .command c :: after → c.description ≠ [] →
        ∃ argument,
          text = before.flatMap (Fish.Piece.written name) ++ c.front name ++ " -d " ++ argument ∧
          (Fish.readQuoted argument =
              some (c.description, '\n' :: after.flatMap (Fish.Piece.written name)) ↔
            Fish.Literal c.description) := by
  refine ⟨fun s => Fish.quotedDenotes s [], fun name d named => ?_⟩
  intro pieces text
  have rendered : Format.fish.render today d = .ok text := by
    rw [Format.render, Format.named, named]
    exact congrArg Except.ok (Fish.scriptWritten name d)
  refine ⟨rendered, Fish.scriptDescribed name d, fun before c after split described => ?_⟩
  obtain ⟨argument, placed, denotes⟩ := Fish.descriptionDenotes name before after described
  exact ⟨argument, by rw [← placed, ← split], denotes⟩

def quietText : Text := "Don't say C:\\dir"

def quietScript : Text := "#?/name tool\n#@/command\n # @flag -q Don't say C:\\dir\n"

theorem fishQuotesIfLiteralForQuiet :
    nonempty? (Document.ofText quietScript).metadata.name = some "tool".toList ∧
      ∃ text, Format.fish.render [] (Document.ofText quietScript) = .ok text ∧
        ∃ argument, text = "# fish completion for tool\n\ncomplete -c tool -s q -d " ++ argument ∧
          Fish.readQuoted argument = some (quietText, "\n\n".toList) := by
  have read : nonempty? (Document.ofText quietScript).metadata.name = some "tool".toList ∧
      Fish.scriptPieces "tool" (Document.ofText quietScript) =
        [.remark "fish completion for tool", .blank] ++
          .command ⟨none, ["-s q"], quietText⟩ :: [.blank] := by decide +kernel
  obtain ⟨named, split⟩ := read
  obtain ⟨rendered, -, places⟩ := (fishQuotesIfLiteral []).2 _ _ named
  obtain ⟨argument, placed, denotes⟩ := places _ _ _ split (by decide)
  exact ⟨named, _, rendered, argument, placed, denotes.mpr (by decide)⟩

def trailingScript : Text := "#?/name tool\n#@/command\n # @flag -q Ends in a \\\n"

theorem trailingBackslashUnended :
    "Ends in a \\".toList ∈ Fish.givenTexts (Document.ofText trailingScript) ∧
      Fish.readQuoted ('\'' :: Fish.escape "Ends in a \\" ++ ['\'']) = none := by
  decide +kernel

end ScriptDoc
