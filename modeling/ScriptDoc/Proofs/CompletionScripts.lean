import Mathlib.Data.List.Infix
import ScriptDoc.Completion.Script
import ScriptDoc.Proofs.Text

/-! Reading a completion script. Each of the scripts first lists the tokens of the subcommands and then
has a case, or a condition, for each subcommand behind which there is anything to offer. -/
namespace ScriptDoc

section Reading
variable {σ α : Type}

def scanLines (step : σ → Text → σ × List α) (state : σ) : List Text → List α
  | [] => []
  | line :: rest => (step state line).2 ++ scanLines step (step state line).1 rest

def scanOn (step : σ → Text → σ × List α) (start : σ × Text) (text : Text) : List α :=
  scanLines step start.1 (Text.splitOn '\n' (start.2 ++ text))

def Scans (step : σ → Text → σ × List α) (text : Text) (before after : σ × Text)
    (found : List α) : Prop :=
  '\n' ∉ before.2 → '\n' ∉ after.2 ∧
    ∀ rest, scanOn step before (text ++ rest) = found ++ scanOn step after rest

variable {step : σ → Text → σ × List α} {text : Text}

namespace Scans

theorem nil (start : σ × Text) : Scans step [] start start [] :=
  fun absent => ⟨absent, fun _ => rfl⟩

theorem append {more : Text} {before middle after : σ × Text} {found others : List α}
    (first : Scans step text before middle found) (second : Scans step more middle after others) :
    Scans step (text ++ more) before after (found ++ others) := by
  intro absent
  obtain ⟨absentBetween, reads⟩ := first absent
  obtain ⟨absentAfter, readsMore⟩ := second absentBetween
  refine ⟨absentAfter, fun rest => ?_⟩
  rw [List.append_assoc, reads, readsMore, List.append_assoc]

theorem finding {before after : σ × Text} {found others : List α}
    (scans : Scans step text before after found) (same : found = others) :
    Scans step text before after others := same ▸ scans

theorem inside {state : σ} {pending : Text} (plain : '\n' ∉ text) :
    Scans step text (state, pending) (state, pending ++ text) [] := by
  intro absent
  refine ⟨?_, fun rest => ?_⟩
  · simpa [plain] using absent
  · simp [scanOn]

theorem opening {state : σ} (plain : '\n' ∉ text) :
    Scans step text (state, []) (state, text) [] := inside plain

theorem line {state next : σ} {pending : Text} {found : List α} (tail : Text)
    (same : text = tail ++ ['\n']) (plain : '\n' ∉ tail)
    (read : step state (pending ++ tail) = (next, found)) :
    Scans step text (state, pending) (next, []) found := by
  intro absent
  refine ⟨List.not_mem_nil, fun rest => ?_⟩
  have whole : '\n' ∉ pending ++ tail := by simpa [plain] using absent
  have split : pending ++ (text ++ rest) = (pending ++ tail) ++ '\n' :: rest := by simp [same]
  rw [scanOn, split, Text.splitOnFirst whole, scanLines, read]
  rfl

theorem quiet {state : σ} {pending : Text} (tail : Text) (same : text = tail ++ ['\n'])
    (plain : '\n' ∉ tail) (read : step state (pending ++ tail) = (state, [])) :
    Scans step text (state, pending) (state, []) [] := line tail same plain read

theorem quietBlank {state : σ} {pending : Text} (same : text = ['\n'] ++ ['\n'])
    (read : step state (pending ++ []) = (state, [])) (blank : step state [] = (state, [])) :
    Scans step text (state, pending) (state, []) [] := by
  rw [same]
  exact append (quiet [] rfl List.not_mem_nil read) (quiet [] rfl List.not_mem_nil blank)

theorem fixed {start : σ × Text}
    (reads : ∀ rest, scanOn step start (text ++ rest) = scanOn step start rest) :
    Scans step text start start [] := fun absent => ⟨absent, reads⟩

theorem skip {more : Text} {before start : σ × Text} {found : List α}
    (scans : Scans step text before start found)
    (reads : ∀ rest, scanOn step start (more ++ rest) = scanOn step start rest) :
    Scans step (text ++ more) before start found :=
  finding (append scans (fixed reads)) (List.append_nil found)

theorem whole {state next : σ} {found : List α}
    (scans : Scans step text (state, []) (next, []) found)
    (ended : scanOn step (next, []) [] = []) : scanOn step (state, []) text = found := by
  obtain ⟨-, reads⟩ := scans List.not_mem_nil
  have read := reads []
  rwa [List.append_nil, ended, List.append_nil] at read

theorem flatMap {β : Type} {write : β → Text} {find : β → List α} {start : σ × Text}
    {items : List β} (each : ∀ item ∈ items, Scans step (write item) start start (find item)) :
    Scans step (items.flatMap write) start start (items.flatMap find) := by
  induction items with
  | nil => exact nil start
  | cons item rest ih =>
    exact append (each item (by simp)) (ih fun other member => each other (by simp [member]))

end Scans
end Reading

inductive Mention where
  | listed (token : Text)
  | label (token : Text)
  deriving DecidableEq, Repr

def caseLabel? (indent line : Text) : Option Text :=
  (indent.isPrefixOf? line).bind fun rest =>
    if (Text.cut ')' rest).2 = some [] then some (Text.cut ')' rest).1 else none

theorem prefixFound (front rest : Text) : front.isPrefixOf? (front ++ rest) = some rest :=
  List.isPrefixOf?_eq_some_iff_append_eq.mpr rfl

theorem caseLabelFound (indent : Text) {token : Text} (plain : ')' ∉ token) :
    caseLabel? indent (indent ++ (token ++ [')'])) = some token := by
  simp [caseLabel?, prefixFound, Text.cutFirst plain]

theorem caseLabelOther (indent : Text) {rest : Text}
    (other : ∀ before, ')' ∉ before → rest ≠ before ++ [')']) :
    caseLabel? indent (indent ++ rest) = none := by
  rw [caseLabel?, prefixFound, Option.bind_some]
  rcases Text.cutCases ')' rest with ⟨-, uncut⟩ | ⟨before, after, absent, same, cut⟩
  · simp [uncut]
  · rw [cut, if_neg]
    rintro ended
    cases Option.some.inj ended
    exact other before absent same

def nameEnds : List Char := [' ', ':', '"', '\'', ')']

def Block.ProperlyNamed (b : Block) : Prop :=
  ∀ name, b.name = some name → name ≠ [] ∧ ∀ c ∈ name, c ∉ nameEnds

structure Entry.OneLine (e : Entry) : Prop where
  spellings : ∀ s ∈ e.spellings, '\n' ∉ s
  description : '\n' ∉ e.description
  value : ∀ v, e.value = some v → '\n' ∉ v.name

structure Block.OneLine (b : Block) : Prop where
  token : '\n' ∉ b.token
  summary : '\n' ∉ b.summary
  entries : ∀ e ∈ b.entries, e.OneLine

def Block.caseLabels (b : Block) : List Mention :=
  if b.spellings.isEmpty then [] else [.label b.token]

section Names
variable {b : Block}

theorem tokenProper (proper : b.ProperlyNamed) {c : Char} (ends : c ∈ nameEnds) :
    c ∉ b.token := by
  unfold Block.token
  cases named : b.name with
  | none =>
    have each : ∀ c ∈ nameEnds, c ∉ ("None" : Text) := by simp [nameEnds]
    exact each c ends
  | some name => exact fun inside => (proper name named).2 c inside ends

theorem wordProper (proper : b.ProperlyNamed) {c : Char} (ends : c ∈ nameEnds) :
    c ∉ b.name.getD [] := by
  cases named : b.name with
  | none => exact List.not_mem_nil
  | some name => exact fun inside => (proper name named).2 c inside ends

theorem wordPlain (oneLine : b.OneLine) : '\n' ∉ b.name.getD [] := by
  have plain := oneLine.token
  unfold Block.token at plain
  cases named : b.name with
  | none => exact List.not_mem_nil
  | some name => simpa [named] using plain

theorem spellingsPlain (oneLine : b.OneLine) : ∀ word ∈ b.spellings, '\n' ∉ word := by
  intro word member
  obtain ⟨e, inside, spelled⟩ := List.mem_flatMap.mp member
  exact (oneLine.entries e inside).spellings word spelled

theorem commandMember {d : Document} (found : d.command? = some b) : b ∈ d.blocks :=
  List.mem_of_mem_filter (List.mem_of_getLast? found)

theorem wordsNamed {blocks : List Block} (proper : ∀ b ∈ blocks, b.ProperlyNamed) :
    (blocks.map fun b => b.name.getD []).filter (· ≠ []) = blocks.filterMap Block.name := by
  induction blocks with
  | nil => rfl
  | cons b rest ih =>
    have later := ih fun other member => proper other (by simp [member])
    rw [List.map_cons, List.filterMap_cons]
    cases named : b.name with
    | none => simpa using later
    | some name =>
      have filled := (proper b (by simp) name named).1
      simpa [filled] using later

end Names

theorem plainReplace {old : Char} {new s : Text} (plainNew : '\n' ∉ new) (plain : '\n' ∉ s) :
    '\n' ∉ Text.replace old new s := by
  intro member
  obtain ⟨c, inside, found⟩ := List.mem_flatMap.mp member
  split at found
  · exact plainNew found
  · rw [List.mem_singleton.mp found] at plain
    exact plain inside

theorem plainAppend {s more : Text} (plain : '\n' ∉ s) (plainMore : '\n' ∉ more) :
    '\n' ∉ s ++ more := fun member => (List.mem_append.mp member).elim plain plainMore

theorem plainJoin {words : List Text} (plain : ∀ word ∈ words, '\n' ∉ word) :
    '\n' ∉ Text.join [' '] words := by
  intro member
  rcases Text.memJoin member with blank | ⟨word, inside, found⟩
  · simp at blank
  · exact plain word inside found

namespace Bash

def step (_ : Unit) (line : Text) : Unit × List Mention :=
  match ("  local commands=\"" : Text).isPrefixOf? line with
  | some rest => ((), ((Text.splitOn ' ' (Text.cut '"' rest).1).filter (· ≠ [])).map .listed)
  | none => ((), ((caseLabel? "      " line).map .label).toList)

def mentions (script : Text) : List Mention := scanOn step ((), []) script

theorem compgenScans (indent : Text) {words : List Text} (plain : ∀ word ∈ words, '\n' ∉ word)
    (quiet : ∀ rest, step () (indent ++ ("COMPREPLY=($(compgen -W \"" ++
      (rest ++ "\" -- \"$cur\"))"))) = ((), [])) :
    Scans step (compgen words) ((), indent) ((), []) [] := by
  refine .append (.append (.inside (by decide)) (.inside (plainJoin plain)))
    (.quiet "\" -- \"$cur\"))" rfl (by decide) ?_)
  simpa only [List.append_assoc] using quiet (Text.join [' '] words)

theorem bracketsQuiet (front : Text) :
    caseLabel? "      " ("      " ++ (front ++ "))")) = none := by
  refine caseLabelOther _ fun before absent same => absent ?_
  have shorter : front ++ [')'] = before :=
    (List.append_left_inj [')']).mp ((List.append_assoc _ _ _).trans same)
  simp [← shorter]

theorem branchScans {b : Block} (oneLine : b.OneLine) (proper : b.ProperlyNamed) :
    Scans step (branch b) ((), []) ((), []) b.caseLabels := by
  unfold branch Block.caseLabels
  split
  · exact .nil _
  have label : step () ("      " ++ b.token ++ ")") = ((), [.label b.token]) := by
    have found := caseLabelFound "      " (tokenProper proper (by decide))
    rw [List.append_assoc]
    exact congrArg (fun label => ((), (label.map Mention.label).toList)) found
  have offers (rest : Text) : step () ("        " ++ ("COMPREPLY=($(compgen -W \"" ++
      (rest ++ "\" -- \"$cur\"))"))) = ((), []) := by
    have quiet := bracketsQuiet
      ("  " ++ ("COMPREPLY=($(compgen -W \"" ++ (rest ++ "\" -- \"$cur\"")))
    rw [List.append_assoc, List.append_assoc, List.append_assoc] at quiet
    exact congrArg (fun label => ((), (label.map Mention.label).toList)) quiet
  exact Scans.opening (by decide) |>.append (.inside oneLine.token)
    |>.append (.line ")" rfl (by decide) label) |>.append (.opening (by decide))
    |>.append (compgenScans _ (spellingsPlain oneLine) offers)
    |>.skip (by intro; rfl) |>.skip (by intro; rfl)

theorem bodyScans {globals : List Text} {subcommands : List Block} (filled : subcommands ≠ [])
    (plainGlobals : ∀ word ∈ globals, '\n' ∉ word) (oneLine : ∀ b ∈ subcommands, b.OneLine)
    (proper : ∀ b ∈ subcommands, b.ProperlyNamed) :
    Scans step (body globals subcommands) ((), []) ((), [])
      ((subcommands.filterMap Block.name).map .listed ++ subcommands.flatMap Block.caseLabels) := by
  have plainNames : ∀ word ∈ subcommands.map (fun b => b.name.getD []), '\n' ∉ word := by
    simpa using fun b member => wordPlain (oneLine b member)
  have list : step () ("  local commands=\"" ++
      Text.join [' '] (subcommands.map fun b => b.name.getD []) ++ "\"") =
      ((), (subcommands.filterMap Block.name).map .listed) := by
    have unquoted : '"' ∉ Text.join [' '] (subcommands.map fun b => b.name.getD []) := by
      intro member
      rcases Text.memJoin member with blank | ⟨word, inside, found⟩
      · simp at blank
      · obtain ⟨b, listed, rfl⟩ := List.mem_map.mp inside
        exact wordProper (proper b listed) (by decide) found
    have words : Text.splitOn ' ' (Text.join [' '] (subcommands.map fun b => b.name.getD [])) =
        subcommands.map fun b => b.name.getD [] := by
      refine Text.splitOnJoin (by simpa using filled) ?_
      simpa using fun b member => wordProper (proper b member) (by decide)
    have quote : ("\"" : Text) = ['"'] := rfl
    rw [List.append_assoc, step, prefixFound]
    simp only [quote, Text.cutFirst unquoted, words, wordsNamed proper]
  rw [body, if_neg (by simpa using filled)]
  refine .finding (Scans.opening (by decide) |>.append (.inside (plainJoin plainNames))
    |>.append (.line "\"" rfl (by decide) list) |>.skip (by intro; rfl) |>.skip (by intro; rfl)
    |>.skip (by intro; rfl) |>.skip (by intro; rfl) |>.skip (by intro; rfl)
    |>.append (.flatMap fun b member => branchScans (oneLine b member) (proper b member))
    |>.skip (by intro; rfl) |>.skip (by intro; rfl) |>.skip (by intro; rfl)
    |>.append (.opening (by decide)) |>.append (compgenScans _ ?_ fun rest => rfl)) ?_
  · intro word member
    rcases List.mem_append.mp member with listed | global
    · exact plainNames word listed
    · exact plainGlobals word global
  · simp

theorem scriptMentions {name : Text} {d : Document} (plain : '\n' ∉ name)
    (filled : d.subcommands ≠ []) (oneLine : ∀ b ∈ d.blocks, b.OneLine)
    (proper : ∀ b ∈ d.subcommands, b.ProperlyNamed) :
    mentions (script name d) = (d.subcommands.filterMap Block.name).map .listed ++
      d.subcommands.flatMap Block.caseLabels := by
  have plainFunction : '\n' ∉ "_" ++ Text.replace '-' ['_'] name :=
    plainAppend (by decide) (plainReplace (by decide) plain)
  have globals : ∀ word ∈ (d.command?.map Block.spellings).getD [], '\n' ∉ word := by
    cases command : d.command? with
    | none => simp
    | some b => exact spellingsPlain (oneLine b (commandMember command))
  refine Scans.whole (.finding (Scans.opening (by decide) |>.append (.inside plain)
    |>.append (.quiet [] rfl (by decide) rfl) |>.append (.opening plainFunction)
    |>.append (.quiet "() \x7b" rfl (by decide) rfl) |>.skip (by intro; rfl) |>.skip (by intro; rfl)
    |>.skip (by intro; rfl)
    |>.append (bodyScans filled globals
        (fun b member => oneLine b (List.mem_of_mem_filter member)) proper)
    |>.skip (by intro; rfl) |>.append (.opening (by decide)) |>.append (.inside plainFunction)
    |>.append (.inside (by decide)) |>.append (.inside plain)
    |>.append (.quiet [] rfl (by decide) rfl))
    ?_) rfl
  simp

end Bash

namespace Zsh

def step : Bool → Text → Bool × List Mention
  | false, line => (line = "      commands=(", ((caseLabel? "        " line).map .label).toList)
  | true, line =>
    (line ≠ "      )",
      ((("        '" : Text).isPrefixOf? line).map fun rest =>
        .listed (Text.cut ':' rest).1).toList)

def mentions (script : Text) : List Mention := scanOn step (false, []) script

def Spec (spec : Text) : Prop := ∃ inner, spec = '\'' :: (inner ++ ['\'']) ∧ '\n' ∉ inner

theorem specOf {front middle : Text} (starts : front.head? = some '\'') (plain : '\n' ∉ front)
    (plainMiddle : '\n' ∉ middle) : Spec (front ++ (middle ++ "'")) := by
  obtain ⟨rest, rfl⟩ := List.head?_eq_some_iff.mp starts
  refine ⟨rest ++ middle, by simp, ?_⟩
  simpa [plainMiddle] using plain

theorem specQuoted {e : Entry} {spec : Text} (found : spec? e = some spec)
    (oneLine : e.OneLine) : Spec spec := by
  obtain ⟨spellings, description, value⟩ := oneLine
  obtain ⟨short, long, text, v⟩ := e
  have described : '\n' ∉ escape text := plainReplace (by decide) description
  have spelledShort : ∀ s, short = some s → '\n' ∉ s := fun s given =>
    spellings s (by simp [Entry.spellings, given])
  have spelledLong : ∀ s, long = some s → '\n' ∉ s := fun s given =>
    spellings s (by simp [Entry.spellings, given])
  unfold spec? at found
  -- Without a spelling there is no specification; the other cases differ in their front only.
  cases short <;> cases long <;> cases v <;> cases found
  all_goals exact specOf rfl (by simp [spelledShort, spelledLong]) (by simp [described, value])

theorem specsQuoted {b : Block} (oneLine : b.OneLine) : ∀ spec ∈ specs b, Spec spec := by
  intro spec member
  obtain ⟨e, inside, found⟩ := List.mem_filterMap.mp member
  exact specQuoted found (oneLine.entries e inside)

theorem specsEmpty (b : Block) : (specs b).isEmpty = b.spellings.isEmpty := by
  have unspelled (e : Entry) : spec? e = none ↔ e.spellings = [] := by
    obtain ⟨short, long, _, _⟩ := e
    cases short <;> cases long <;> simp [spec?, Entry.spellings]
  rw [Bool.eq_iff_iff, List.isEmpty_iff, List.isEmpty_iff, specs, Block.spellings,
    List.filterMap_eq_nil_iff, List.flatMap_eq_nil_iff]
  simp only [unspelled]

theorem specPlain {spec : Text} (quoted : Spec spec) : '\n' ∉ spec := by
  obtain ⟨inner, rfl, plain⟩ := quoted
  simpa using plain

theorem listedScans {spec : Text} (quoted : Spec spec) :
    Scans step (listed spec) (false, []) (false, []) [] := by
  have plain := specPlain quoted
  obtain ⟨inner, rfl, -⟩ := quoted
  exact Scans.opening (by decide) |>.append (.inside plain)
    |>.append (.quiet [] rfl (by decide) rfl)

theorem unendedQuiet (rest : Text) (unended : rest.getLast? ≠ some ')') :
    step false ("        " ++ rest) = (false, []) := by
  have quiet : caseLabel? "        " ("        " ++ rest) = none := by
    refine caseLabelOther _ fun before _ same => unended ?_
    rw [same, List.getLast?_concat]
  exact congrArg (fun label => (false, (label.map Mention.label).toList)) quiet

theorem continuedScans {specs : List Text} (quoted : ∀ spec ∈ specs, Spec spec) :
    Scans step (continued "            " specs) (false, []) (false, []) [] := by
  fun_induction continued "            " specs with
  | case1 => exact .nil _
  | case2 spec =>
    have plain := specPlain (quoted spec (by simp))
    obtain ⟨inner, rfl, -⟩ := quoted spec (by simp)
    refine Scans.opening (by decide) |>.append (.inside plain)
      |>.append (.quiet [] rfl (by decide) ?_)
    rw [List.append_nil]
    exact unendedQuiet ("    " ++ '\'' :: (inner ++ ['\''])) (by simp [List.getLast?_cons])
  | case3 spec next rest ih =>
    have plain := specPlain (quoted spec (by simp))
    have later := ih fun other member => quoted other (List.mem_cons_of_mem _ member)
    refine Scans.opening (by decide) |>.append (.inside plain)
      |>.append (.quiet " \\" rfl (by decide) ?_) |>.append later
    rw [List.append_assoc]
    exact unendedQuiet ("    " ++ (spec ++ " \\")) (by simp [List.getLast?_cons])

theorem branchScans {b : Block} (oneLine : b.OneLine) (proper : b.ProperlyNamed) :
    Scans step (branch b) (false, []) (false, []) b.caseLabels := by
  unfold branch Block.caseLabels
  rw [specsEmpty]
  split
  · exact .nil _
  have label : step false ("        " ++ b.token ++ ")") = (false, [.label b.token]) := by
    have found := caseLabelFound "        " (tokenProper proper (by decide))
    rw [List.append_assoc]
    exact congrArg (fun label => (false, (label.map Mention.label).toList)) found
  exact Scans.opening (by decide) |>.append (.inside oneLine.token)
    |>.append (.line ")" rfl (by decide) label) |>.skip (by intro; rfl)
    |>.append (continuedScans (specsQuoted oneLine)) |>.skip (by intro; rfl)

theorem describedScans {b : Block} (oneLine : b.OneLine) (proper : b.ProperlyNamed) :
    Scans step (described b) (true, []) (true, []) [.listed b.token] := by
  have entry : step true ("        '" ++ b.token ++ ":" ++ escape b.summary ++ "'") =
      (true, [.listed b.token]) := by
    have cut : Text.cut ':' (b.token ++ (":" ++ (escape b.summary ++ "'"))) =
        (b.token, some (escape b.summary ++ "'")) :=
      Text.cutFirst (tokenProper proper (by decide)) _
    rw [List.append_assoc, List.append_assoc, List.append_assoc]
    exact congrArg (fun pieces => (true, [Mention.listed pieces.1])) cut
  exact Scans.opening (by decide) |>.append (.inside oneLine.token) |>.append (.inside (by decide))
    |>.append (.inside (plainReplace (by decide) oneLine.summary))
    |>.append (.line "'" rfl (by decide) entry)

theorem nestedScans {globals : List Text} {subcommands : List Block}
    (quoted : ∀ spec ∈ globals, Spec spec) (oneLine : ∀ b ∈ subcommands, b.OneLine)
    (proper : ∀ b ∈ subcommands, b.ProperlyNamed) :
    Scans step (nestedBody globals subcommands) (false, []) (false, [])
      ((subcommands.map Block.token).map .listed ++ subcommands.flatMap Block.caseLabels) := by
  have arguments : Scans step (globals.flatMap listed) (false, []) (false, []) [] :=
    .finding (.flatMap fun spec member => listedScans (quoted spec member))
      (List.flatMap_eq_nil_iff.mpr fun _ _ => rfl)
  have enters : step false "      commands=(" = (true, []) := rfl
  have leaves : step true "      )" = (false, []) := rfl
  refine .finding (Scans.fixed (by intro; rfl) |>.skip (by intro; rfl) |>.append arguments
    |>.skip (by intro; rfl) |>.skip (by intro; rfl) |>.skip (by intro; rfl) |>.skip (by intro; rfl)
    |>.skip (by intro; rfl) |>.skip (by intro; rfl) |>.skip (by intro; rfl)
    |>.append (.line "      commands=(" rfl (by decide) enters)
    |>.append (.flatMap fun b member => describedScans (oneLine b member) (proper b member))
    |>.append (.line "      )" rfl (by decide) leaves)
    |>.skip (by intro; rfl) |>.skip (by intro; rfl) |>.skip (by intro; rfl) |>.skip (by intro; rfl)
    |>.append (.flatMap fun b member => branchScans (oneLine b member) (proper b member))
    |>.skip (by intro; rfl) |>.skip (by intro; rfl) |>.skip (by intro; rfl)) ?_
  rw [List.map_map, List.map_eq_flatMap]
  simp

theorem scriptMentions {name : Text} {d : Document} (plain : '\n' ∉ name)
    (filled : d.subcommands ≠ []) (oneLine : ∀ b ∈ d.blocks, b.OneLine)
    (proper : ∀ b ∈ d.subcommands, b.ProperlyNamed) :
    mentions (script name d) = (d.subcommands.map Block.token).map .listed ++
      d.subcommands.flatMap Block.caseLabels := by
  have globals : ∀ spec ∈ (d.command?.map specs).getD [], Spec spec := by
    cases command : d.command? with
    | none => simp
    | some b => exact specsQuoted (oneLine b (commandMember command))
  have body : Scans step (if d.subcommands.isEmpty
      then flatBody ((d.command?.map specs).getD [])
      else nestedBody ((d.command?.map specs).getD []) d.subcommands) (false, []) (false, [])
      ((d.subcommands.map Block.token).map .listed ++ d.subcommands.flatMap Block.caseLabels) := by
    rw [if_neg (by simpa using filled)]
    exact nestedScans globals (fun b member => oneLine b (List.mem_of_mem_filter member)) proper
  refine Scans.whole (.finding (Scans.opening (by decide) |>.append (.inside plain)
    |>.append (.quietBlank rfl (by rfl) (by rfl)) |>.append (.opening (by decide))
    |>.append (.inside plain)
    |>.append (.quiet "() \x7b" rfl (by decide) rfl) |>.append body
    |>.skip (by intro; rfl) |>.append (.opening (by decide)) |>.append (.inside plain)
    |>.append (.quiet [] rfl (by decide) rfl))
    ?_) rfl
  simp

end Zsh

namespace Fish

def mentioned (arguments : Text) : List Mention :=
  match (" -n '__fish_use_subcommand' -a " : Text).isPrefixOf? arguments with
  | some rest => [.listed (Text.cut ' ' rest).1]
  | none =>
    match (" -n '__fish_seen_subcommand_from " : Text).isPrefixOf? arguments with
    | some rest => [.label (Text.cut '\'' rest).1]
    | none => []

def step (name : Text) (_ : Unit) (line : Text) : Unit × List Mention :=
  match ("complete -c " ++ name).isPrefixOf? line with
  | some arguments => ((), mentioned arguments)
  | none => ((), [])

def mentions (name script : Text) : List Mention := scanOn (step name) ((), []) script

def seenLabels (b : Block) : List Mention :=
  b.entries.flatMap fun e => if e.spellings.isEmpty then [] else [.label b.token]

variable {name : Text}

theorem stepArguments (name arguments : Text) :
    step name () ("complete -c " ++ name ++ arguments) = ((), mentioned arguments) := by
  rw [step, prefixFound]

theorem entryLine (name condition : Text) {e : Entry} (spelled : e.spellings ≠ []) :
    ∃ c more, (c = 's' ∨ c = 'l') ∧ Text.join [' '] (entryWords name (some condition) e) =
      "complete -c " ++ name ++ (" -n '" ++ (condition ++ ("' -" ++ c :: more))) := by
  have words : ∃ c tail rest, (c = 's' ∨ c = 'l') ∧ entryWords name (some condition) e =
      ("complete -c " ++ name) :: conditionArg condition :: ('-' :: c :: tail) :: rest := by
    obtain ⟨short, long, text, v⟩ := e
    cases short with
    | some s => exact ⟨'s', _, _, Or.inl rfl, rfl⟩
    | none =>
      cases long with
      | some l => exact ⟨'l', _, _, Or.inr rfl, rfl⟩
      | none => exact absurd rfl spelled
  obtain ⟨c, tail, rest, kind, same⟩ := words
  refine ⟨c, tail ++ rest.flatMap (fun word => [' '] ++ word), kind, ?_⟩
  rw [same, Text.joinCons _ _ (by simp), Text.joinCons _ _ (by simp), Text.joinSpread, conditionArg]
  simp only [List.append_assoc]
  rfl

theorem entryWordsPlain {condition : Text} {e : Entry} (plainName : '\n' ∉ name)
    (plainCondition : '\n' ∉ condition) (oneLine : e.OneLine) :
    ∀ word ∈ entryWords name (some condition) e, '\n' ∉ word := by
  have plainSpelling {s : Text} (count : Nat) (member : s ∈ e.spellings) : '\n' ∉ s.drop count :=
    fun found => oneLine.spellings s member (List.mem_of_mem_drop found)
  have plainDescription : '\n' ∉ escape e.description :=
    plainReplace (by decide) oneLine.description
  intro word member
  simp only [entryWords, Option.map_some, Option.toList_some, List.mem_append,
    List.mem_singleton] at member
  rcases member with ((((rfl | rfl) | short) | long) | value) | described
  · exact plainAppend (by decide) plainName
  · exact plainAppend (plainAppend (by decide) plainCondition) (by decide)
  · obtain ⟨s, given, rfl⟩ := Option.map_eq_some_iff.mp (Option.mem_toList.mp short)
    exact plainAppend (by decide) (plainSpelling 1 (by simp [Entry.spellings, given]))
  · obtain ⟨s, given, rfl⟩ := Option.map_eq_some_iff.mp (Option.mem_toList.mp long)
    exact plainAppend (by decide) (plainSpelling 2 (by simp [Entry.spellings, given]))
  · split at value
    · rw [List.mem_singleton.mp value]
      decide
    · contradiction
  · split at described
    · contradiction
    · rw [List.mem_singleton.mp described]
      exact plainAppend (plainAppend (by decide) plainDescription) (by decide)

theorem entryCommandsFlat (name : Text) (condition : Option Text) (b : Block) :
    entryCommands name condition b =
      b.entries.flatMap fun e => (entryCommand? name condition e).getD [] := by
  unfold entryCommands
  induction b.entries with
  | nil => rfl
  | cons e rest ih =>
    rw [List.filterMap_cons, List.flatMap_cons, ← ih]
    cases entryCommand? name condition e <;> rfl

theorem entriesScans {condition : Text} {b : Block} {found : List Mention}
    (plainName : '\n' ∉ name) (plainCondition : '\n' ∉ condition) (oneLine : b.OneLine)
    (read : ∀ c more, c = 's' ∨ c = 'l' →
      mentioned (" -n '" ++ (condition ++ ("' -" ++ c :: more))) = found) :
    Scans (step name) (entryCommands name (some condition) b) ((), []) ((), [])
      (b.entries.flatMap fun e => if e.spellings.isEmpty then [] else found) := by
  rw [entryCommandsFlat]
  refine .flatMap fun e inside => ?_
  unfold entryCommand?
  split
  · exact .nil _
  rename_i spelled
  obtain ⟨c, more, kind, line⟩ := entryLine name condition (by simpa using spelled)
  refine .line _ rfl (plainJoin (entryWordsPlain plainName plainCondition ?_)) ?_
  · exact oneLine.entries e inside
  rw [List.nil_append, line, stepArguments, read c more kind]

theorem commandScans {b : Block} (plainName : '\n' ∉ name) (oneLine : b.OneLine) :
    Scans (step name) (entryCommands name (some "__fish_use_subcommand") b)
      ((), []) ((), []) [] := by
  refine .finding (entriesScans plainName (by decide) oneLine ?_)
    (List.flatMap_eq_nil_iff.mpr fun _ _ => ite_self [])
  rintro c more (rfl | rfl)
  · rfl
  · rfl

theorem subcommandScans {b : Block} (plainName : '\n' ∉ name) (oneLine : b.OneLine)
    (proper : b.ProperlyNamed) :
    Scans (step name) (subcommandCommand name b) ((), []) ((), []) [.listed b.token] := by
  have unbroken : ' ' ∉ b.token := tokenProper proper (by decide)
  have plainSummary : '\n' ∉ escape b.summary := plainReplace (by decide) oneLine.summary
  have words : ∀ word ∈ subcommandWords name b, '\n' ∉ word := by
    intro word member
    rcases List.mem_append.mp member with front | described
    · simp only [List.mem_cons, List.not_mem_nil, or_false] at front
      rcases front with rfl | rfl | rfl
      · exact plainAppend (by decide) plainName
      · decide
      · exact plainAppend (by decide) oneLine.token
    · split at described
      · contradiction
      · rw [List.mem_singleton.mp described]
        exact plainAppend (plainAppend (by decide) plainSummary) (by decide)
  have line : ∃ rest, (Text.cut ' ' (b.token ++ rest)).1 = b.token ∧
      Text.join [' '] (subcommandWords name b) =
        "complete -c " ++ name ++ (" -n '__fish_use_subcommand' -a " ++ (b.token ++ rest)) := by
    unfold subcommandWords
    split
    · refine ⟨[], by simp [Text.cutAbsent unbroken], ?_⟩
      simp only [List.append_nil, Text.join, List.append_assoc]
      rfl
    · refine ⟨' ' :: descriptionArg b.summary, by rw [Text.cutFirst unbroken], ?_⟩
      simp only [List.cons_append, List.nil_append, Text.join, List.append_assoc]
      rfl
  obtain ⟨rest, cut, joined⟩ := line
  refine .line _ rfl (plainJoin words) ?_
  rw [List.nil_append, joined, stepArguments, mentioned, prefixFound]
  simp only [cut]

theorem partScans {b : Block} (plainName : '\n' ∉ name) (oneLine : b.OneLine)
    (proper : b.ProperlyNamed) :
    Scans (step name) (subcommandPart name b) ((), []) ((), []) (seenLabels b) := by
  unfold subcommandPart
  split
  · rename_i none
    rw [seenLabels, List.isEmpty_iff.mp none]
    exact .nil _
  have heading : Scans (step name) "\n# " ((), []) ((), "# ") [] :=
    fun _ => ⟨by decide, fun _ => rfl⟩
  have entries : Scans (step name)
      (entryCommands name (some ("__fish_seen_subcommand_from " ++ b.token)) b) ((), []) ((), [])
      (seenLabels b) := by
    refine entriesScans plainName (plainAppend (by decide) oneLine.token) oneLine fun c more _ => ?_
    have cut : Text.cut '\'' (b.token ++ ("' -" ++ c :: more)) =
        (b.token, some (" -" ++ c :: more)) := Text.cutFirst (tokenProper proper (by decide)) _
    rw [List.append_assoc]
    exact congrArg (fun pieces => [Mention.label pieces.1]) cut
  exact heading |>.append (.inside oneLine.token)
    |>.append (.quiet " subcommand" rfl (by decide) (by rfl)) |>.append entries

theorem scriptMentions {d : Document} (plain : '\n' ∉ name) (filled : d.subcommands ≠ [])
    (oneLine : ∀ b ∈ d.blocks, b.OneLine) (proper : ∀ b ∈ d.subcommands, b.ProperlyNamed) :
    mentions name (script name d) = (d.subcommands.map Block.token).map .listed ++
      d.subcommands.flatMap seenLabels := by
  have nonempty : ¬ d.subcommands.isEmpty = true := by simpa using filled
  have inBlocks : ∀ b ∈ d.subcommands, b.OneLine := fun b member =>
    oneLine b (List.mem_of_mem_filter member)
  have command : Scans (step name) ((d.command?.map (entryCommands name
      (if d.subcommands.isEmpty then none else some ("__fish_use_subcommand" : Text)))).getD [])
      ((), []) ((), []) [] := by
    rw [if_neg nonempty]
    cases found : d.command? with
    | none => exact .nil _
    | some b => exact commandScans plain (oneLine b (commandMember found))
  have parts : Scans (step name) (subcommandParts name d.subcommands) ((), []) ((), [])
      ((d.subcommands.map Block.token).map .listed ++ d.subcommands.flatMap seenLabels) := by
    rw [subcommandParts, if_neg nonempty]
    refine .finding (Scans.fixed (by intro; rfl)
      |>.append (.flatMap fun b member =>
        subcommandScans plain (inBlocks b member) (proper b member))
      |>.append (.flatMap fun b member => partScans plain (inBlocks b member) (proper b member))) ?_
    rw [List.map_map, List.map_eq_flatMap]
    simp
  refine Scans.whole (.finding (Scans.opening (by decide) |>.append (.inside plain)
    |>.append (.quietBlank rfl (by rfl) (by rfl)) |>.append command |>.append parts
    |>.skip (by intro; rfl)) ?_) rfl
  simp

end Fish

end ScriptDoc
