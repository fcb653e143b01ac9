import ScriptDoc.Completion.Candidate
import ScriptDoc.Proofs.Text

/-! Completion while a command line grows. A line that ends in a space is completed from its complete
words alone. A word that is typed behind it narrows the candidates, a candidate that is accepted is
one more argument, and what is behind the cursor plays no part. -/
namespace ScriptDoc

namespace Text

theorem wordsFromBlank {b : Char} (blank : isBlank b = true) (word p s : Text) :
    wordsFrom word (p ++ b :: s) = wordsFrom word p ++ words s := by
  induction p generalizing word with
  | nil =>
    simp only [List.nil_append, wordsFrom, if_pos blank]
    split <;> rfl
  | cons c rest ih =>
    rw [List.cons_append, wordsFrom, wordsFrom]
    split
    · split
      · exact ih []
      · rw [ih [], List.cons_append]
    · exact ih (word ++ [c])

theorem wordsSpace (p s : Text) : words (p ++ ' ' :: s) = words p ++ words s :=
  wordsFromBlank rfl [] p s

theorem wordsSpaced (p : Text) : words (p ++ [' ']) = words p := by
  rw [wordsSpace]
  exact List.append_nil _

theorem wordsFromSolid {w : Text} (solid : ∀ c ∈ w, isBlank c = false) (word : Text) :
    wordsFrom word w = wordsFrom (word ++ w) [] := by
  induction w generalizing word with
  | nil => rw [List.append_nil]
  | cons c rest ih =>
    have inside : isBlank c = false := solid c List.mem_cons_self
    have later := ih (fun d member => solid d (List.mem_cons_of_mem _ member)) (word ++ [c])
    rw [List.append_assoc, List.singleton_append] at later
    rw [← later]
    simp only [wordsFrom, inside, Bool.false_eq_true, if_false]

theorem wordsOfWord {w : Text} (word : Word w) : words w = [w] := by
  have filled : w.isEmpty = false := by simpa using word.filled
  rw [words, wordsFromSolid word.solid, List.nil_append, wordsFrom, filled]
  rfl

theorem wordsGrow {p w : Text} (spaced : p.getLast? = some ' ') (word : Word w) :
    words (p ++ w) = words p ++ [w] := by
  obtain ⟨front, rfl⟩ := List.getLast?_eq_some_iff.mp spaced
  rw [wordsSpaced, List.append_assoc, List.singleton_append, wordsSpace, wordsOfWord word]

end Text

theorem cursorPast {l : Text} {n : Int} (past : l.length ≤ n) : beforeCursor l n = l :=
  if_neg (by omega)

theorem cursorInside (l rest : Text) : beforeCursor (l ++ rest) l.length = l := by
  unfold beforeCursor
  split
  · rw [if_neg (by omega), Int.toNat_natCast, List.take_left]
  · rename_i whole
    have nothing : rest = [] := by
      rw [← List.length_eq_zero_iff]
      simp only [List.length_append] at whole
      omega
    rw [nothing, List.append_nil]

def argumentsOf (line : Text) : List Text := (Text.words line).tail

section Line
variable {p w : Text} (spaced : p.getLast? = some ' ')
include spaced

theorem typedSpaced : Typed.ofText? p = some ⟨argumentsOf p, []⟩ := by
  rw [Typed.ofText?, if_pos spaced, argumentsOf, List.drop_one]

theorem completeSpaced (d : Document) : d.complete p p.length = d.offered (argumentsOf p) := by
  rw [Document.complete, cursorPast (Int.le_refl _), typedSpaced spaced]
  exact List.filter_eq_self.mpr fun candidate _ => rfl

variable (started : Text.words p ≠ []) (word : Text.Word w)
include started word

theorem argumentsGrow : argumentsOf (p ++ w ++ [' ']) = argumentsOf p ++ [w] := by
  rw [argumentsOf, Text.wordsSpaced, Text.wordsGrow spaced word, List.tail_append_of_ne_nil started, argumentsOf]

theorem typedWord : Typed.ofText? (p ++ w) = some ⟨argumentsOf p, w⟩ := by
  have unspaced : (p ++ w).getLast? ≠ some ' ' := by
    intro last
    rw [List.getLast?_append_of_ne_nil _ word.filled] at last
    exact absurd (word.solid _ (List.mem_of_getLast? last)) (by decide)
  obtain ⟨command, arguments, words⟩ := List.exists_cons_of_ne_nil started
  rw [Typed.ofText?, if_neg unspaced, Text.wordsGrow spaced word, argumentsOf, words]
  -- The word that is being typed stands behind the command, so it is not the command itself.
  cases arguments with
  | nil => rfl
  | cons first more =>
    change some (Typed.mk (first :: more ++ [w]).dropLast
      ((first :: more ++ [w]).getLast?.getD [])) = some ⟨first :: more, w⟩
    rw [List.dropLast_concat, List.getLast?_concat, Option.getD_some]

theorem completeWord (d : Document) :
    d.complete (p ++ w) (p ++ w).length =
      (d.complete p p.length).filter fun candidate => w <+: candidate.word := by
  rw [completeSpaced spaced, Document.complete, cursorPast (Int.le_refl _),
    typedWord spaced started word]
  refine List.filter_congr fun candidate _ => ?_
  rw [Bool.eq_iff_iff, List.isPrefixOf_iff_prefix, decide_eq_true_iff]

end Line

def Block.Spells (b : Block) (word : Text) : Prop :=
  ∃ r ∈ b.options, r.short = some word ∨ r.long = some word

theorem Block.spellsExact (b : Block) (word : Text) :
    b.expectsValue word = true ↔ b.Spells word := by
  simp only [expectsValue, List.any_eq_true, Bool.or_eq_true, decide_eq_true_eq, Spells]

namespace Document

def Names (d : Document) (word : Text) : Prop := ∃ b ∈ d.subcommands, b.name = some word

instance (d : Document) (word : Text) : Decidable (d.Names word) :=
  inferInstanceAs (Decidable (∃ b ∈ d.subcommands, b.name = some word))

structure FirstNamed (d : Document) (word : Text) (b : Block) : Prop where
  name : b.name = some word
  first : ∃ earlier later, d.subcommands = earlier ++ b :: later ∧
    ∀ other ∈ earlier, other.name ≠ some word

def Selects (d : Document) (arguments : List Text) (b : Block) : Prop :=
  ∃ before word behind, arguments = before ++ word :: behind ∧
    (∀ other ∈ before, ¬ d.Names other) ∧ d.FirstNamed word b

def TakesValue (d : Document) (arguments : List Text) (word : Text) : Prop :=
  ∃ b, (d.command? = some b ∨ d.Selects arguments b) ∧ b.Spells word

variable (d : Document)

theorem firstNamedExact (word : Text) (b : Block) :
    (d.subcommands.find? fun b => b.name = some word) = some b ↔ d.FirstNamed word b := by
  rw [List.find?_eq_some_iff_append]
  constructor
  · rintro ⟨name, earlier, later, split, unnamed⟩
    exact ⟨of_decide_eq_true name, earlier, later, split,
      fun other member => by simpa using unnamed other member⟩
  · rintro ⟨name, earlier, later, split, unnamed⟩
    exact ⟨decide_eq_true name, earlier, later, split,
      fun other member => by simpa using unnamed other member⟩

theorem unnamedExact (word : Text) :
    (d.subcommands.find? fun b => b.name = some word) = none ↔ ¬ d.Names word := by
  simp only [List.find?_eq_none, decide_eq_true_eq, Names, not_exists, not_and]

theorem selectedExact (arguments : List Text) (b : Block) :
    selected? d.subcommands arguments = some b ↔ d.Selects arguments b := by
  simp only [selected?, List.findSome?_eq_some_iff, firstNamedExact, unnamedExact, Selects]
  constructor
  · rintro ⟨before, word, behind, split, named, unnamed⟩
    exact ⟨before, word, behind, split, unnamed, named⟩
  · rintro ⟨before, word, behind, split, unnamed, named⟩
    exact ⟨before, word, behind, split, named, unnamed⟩

theorem unselectedExact (arguments : List Text) :
    selected? d.subcommands arguments = none ↔ ∀ word ∈ arguments, ¬ d.Names word := by
  simp only [selected?, List.findSome?_eq_none_iff, unnamedExact]

theorem takesValueExact (arguments : List Text) (word : Text) :
    (d.command?.toList ++ (selected? d.subcommands arguments).toList).any
      (fun b => b.expectsValue word) = true ↔ d.TakesValue arguments word := by
  simp only [List.any_eq_true, List.mem_append, Option.mem_toList,
    selectedExact, Block.spellsExact, TakesValue]

instance (arguments : List Text) (word : Text) : Decidable (d.TakesValue arguments word) :=
  decidable_of_iff _ (d.takesValueExact arguments word)

section Accepted
variable {d} {arguments : List Text} {word : Text}

theorem offeredValue (value : d.TakesValue (arguments ++ [word]) word) :
    d.offered (arguments ++ [word]) = [] := by
  simp only [offered, List.getLast?_concat]
  exact if_pos ((d.takesValueExact _ _).mpr value)

theorem offeredFree (free : ¬ d.TakesValue (arguments ++ [word]) word) :
    d.offered (arguments ++ [word]) =
      offered.offer d (selected? d.subcommands (arguments ++ [word])) := by
  simp only [offered, List.getLast?_concat]
  exact if_neg fun value => free ((d.takesValueExact _ _).mp value)

theorem offeredSome {c : Candidate} (member : c ∈ d.offered arguments) :
    d.offered arguments = offered.offer d (selected? d.subcommands arguments) := by
  rcases List.eq_nil_or_concat arguments with rfl | ⟨front, last, rfl⟩
  · rfl
  · rw [List.concat_eq_append] at member ⊢
    by_cases value : d.TakesValue (front ++ [last]) last
    · rw [offeredValue value] at member
      exact absurd member List.not_mem_nil
    · exact offeredFree value

theorem selectedGrow : selected? d.subcommands (arguments ++ [word]) =
    (selected? d.subcommands arguments).or
      (d.subcommands.find? fun b => b.name = some word) := by
  rw [selected?, List.findSome?_append, List.findSome?_singleton, selected?]

theorem selectedNew (fresh : ∀ other ∈ arguments, ¬ d.Names other) (named : d.Names word) :
    ∃ b, d.FirstNamed word b ∧ selected? d.subcommands (arguments ++ [word]) = some b := by
  obtain ⟨b, found⟩ : ∃ b, (d.subcommands.find? fun b => b.name = some word) = some b :=
    Option.ne_none_iff_exists'.mp fun missing => (d.unnamedExact word).mp missing named
  refine ⟨b, (d.firstNamedExact word b).mp found, ?_⟩
  rw [selectedGrow, (d.unselectedExact arguments).mpr fresh, found, Option.none_or]

theorem selectedKept
    (old : ¬ ((∀ other ∈ arguments, ¬ d.Names other) ∧ d.Names word)) :
    selected? d.subcommands (arguments ++ [word]) = selected? d.subcommands arguments := by
  rw [selectedGrow]
  cases chosen : selected? d.subcommands arguments with
  | some b => rfl
  | none =>
    have fresh := (d.unselectedExact arguments).mp chosen
    rw [Option.none_or, (d.unnamedExact word).mpr fun named => old ⟨fresh, named⟩]

end Accepted

end Document

theorem acceptedWordCompletes (d : Document) {p : Text} {c : Candidate}
    (spaced : p.getLast? = some ' ') (started : Text.words p ≠ [])
    (member : c ∈ d.complete p p.length) (word : Text.Word c.word) :
    let next := p ++ c.word ++ [' ']
    (d.TakesValue (argumentsOf next) c.word → d.complete next next.length = []) ∧
    (¬ d.TakesValue (argumentsOf next) c.word →
      ((∀ other ∈ argumentsOf p, ¬ d.Names other) → d.Names c.word →
        ∃ b, d.FirstNamed c.word b ∧ d.complete next next.length =
          b.candidates ++ (d.command?.map Block.candidates).getD []) ∧
      (¬ ((∀ other ∈ argumentsOf p, ¬ d.Names other) ∧ d.Names c.word) →
        d.complete next next.length = d.complete p p.length)) := by
  intro next
  have arguments : argumentsOf next = argumentsOf p ++ [c.word] := argumentsGrow spaced started word
  have nextSpaced : next.getLast? = some ' ' := List.getLast?_concat
  rw [completeSpaced spaced] at member ⊢
  rw [completeSpaced nextSpaced, arguments]
  refine ⟨Document.offeredValue, fun free => ⟨fun fresh named => ?_, fun old => ?_⟩⟩
  · obtain ⟨b, first, chosen⟩ := Document.selectedNew fresh named
    refine ⟨b, first, ?_⟩
    rw [Document.offeredFree free, chosen]
    rfl
  · rw [Document.offeredFree free, Document.selectedKept old, ← Document.offeredSome member]

def coinciding : Document where
  blocks := [
    { visibility := .command, flags := [{ long := some "--all" }],
      options := [{ value := ⟨"FILE", true, none, false⟩, short := some "-o" }] },
    { visibility := .subcommand, name := some "build", flags := [{ short := some "-f" }] },
    { visibility := .subcommand, name := some "build", flags := [{ short := some "-x" }] },
    { visibility := .subcommand, name := some "-o" }]

theorem acceptedWordCompletesForCoinciding :
    (∀ c ∈ [Candidate.mk "-o" [], ⟨"build", []⟩, ⟨"--all", []⟩],
      c ∈ coinciding.complete "tool " 5 ∧ Text.Word c.word) ∧
    coinciding.Names "-o" ∧ coinciding.complete "tool -o " 8 = [] ∧
    (∃ b, coinciding.FirstNamed "build" b ∧ coinciding.complete "tool build " 11 =
      b.candidates ++ (coinciding.command?.map Block.candidates).getD []) ∧
    coinciding.complete "tool --all " 11 = coinciding.complete "tool " 5 := by
  have spaced : List.getLast? ("tool " : Text) = some ' ' := by decide
  have started : Text.words "tool " ≠ [] := by decide
  have accepted : ∀ c ∈ [Candidate.mk "-o" [], ⟨"build", []⟩, ⟨"--all", []⟩],
      c ∈ coinciding.complete "tool " 5 ∧ Text.Word c.word := by decide
  have next (c : Candidate) (listed : c ∈ [Candidate.mk "-o" [], ⟨"build", []⟩, ⟨"--all", []⟩]) :=
    acceptedWordCompletes coinciding spaced started (accepted c listed).1 (accepted c listed).2
  refine ⟨accepted, by decide, ?_, ?_, ?_⟩
  · exact (next ⟨"-o", []⟩ (by decide)).1 (by decide)
  · exact ((next ⟨"build", []⟩ (by decide)).2 (by decide)).1 (by decide) (by decide)
  · exact ((next ⟨"--all", []⟩ (by decide)).2 (by decide)).2 (by decide)

theorem typingNarrows (d : Document) :
    (∀ p w : Text, p.getLast? = some ' ' → Text.words p ≠ [] → Text.Word w →
      d.complete (p ++ w) (p ++ w).length =
        (d.complete p p.length).filter (fun candidate => w <+: candidate.word) ∧
      ∀ more : Text, (∀ c ∈ more, isBlank c = false) →
        (d.complete (p ++ (w ++ more)) (p ++ (w ++ more)).length).Sublist
          (d.complete (p ++ w) (p ++ w).length)) ∧
    ∀ (l rest : Text) (n : Int), l.length ≤ n →
      d.complete (l ++ rest) l.length = d.complete l n := by
  refine ⟨fun p w spaced started word => ⟨completeWord spaced started word d, ?_⟩, ?_⟩
  · intro more solid
    have longer : Text.Word (w ++ more) :=
      ⟨List.append_ne_nil_of_left_ne_nil word.filled more,
        fun c member => (List.mem_append.mp member).elim (word.solid c) (solid c)⟩
    rw [completeWord spaced started longer, completeWord spaced started word]
    exact List.monotone_filter_right _ fun candidate keeps => by
      simp only [decide_eq_true_eq] at keeps ⊢
      exact (List.prefix_append w more).trans keeps
  · intro l rest n past
    rw [Document.complete, Document.complete, cursorInside, cursorPast past]

theorem typingNarrowsForCoinciding :
    coinciding.complete "tool -" 6 = [⟨"-o", []⟩, ⟨"--all", []⟩, ⟨"-o", []⟩] ∧
    (coinciding.complete "tool --" 7).Sublist (coinciding.complete "tool -" 6) ∧
    coinciding.complete "tool -o x" 6 = coinciding.complete "tool -" 9 := by
  have spaced : List.getLast? ("tool " : Text) = some ' ' := by decide
  have started : Text.words "tool " ≠ [] := by decide
  obtain ⟨narrows, ignored⟩ := typingNarrows coinciding
  obtain ⟨kept, fewer⟩ := narrows "tool " "-" spaced started (by decide)
  refine ⟨kept.trans (by decide), fewer "-" (by simp; decide), ignored "tool -" "o x" 9 (by decide)⟩

end ScriptDoc
