import ScriptDoc.Line
import ScriptDoc.Proofs.Text

/-! The line shapes as sets of texts. A shape is said by the parts a line without a line feed is made
of, and the readers of lines are shown to recognise exactly these parts. -/
namespace ScriptDoc

def Shebang (s rest : Text) : Prop := s = '#' :: '!' :: rest ∧ rest ≠ []

def MetaOpen (s tag : Text) : Prop :=
  ∃ blanks, s = '#' :: '?' :: '/' :: (tag ++ blanks) ∧
    tag ≠ [] ∧ (∀ c ∈ tag, isWordChar c = true) ∧ (∀ c ∈ blanks, isAsciiBlank c = true)

def MetaInline (s tag value : Text) : Prop :=
  ∃ blanks, s = '#' :: '?' :: '/' :: (tag ++ (blanks ++ value)) ∧
    tag ≠ [] ∧ (∀ c ∈ tag, isWordChar c = true) ∧
    blanks ≠ [] ∧ (∀ c ∈ blanks, isAsciiBlank c = true) ∧ value ≠ []

def BlockOpen (s keyword extra : Text) : Prop :=
  ∃ blanks, s = '#' :: '@' :: '/' :: (keyword ++ (blanks ++ extra)) ∧
    (∀ c ∈ keyword, isWordChar c = true) ∧ (∀ c ∈ blanks, isAsciiBlank c = true) ∧
    (∀ c, (blanks ++ extra).head? = some c → isWordChar c = false)

def Continuation (s content : Text) : Prop :=
  s = ' ' :: '#' :: ' ' :: content ∨ (s = ' ' :: '#' :: content ∧ content.head? ≠ some ' ')

def Closing (s : Text) : Prop :=
  ∃ blanks, s = ' ' :: '#' :: '#' :: blanks ∧ ∀ c ∈ blanks, isBlank c = true

inductive TopShape (s : Text) : TopLine → Prop where
  | shebang {rest} (shape : Shebang s rest) : TopShape s (.shebang (Text.trim rest))
  | metaValue {tag value} (shape : MetaInline s tag value) :
      TopShape s (.metaValue tag (Text.trim value))
  | metaOpen {tag} (shape : MetaOpen s tag) (empty : ∀ t v, ¬ MetaInline s t v) :
      TopShape s (.metaOpen tag)
  | blockOpen {keyword extra} (shape : BlockOpen s keyword extra) :
      TopShape s (.blockOpen keyword (Text.trim extra))
  | other (noShebang : ∀ rest, ¬ Shebang s rest) (noValue : ∀ t v, ¬ MetaInline s t v)
      (noOpen : ∀ t, ¬ MetaOpen s t) (noBlock : ∀ k e, ¬ BlockOpen s k e) : TopShape s .other

theorem restOfPlain {s : Text} (plain : '\n' ∉ s) : restOfLine? s = some s := by
  simp only [restOfLine?, Text.cutAbsent plain]

theorem nonemptyRestOfPlain {s : Text} (plain : '\n' ∉ s) (nonempty : s ≠ []) :
    nonemptyRest? s = some s := by
  cases s with
  | nil => contradiction
  | cons c rest => simp only [nonemptyRest?, restOfPlain plain]

theorem nonemptyRestSource {s line : Text} (plain : '\n' ∉ s) (found : nonemptyRest? s = some line) :
    line = s ∧ s ≠ [] := by
  cases s with
  | nil => contradiction
  | cons c rest =>
    rw [nonemptyRestOfPlain plain (by simp)] at found
    exact ⟨(Option.some.inj found).symm, by simp⟩

theorem restAfterBlanksSource {s line : Text} (plain : '\n' ∉ s)
    (found : restAfterBlanks? s = some line) :
    ∃ blanks, s = blanks ++ line ∧ blanks ≠ [] ∧ (∀ c ∈ blanks, isAsciiBlank c = true) ∧
      line ≠ [] := by
  induction s with
  | nil => contradiction
  | cons c rest ih =>
    have later : '\n' ∉ rest := fun member => plain (List.mem_cons_of_mem _ member)
    simp only [restAfterBlanks?] at found
    split at found
    · rename_i blank
      cases more : restAfterBlanks? rest with
      | some tail =>
        simp only [more] at found
        cases Option.some.inj found
        obtain ⟨blanks, same, _, all, nonempty⟩ := ih later more
        refine ⟨c :: blanks, by rw [same]; rfl, by simp, ?_, nonempty⟩
        intro d member
        rcases List.mem_cons.mp member with rfl | inside
        · exact blank
        · exact all d inside
      | none =>
        simp only [more] at found
        obtain ⟨rfl, nonempty⟩ := nonemptyRestSource later found
        exact ⟨[c], rfl, by simp, by simpa using blank, nonempty⟩
    · contradiction

theorem restAfterBlanksReads {blanks value : Text} (plain : '\n' ∉ blanks ++ value)
    (blanked : blanks ≠ []) (all : ∀ c ∈ blanks, isAsciiBlank c = true) (nonempty : value ≠ []) :
    ∃ line, restAfterBlanks? (blanks ++ value) = some line ∧
      Text.trim line = Text.trim value := by
  induction blanks with
  | nil => contradiction
  | cons c rest ih =>
    have blank : isAsciiBlank c = true := all c (by simp)
    have later : '\n' ∉ rest ++ value := fun member => plain (List.mem_cons_of_mem _ member)
    simp only [List.cons_append, restAfterBlanks?, blank, if_true]
    cases more : restAfterBlanks? (rest ++ value) with
    | some tail =>
      obtain ⟨skipped, same, _, allSkipped, _⟩ := restAfterBlanksSource later more
      refine ⟨tail, rfl, ?_⟩
      have left := Text.trimBlanksBefore tail allSkipped
      rw [← same, Text.trimBlanksBefore value (fun d member => all d (by simp [member]))] at left
      exact left.symm
    | none =>
      have bare : rest = [] := by
        by_contra filled
        obtain ⟨line, found, _⟩ := ih later filled (fun d member => all d (by simp [member]))
        rw [more] at found
        contradiction
      subst bare
      exact ⟨value, nonemptyRestOfPlain later nonempty, rfl⟩

theorem blankStopsWord {blanks : Text} (rest : Text) (filled : blanks ≠ [])
    (all : ∀ c ∈ blanks, isAsciiBlank c = true) :
    ∀ c, (blanks ++ rest).head? = some c → isWordChar c = false := by
  intro c head
  cases blanks with
  | nil => contradiction
  | cons d tail =>
    cases Option.some.inj head
    exact Text.asciiBlankNotWord (all c (by simp))

theorem shebangReads {s rest : Text} (plain : '\n' ∉ s) (shape : Shebang s rest) :
    TopLine.ofText s = .shebang (Text.trim rest) := by
  obtain ⟨rfl, nonempty⟩ := shape
  have found := nonemptyRestOfPlain (s := rest) (fun member => plain (by simp [member])) nonempty
  simp only [TopLine.ofText, found]

theorem metaValueReads {s tag value : Text} (plain : '\n' ∉ s) (shape : MetaInline s tag value) :
    TopLine.ofText s = .metaValue tag (Text.trim value) := by
  obtain ⟨blanks, rfl, named, word, filled, blank, nonempty⟩ := shape
  have stop := blankStopsWord value filled blank
  have unnamed : tag.isEmpty = false := by simpa using named
  obtain ⟨line, found, same⟩ := restAfterBlanksReads
    (fun member => plain (by simp [List.mem_append.mp member])) filled blank nonempty
  simp only [TopLine.ofText, TopLine.ofMetadata, Text.takeRun word stop, Text.dropRun word stop,
    unnamed, Bool.false_eq_true, if_false, found, same]

theorem metaOpenReads {s tag : Text} (plain : '\n' ∉ s) (shape : MetaOpen s tag)
    (empty : ∀ t v, ¬ MetaInline s t v) : TopLine.ofText s = .metaOpen tag := by
  obtain ⟨blanks, rfl, named, word, blank⟩ := shape
  have stop : ∀ c, blanks.head? = some c → isWordChar c = false := by
    intro c head
    exact Text.asciiBlankNotWord (blank c (List.mem_of_head? head))
  have unnamed : tag.isEmpty = false := by simpa using named
  have nothing : restAfterBlanks? blanks = none := by
    cases found : restAfterBlanks? blanks with
    | none => rfl
    | some line =>
      obtain ⟨skipped, rfl, filled, all, nonempty⟩ :=
        restAfterBlanksSource (fun member => plain (by simp [member])) found
      exact absurd ⟨skipped, rfl, named, word, filled, all, nonempty⟩ (empty tag line)
  have whole : blanks.all isAsciiBlank = true := List.all_eq_true.mpr blank
  simp only [TopLine.ofText, TopLine.ofMetadata, Text.takeRun word stop, Text.dropRun word stop,
    unnamed, Bool.false_eq_true, if_false, nothing, whole, if_true]

theorem blockOpenReads {s keyword extra : Text} (plain : '\n' ∉ s)
    (shape : BlockOpen s keyword extra) :
    TopLine.ofText s = .blockOpen keyword (Text.trim extra) := by
  obtain ⟨blanks, rfl, word, blank, stop⟩ := shape
  obtain ⟨skipped, rest, same, allSkipped, _, _, dropped⟩ :=
    Text.runSplits isAsciiBlank (blanks ++ extra)
  have plainRest : '\n' ∉ rest := by
    intro member
    apply plain
    rw [same]
    simp [member]
  have trimmed : Text.trim rest = Text.trim extra := by
    rw [← Text.trimBlanksBefore rest allSkipped, ← same, Text.trimBlanksBefore extra blank]
  simp only [TopLine.ofText, TopLine.ofBlock, Text.takeRun word stop, Text.dropRun word stop,
    dropped, restOfPlain plainRest, trimmed]

/- A line is read as nothing only when no shape fits it, since each shape would be recognised. -/
theorem otherShape {s : Text} (plain : '\n' ∉ s) (other : TopLine.ofText s = .other) :
    TopShape s .other := by
  have noValue : ∀ t v, ¬ MetaInline s t v := by
    intro t v shape
    rw [metaValueReads plain shape] at other
    contradiction
  refine .other ?_ noValue ?_ ?_
  · intro rest shape
    rw [shebangReads plain shape] at other
    contradiction
  · intro t shape
    rw [metaOpenReads plain shape noValue] at other
    contradiction
  · intro k e shape
    rw [blockOpenReads plain shape] at other
    contradiction

theorem ofMetadataShape {rest : Text} (plain : '\n' ∉ '#' :: '?' :: '/' :: rest) :
    TopShape ('#' :: '?' :: '/' :: rest) (TopLine.ofMetadata rest) := by
  have whole : TopLine.ofText ('#' :: '?' :: '/' :: rest) = TopLine.ofMetadata rest := rfl
  obtain ⟨tag, tail, rfl, word, stop, taken, dropped⟩ := Text.runSplits isWordChar rest
  have plainTail : '\n' ∉ tail := fun member => plain (by simp [member])
  cases shape : TopLine.ofMetadata (tag ++ tail) with
  | other => exact otherShape plain (whole.trans shape)
  | metaValue t v =>
    simp only [TopLine.ofMetadata, taken, dropped] at shape
    split at shape
    · contradiction
    · rename_i named
      split at shape
      · rename_i value found
        cases shape
        obtain ⟨blanks, rfl, filled, blank, nonempty⟩ := restAfterBlanksSource plainTail found
        exact .metaValue ⟨blanks, rfl, by simpa using named, word, filled, blank, nonempty⟩
      · split at shape <;> contradiction
  | metaOpen t =>
    have noValue : ∀ t v, ¬ MetaInline ('#' :: '?' :: '/' :: (tag ++ tail)) t v := by
      intro t v inline
      have found := metaValueReads plain inline
      rw [whole, shape] at found
      contradiction
    simp only [TopLine.ofMetadata, taken, dropped] at shape
    split at shape
    · contradiction
    · rename_i named
      split at shape
      · contradiction
      · split at shape
        · rename_i blank
          cases shape
          exact .metaOpen ⟨tail, rfl, by simpa using named, word, List.all_eq_true.mp blank⟩ noValue
        · contradiction
  | shebang i =>
    simp only [TopLine.ofMetadata] at shape
    repeat' split at shape
    all_goals contradiction
  | blockOpen k e =>
    simp only [TopLine.ofMetadata] at shape
    repeat' split at shape
    all_goals contradiction

theorem ofBlockShape {rest : Text} (plain : '\n' ∉ '#' :: '@' :: '/' :: rest) :
    TopShape ('#' :: '@' :: '/' :: rest) (TopLine.ofBlock rest) := by
  obtain ⟨keyword, tail, rfl, word, stop, taken, dropped⟩ := Text.runSplits isWordChar rest
  obtain ⟨blanks, extra, rfl, blank, _, _, droppedBlanks⟩ := Text.runSplits isAsciiBlank tail
  have plainExtra : '\n' ∉ extra := fun member => plain (by simp [member])
  simp only [TopLine.ofBlock, taken, dropped, droppedBlanks, restOfPlain plainExtra]
  exact .blockOpen ⟨blanks, rfl, word, blank, stop⟩

theorem ofTextShape {s : Text} (plain : '\n' ∉ s) : TopShape s (TopLine.ofText s) := by
  unfold TopLine.ofText
  split
  · rename_i rest
    have plainRest : '\n' ∉ rest := fun member => plain (by simp [member])
    split
    · rename_i interpreter found
      obtain ⟨rfl, nonempty⟩ := nonemptyRestSource plainRest found
      exact .shebang ⟨rfl, nonempty⟩
    · rename_i missing
      apply otherShape plain
      simp only [TopLine.ofText, missing]
  · exact ofMetadataShape plain
  · exact ofBlockShape plain
  · rename_i noShebang noMetadata noBlock
    apply otherShape plain
    unfold TopLine.ofText
    split
    · exact absurd rfl (noShebang _)
    · exact absurd rfl (noMetadata _)
    · exact absurd rfl (noBlock _)
    · rfl

theorem topShapeExact {s : Text} (plain : '\n' ∉ s) {shape : TopLine} :
    TopShape s shape ↔ TopLine.ofText s = shape := by
  constructor
  · intro found
    cases found with
    | shebang shape => exact shebangReads plain shape
    | metaValue shape => exact metaValueReads plain shape
    | metaOpen shape empty => exact metaOpenReads plain shape empty
    | blockOpen shape => exact blockOpenReads plain shape
    | other noShebang noValue noOpen noBlock =>
      have found := ofTextShape plain
      generalize TopLine.ofText s = read at found ⊢
      cases found with
      | shebang shape => exact absurd shape (noShebang _)
      | metaValue shape => exact absurd shape (noValue _ _)
      | metaOpen shape _ => exact absurd shape (noOpen _)
      | blockOpen shape => exact absurd shape (noBlock _ _)
      | other => rfl
  · rintro rfl
    exact ofTextShape plain

theorem continuationReads {s content : Text} (plain : '\n' ∉ s) (shape : Continuation s content) :
    continuation? s = some content := by
  rcases shape with rfl | ⟨rfl, unspaced⟩
  · exact restOfPlain (fun member => plain (by simp [member]))
  · have plainContent : '\n' ∉ content := fun member => plain (by simp [member])
    unfold continuation?
    split
    · rename_i rest same
      simp only [List.cons.injEq, true_and] at same
      simp [same] at unspaced
    · rename_i rest _ same
      simp only [List.cons.injEq, true_and] at same
      rw [← same]
      exact restOfPlain plainContent
    · rename_i unmarked
      exact absurd rfl (unmarked content)

theorem continuationSource {s content : Text} (plain : '\n' ∉ s)
    (found : continuation? s = some content) : Continuation s content := by
  unfold continuation? at found
  split at found
  · rename_i rest
    rw [restOfPlain (fun member => plain (by simp [member]))] at found
    cases Option.some.inj found
    exact Or.inl rfl
  · rename_i rest unspaced
    rw [restOfPlain (fun member => plain (by simp [member]))] at found
    cases Option.some.inj found
    refine Or.inr ⟨rfl, fun head => ?_⟩
    obtain ⟨tail, same⟩ := List.head?_eq_some_iff.mp head
    exact unspaced tail (by rw [same])
  · contradiction

theorem continuationExact {s : Text} (plain : '\n' ∉ s) {content : Text} :
    Continuation s content ↔ continuation? s = some content :=
  ⟨continuationReads plain, continuationSource plain⟩

theorem closingExact {s : Text} : Closing s ↔ isClose s = true := by
  constructor
  · rintro ⟨blanks, rfl, blank⟩
    simpa [isClose] using blank
  · intro closed
    unfold isClose at closed
    split at closed
    · rename_i rest
      exact ⟨rest, rfl, List.all_eq_true.mp closed⟩
    · contradiction

end ScriptDoc
