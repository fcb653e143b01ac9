import ScriptDoc.Proofs.LineShape
import ScriptDoc.Proofs.WellFormed

/-! Lines that declare a function. There are two shapes, with a keyword before the name or parentheses
behind it, and a line is tried for the one and then for the other. The order does not matter: what can
follow a name keeps the two shapes apart, also for a function that is called like the keyword, and none
of the lines that carry documentation has either of them. -/
namespace ScriptDoc

def AsciiWord (c : Char) : Prop :=
  ('A' ≤ c ∧ c ≤ 'Z') ∨ ('a' ≤ c ∧ c ≤ 'z') ∨ ('0' ≤ c ∧ c ≤ '9') ∨ c = '_'

def asciiSpace : Text := [' ', '\t', '\n', '\x0b', '\x0c', '\r']

def KeywordShape (s name : Text) : Prop :=
  ∃ gap rest, s = "function" ++ (gap ++ (name ++ rest)) ∧
    gap ≠ [] ∧ (∀ c ∈ gap, isAsciiBlank c = true) ∧
    FunctionName name ∧ ∀ c, rest.head? = some c → isNameChar c = false

def ParensShape (s name : Text) : Prop :=
  ∃ gap rest, s = name ++ (gap ++ '(' :: ')' :: rest) ∧
    (∀ c ∈ gap, isAsciiBlank c = true) ∧ FunctionName name

def Indented (shape : Text → Text → Prop) (s name : Text) : Prop :=
  ∃ indent body, s = indent ++ body ∧ (∀ c ∈ indent, isAsciiBlank c = true) ∧ shape body name

def Declaration (s name : Text) : Prop :=
  Indented KeywordShape s name ∨ Indented ParensShape s name

inductive DocumentationShape (s : Text) : Prop where
  | shebang {rest} (shape : Shebang s rest)
  | metaValue {tag value} (shape : MetaInline s tag value)
  | metaOpen {tag} (shape : MetaOpen s tag)
  | blockOpen {keyword extra} (shape : BlockOpen s keyword extra)
  | continuation {content} (shape : Continuation s content)
  | closing (shape : Closing s)

section Classes
variable {c : Char}

theorem wordCharAscii : isWordChar c = true ↔ AsciiWord c := by
  unfold isWordChar Char.isAlphanum Char.isAlpha Char.isUpper Char.isLower Char.isDigit AsciiWord
  simp only [Bool.or_eq_true, Bool.and_eq_true, decide_eq_true_eq, or_assoc]
  exact Iff.rfl

theorem nameCharAscii : isNameChar c = true ↔ AsciiWord c ∨ c = '-' := by
  rw [isNameChar, Bool.or_eq_true, decide_eq_true_eq, wordCharAscii]

theorem asciiBlankListed : isAsciiBlank c = true ↔ c ∈ asciiSpace := by
  constructor
  · intro blank
    simp only [isAsciiBlank, Bool.or_eq_true, Bool.and_eq_true, decide_eq_true_eq] at blank
    rcases blank with rfl | ⟨low, high⟩
    · exact List.mem_cons_self
    · have least : 9 ≤ c.toNat := UInt32.le_iff_toNat_le.mp low
      have most : c.toNat ≤ 13 := UInt32.le_iff_toNat_le.mp high
      have listed : ∀ n < 14, 9 ≤ n → Char.ofNat n ∈ asciiSpace := by decide
      rw [← Char.ofNat_toNat c]
      exact listed c.toNat (Nat.lt_succ_of_le most) least
  · intro listed
    have checked : asciiSpace.all isAsciiBlank = true := by decide
    exact List.all_eq_true.mp checked c listed

end Classes

section Names
variable {s start name rest gap : Text}

theorem dropStartExact : dropStart? start s = some rest ↔ s = start ++ rest := by
  induction start generalizing s with
  | nil => simp [dropStart?]
  | cons x start ih =>
    cases s with
    | nil => simp [dropStart?]
    | cons c s =>
      by_cases same : x = c
      · simp [dropStart?, same, ih]
      · simp [dropStart?, same, Ne.symm same]

theorem takeNameExact : takeName? s = some (name, rest) ↔
    s = name ++ rest ∧ FunctionName name ∧ ∀ c, rest.head? = some c → isNameChar c = false := by
  constructor
  · intro found
    have named := takeNameShape found
    cases s with
    | nil => contradiction
    | cons c tail =>
      obtain ⟨run, after, rfl, _, stop, taken, dropped⟩ := Text.runSplits isNameChar tail
      rw [takeName?, taken, dropped] at found
      split at found
      · cases found
        exact ⟨rfl, named, stop⟩
      · contradiction
  · rintro ⟨rfl, ⟨c, more, rfl, word, inside⟩, stop⟩
    rw [List.cons_append, takeName?, if_pos word, Text.takeRun inside stop, Text.dropRun inside stop]

theorem nameStops (named : FunctionName name) (rest : Text) :
    ∀ c, (name ++ rest).head? = some c → isAsciiBlank c = false := by
  obtain ⟨first, more, rfl, word, _⟩ := named
  intro c head
  cases Option.some.inj head
  cases blank : isAsciiBlank first with
  | false => rfl
  | true => rw [Text.asciiBlankNotWord blank] at word; contradiction

theorem blankStopsName (blank : ∀ c ∈ gap, isAsciiBlank c = true) {c : Char}
    (head : gap.head? = some c) : isNameChar c = false := by
  have space := blank c (List.mem_of_head? head)
  have other : c ≠ '-' := by
    rintro rfl
    contradiction
  rw [isNameChar, Text.asciiBlankNotWord space, Bool.false_or, decide_eq_false other]

theorem keywordNamed : FunctionName "function" :=
  ⟨'f', "unction".toList, rfl, rfl, List.all_eq_true.mp rfl⟩

end Names

section Shapes
variable {s name other : Text}

theorem keywordExact : keywordFunction? s = some name ↔ KeywordShape s name := by
  constructor
  · intro declares
    simp only [keywordFunction?, bind, Option.bind_eq_some_iff] at declares
    obtain ⟨after, keyword, found⟩ := declares
    rw [dropStartExact] at keyword
    split at found
    · rename_i c tail
      split at found
      · rename_i spaced
        simp only [Option.bind_eq_some_iff] at found
        obtain ⟨⟨taken, rest⟩, shape, same⟩ := found
        cases Option.some.inj same
        obtain ⟨gap, body, rfl, blank, _, _, dropped⟩ := Text.runSplits isAsciiBlank tail
        rw [dropped, takeNameExact] at shape
        obtain ⟨rfl, named, stop⟩ := shape
        exact ⟨c :: gap, rest, keyword, List.cons_ne_nil _ _,
          List.forall_mem_cons.mpr ⟨spaced, blank⟩, named, stop⟩
      · contradiction
    · contradiction
  · rintro ⟨gap, rest, rfl, filled, blank, named, stop⟩
    obtain ⟨c, gap, rfl⟩ := List.exists_cons_of_ne_nil filled
    obtain ⟨spaced, blank⟩ := List.forall_mem_cons.mp blank
    have taken := takeNameExact.mpr ⟨rfl, named, stop⟩
    simp only [keywordFunction?, dropStartExact.mpr rfl, bind, Option.bind, List.cons_append, spaced,
      if_true, Text.dropRun blank (nameStops named rest), taken]

theorem parensExact : parenFunction? s = some name ↔ ParensShape s name := by
  constructor
  · intro declares
    simp only [parenFunction?, bind, Option.bind_eq_some_iff] at declares
    obtain ⟨⟨taken, tail⟩, shape, found⟩ := declares
    obtain ⟨rfl, named, -⟩ := takeNameExact.mp shape
    obtain ⟨gap, body, rfl, blank, -, -, dropped⟩ := Text.runSplits isAsciiBlank tail
    simp only [dropped] at found
    split at found
    · rename_i rest
      cases Option.some.inj found
      exact ⟨gap, rest, rfl, blank, named⟩
    · contradiction
  · rintro ⟨gap, rest, rfl, blank, named⟩
    have stop : ∀ c, (gap ++ '(' :: ')' :: rest).head? = some c → isNameChar c = false := by
      intro c head
      cases gap with
      | nil =>
        cases Option.some.inj head
        rfl
      | cons d gap => exact blankStopsName blank head
    have taken := takeNameExact.mpr ⟨rfl, named, stop⟩
    have dropped : (gap ++ '(' :: ')' :: rest).dropWhile isAsciiBlank = '(' :: ')' :: rest :=
      Text.dropRun blank fun c head => by
        cases Option.some.inj head
        rfl
    simp only [parenFunction?, taken, bind, Option.bind, dropped]

theorem keywordUnparenthesized (keyword : KeywordShape s name) : parenFunction? s = none := by
  obtain ⟨gap, rest, rfl, filled, blank, named, _⟩ := keyword
  have stop : ∀ c, (gap ++ (name ++ rest)).head? = some c → isNameChar c = false := by
    intro c head
    rw [List.head?_append_of_ne_nil _ filled] at head
    exact blankStopsName blank head
  have taken := takeNameExact.mpr ⟨rfl, keywordNamed, stop⟩
  simp only [parenFunction?, taken, bind, Option.bind, Text.dropRun blank (nameStops named rest)]
  obtain ⟨first, more, rfl, word, _⟩ := named
  split
  · rename_i same
    cases (List.cons.inj same).1
    contradiction
  · rfl

theorem indentedExact {shape : Text → Text → Prop} {read : Text → Option Text}
    (recognises : ∀ body name, read body = some name ↔ shape body name)
    (solid : ∀ body name, shape body name → ∀ c, body.head? = some c → isAsciiBlank c = false) :
    Indented shape s name ↔ read (s.dropWhile isAsciiBlank) = some name := by
  constructor
  · rintro ⟨indent, body, rfl, blank, shaped⟩
    rw [Text.dropRun blank (solid body name shaped), recognises]
    exact shaped
  · intro found
    obtain ⟨indent, body, rfl, blank, -, -, dropped⟩ := Text.runSplits isAsciiBlank s
    rw [dropped, recognises] at found
    exact ⟨indent, body, rfl, blank, found⟩

theorem indentedKeywordExact :
    Indented KeywordShape s name ↔ keywordFunction? (s.dropWhile isAsciiBlank) = some name := by
  refine indentedExact (fun _ _ => keywordExact) ?_
  rintro body name ⟨gap, rest, rfl, -⟩ c head
  cases Option.some.inj head
  rfl

theorem indentedParensExact :
    Indented ParensShape s name ↔ parenFunction? (s.dropWhile isAsciiBlank) = some name := by
  refine indentedExact (fun _ _ => parensExact) ?_
  rintro body name ⟨gap, rest, rfl, -, named⟩
  exact nameStops named _

theorem shapesApart (keyword : Indented KeywordShape s name) : ¬ Indented ParensShape s other := by
  intro parens
  rw [indentedKeywordExact, keywordExact] at keyword
  rw [indentedParensExact, keywordUnparenthesized keyword] at parens
  contradiction

theorem functionNameExact : functionName? s = some name ↔ Declaration s name := by
  rw [Declaration, indentedKeywordExact, indentedParensExact]
  simp only [functionName?]
  cases keyword : keywordFunction? (s.dropWhile isAsciiBlank) with
  | none => simp
  | some found => simp [keywordUnparenthesized (keywordExact.mp keyword)]

theorem documentationDeclaresNothing (shape : DocumentationShape s) : functionName? s = none := by
  cases shape with
  | shebang shape => rw [shape.1]; rfl
  | metaValue shape => obtain ⟨_, rfl, _⟩ := shape; rfl
  | metaOpen shape => obtain ⟨_, rfl, _⟩ := shape; rfl
  | blockOpen shape => obtain ⟨_, rfl, _⟩ := shape; rfl
  | continuation shape => rcases shape with rfl | ⟨rfl, _⟩ <;> rfl
  | closing shape => obtain ⟨_, rfl, _⟩ := shape; rfl

theorem documentationExact (plain : '\n' ∉ s) : DocumentationShape s ↔
    TopLine.ofText s ≠ .other ∨ (continuation? s).isSome = true ∨ isClose s = true := by
  constructor
  · intro shape
    by_cases other : TopLine.ofText s = .other
    · cases otherShape plain other with
      | other noShebang noValue noOpen noBlock =>
        cases shape with
        | shebang shape => exact absurd shape (noShebang _)
        | metaValue shape => exact absurd shape (noValue _ _)
        | metaOpen shape => exact absurd shape (noOpen _)
        | blockOpen shape => exact absurd shape (noBlock _ _)
        | continuation shape =>
          rw [continuationReads plain shape]
          exact Or.inr (Or.inl rfl)
        | closing shape => exact Or.inr (Or.inr (closingExact.mp shape))
    · exact Or.inl other
  · rintro (means | continues | closes)
    · have shape := ofTextShape plain
      generalize TopLine.ofText s = line at shape means
      cases shape with
      | shebang shape => exact .shebang shape
      | metaValue shape => exact .metaValue shape
      | metaOpen shape _ => exact .metaOpen shape
      | blockOpen shape => exact .blockOpen shape
      | other => contradiction
    · obtain ⟨content, found⟩ := Option.isSome_iff_exists.mp continues
      exact .continuation (continuationSource plain found)
    · exact .closing (closingExact.mpr closes)

end Shapes

/- A function is declared exactly on the lines that have one of the two shapes, and no line has both. So
there is at most one name, and there is none on a line of the documentation. -/
theorem functionDeclarationsExact {s : Text} (plain : '\n' ∉ s) :
    (∀ c, (isWordChar c = true ↔ AsciiWord c) ∧ (isNameChar c = true ↔ AsciiWord c ∨ c = '-') ∧
      (isAsciiBlank c = true ↔ c ∈ asciiSpace)) ∧
    (∀ name, functionName? s = some name ↔ Declaration s name) ∧
    (∀ name other, ¬ (Indented KeywordShape s name ∧ Indented ParensShape s other)) ∧
    (∀ name other, Declaration s name → Declaration s other → name = other) ∧
    (DocumentationShape s ↔
      TopLine.ofText s ≠ .other ∨ (continuation? s).isSome = true ∨ isClose s = true) ∧
    (DocumentationShape s → functionName? s = none) := by
  refine ⟨fun c => ⟨wordCharAscii, nameCharAscii, asciiBlankListed⟩, fun name => functionNameExact,
    fun name other both => shapesApart both.1 both.2, ?_, documentationExact plain,
    documentationDeclaresNothing⟩
  intro name other first second
  have found := functionNameExact.mpr first
  rw [functionNameExact.mpr second] at found
  exact (Option.some.inj found).symm

def parenthesizedKeyword : Text := "\tfunction () \x7b"

theorem functionDeclarationsExactForKeyword : '\n' ∉ parenthesizedKeyword ∧
    functionName? parenthesizedKeyword = some "function".toList ∧
    ∀ name, ¬ Indented KeywordShape parenthesizedKeyword name := by
  have plain : '\n' ∉ parenthesizedKeyword := by decide
  have shaped : Indented ParensShape parenthesizedKeyword "function" :=
    ⟨['\t'], "function () \x7b".toList, rfl, List.all_eq_true.mp rfl,
      [' '], " \x7b".toList, rfl, List.all_eq_true.mp rfl, keywordNamed⟩
  obtain ⟨-, recognised, apart, -⟩ := functionDeclarationsExact plain
  exact ⟨plain, (recognised "function").mpr (Or.inr shaped),
    fun name keyword => apart name _ ⟨keyword, shaped⟩⟩

end ScriptDoc
