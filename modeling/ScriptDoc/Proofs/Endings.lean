import ScriptDoc.Proofs.Concatenation

/-! All ways of ending a value or a block agree. A line that closes, a line that means nothing, and
the end of the script all finish what is being read in the same way; only the line number of a
warning about an unknown tag tells them apart. -/
namespace ScriptDoc

structure Inert (z : Text) : Prop where
  continues : ∀ content, ¬ Continuation z content
  means : TopShape z .other
  declares : functionName? z = none

def Ends (z : Text) : Prop := Closing z ∨ Inert z

theorem carriageReturn {s : Text} (plain : '\n' ∉ s) :
    dropLineEnd s = s ∨ s = dropLineEnd s ++ ['\r'] := by
  have unended : s.getLast? ≠ some '\n' := fun last => plain (List.mem_of_getLast? last)
  simp only [dropLineEnd, unended, if_false]
  split
  · rename_i last
    exact Or.inr (List.dropLast_append_getLast? _ last).symm
  · exact Or.inl rfl

section CarriageReturn
variable {s : Text}

theorem closingReturn (shape : Closing (s ++ ['\r'])) : Closing s := by
  obtain ⟨blanks, same, blank⟩ := shape
  induction blanks using List.reverseRecOn with
  | nil =>
    have last := congrArg List.getLast? same
    simp at last
  | append_singleton init c _ =>
    have split : s = ' ' :: '#' :: '#' :: init :=
      (List.append_inj' (same.trans (by simp : _ = (' ' :: '#' :: '#' :: init) ++ [c])) rfl).1
    exact ⟨init, split, fun d member => blank d (by simp [member])⟩

theorem continuationReturn {content : Text} (shape : Continuation s content) :
    Continuation (s ++ ['\r']) (content ++ ['\r']) := by
  rcases shape with rfl | ⟨rfl, other⟩
  · exact Or.inl rfl
  · refine Or.inr ⟨rfl, ?_⟩
    cases content with
    | nil => decide
    | cons c rest => exact other

theorem meaningReturn (none : TopShape (s ++ ['\r']) .other) : TopShape s .other := by
  cases none with
  | other noShebang noValue noOpen noBlock =>
    refine .other ?_ ?_ ?_ ?_
    · rintro rest ⟨rfl, filled⟩
      exact noShebang (rest ++ ['\r']) ⟨rfl, by simp⟩
    · rintro tag value ⟨blanks, rfl, named, word, blanked, blank, filled⟩
      exact noValue tag (value ++ ['\r']) ⟨blanks, by simp, named, word, blanked, blank, by simp⟩
    · rintro tag ⟨blanks, rfl, named, word, blank⟩
      refine noOpen tag ⟨blanks ++ ['\r'], by simp, named, word, fun c member => ?_⟩
      rcases List.mem_append.mp member with inside | last
      · exact blank c inside
      · cases List.mem_singleton.mp last
        rfl
    · rintro keyword extra ⟨blanks, rfl, word, blank, stop⟩
      refine noBlock keyword (extra ++ ['\r']) ⟨blanks, by simp, word, blank, fun c head => ?_⟩
      rw [← List.append_assoc, List.head?_append] at head
      cases first : (blanks ++ extra).head? with
      | some d =>
        rw [first] at head
        exact Option.some.inj head ▸ stop d first
      | none =>
        rw [first] at head
        cases Option.some.inj head
        rfl

theorem takeNameReturn {name rest : Text} (found : takeName? s = some (name, rest)) :
    takeName? (s ++ ['\r']) = some (name, rest ++ ['\r']) := by
  cases s with
  | nil => contradiction
  | cons c tail =>
    simp only [takeName?] at found
    split at found
    · rename_i word
      cases Option.some.inj found
      obtain ⟨run, after, rfl, inside, stop, taken, dropped⟩ := Text.runSplits isNameChar tail
      have ended : ∀ d, (after ++ ['\r']).head? = some d → isNameChar d = false := by
        intro d head
        cases after with
        | nil =>
          cases Option.some.inj head
          rfl
        | cons e more => exact stop d head
      simp only [List.cons_append, takeName?, word, if_true, taken, dropped, List.append_assoc,
        Text.takeRun inside ended, Text.dropRun inside ended]
    · contradiction

theorem skipReturn {c : Char} {rest : Text} (found : s.dropWhile isAsciiBlank = c :: rest) :
    (s ++ ['\r']).dropWhile isAsciiBlank = c :: (rest ++ ['\r']) := by
  rw [List.dropWhile_append, found]
  rfl

theorem dropStartReturn {start rest : Text} (found : dropStart? start s = some rest) :
    dropStart? start (s ++ ['\r']) = some (rest ++ ['\r']) := by
  induction start generalizing s with
  | nil => cases Option.some.inj found; rfl
  | cons x start ih =>
    cases s with
    | nil => contradiction
    | cons c tail =>
      simp only [dropStart?] at found
      split at found
      · rename_i same
        simp only [List.cons_append, dropStart?, same, if_true]
        exact ih found
      · contradiction

theorem keywordFunctionReturn {name : Text} (declares : keywordFunction? s = some name) :
    keywordFunction? (s ++ ['\r']) = some name := by
  simp only [keywordFunction?, bind, Option.bind_eq_some_iff] at declares
  obtain ⟨after, keyword, found⟩ := declares
  split at found
  · rename_i blank rest
    split at found
    · rename_i spaced
      simp only [Option.bind_eq_some_iff] at found
      obtain ⟨⟨taken, tail⟩, shape, same⟩ := found
      cases Option.some.inj same
      cases skipped : rest.dropWhile isAsciiBlank with
      | nil => rw [skipped] at shape; contradiction
      | cons c more =>
        rw [skipped] at shape
        have later : takeName? (c :: (more ++ ['\r'])) = some (taken, tail ++ ['\r']) :=
          takeNameReturn shape
        simp only [keywordFunction?, dropStartReturn keyword, bind, Option.bind, List.cons_append,
          spaced, if_true, skipReturn skipped, later]
    · contradiction
  · contradiction

theorem parenFunctionReturn {name : Text} (declares : parenFunction? s = some name) :
    parenFunction? (s ++ ['\r']) = some name := by
  simp only [parenFunction?, bind, Option.bind_eq_some_iff] at declares
  obtain ⟨⟨taken, rest⟩, shape, found⟩ := declares
  simp only at found
  split at found
  · rename_i tail skipped
    cases Option.some.inj found
    simp only [parenFunction?, takeNameReturn shape, bind, Option.bind, skipReturn skipped,
      List.cons_append]
  · contradiction

theorem functionNameReturn {name : Text} (declares : functionName? s = some name) :
    ∃ other, functionName? (s ++ ['\r']) = some other := by
  cases skipped : s.dropWhile isAsciiBlank with
  | nil =>
    rw [functionName?, skipped] at declares
    contradiction
  | cons c rest =>
    simp only [functionName?, skipped] at declares
    simp only [functionName?, skipReturn skipped]
    cases keyword : keywordFunction? (c :: rest) with
    | some found =>
      have later := keywordFunctionReturn keyword
      rw [List.cons_append] at later
      exact ⟨found, by rw [later]⟩
    | none =>
      rw [keyword] at declares
      have later := parenFunctionReturn declares
      rw [List.cons_append] at later
      cases keywordFunction? (c :: (rest ++ ['\r'])) with
      | some found => exact ⟨found, rfl⟩
      | none => exact ⟨name, later⟩

end CarriageReturn

theorem endsStripped {z : Text} (plain : '\n' ∉ z) (ends : Ends z) : Ends (dropLineEnd z) := by
  rcases carriageReturn plain with same | same
  · rwa [same]
  · rw [same] at ends
    rcases ends with closing | inert
    · exact Or.inl (closingReturn closing)
    · refine Or.inr ⟨fun content shape => ?_, meaningReturn inert.means, ?_⟩
      · exact inert.continues _ (continuationReturn shape)
      · cases declares : functionName? (dropLineEnd z) with
        | none => rfl
        | some name =>
          obtain ⟨other, found⟩ := functionNameReturn declares
          rw [inert.declares] at found
          contradiction

theorem closeOutside {z : Text} (closed : isClose z = true) (line : Int) (d : Document) :
    stepTop z line d = (.top, d) := by
  have meaningless : TopLine.ofText z = .other := by
    by_contra means
    rw [(meaningInterrupts means).1] at closed
    contradiction
  have undeclared : functionName? z = none := by
    obtain ⟨blanks, rfl, _⟩ := closingExact.mpr closed
    rfl
  simp only [stepTop, meaningless, undeclared]

theorem endsStep {z : Text} (plain : '\n' ∉ z) (ends : Ends z) (state : State) (line : Int)
    (d : Document) : step state z line d = (.top, finish state line d) := by
  cases closed : isClose z with
  | true =>
    by_cases outside : state = .top
    · subst outside
      exact closeOutside closed line d
    · exact stepClosed line d outside closed
  | false =>
    rcases ends with closing | inert
    · rw [closingExact.mp closing] at closed
      contradiction
    · have interrupts : continuation? z = none := by
        cases found : continuation? z with
        | none => rfl
        | some content =>
          have shape := (continuationExact plain).mpr found
          exact absurd shape (inert.continues content)
      rw [stepInterrupted state line d closed interrupts]
      simp only [stepTop, (topShapeExact plain).mp inert.means, inert.declares]

theorem endingReads (xs : List Text) {z : Text} (plain : '\n' ∉ dropLineEnd z)
    (ends : Ends (dropLineEnd z)) :
    Document.ofLines (xs ++ [z]) =
      finish (readSoFar xs).1 (xs.length + 1 : Nat) (readSoFar xs).2 := by
  rw [ofLinesAppend, List.map_singleton, readPlain, endsStep plain ends (readSoFar xs).1]
  rfl

theorem ofLinesEnded (xs : List Text) {z : Text} (plain : '\n' ∉ z)
    (ends : Ends (dropLineEnd z)) :
    Document.ofLines (xs ++ [z]) =
      finish (readSoFar xs).1 (xs.length + 1 : Nat) (readSoFar xs).2 :=
  endingReads xs (dropLineEndPlain plain) ends

def LeftOpen (xs : List Text) (tag : Text) : Prop :=
  (∃ contents, (readSoFar xs).1 = .metadata tag contents) ∧ tag ∉ MetaField.all.map MetaField.tag

theorem endWarningsOpen {xs : List Text} {tag : Text} (left : LeftOpen xs tag) (line : Nat) :
    (readSoFar xs).1.endWarnings line = [⟨line, "unknown shedoc tag: #?/" ++ tag⟩] := by
  obtain ⟨⟨contents, here⟩, unknown⟩ := left
  rw [here]
  exact if_neg unknown

theorem endWarningsClosed {xs : List Text} (closed : ∀ tag, ¬ LeftOpen xs tag) (line : Nat) :
    (readSoFar xs).1.endWarnings line = [] := by
  cases here : (readSoFar xs).1 with
  | top => rfl
  | block draft => rfl
  | metadata tag contents =>
    refine if_pos ?_
    by_contra unknown
    exact closed tag ⟨⟨contents, here⟩, unknown⟩

theorem endWarningsMessage (state : State) (here there : Nat) :
    (state.endWarnings here).map Warning.message =
      (state.endWarnings there).map Warning.message := by
  cases state with
  | top => rfl
  | block draft => rfl
  | metadata tag contents =>
    simp only [State.endWarnings, Segment.unknownTag]
    split <;> rfl

theorem endingsAgree (xs : List Text) {z : Text} (plain : '\n' ∉ z)
    (ends : Ends z ∨ Ends (dropLineEnd z)) :
    let alone := Document.ofLines xs
    let ended := Document.ofLines (xs ++ [z])
    ended.path = alone.path ∧ ended.shebang = alone.shebang ∧
    ended.metadata = alone.metadata ∧ ended.blocks = alone.blocks ∧
    ended.warnings.map Warning.message = alone.warnings.map Warning.message ∧
    (∀ tag, LeftOpen xs tag → ∃ earlier,
      alone.warnings = earlier ++ [⟨xs.length, "unknown shedoc tag: #?/" ++ tag⟩] ∧
      ended.warnings = earlier ++ [⟨xs.length + 1, "unknown shedoc tag: #?/" ++ tag⟩]) ∧
    ((∀ tag, ¬ LeftOpen xs tag) → ended.warnings = alone.warnings) := by
  intro alone ended
  have stripped : Ends (dropLineEnd z) := ends.elim (endsStripped plain) id
  have finished : alone = finish (readSoFar xs).1 xs.length (readSoFar xs).2 := ofLinesFinish xs
  have closed : ended = { alone with
      warnings := (readSoFar xs).2.warnings ++ (readSoFar xs).1.endWarnings (xs.length + 1) } := by
    rw [finished, ← finishElsewhere]
    exact ofLinesEnded xs plain stripped
  have before : alone.warnings =
      (readSoFar xs).2.warnings ++ (readSoFar xs).1.endWarnings xs.length := by
    rw [finished, finishElsewhere _ _ xs.length]
  rw [closed, before]
  refine ⟨rfl, rfl, rfl, rfl, ?_, fun tag left => ?_, fun shut => ?_⟩
  · rw [List.map_append, List.map_append, endWarningsMessage]
  · exact ⟨_, by rw [endWarningsOpen left], by rw [endWarningsOpen left]; rfl⟩
  · rw [endWarningsClosed shut, endWarningsClosed shut]

theorem endingsAgreeForCommand :
    (Ends " ##".toList ∧ Ends [] ∧
      LeftOpen ["#@/command".toList, "#?/nmae".toList, " # x".toList] "nmae".toList) ∧
    (Document.ofLines (["#@/command".toList, " # @exit 1 bad".toList] ++ [" ##".toList])).blocks =
      (Document.ofLines ["#@/command".toList, " # @exit 1 bad".toList]).blocks ∧
    ∃ earlier,
      (Document.ofLines (["#@/command".toList, "#?/nmae".toList, " # x".toList] ++ [[]])).warnings =
        earlier ++ [⟨4, "unknown shedoc tag: #?/" ++ "nmae".toList⟩] := by
  have closing : Ends " ##".toList := Or.inl ⟨[], rfl, by simp⟩
  have blank : Ends [] := Or.inr ⟨fun content shape => by simp [Continuation] at shape,
    otherShape (by decide) rfl, rfl⟩
  have left : LeftOpen ["#@/command".toList, "#?/nmae".toList, " # x".toList] "nmae".toList :=
    ⟨⟨["x".toList], by decide⟩, by decide⟩
  obtain ⟨earlier, _, ended⟩ :=
    (endingsAgree ["#@/command".toList, "#?/nmae".toList, " # x".toList] (by decide)
      (Or.inl blank)).2.2.2.2.2.1 _ left
  exact ⟨⟨closing, blank, left⟩,
    (endingsAgree ["#@/command".toList, " # @exit 1 bad".toList] (by decide)
      (Or.inl closing)).2.2.2.1, earlier, ended⟩

end ScriptDoc
