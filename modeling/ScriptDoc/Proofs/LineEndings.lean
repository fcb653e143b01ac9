import Mathlib.Data.List.Forall2
import ScriptDoc.Cli.Render
import ScriptDoc.Proofs.Endings
import ScriptDoc.Proofs.Utf8

/-! Line endings make no difference. Wherever each carriage return is followed by a line feed, the
text, the text with line feeds alone, standard input and the lines with any endings all give one
document, and so does a text whose last line feed is missing. -/
namespace ScriptDoc

def Paired (t : Text) : Prop := ∀ i, t[i]? = some '\r' → t[i + 1]? = some '\n'

def joinPairs : Text → Text
  | [] => []
  | '\r' :: '\n' :: rest => '\n' :: joinPairs rest
  | c :: rest => c :: joinPairs rest

def bareLines (u : Text) : List Text :=
  if (Text.splitOn '\n' u).getLast? = some [] then (Text.splitOn '\n' u).dropLast
  else Text.splitOn '\n' u

def endings : List Text := [[], ['\n'], ['\r', '\n']]

def WithEnding (bare line : Text) : Prop := ∃ ending ∈ endings, line = bare ++ ending

theorem pairedNil : Paired [] := by simp [Paired]

theorem pairedCons {c : Char} {t : Text} :
    Paired (c :: t) ↔ (c = '\r' → t.head? = some '\n') ∧ Paired t := by
  rw [List.head?_eq_getElem?]
  constructor
  · intro paired
    exact ⟨fun same => paired 0 (by simpa using same),
      fun i found => paired (i + 1) (by simpa using found)⟩
  · rintro ⟨first, later⟩ i found
    cases i with
    | zero => exact first (by simpa using found)
    | succ i => exact later i (by simpa using found)

theorem lineInduction {motive : Text → Prop} (last : ∀ s, '\n' ∉ s → motive s)
    (next : ∀ line rest, '\n' ∉ line → motive rest → motive (line ++ '\n' :: rest)) (s : Text) :
    motive s := by
  by_cases feed : '\n' ∈ s
  · obtain ⟨line, rest, rfl, plain⟩ := List.eq_append_cons_of_mem feed
    exact next line rest plain (lineInduction last next rest)
  · exact last s feed
termination_by s.length
decreasing_by all_goals grind

section Lines
variable {line : Text}

theorem linesLast (plain : '\n' ∉ line) (content : line ≠ []) : Text.lines line = [line] := by
  induction line with
  | nil => exact absurd rfl content
  | cons c rest ih =>
    obtain ⟨other, later⟩ := List.ne_and_not_mem_of_not_mem_cons plain
    rw [Text.lines, if_neg (Ne.symm other)]
    cases rest with
    | nil => rfl
    | cons d rest => rw [ih later (by simp)]

theorem linesNext (plain : '\n' ∉ line) (rest : Text) :
    Text.lines (line ++ '\n' :: rest) = (line ++ ['\n']) :: Text.lines rest := by
  induction line with
  | nil => simp [Text.lines]
  | cons c line ih =>
    obtain ⟨other, later⟩ := List.ne_and_not_mem_of_not_mem_cons plain
    rw [List.cons_append, Text.lines, if_neg (Ne.symm other), ih later, List.cons_append]

theorem bareLinesLast (plain : '\n' ∉ line) (content : line ≠ []) : bareLines line = [line] := by
  rw [bareLines, Text.splitOnWhole plain, if_neg (by simpa using content)]

theorem bareLinesNext (plain : '\n' ∉ line) (rest : Text) :
    bareLines (line ++ '\n' :: rest) = line :: bareLines rest := by
  have pieces : Text.splitOn '\n' rest ≠ [] := by
    cases rest with
    | nil => simp [Text.splitOn]
    | cons c rest =>
      rw [Text.splitOn]
      split
      · simp
      · split <;> simp
  rw [bareLines, bareLines, Text.splitOnFirst plain, List.getLast?_cons_of_ne_nil pieces,
    List.dropLast_cons_of_ne_nil pieces]
  split <;> rfl

theorem dropLineFeed (ended : line.getLast? ≠ some '\n') :
    dropLineEnd (line ++ ['\n']) = dropLineEnd line := by
  simp [dropLineEnd, ended]

theorem dropEnding (bare : '\n' ∉ line ∧ '\r' ∉ line) (ending : Text)
    (known : ending ∈ ['\r'] :: endings) : dropLineEnd (line ++ ending) = line := by
  have feed : line.getLast? ≠ some '\n' := fun last => bare.1 (List.mem_of_getLast? last)
  have ret : line.getLast? ≠ some '\r' := fun last => bare.2 (List.mem_of_getLast? last)
  simp only [endings, List.mem_cons, List.not_mem_nil, or_false] at known
  rcases known with rfl | rfl | rfl | rfl <;> simp [dropLineEnd, feed, ret]

theorem dropBare (bare : '\n' ∉ line ∧ '\r' ∉ line) : dropLineEnd line = line := by
  simpa using dropEnding bare [] (by simp [endings])

end Lines

theorem linesBare (s : Text) : (Text.lines s).map dropLineEnd = (bareLines s).map dropLineEnd := by
  induction s using lineInduction with
  | last s plain =>
    by_cases content : s = []
    · subst content
      rfl
    · rw [linesLast plain content, bareLinesLast plain content]
  | next line rest plain ih =>
    have ended : line.getLast? ≠ some '\n' := fun last => plain (List.mem_of_getLast? last)
    rw [linesNext plain, bareLinesNext plain, List.map_cons, List.map_cons, dropLineFeed ended, ih]

theorem bareLinesEnded {s : Text} (content : s ≠ []) (unended : s.getLast? ≠ some '\n') :
    bareLines (s ++ ['\n']) = bareLines s := by
  induction s using lineInduction with
  | last s plain =>
    rw [bareLinesNext plain, bareLinesLast plain content]
    rfl
  | next line rest plain ih =>
    have more : rest ≠ [] := by
      rintro rfl
      simp at unended
    rw [List.getLast?_append_of_ne_nil _ (by simp), List.getLast?_cons_of_ne_nil more] at unended
    rw [List.append_assoc, List.cons_append, bareLinesNext plain, bareLinesNext plain,
      ih more unended]

theorem pairedLine {line rest : Text} (plain : '\n' ∉ line)
    (paired : Paired (line ++ '\n' :: rest)) :
    Paired rest ∧ ∃ body, ('\n' ∉ body ∧ '\r' ∉ body) ∧ (line = body ∨ line = body ++ ['\r']) := by
  induction line with
  | nil => exact ⟨(pairedCons.mp paired).2, [], by simp, Or.inl rfl⟩
  | cons c line ih =>
    obtain ⟨other, later⟩ := List.ne_and_not_mem_of_not_mem_cons plain
    obtain ⟨first, pairedLater⟩ := pairedCons.mp paired
    obtain ⟨pairedRest, body, bare, ends⟩ := ih later pairedLater
    refine ⟨pairedRest, ?_⟩
    by_cases ret : c = '\r'
    · subst ret
      cases line with
      | nil => exact ⟨[], by simp, Or.inr rfl⟩
      | cons d line => simp_all
    · refine ⟨c :: body, ?_, ?_⟩
      · simp [bare, other, Ne.symm ret]
      · rcases ends with rfl | rfl <;> simp

theorem pairedLast {s : Text} (plain : '\n' ∉ s) (paired : Paired s) : '\r' ∉ s := by
  intro ret
  obtain ⟨i, found⟩ := List.mem_iff_getElem?.mp ret
  exact plain (List.mem_of_getElem? (paired i found))

theorem joinPairsPlain {body : Text} (plain : '\r' ∉ body) (rest : Text) :
    joinPairs (body ++ rest) = body ++ joinPairs rest := by
  induction body with
  | nil => rfl
  | cons c body ih =>
    obtain ⟨other, later⟩ := List.ne_and_not_mem_of_not_mem_cons plain
    rw [List.cons_append, joinPairs, ih later, List.cons_append]
    intro rest same
    exact absurd same.symm other

theorem joinPairsBare {t : Text} (paired : Paired t) :
    (bareLines t).map dropLineEnd = bareLines (joinPairs t) ∧
      ∀ line ∈ bareLines (joinPairs t), '\n' ∉ line ∧ '\r' ∉ line := by
  induction t using lineInduction with
  | last s plain =>
    have bare : '\n' ∉ s ∧ '\r' ∉ s := ⟨plain, pairedLast plain paired⟩
    have kept : joinPairs s = s := by simpa [joinPairs] using joinPairsPlain bare.2 []
    rw [kept]
    by_cases content : s = []
    · subst content
      simp [bareLines, Text.splitOn]
    · simp [bareLinesLast plain content, dropBare bare, bare]
  | next line rest plain ih =>
    obtain ⟨pairedRest, body, bare, ends⟩ := pairedLine plain paired
    obtain ⟨same, later⟩ := ih pairedRest
    have first : dropLineEnd line = body := by
      rcases ends with rfl | rfl
      · exact dropBare bare
      · exact dropEnding bare ['\r'] (by simp)
    have joined : joinPairs (line ++ '\n' :: rest) = body ++ '\n' :: joinPairs rest := by
      rcases ends with rfl | rfl
      · rw [joinPairsPlain bare.2]
        rfl
      · rw [List.append_assoc, joinPairsPlain bare.2]
        rfl
    rw [joined, bareLinesNext plain, bareLinesNext bare.1, List.map_cons, first, same]
    exact ⟨rfl, List.forall_mem_cons.mpr ⟨bare, later⟩⟩

theorem unifyPaired {t : Text} (paired : Paired t) : Text.unifyNewlines t = joinPairs t := by
  induction t using joinPairs.induct with
  | case1 => rfl
  | case2 rest ih =>
    have later := (pairedCons.mp (pairedCons.mp paired).2).2
    rw [Text.unifyNewlines, joinPairs, ih later]
  | case3 c rest lone ih =>
    obtain ⟨first, later⟩ := pairedCons.mp paired
    have other : c ≠ '\r' := by
      intro ret
      obtain ⟨more, rfl⟩ := List.head?_eq_some_iff.mp (first ret)
      exact lone more ret rfl
    rw [Text.unifyNewlines, joinPairs, ih later]
    · exact lone
    · exact fun _ ret => absurd ret other
    · exact fun ret => absurd ret other

theorem ofLinesStripped {xs ys : List Text} (same : xs.map dropLineEnd = ys.map dropLineEnd) :
    Document.ofLines xs = Document.ofLines ys := by
  rw [Document.ofLines, Document.ofLines, readFromPlain, readFromPlain, same]

theorem endedStripped {bare lines : List Text} (plain : ∀ s ∈ bare, '\n' ∉ s ∧ '\r' ∉ s)
    (ended : List.Forall₂ WithEnding bare lines) : lines.map dropLineEnd = bare := by
  induction ended with
  | nil => rfl
  | cons first _ ih =>
    obtain ⟨ending, known, rfl⟩ := first
    obtain ⟨here, later⟩ := List.forall_mem_cons.mp plain
    rw [List.map_cons, dropEnding here ending (List.mem_cons_of_mem _ known), ih later]

theorem lineEndingsAgree {t : Text} (paired : Paired t) :
    Document.ofText t = Document.ofText (joinPairs t) ∧
    readStdin (t.flatMap String.utf8EncodeChar) = .ok (Document.ofText (joinPairs t)) ∧
    (∀ lines, List.Forall₂ WithEnding (bareLines (joinPairs t)) lines →
      Document.ofLines lines = Document.ofText (joinPairs t)) ∧
    ∀ s, s ≠ [] → s.getLast? ≠ some '\n' → Document.ofText (s ++ ['\n']) = Document.ofText s := by
  obtain ⟨stripped, bare⟩ := joinPairsBare paired
  have whole : (bareLines (joinPairs t)).map dropLineEnd = bareLines (joinPairs t) := by
    rw [List.map_congr_left (fun line member => dropBare (bare line member)), List.map_id']
  refine ⟨?_, ?_, ?_, ?_⟩
  · exact ofLinesStripped (by rw [linesBare, linesBare, stripped, whole])
  · simp only [readStdin, Utf8.text, Utf8.decodeStandard, Except.mapError, unifyPaired paired]
  · intro lines ended
    exact ofLinesStripped (by rw [linesBare, whole, endedStripped bare ended])
  · intro s content unended
    exact ofLinesStripped (by rw [linesBare, linesBare, bareLinesEnded content unended])

theorem lineEndingsAgreeForCommand :
    Paired "#@/command\r\n # @flag -v\n ##\r\nf()\r\n".toList ∧
    Document.ofText "#@/command\r\n # @flag -v\n ##\r\nf()\r\n".toList =
      Document.ofText "#@/command\n # @flag -v\n ##\nf()\n".toList ∧
    Document.ofLines ["#@/command\n".toList, " # @flag -v".toList, " ##\r\n".toList, "f()".toList] =
      Document.ofText "#@/command\n # @flag -v\n ##\nf()\n".toList := by
  have paired : Paired "#@/command\r\n # @flag -v\n ##\r\nf()\r\n".toList := by
    simp [pairedCons, pairedNil]
  have agree := lineEndingsAgree paired
  refine ⟨paired, agree.1, agree.2.2.1 _ ?_⟩
  simp [bareLines, joinPairs, Text.splitOn, WithEnding, endings]

end ScriptDoc
