import ScriptDoc.Proofs.TagText

/-! The parts of a tag line. Blanks around the name and the text of a tag say nothing, wherever the line
has them. The spellings at the start of a text are read in rounds, one spelling and the bar behind it in
each: every reading ends, however many spellings there are, and what is left is an end of the text. -/
namespace ScriptDoc

namespace Text

def Blanks (s : Text) : Prop := ∀ c ∈ s, isBlank c = true

instance (s : Text) : Decidable (Blanks s) :=
  decidable_of_iff (s.all isBlank = true) List.all_eq_true

structure Gap (s : Text) : Prop where
  blank : Blanks s
  plain : '\n' ∉ s

instance (s : Text) : Decidable (Gap s) :=
  decidable_of_iff (Blanks s ∧ '\n' ∉ s) ⟨fun both => ⟨both.1, both.2⟩, fun gap => ⟨gap.1, gap.2⟩⟩

theorem trimPadded {left right : Text} (s : Text) (before : Blanks left) (behind : Blanks right) :
    trim (left ++ s ++ right) = trim s := by
  rw [trimBlanksBehind _ behind, trim, trimLeftOfBlanks before, trim]

end Text

def Draft.tagged (draft : Draft) (name text : Text) (line : Int) (d : Document) : State × Document :=
  let settled := { draft.settle with inTags := true }
  match Record.read name text line with
  | .ok record => (.block { settled with pending := some record }, d)
  | .error e => (.block settled, d.warn line e.message)

section Line
variable {name s : Text} (solid : ∀ c ∈ name, isBlank c = false)
  (ended : ∀ c, s.head? = some c → isTokenEnd c = true)
include solid ended

theorem splitTagNamed : splitTag? ('@' :: (name ++ s)) = some (name, Text.trim s) := by
  have word : Text.Word ('@' :: name) :=
    ⟨List.cons_ne_nil _ _, List.forall_mem_cons.mpr ⟨by decide, solid⟩⟩
  obtain ⟨token, rest⟩ := firstTokenWord word ended
  obtain ⟨tail, trimmed⟩ := Text.trimCons (name ++ s) (c := '@') (by decide)
  rw [List.cons_append, firstToken, trimmed, splitToken, if_neg (by decide)] at token rest
  rw [splitTag?, trimmed]
  exact congrArg some (Prod.ext (List.cons.inj token).2 rest)

theorem tagContentReads {before : Text} (blank : Text.Blanks before) (draft : Draft) (line : Int)
    (d : Document) :
    stepContent draft (before ++ '@' :: (name ++ s)) line d =
      draft.tagged name (Text.trim s) line d := by
  have split : splitTag? (before ++ '@' :: (name ++ s)) = some (name, Text.trim s) := by
    rw [← splitTagNamed solid ended]
    unfold splitTag?
    rw [Text.trim, Text.trimLeftOfBlanks blank, ← Text.trim]
  simp only [stepContent, split]
  rfl

theorem tagLineReads {before : Text} (gap : Text.Gap before) (plain : '\n' ∉ name ++ s)
    (draft : Draft) (line : Int) (d : Document) :
    stepBlock draft (' ' :: '#' :: (before ++ '@' :: (name ++ s))) line d =
      draft.tagged name (Text.trim s) line d := by
  have plainLine : '\n' ∉ ' ' :: '#' :: (before ++ '@' :: (name ++ s)) := by
    have parts : '\n' ∉ name ∧ '\n' ∉ s := by simpa using plain
    simp [gap.plain, parts]
  have unclosed : isClose (' ' :: '#' :: (before ++ '@' :: (name ++ s))) = false := by
    cases before with
    | nil => rfl
    | cons c rest =>
      have other : c ≠ '#' := by
        rintro rfl
        exact absurd (gap.blank '#' List.mem_cons_self) (by decide)
      simp [isClose, other]
  rw [stepBlock, unclosed, if_neg Bool.false_ne_true]
  by_cases spaced : before.head? = some ' '
  · obtain ⟨rest, rfl⟩ := List.head?_eq_some_iff.mp spaced
    have blank : Text.Blanks rest := fun c member => gap.blank c (List.mem_cons_of_mem _ member)
    rw [continuationReads plainLine (Or.inl rfl)]
    exact tagContentReads solid ended blank draft line d
  · have unspaced : (before ++ '@' :: (name ++ s)).head? ≠ some ' ' := by
      cases before with
      | nil => simp
      | cons c rest => simpa using spaced
    rw [continuationReads plainLine (Or.inr ⟨rfl, unspaced⟩)]
    exact tagContentReads solid ended gap.blank draft line d

end Line

theorem tagLineBlanksIgnored (draft : Draft) (d : Document) (line : Int)
    {name text before between behind : Text} (solid : ∀ c ∈ name, isBlank c = false)
    (plain : '\n' ∉ text) (gapBefore : before.Gap) (gapBetween : between.Gap)
    (apart : ∃ c, between.head? = some c ∧ isTokenEnd c = true) (gapBehind : behind.Gap) :
    stepBlock draft (" #" ++ before ++ "@" ++ name ++ between ++ text ++ behind) line d =
      stepBlock draft (" # @" ++ name ++ " " ++ text) line d ∧
    stepBlock draft (" # @" ++ name ++ " " ++ text) line d =
      draft.tagged name (Text.trim text) line d := by
  have plainName : '\n' ∉ name := fun member => absurd (solid _ member) (by decide)
  have bare : stepBlock draft (" # @" ++ name ++ " " ++ text) line d =
      draft.tagged name (Text.trim text) line d := by
    have gap : Text.Gap [' '] := by decide
    have ended : ∀ c, (' ' :: text).head? = some c → isTokenEnd c = true := by simp [isTokenEnd]
    have read := tagLineReads solid ended gap (by simp [plainName, plain]) draft line d
    have nothing : Text.Blanks [] := by decide
    have trimmed := Text.trimPadded text gap.blank nothing
    rw [List.append_nil, List.singleton_append] at trimmed
    rw [trimmed] at read
    simpa using read
  refine ⟨Eq.trans ?_ bare.symm, bare⟩
  have ended : ∀ c, (between ++ text ++ behind).head? = some c → isTokenEnd c = true := by
    obtain ⟨first, head, ends⟩ := apart
    intro c found
    rw [List.append_assoc, List.head?_append, head] at found
    cases Option.some.inj found
    exact ends
  have plainRest : '\n' ∉ name ++ (between ++ text ++ behind) := by
    simp [plainName, plain, gapBetween.plain, gapBehind.plain]
  have read := tagLineReads solid ended gapBefore plainRest draft line d
  rw [Text.trimPadded text gapBetween.blank gapBehind.blank] at read
  simpa using read

theorem tagLineBlanksIgnoredForFault :
    (∀ c ∈ "option".toList, isBlank c = false) ∧ '\n' ∉ "-o  <x".toList ∧
    Text.Gap "\t\x0b" ∧ Text.Gap "\t\u00a0 " ∧ Text.Gap "\u2003\r" ∧
    stepBlock { block := {} }
        (" #" ++ "\t\x0b" ++ "@" ++ "option" ++ "\t\u00a0 " ++ "-o  <x" ++ "\u2003\r") 7 {} =
      (.block { block := {}, inTags := true },
        { warnings := [⟨7, "@option value: invalid value notation: '<x'"⟩] }) := by
  have solid : ∀ c ∈ "option".toList, isBlank c = false := by simp [isBlank, isAsciiBlank]
  have plain : '\n' ∉ "-o  <x".toList := by decide
  have before : Text.Gap "\t\x0b" := by decide
  have between : Text.Gap "\t\u00a0 " := by decide
  have behind : Text.Gap "\u2003\r" := by decide
  have same := tagLineBlanksIgnored { block := {} } {} 7 solid plain before between
    ⟨'\t', rfl, rfl⟩ behind
  exact ⟨solid, plain, before, between, behind, same.1.trans (same.2.trans (by decide +kernel))⟩

structure Spelling where
  text : Text
  word : Text.Word text
  dash : ['-'] <+: text

structure Bar where
  before : Text
  after : Text
  ends : ∃ c, before.head? = some c ∧ isTokenEnd c = true
  blankBefore : before.Blanks
  blankAfter : after.Blanks

def Bar.text (bar : Bar) : Text := bar.before ++ '|' :: bar.after

structure SpellingList where
  first : Spelling
  others : List (Bar × Spelling)

namespace SpellingList

def text (l : SpellingList) : Text :=
  l.first.text ++ l.others.flatMap fun entry => entry.1.text ++ entry.2.text

def spellings (l : SpellingList) : List Text :=
  l.first.text :: l.others.map fun entry => entry.2.text

end SpellingList

def lastShort? (spellings : List Text) : Option Text :=
  (spellings.filter fun s => ¬ ['-', '-'] <+: s).getLast?

def lastLong? (spellings : List Text) : Option Text :=
  (spellings.filter fun s => ['-', '-'] <+: s).getLast?

theorem lastKept (p : Text → Bool) (s : Text) (more : List Text) (other : Option Text) :
    ((s :: more).filter p).getLast?.or other =
      (more.filter p).getLast?.or (if p s then some s else other) := by
  cases kept : p s with
  | false => simp [kept]
  | true =>
    rw [List.filter_cons_of_pos kept, List.getLast?_cons]
    cases (more.filter p).getLast? with
    | none => rfl
    | some last => rfl

theorem longExact (s : Text) : isLongSpelling s = decide (['-', '-'] <+: s) := by
  rw [Bool.eq_iff_iff, isLongSpelling, List.isPrefixOf_iff_prefix, decide_eq_true_iff]

theorem lastShortCons (s : Text) (more : List Text) (short : Option Text) :
    (lastShort? (s :: more)).or short =
      (lastShort? more).or (if isLongSpelling s then short else some s) := by
  rw [lastShort?, lastKept, ← lastShort?, longExact]
  by_cases double : ['-', '-'] <+: s
  · simp [double]
  · simp [double]

theorem lastLongCons (s : Text) (more : List Text) (long : Option Text) :
    (lastLong? (s :: more)).or long =
      (lastLong? more).or (if isLongSpelling s then some s else long) := by
  rw [lastLong?, lastKept, ← lastLong?, longExact]

theorem takeSpellingsList (short long : Option Text) (first : Spelling)
    (others : List (Bar × Spelling)) {r : Text} (trimmed : r.Trimmed)
    (unbarred : r.head? ≠ some '|') :
    takeSpellings short long (Text.trim (SpellingList.text ⟨first, others⟩ ++ r.apart)) =
      ⟨(lastShort? (SpellingList.spellings ⟨first, others⟩)).or short,
        (lastLong? (SpellingList.spellings ⟨first, others⟩)).or long, r⟩ := by
  induction others generalizing short long first with
  | nil =>
    simp only [SpellingList.text, SpellingList.spellings, List.flatMap_nil, List.append_nil,
      List.map_nil]
    rw [takeSpellingsTrimmed short long first.word first.dash Text.apartEnds,
      Text.trimApart trimmed, afterSpelling, if_neg unbarred, lastShortCons, lastLongCons]
    rfl
  | cons entry rest ih =>
    obtain ⟨bar, next⟩ := entry
    have whole : SpellingList.text ⟨first, (bar, next) :: rest⟩ ++ r.apart =
        first.text ++ (bar.before ++ '|' :: (bar.after ++
          (SpellingList.text ⟨next, rest⟩ ++ r.apart))) := by
      simp [SpellingList.text, Bar.text]
    have ended : ∀ c, (bar.before ++ '|' :: (bar.after ++
        (SpellingList.text ⟨next, rest⟩ ++ r.apart))).head? = some c → isTokenEnd c = true := by
      obtain ⟨d, head, ends⟩ := bar.ends
      intro c found
      rw [List.head?_append, head] at found
      cases Option.some.inj found
      exact ends
    rw [whole, takeSpellingsTrimmed short long first.word first.dash ended,
      afterBar _ _ _ bar.blankBefore, Text.trim, Text.trimLeftOfBlanks bar.blankAfter, ← Text.trim,
      ih]
    simp only [SpellingList.spellings, List.map_cons]
    rw [lastShortCons first.text, lastLongCons first.text]

/- The rounds in which the spellings of a trimmed text are read. A round takes the text up to a space, a
tab or the end, and a bar behind it asks for another round. -/
inductive Rounds : Nat → Option Text → Option Text → Text → Spellings → Prop where
  | none {short long : Option Text} {s : Text} (undashed : s.head? ≠ some '-') :
      Rounds 0 short long s ⟨short, long, s⟩
  | last {short long : Option Text} {token rest : Text} (dash : ['-'] <+: token)
      (whole : ∀ c ∈ token, isTokenEnd c = false)
      (ended : ∀ c, rest.head? = some c → isTokenEnd c = true)
      (unbarred : (Text.trim rest).head? ≠ some '|') :
      Rounds 1 short long (token ++ rest)
        ⟨if ['-', '-'] <+: token then short else some token,
          if ['-', '-'] <+: token then some token else long, Text.trim rest⟩
  | more {n : Nat} {short long : Option Text} {token rest more : Text} {found : Spellings}
      (dash : ['-'] <+: token) (whole : ∀ c ∈ token, isTokenEnd c = false)
      (ended : ∀ c, rest.head? = some c → isTokenEnd c = true)
      (barred : Text.trim rest = '|' :: more)
      (next : Rounds n (if ['-', '-'] <+: token then short else some token)
        (if ['-', '-'] <+: token then some token else long) (Text.trim more) found) :
      Rounds (n + 1) short long (token ++ rest) found

theorem splitTokenWhole {token : Text} (whole : ∀ c ∈ token, isTokenEnd c = false) (rest : Text)
    (ended : ∀ c, rest.head? = some c → isTokenEnd c = true) :
    splitToken (token ++ rest) = (token, rest.tail) := by
  induction token with
  | nil =>
    cases rest with
    | nil => rfl
    | cons c tail => rw [List.nil_append, splitToken, if_pos (ended c rfl), List.tail_cons]
  | cons c more ih =>
    have later := ih fun d member => whole d (List.mem_cons_of_mem _ member)
    rw [List.cons_append, splitToken, if_neg (by simp [whole c List.mem_cons_self]), later]

section Token
variable {token rest : Text} (trimmed : Text.Trimmed (token ++ rest))
  (whole : ∀ c ∈ token, isTokenEnd c = false)
  (ended : ∀ c, rest.head? = some c → isTokenEnd c = true)
include trimmed whole ended

theorem firstTokenWhole : (firstToken (token ++ rest)).1 = token ∧
    Text.trim (firstToken (token ++ rest)).2 = Text.trim rest := by
  rw [firstToken, trimmed, splitTokenWhole whole rest ended]
  refine ⟨rfl, ?_⟩
  cases rest with
  | nil => rfl
  | cons c tail =>
    have blank : Text.Blanks [c] := by simpa [Text.Blanks] using tokenEndBlank (ended c rfl)
    rw [List.tail_cons, ← List.singleton_append, Text.trim, Text.trim, Text.trimLeftOfBlanks blank]

theorem takeSpellingsWhole (short long : Option Text) (dash : ['-'] <+: token) :
    takeSpellings short long (token ++ rest) =
      afterSpelling (if ['-', '-'] <+: token then short else some token)
        (if ['-', '-'] <+: token then some token else long) (Text.trim rest) := by
  obtain ⟨first, after⟩ := firstTokenWhole trimmed whole ended
  obtain ⟨tail, rfl⟩ := dash
  rw [List.singleton_append, List.cons_append] at first after ⊢
  rw [takeSpellingsDashed, first, after]
  simp only [longExact, decide_eq_true_iff]

end Token

theorem roundsRead {n : Nat} {short long : Option Text} {s : Text} {found : Spellings}
    (rounds : Rounds n short long s found) (trimmed : s.Trimmed) :
    found = takeSpellings short long s := by
  induction rounds with
  | none undashed =>
    exact (takeSpellingsNone _ _ fun tail same => undashed (by rw [same]; rfl)).symm
  | last dash whole ended unbarred =>
    rw [takeSpellingsWhole trimmed whole ended _ _ dash, afterSpelling, if_neg unbarred]
  | more dash whole ended barred next ih =>
    rw [takeSpellingsWhole trimmed whole ended _ _ dash, afterSpelling, barred, List.head?_cons,
      if_pos rfl, List.tail_cons]
    exact ih (Text.trimTrimmed _)

theorem dashedSplits {s : Text} (dashed : s.head? = some '-') :
    ∃ token rest, s = token ++ rest ∧ ['-'] <+: token ∧ (∀ c ∈ token, isTokenEnd c = false) ∧
      ∀ c, rest.head? = some c → isTokenEnd c = true := by
  obtain ⟨token, rest, rfl, whole, ended, -, -⟩ := Text.runSplits (fun c => !isTokenEnd c) s
  simp only [Bool.not_eq_true', Bool.not_eq_false'] at whole ended
  refine ⟨token, rest, rfl, ?_, whole, ended⟩
  cases token with
  | nil => exact absurd (ended '-' dashed) (by decide)
  | cons c more =>
    cases Option.some.inj dashed
    exact ⟨more, rfl⟩

theorem roundsEnd (short long : Option Text) {s : Text} (trimmed : s.Trimmed) :
    ∃ n ≤ s.length, Rounds n short long s (takeSpellings short long s) := by
  induction size : s.length using Nat.strongRecOn generalizing short long s with
  | _ size ih =>
    subst size
    by_cases dashed : s.head? = some '-'
    · obtain ⟨token, rest, rfl, dash, whole, ended⟩ := dashedSplits dashed
      have filled : 0 < token.length := dash.length_le
      rw [takeSpellingsWhole trimmed whole ended short long dash, List.length_append]
      by_cases barred : (Text.trim rest).head? = some '|'
      · obtain ⟨more, same⟩ := List.head?_eq_some_iff.mp barred
        have shorter : (Text.trim more).length < (token ++ rest).length := by
          have left := Text.trimShorter rest
          have after := Text.trimShorter more
          rw [same, List.length_cons] at left
          rw [List.length_append]
          omega
        obtain ⟨n, few, next⟩ := ih _ shorter (if ['-', '-'] <+: token then short else some token)
          (if ['-', '-'] <+: token then some token else long) (Text.trimTrimmed more) rfl
        refine ⟨n + 1, ?_, ?_⟩
        · rw [List.length_append] at shorter
          omega
        · rw [afterSpelling, if_pos barred, same, List.tail_cons]
          exact .more dash whole ended same next
      · refine ⟨1, by omega, ?_⟩
        rw [afterSpelling, if_neg barred]
        exact .last dash whole ended barred
    · refine ⟨0, Nat.zero_le _, ?_⟩
      rw [takeSpellingsNone short long fun tail same => dashed (by rw [same]; rfl)]
      exact .none dashed

theorem separatedSpellingsRead :
    (∀ (l : SpellingList) (left right r : Text), left.Blanks → right.Blanks → r.Trimmed →
      r.head? ≠ some '|' →
      spellings (left ++ (l.text ++ r.apart) ++ right) =
        ⟨lastShort? l.spellings, lastLong? l.spellings, r⟩) ∧
    ∀ s : Text,
      (∃ n ≤ (Text.trim s).length, Rounds n none none (Text.trim s) (spellings s)) ∧
      (∀ n found, Rounds n none none (Text.trim s) found → found = spellings s) ∧
      (spellings s).rest <:+ Text.trim s := by
  refine ⟨fun l left right r before behind trimmed unbarred => ?_, fun s => ⟨?_, ?_, ?_⟩⟩
  · rw [spellings, Text.trimPadded _ before behind]
    have read := takeSpellingsList none none l.first l.others trimmed unbarred
    simpa using read
  · exact roundsEnd none none (Text.trimTrimmed s)
  · exact fun n found rounds => roundsRead rounds (Text.trimTrimmed s)
  · exact takeSpellingsSuffix none none (Text.trimTrimmed s)

def threeSpellings : SpellingList where
  first := ⟨"--verbose", by decide, by decide⟩
  others := [
    (⟨" ", "", ⟨' ', rfl, rfl⟩, by decide, by decide⟩, ⟨"-v", by decide, by decide⟩),
    (⟨"\t\u00a0", "\n ", ⟨'\t', rfl, rfl⟩, by decide, by decide⟩, ⟨"-w|", by decide, by decide⟩)]

theorem separatedSpellingsReadForThree :
    Text.Blanks "\n" ∧ Text.Trimmed "--all | -x" ∧
    "\n" ++ (threeSpellings.text ++ Text.apart "--all | -x") ++ "\n" =
      "\n--verbose |-v\t\u00a0|\n -w| --all | -x\n".toList ∧
    spellings ("\n" ++ (threeSpellings.text ++ Text.apart "--all | -x") ++ "\n") =
      ⟨some "-w|", some "--verbose", "--all | -x"⟩ := by
  have blank : Text.Blanks "\n" := by decide
  have trimmed : Text.Trimmed "--all | -x" := by decide
  exact ⟨blank, trimmed, by decide,
    separatedSpellingsRead.1 threeSpellings _ _ _ blank blank trimmed (by decide)⟩

end ScriptDoc
