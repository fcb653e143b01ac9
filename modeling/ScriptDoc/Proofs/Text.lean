import Mathlib.Data.List.DropRight
import ScriptDoc.Text.Blank

/-! Laws of trimming, joining and splitting. A trimmed text is one whose two ends are no blanks;
trimming is the only way to cut blanks off both ends and be left with such a text. Reading a text that
is quoted takes marks out of it, and the last laws say what is known of the rest. -/
namespace ScriptDoc.Text

def Trimmed (s : Text) : Prop := trim s = s

instance (s : Text) : Decidable (Trimmed s) := inferInstanceAs (Decidable (trim s = s))

def SolidEnds (s : Text) : Prop :=
  (∀ c, s.head? = some c → isBlank c = false) ∧ (∀ c, s.getLast? = some c → isBlank c = false)

theorem trimLeftOfBlanks {blanks s : Text} (blank : ∀ c ∈ blanks, isBlank c) :
    trimLeft (blanks ++ s) = trimLeft s := by
  simp only [trimLeft, List.dropWhile_append_of_pos blank]

theorem trimLeftOfSolid {s : Text} (solid : ∀ c, s.head? = some c → isBlank c = false) :
    trimLeft s = s := by
  cases s with
  | nil => rfl
  | cons c rest => exact List.dropWhile_cons_of_neg (by simp [solid c rfl])

theorem trimRightOfSolid {s : Text} (solid : ∀ c, s.getLast? = some c → isBlank c = false) :
    trimRight s = s := by
  have reversed : trimLeft s.reverse = s.reverse :=
    trimLeftOfSolid (by simpa only [List.head?_reverse] using solid)
  have back := congrArg List.reverse reversed
  simpa only [trimRight, trimLeft, List.reverse_reverse] using back

theorem trimOfSolidEnds {s : Text} (solid : SolidEnds s) : Trimmed s := by
  unfold Trimmed trim
  rw [trimLeftOfSolid solid.1, trimRightOfSolid solid.2]

theorem trimSplits (s : Text) : ∃ left right, s = left ++ trim s ++ right ∧
    (∀ c ∈ left, isBlank c) ∧ (∀ c ∈ right, isBlank c) := by
  refine ⟨s.takeWhile isBlank, (trimLeft s).rtakeWhile isBlank, ?_, ?_, ?_⟩
  · have right : trim s ++ (trimLeft s).rtakeWhile isBlank = trimLeft s :=
      List.rdropWhile_append_rtakeWhile
    rw [List.append_assoc, right]
    exact List.takeWhile_append_dropWhile.symm
  · intro c member
    exact List.mem_takeWhile_imp member
  · intro c member
    exact List.mem_rtakeWhile_imp member

theorem trimLeftHead {s : Text} {c : Char} (head : (trimLeft s).head? = some c) :
    isBlank c = false := by
  have stop := List.head?_dropWhile_not isBlank s
  rw [trimLeft] at head
  simpa only [head] using stop

theorem trimLast {s : Text} {c : Char} (last : (trimRight s).getLast? = some c) :
    isBlank c = false := by
  have head : (trimLeft s.reverse).head? = some c := by
    simpa only [trimRight, trimLeft, List.getLast?_reverse] using last
  exact trimLeftHead head

theorem trimRightHead {s : Text} {c : Char} (head : (trimRight s).head? = some c) :
    s.head? = some c := by
  obtain ⟨rest, same⟩ := List.rdropWhile_prefix isBlank (l := s)
  have written : trimRight s ++ rest = s := same
  rw [← written, List.head?_append, head]
  rfl

theorem trimSolidEnds (s : Text) : SolidEnds (trim s) :=
  ⟨fun _ head => trimLeftHead (trimRightHead head), fun _ last => trimLast last⟩

theorem trimTrimmed (s : Text) : Trimmed (trim s) := trimOfSolidEnds (trimSolidEnds s)

theorem trimmedIff {s : Text} : Trimmed s ↔ SolidEnds s := by
  constructor
  · intro trimmed
    have ends := trimSolidEnds s
    rwa [trimmed] at ends
  · exact trimOfSolidEnds

theorem trimCons {c : Char} (tail : Text) (solid : isBlank c = false) :
    ∃ rest, trim (c :: tail) = c :: rest := by
  cases trimmed : trim (c :: tail) with
  | nil =>
    obtain ⟨left, right, same, before, after⟩ := trimSplits (c :: tail)
    rw [trimmed, List.append_nil] at same
    have member : c ∈ left ++ right := by rw [← same]; exact List.mem_cons_self
    rcases List.mem_append.mp member with first | second
    · exact absurd (before c first) (by simp [solid])
    · exact absurd (after c second) (by simp [solid])
  | cons d rest =>
    have head : (trimLeft (c :: tail)).head? = some d := by
      apply trimRightHead
      rw [← trim, trimmed]
      rfl
    rw [trimLeftOfSolid (by intro e same; cases Option.some.inj same; exact solid)] at head
    cases Option.some.inj head
    exact ⟨rest, rfl⟩

theorem memTrim {s : Text} {c : Char} (member : c ∈ trim s) : c ∈ s := by
  obtain ⟨left, right, same, _, _⟩ := trimSplits s
  rw [same]
  exact List.mem_append_left _ (List.mem_append_right _ member)

theorem cutAbsent {separator : Char} {s : Text} (absent : separator ∉ s) :
    cut separator s = (s, none) := by
  induction s with
  | nil => rfl
  | cons c rest ih =>
    obtain ⟨different, later⟩ := List.ne_and_not_mem_of_not_mem_cons absent
    simp only [cut, if_neg (Ne.symm different), ih later]

theorem cutFirst {separator : Char} {before : Text} (absent : separator ∉ before) (after : Text) :
    cut separator (before ++ separator :: after) = (before, some after) := by
  induction before with
  | nil => simp [cut]
  | cons c rest ih =>
    obtain ⟨different, later⟩ := List.ne_and_not_mem_of_not_mem_cons absent
    simp only [List.cons_append, cut, if_neg (Ne.symm different), ih later]

theorem cutCases (separator : Char) (s : Text) :
    (separator ∉ s ∧ cut separator s = (s, none)) ∨
    ∃ before after, separator ∉ before ∧ s = before ++ separator :: after ∧
      cut separator s = (before, some after) := by
  by_cases member : separator ∈ s
  · obtain ⟨before, after, same, absent⟩ := List.eq_append_cons_of_mem member
    subst same
    exact Or.inr ⟨before, after, absent, rfl, cutFirst absent after⟩
  · exact Or.inl ⟨member, cutAbsent member⟩

theorem takeRun {p : Char → Bool} {run rest : Text} (inside : ∀ c ∈ run, p c = true)
    (stop : ∀ c, rest.head? = some c → p c = false) : (run ++ rest).takeWhile p = run := by
  rw [List.takeWhile_append_of_pos inside]
  cases rest with
  | nil => simp
  | cons c tail => simp [stop c rfl]

theorem dropRun {p : Char → Bool} {run rest : Text} (inside : ∀ c ∈ run, p c = true)
    (stop : ∀ c, rest.head? = some c → p c = false) : (run ++ rest).dropWhile p = rest := by
  rw [List.dropWhile_append_of_pos inside]
  cases rest with
  | nil => rfl
  | cons c tail => simp [stop c rfl]

theorem runSplits (p : Char → Bool) (s : Text) : ∃ run rest, s = run ++ rest ∧
    (∀ c ∈ run, p c = true) ∧ (∀ c, rest.head? = some c → p c = false) ∧
    s.takeWhile p = run ∧ s.dropWhile p = rest := by
  refine ⟨s.takeWhile p, s.dropWhile p, List.takeWhile_append_dropWhile.symm,
    fun c member => List.mem_takeWhile_imp member, fun c head => ?_, rfl, rfl⟩
  have stop := List.head?_dropWhile_not p s
  simpa only [head] using stop

theorem asciiBlankIsBlank {c : Char} (blank : isAsciiBlank c = true) : isBlank c = true := by
  simp [isBlank, blank]

theorem wordCharCode {c : Char} (word : isWordChar c = true) : 48 ≤ c.toNat := by
  unfold isWordChar Char.isAlphanum Char.isAlpha Char.isUpper Char.isLower Char.isDigit at word
  simp only [Bool.or_eq_true, Bool.and_eq_true, decide_eq_true_eq] at word
  rcases word with ((upper | lower) | digit) | rfl
  · exact Nat.le_trans (by decide) (UInt32.le_iff_toNat_le.mp upper.1)
  · exact Nat.le_trans (by decide) (UInt32.le_iff_toNat_le.mp lower.1)
  · exact UInt32.le_iff_toNat_le.mp digit.1
  · decide

theorem asciiBlankCode {c : Char} (blank : isAsciiBlank c = true) : c.toNat ≤ 32 := by
  simp only [isAsciiBlank, Bool.or_eq_true, Bool.and_eq_true, decide_eq_true_eq] at blank
  rcases blank with rfl | ⟨_, high⟩
  · decide
  · exact Nat.le_trans (UInt32.le_iff_toNat_le.mp high) (by decide)

theorem asciiBlankNotWord {c : Char} (blank : isAsciiBlank c = true) : isWordChar c = false := by
  cases word : isWordChar c with
  | false => rfl
  | true =>
    have low := asciiBlankCode blank
    have high := wordCharCode word
    omega

theorem trimBlanksBefore {blanks : Text} (s : Text) (blank : ∀ c ∈ blanks, isAsciiBlank c = true) :
    trim (blanks ++ s) = trim s := by
  rw [trim, trimLeftOfBlanks (fun c member => asciiBlankIsBlank (blank c member)), trim]

theorem solidJoin {a b : Text} (between : Text) (filled : a ≠ []) (filled' : b ≠ [])
    (left : SolidEnds a) (right : SolidEnds b) : SolidEnds (a ++ between ++ b) := by
  constructor
  · intro c head
    obtain ⟨first, rest, rfl⟩ := List.exists_cons_of_ne_nil filled
    exact left.1 c (by simpa using head)
  · intro c last
    rw [List.getLast?_append_of_ne_nil _ filled'] at last
    exact right.2 c last

theorem joinCons (separator piece : Text) {pieces : List Text} (more : pieces ≠ []) :
    join separator (piece :: pieces) = piece ++ separator ++ join separator pieces := by
  cases pieces with
  | nil => contradiction
  | cons next rest => rfl

theorem joinSpread (separator first : Text) (rest : List Text) :
    join separator (first :: rest) = first ++ rest.flatMap fun piece => separator ++ piece := by
  induction rest generalizing first with
  | nil => exact (List.append_nil first).symm
  | cons next rest ih => rw [join, ih, List.flatMap_cons, List.append_assoc, List.append_assoc]

theorem joinSolid (separator : Text) {pieces : List Text} (some : pieces ≠ [])
    (solid : ∀ piece ∈ pieces, piece ≠ [] ∧ SolidEnds piece) :
    join separator pieces ≠ [] ∧ SolidEnds (join separator pieces) := by
  induction pieces with
  | nil => contradiction
  | cons piece rest ih =>
    obtain ⟨filled, ends⟩ := solid piece (by simp)
    by_cases more : rest = []
    · subst more
      exact ⟨filled, ends⟩
    · obtain ⟨filledRest, endsRest⟩ := ih more (fun p member => solid p (by simp [member]))
      rw [joinCons separator piece more]
      exact ⟨by simp [filled], solidJoin separator filled filledRest ends endsRest⟩

theorem pairCons {a b c : Char} {s : Text} :
    [a, b] <:+: c :: s ↔ (c = a ∧ s.head? = some b) ∨ [a, b] <:+: s := by
  rw [List.infix_cons_iff, List.cons_prefix_cons]
  cases s with
  | nil => simp
  | cons next rest => simp [eq_comm]

theorem memJoin {separator : Text} {pieces : List Text} {c : Char}
    (member : c ∈ join separator pieces) : c ∈ separator ∨ ∃ piece ∈ pieces, c ∈ piece := by
  induction pieces with
  | nil => contradiction
  | cons piece rest ih =>
    by_cases more : rest = []
    · subst more
      exact Or.inr ⟨piece, by simp, member⟩
    · rw [joinCons separator piece more, List.mem_append, List.mem_append] at member
      rcases member with (first | between) | later
      · exact Or.inr ⟨piece, by simp, first⟩
      · exact Or.inl between
      · rcases ih later with between | ⟨other, inside, found⟩
        · exact Or.inl between
        · exact Or.inr ⟨other, by simp [inside], found⟩

theorem splitOnWhole {separator : Char} {s : Text} (absent : separator ∉ s) :
    splitOn separator s = [s] := by
  induction s with
  | nil => rfl
  | cons c rest ih =>
    obtain ⟨different, later⟩ := List.ne_and_not_mem_of_not_mem_cons absent
    simp only [splitOn, if_neg (Ne.symm different), ih later]

theorem splitOnFirst {separator : Char} {before : Text} (absent : separator ∉ before)
    (after : Text) :
    splitOn separator (before ++ separator :: after) = before :: splitOn separator after := by
  induction before with
  | nil => simp [splitOn]
  | cons c rest ih =>
    obtain ⟨different, later⟩ := List.ne_and_not_mem_of_not_mem_cons absent
    simp only [List.cons_append, splitOn, if_neg (Ne.symm different), ih later]

theorem splitOnJoin {separator : Char} {pieces : List Text} (some : pieces ≠ [])
    (absent : ∀ piece ∈ pieces, separator ∉ piece) :
    splitOn separator (join [separator] pieces) = pieces := by
  induction pieces with
  | nil => contradiction
  | cons piece rest ih =>
    have first := absent piece (by simp)
    by_cases more : rest = []
    · subst more
      exact splitOnWhole first
    · rw [joinCons [separator] piece more, List.append_assoc, List.singleton_append,
        splitOnFirst first, ih more (fun p member => absent p (by simp [member]))]

structure Word (s : Text) : Prop where
  filled : s ≠ []
  solid : ∀ c ∈ s, isBlank c = false

instance (s : Text) : Decidable (Word s) :=
  decidable_of_iff (s ≠ [] ∧ s.all (fun c => !isBlank c) = true)
    ⟨fun word => ⟨word.1, by simpa using word.2⟩,
      fun word => ⟨word.filled, by simpa using word.solid⟩⟩

theorem wordEnds {s : Text} (word : Word s) : SolidEnds s :=
  ⟨fun c head => word.solid c (List.mem_of_head? head),
    fun c last => word.solid c (List.mem_of_getLast? last)⟩

theorem trimRightAppend {s : Text} (solid : ∀ c, s.getLast? = some c → isBlank c = false)
    (t : Text) : trimRight (s ++ t) = s ++ trimRight t := by
  rw [trimRight, List.reverse_append, List.dropWhile_append]
  split
  · rename_i blank
    have nothing : trimRight t = [] := by rw [trimRight, List.isEmpty_iff.mp blank]; rfl
    have kept : (s.reverse.dropWhile isBlank).reverse = s := trimRightOfSolid solid
    rw [nothing, kept, List.append_nil]
  · rw [List.reverse_append, List.reverse_reverse, trimRight]

theorem trimWord {w : Text} (word : Word w) (s : Text) : trim (w ++ s) = w ++ trimRight s := by
  obtain ⟨c, rest, rfl⟩ := List.exists_cons_of_ne_nil word.filled
  have left : trimLeft (c :: rest ++ s) = c :: rest ++ s := trimLeftOfSolid fun d head => by
    cases Option.some.inj head
    exact word.solid c List.mem_cons_self
  rw [trim, left, trimRightAppend (wordEnds word).2]

theorem trimBlanksBehind (s : Text) {blanks : Text} (blank : ∀ c ∈ blanks, isBlank c = true) :
    trim (s ++ blanks) = trim s := by
  have behind (t : Text) : trimRight (t ++ blanks) = trimRight t := by
    have front : ∀ c ∈ blanks.reverse, isBlank c = true := by simpa using blank
    rw [trimRight, List.reverse_append, List.dropWhile_append_of_pos front, trimRight]
  rw [trim, trimLeft, List.dropWhile_append]
  split
  · rename_i whole
    have nothing : blanks.dropWhile isBlank = [] := List.dropWhile_eq_nil_iff.mpr blank
    rw [nothing, trim, trimLeft, List.isEmpty_iff.mp whole]
  · rw [behind, trim, trimLeft]

theorem trimOfTrimRight (s : Text) : trim (trimRight s) = trim s := by
  have whole : trimRight s ++ s.rtakeWhile isBlank = s := List.rdropWhile_append_rtakeWhile
  have blank : ∀ c ∈ s.rtakeWhile isBlank, isBlank c = true := fun c member =>
    List.mem_rtakeWhile_imp member
  have behind := trimBlanksBehind (trimRight s) blank
  rwa [whole, eq_comm] at behind

theorem trimSuffix {s t : Text} (solid : ∀ c, t.getLast? = some c → isBlank c = false)
    (suffix : s <:+ t) : trim s <:+ t := by
  have left : trimLeft s <:+ t := (List.dropWhile_suffix _).trans suffix
  have kept : trimRight (trimLeft s) = trimLeft s := trimRightOfSolid fun c last => by
    obtain ⟨front, rfl⟩ := left
    refine solid c ?_
    rw [List.getLast?_append, last]
    rfl
  rw [trim, kept]
  exact left

structure Kept (isMark : Char → Bool) (s v : Text) : Prop where
  sublist : v.Sublist s
  count : ∀ c, isMark c = false → v.count c = s.count c

section Kept
variable {isMark : Char → Bool} {s t v w x y more : Text} {c : Char}

theorem keptSelf (s : Text) : Kept isMark s s := ⟨List.Sublist.refl s, fun _ _ => rfl⟩

theorem keptMark (mark : isMark c = true) : Kept isMark [c] [] := by
  refine ⟨List.nil_sublist _, fun d other => ?_⟩
  have different : c ≠ d := fun same => by rw [same, other] at mark; contradiction
  rw [List.count_nil, List.count_singleton, if_neg (by simpa using different)]

theorem keptAppend (front : Kept isMark s v) (back : Kept isMark t w) :
    Kept isMark (s ++ t) (v ++ w) := by
  refine ⟨front.sublist.append back.sublist, fun c other => ?_⟩
  rw [List.count_append, List.count_append, front.count c other, back.count c other]

theorem keptStops (other : isMark c = false) : ¬ Kept isMark (s ++ c :: more) s := by
  intro kept
  have same := kept.count c other
  rw [List.count_append, List.count_cons_self] at same
  omega

theorem keptFront (kept : Kept isMark s v) (other : isMark c = false)
    (same : v ++ c :: x = s ++ c :: y) : v = s := by
  rcases List.append_eq_append_iff.mp same with ⟨rest, longer, tail⟩ | ⟨rest, shorter, tail⟩
  · cases rest with
    | nil => rw [longer, List.append_nil]
    | cons d rest =>
      cases (List.cons.inj tail).1
      rw [longer] at kept
      exact absurd kept (keptStops other)
  · refine kept.sublist.eq_of_length_le ?_
    rw [shorter, List.length_append]
    exact Nat.le_add_right _ _

end Kept
end ScriptDoc.Text
