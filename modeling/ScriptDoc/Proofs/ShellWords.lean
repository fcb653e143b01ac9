import Mathlib.Data.List.Basic
import ScriptDoc.Text.Blank

/-! Commands as a shell reads them. White space outside of quotes separates the words of a command and
an operator ends it; quotes and the backslashes that mark a character are taken away. Where an expansion
begins there is no reading, since the text alone does not say what comes of it. What a word takes from
the text is at least as long as the word, and as long only if each character stands for itself. -/
namespace ScriptDoc

inductive Quote where
  | single
  | double
  deriving DecidableEq, Repr

def Quote.sign : Quote → Char
  | .single => '\''
  | .double => '"'

structure Mode where
  quote : Option Quote := none
  marked : Bool := false
  deriving DecidableEq, Repr

def isQuoting (c : Char) : Bool := c = '\'' || c = '"' || c = '\\'

def isOperator (c : Char) : Bool := ['|', '&', ';', '<', '>', '(', ')', '\n'].contains c

def patternSigns : Text := ['*', '?', '[', ']', '\x7b', '\x7d', '~', '^', '#', '!']

/- What the user's settings decide: which blanks besides the space are white space, and which signs are
pattern signs. -/
structure Conventions where
  isWhite : Char → Bool
  isPattern : Char → Bool
  space : isWhite ' ' = true
  blank : ∀ c, isWhite c = true → isBlank c = true
  signs : ∀ c, isPattern c = true → patternSigns.contains c = true

theorem Conventions.solid (w : Conventions) {c : Char} (solid : isBlank c = false) :
    w.isWhite c = false := by
  by_contra white
  have blank := w.blank c (by simpa using white)
  rw [solid] at blank
  contradiction

def isCalm (c : Char) : Bool := !(isQuoting c || patternSigns.contains c || c = '$' || c = '\x60')

def isOrdinary (c : Char) : Bool := isCalm c && !(isBlank c || isOperator c)

def heldBack : Option Quote → Text
  | none => []
  | some _ => ['\\']

def Mode.held (m : Mode) : Text := if m.marked then heldBack m.quote else []

def turned : Option Quote → Char → Option (Option Quote)
  | none, c => if c = '\'' then some (some .single) else if c = '"' then some (some .double) else none
  | some q, c => if c = q.sign then some none else none

/- What differs from shell to shell: the signs that begin an expansion, where a backslash is a mark, and
what it stands for with the character behind it. -/
structure Dialect where
  conventions : Conventions
  dollars : Text
  marks : Option Quote → Bool
  escaped : Option Quote → Char → Option Text
  dollarsKnown : ∀ c, dollars.contains c = true → c = '$' ∨ c = '\x60'
  marksBare : marks none = true
  escapedKept : ∀ q c t, escaped q c = some t → t.Sublist (heldBack q ++ [c])

namespace Dialect

def ends (d : Dialect) (c : Char) : Bool := d.conventions.isWhite c || isOperator c

def expands (d : Dialect) : Option Quote → Char → Bool
  | none, c => d.dollars.contains c || d.conventions.isPattern c
  | some .double, c => d.dollars.contains c
  | some .single, _ => false

def next (d : Dialect) (m : Mode) (c : Char) : Mode :=
  if m.marked then ⟨m.quote, false⟩
  else if c = '\\' ∧ d.marks m.quote = true then ⟨m.quote, true⟩
  else ⟨(turned m.quote c).getD m.quote, false⟩

def stands (d : Dialect) (m : Mode) (c : Char) : Option Text :=
  if m.marked then d.escaped m.quote c
  else if c = '\\' ∧ d.marks m.quote = true then some []
  else if (turned m.quote c).isSome then some []
  else if d.expands m.quote c then none
  else some [c]

def prepend (t : Text) (read : Text × Text) : Text × Text := (t ++ read.1, read.2)

def read (d : Dialect) (m : Mode) : Text → Option (Text × Text)
  | [] => if m = {} then some ([], []) else none
  | c :: rest =>
    if m = {} ∧ d.ends c = true then some ([], c :: rest)
    else (d.stands m c).bind fun t => (d.read (d.next m c) rest).map (prepend t)

def quiet (d : Dialect) (c : Char) : Bool := !isQuoting c && !d.expands none c

def plain (d : Dialect) (c : Char) : Bool := d.quiet c && !d.ends c

section Reading
variable (d : Dialect) {m : Mode} {c : Char} {s t v left rest used : Text}

theorem endsSpace : d.ends ' ' = true := by rw [ends, d.conventions.space, Bool.true_or]

theorem endsOperator (operator : isOperator c = true) : d.ends c = true := by
  rw [ends, operator, Bool.or_true]

theorem calmQuiet (calm : isCalm c = true) : d.quiet c = true := by
  simp only [isCalm, Bool.not_eq_true', Bool.or_eq_false_iff, decide_eq_false_iff_not] at calm
  obtain ⟨⟨⟨unquoting, unsigned⟩, dollar⟩, backtick⟩ := calm
  have dollars : d.dollars.contains c = false := by
    by_contra found
    rcases d.dollarsKnown c (by simpa using found) with same | same
    · exact dollar same
    · exact backtick same
  have pattern : d.conventions.isPattern c = false := by
    by_contra found
    have sign := d.conventions.signs c (by simpa using found)
    rw [unsigned] at sign
    contradiction
  rw [quiet, unquoting, expands, dollars, pattern]
  rfl

theorem ordinaryPlain (ordinary : isOrdinary c = true) : d.plain c = true := by
  simp only [isOrdinary, Bool.and_eq_true, Bool.not_eq_true', Bool.or_eq_false_iff] at ordinary
  obtain ⟨calm, solid, operator⟩ := ordinary
  rw [plain, d.calmQuiet calm, ends, d.conventions.solid solid, operator]
  rfl

theorem prepended {found : Option (Text × Text)} :
    found.map (prepend t) = some (v, left) ↔ ∃ tail, v = t ++ tail ∧ found = some (tail, left) := by
  rw [Option.map_eq_some_iff]
  constructor
  · rintro ⟨found, whole, same⟩
    obtain ⟨front, back⟩ := Prod.mk.inj same
    exact ⟨found.1, front.symm, by rw [whole, ← back]⟩
  · rintro ⟨tail, rfl, whole⟩
    exact ⟨_, whole, rfl⟩

theorem readStep (read : d.read m (c :: rest) = some (v, left)) :
    (m = {} ∧ d.ends c = true ∧ v = [] ∧ left = c :: rest) ∨
    ∃ t tail, ¬ (m = {} ∧ d.ends c = true) ∧ d.stands m c = some t ∧
      d.read (d.next m c) rest = some (tail, left) ∧ v = t ++ tail := by
  rw [Dialect.read] at read
  split at read
  · rename_i ended
    cases read
    exact Or.inl ⟨ended.1, ended.2, rfl, rfl⟩
  · rename_i inside
    obtain ⟨t, stands, read⟩ := Option.bind_eq_some_iff.mp read
    obtain ⟨tail, same, later⟩ := prepended.mp read
    exact Or.inr ⟨t, tail, inside, stands, later, same⟩

theorem standsCases (stands : d.stands m c = some t) :
    (m.marked = true ∧ d.escaped m.quote c = some t ∧ d.next m c = ⟨m.quote, false⟩) ∨
    (m.marked = false ∧ c = '\\' ∧ t = [] ∧ d.next m c = ⟨m.quote, true⟩) ∨
    (m.marked = false ∧ t = [] ∧ ∃ q, d.next m c = ⟨q, false⟩) ∨
    (m.marked = false ∧ ¬ (c = '\\' ∧ d.marks m.quote = true) ∧ turned m.quote c = none ∧
      d.expands m.quote c = false ∧ t = [c] ∧ d.next m c = ⟨m.quote, false⟩) := by
  unfold Dialect.stands at stands
  unfold next
  split at stands
  · rename_i marked
    exact Or.inl ⟨marked, stands, if_pos marked⟩
  rename_i unmarked
  have bare : m.marked = false := by simpa using unmarked
  rw [if_neg unmarked]
  split at stands
  · rename_i mark
    cases stands
    exact Or.inr (Or.inl ⟨bare, mark.1, rfl, if_pos mark⟩)
  rename_i other
  rw [if_neg other]
  split at stands
  · cases stands
    exact Or.inr (Or.inr (Or.inl ⟨bare, rfl, _, rfl⟩))
  rename_i still
  have none : turned m.quote c = Option.none := by simpa using still
  split at stands
  · contradiction
  rename_i literal
  cases stands
  exact Or.inr (Or.inr (Or.inr ⟨bare, other, none, by simpa using literal, rfl, by rw [none]; rfl⟩))

theorem standsKept (stands : d.stands m c = some t) :
    (t ++ (d.next m c).held).Sublist (m.held ++ [c]) := by
  rcases d.standsCases stands with ⟨marked, escaped, next⟩ | ⟨bare, rfl, rfl, next⟩ |
    ⟨bare, rfl, q, next⟩ | ⟨bare, -, -, -, rfl, next⟩
  · simpa [Mode.held, marked, next] using d.escapedKept _ _ _ escaped
  · cases quote : m.quote <;> simp [Mode.held, bare, next, quote, heldBack]
  · simp [Mode.held, bare, next]
  · simp [Mode.held, bare, next]

theorem turnsDrop (stands : d.stands m c = some t) (turns : (d.next m c).quote ≠ m.quote) :
    (t ++ (d.next m c).held).length < (m.held ++ [c]).length := by
  rcases d.standsCases stands with ⟨marked, escaped, next⟩ | ⟨bare, rfl, rfl, next⟩ |
    ⟨bare, rfl, q, next⟩ | ⟨bare, -, -, -, rfl, next⟩
  · exact absurd (by rw [next]) turns
  · exact absurd (by rw [next]) turns
  · simp [Mode.held, bare, next]
  · exact absurd (by rw [next]) turns

theorem keptPlain (stands : d.stands {} c = some t) (inside : d.ends c = false)
    (kept : 1 ≤ (t ++ (d.next {} c).held).length) : d.next {} c = {} ∧ d.plain c = true := by
  rcases d.standsCases stands with ⟨marked, escaped, next⟩ | ⟨bare, rfl, rfl, next⟩ |
    ⟨bare, rfl, q, next⟩ | ⟨bare, other, still, literal, rfl, next⟩
  · contradiction
  · simp [next, Mode.held, heldBack] at kept
  · simp [next, Mode.held] at kept
  · refine ⟨next, ?_⟩
    have backslash : c ≠ '\\' := fun same => other ⟨same, d.marksBare⟩
    have quotes : c ≠ '\'' ∧ c ≠ '"' := by
      constructor
      · intro same
        rw [same] at still
        contradiction
      · intro same
        rw [same] at still
        contradiction
    simp [plain, quiet, inside, isQuoting, quotes, backslash, literal]

/- What a word can have been read from: all of it is there, one character more at least if the word was
begun between quotes, and nothing more only if each character is plain. -/
structure Used (m : Mode) (used v : Text) : Prop where
  kept : v.Sublist (m.held ++ used)
  quoted : m.quote ≠ none → v.length < (m.held ++ used).length
  plain : m = {} → used.length ≤ v.length → ∀ c ∈ used, d.plain c = true

theorem usedNothing : d.Used {} [] [] where
  kept := List.Sublist.refl []
  quoted := fun quoted => absurd rfl quoted
  plain := fun _ _ _ member => absurd member List.not_mem_nil

theorem usedStep (inside : ¬ (m = {} ∧ d.ends c = true)) (stands : d.stands m c = some t)
    (later : d.Used (d.next m c) used v) : d.Used m (c :: used) (t ++ v) := by
  have here := d.standsKept stands
  have hereLength := here.length_le
  have laterLength := later.kept.length_le
  simp only [List.length_append, List.length_singleton] at hereLength laterLength
  refine ⟨?_, ?_, ?_⟩
  · have first := here.append (List.Sublist.refl used)
    have second := (List.Sublist.refl t).append later.kept
    simp only [List.append_assoc, List.singleton_append] at first
    exact second.trans first
  · -- Either the quotes stay open, and a character is lost later, or they end here.
    intro quoted
    simp only [List.length_append, List.length_cons]
    by_cases same : (d.next m c).quote = m.quote
    · have lost := later.quoted (by rwa [same])
      rw [List.length_append] at lost
      omega
    · have lost := d.turnsDrop stands same
      simp only [List.length_append, List.length_singleton] at lost
      omega
  · rintro rfl enough
    rw [List.length_append, List.length_cons] at enough
    have within : d.ends c = false := by simpa using inside
    obtain ⟨next, plain⟩ := d.keptPlain stands within (by rw [List.length_append]; omega)
    have bare : ({} : Mode).held.length = 0 := rfl
    rw [next] at hereLength
    exact List.forall_mem_cons.mpr ⟨plain, later.plain next (by omega)⟩

theorem readUsed (read : d.read m s = some (v, left)) : ∃ used, s = used ++ left ∧ d.Used m used v := by
  induction s generalizing m v with
  | nil =>
    rw [Dialect.read] at read
    split at read
    · rename_i bare
      cases read
      subst bare
      exact ⟨[], rfl, d.usedNothing⟩
    · contradiction
  | cons c rest ih =>
    rcases d.readStep read with ⟨rfl, -, rfl, rfl⟩ | ⟨t, tail, inside, stands, later, rfl⟩
    · exact ⟨[], rfl, d.usedNothing⟩
    · obtain ⟨used, rfl, usedLater⟩ := ih later
      exact ⟨c :: used, rfl, d.usedStep inside stands usedLater⟩

theorem readShorter (inside : d.ends c = false) (read : d.read {} (c :: rest) = some (v, left)) :
    left.length < (c :: rest).length := by
  rcases d.readStep read with ⟨-, ended, -, -⟩ | ⟨t, tail, -, -, later, -⟩
  · rw [inside] at ended
    contradiction
  · obtain ⟨used, rfl, -⟩ := d.readUsed later
    simp only [List.length_cons, List.length_append]
    omega

theorem unquotingNext (unquoting : isQuoting c = false) (q : Option Quote) :
    c ≠ '\\' ∧ turned q c = none ∧ d.next ⟨q, false⟩ c = ⟨q, false⟩ := by
  obtain ⟨⟨single, double⟩, backslash⟩ : (c ≠ '\'' ∧ c ≠ '"') ∧ c ≠ '\\' := by
    simpa [isQuoting] using unquoting
  have still : turned q c = none := by
    rcases q with _ | _ | _ <;> simp [turned, Quote.sign, single, double]
  exact ⟨backslash, still, by simp [Dialect.next, backslash, still]⟩

theorem quotingRun (unmarked : '\\' ∉ s) (q : Option Quote) :
    s.foldl d.next ⟨q, false⟩ = (s.filter isQuoting).foldl d.next ⟨q, false⟩ := by
  induction s generalizing q with
  | nil => rfl
  | cons c s ih =>
    have other := List.ne_of_not_mem_cons unmarked
    have later := List.not_mem_of_not_mem_cons unmarked
    cases quoting : isQuoting c with
    | false =>
      rw [List.foldl_cons, (d.unquotingNext quoting q).2.2, ih later,
        List.filter_cons_of_neg (by simp [quoting])]
    | true =>
      have next : d.next ⟨q, false⟩ c = ⟨(turned q c).getD q, false⟩ := by
        simp [Dialect.next, Ne.symm other]
      rw [List.foldl_cons, List.filter_cons_of_pos quoting, List.foldl_cons, next, ih later]

theorem quietStands (quiet : d.quiet c = true) (q : Option Quote) :
    d.stands ⟨q, false⟩ c = some [c] ∧ d.next ⟨q, false⟩ c = ⟨q, false⟩ := by
  obtain ⟨unquoting, literal⟩ : isQuoting c = false ∧ d.expands none c = false := by
    simpa [Dialect.quiet] using quiet
  obtain ⟨backslash, still, next⟩ := d.unquotingNext unquoting q
  have unexpanded : d.expands q c = false := by
    have dollars := (Bool.or_eq_false_iff.mp literal).1
    rcases q with _ | _ | _
    · exact literal
    · rfl
    · exact dollars
  exact ⟨by simp [Dialect.stands, backslash, still, unexpanded], next⟩

theorem readQuiet (all : ∀ c ∈ s, d.quiet c = true) (q : Option Quote)
    (inside : q = none → ∀ c ∈ s, d.ends c = false) (rest : Text) :
    d.read ⟨q, false⟩ (s ++ rest) = (d.read ⟨q, false⟩ rest).map (prepend s) := by
  induction s with
  | nil =>
    have same : prepend ([] : Text) = id := rfl
    rw [same, Option.map_id]
    rfl
  | cons c s ih =>
    obtain ⟨here, later⟩ := List.forall_mem_cons.mp all
    obtain ⟨stands, next⟩ := d.quietStands here q
    have within : ¬ ((⟨q, false⟩ : Mode) = {} ∧ d.ends c = true) := by
      rintro ⟨bare, ended⟩
      cases bare
      rw [inside rfl c List.mem_cons_self] at ended
      contradiction
    rw [List.cons_append, Dialect.read, if_neg within, stands, next, Option.bind_some,
      ih later fun bare c member => inside bare c (List.mem_cons_of_mem _ member), Option.map_map]
    rfl

theorem readBetween (q : Quote) (all : ∀ c ∈ s, d.quiet c = true) (rest : Text) :
    d.read ⟨some q, false⟩ (s ++ rest) = (d.read ⟨some q, false⟩ rest).map (prepend s) :=
  d.readQuiet all (some q) (fun bare => by contradiction) rest

theorem plainInside (plain : d.plain c = true) : d.quiet c = true ∧ d.ends c = false := by
  simpa [Dialect.plain] using plain

theorem readPlain (all : ∀ c ∈ s, d.plain c = true) (rest : Text) :
    d.read {} (s ++ rest) = (d.read {} rest).map (prepend s) :=
  d.readQuiet (fun c member => (d.plainInside (all c member)).1) none
    (fun _ c member => (d.plainInside (all c member)).2) rest

theorem signInside (q : Quote) : d.ends q.sign = false := by
  have solid : isBlank q.sign = false := by cases q <;> rfl
  rw [ends, d.conventions.solid solid]
  cases q <;> rfl

theorem readLost (inside : ¬ (m = {} ∧ d.ends c = true)) (stands : d.stands m c = some [])
    (rest : Text) : d.read m (c :: rest) = d.read (d.next m c) rest := by
  have same : prepend ([] : Text) = id := rfl
  rw [Dialect.read, if_neg inside, stands, Option.bind_some, same, Option.map_id]
  rfl

theorem readOpen (q : Quote) (rest : Text) :
    d.read {} (q.sign :: rest) = d.read ⟨some q, false⟩ rest := by
  have stands : d.stands {} q.sign = some [] := by cases q <;> simp [Dialect.stands, Quote.sign, turned]
  have next : d.next {} q.sign = ⟨some q, false⟩ := by
    cases q <;> simp [Dialect.next, Quote.sign, turned]
  rw [d.readLost (by simp [d.signInside q]) stands, next]

theorem readClose (q : Quote) (rest : Text) :
    d.read ⟨some q, false⟩ (q.sign :: rest) = d.read {} rest := by
  have stands : d.stands ⟨some q, false⟩ q.sign = some [] := by
    cases q <;> simp [Dialect.stands, Quote.sign, turned]
  have next : d.next ⟨some q, false⟩ q.sign = {} := by
    cases q <;> simp [Dialect.next, Quote.sign, turned]
  rw [d.readLost (by simp) stands, next]

end Reading

def addWord (v : Text) (read : List Text × Text) : List Text × Text := (v :: read.1, read.2)

def words (d : Dialect) : Text → Option (List Text × Text)
  | [] => some ([], [])
  | c :: rest =>
    if d.conventions.isWhite c then d.words rest
    else if _ : d.ends c = true then some ([], c :: rest)
    else
      match _ : d.read {} (c :: rest) with
      | none => none
      | some (v, left) => (d.words left).map (addWord v)
termination_by s => s.length
decreasing_by
  · exact Nat.lt_succ_self _
  · rename_i inside read
    exact d.readShorter (by simpa using inside) read

section Words
variable (d : Dialect) {c : Char} {s v left rest : Text} {ws : List Text}

theorem wordsNil : d.words [] = some ([], []) := by rw [words]

theorem wordsWhite (white : d.conventions.isWhite c = true) (rest : Text) :
    d.words (c :: rest) = d.words rest := by rw [words, if_pos white]

theorem wordsOperator (solid : d.conventions.isWhite c = false) (operator : isOperator c = true)
    (rest : Text) : d.words (c :: rest) = some ([], c :: rest) := by
  rw [words, if_neg (by simp [solid]), dif_pos (d.endsOperator operator)]

theorem wordsRead (inside : d.ends c = false) (read : d.read {} (c :: rest) = some (v, left)) :
    d.words (c :: rest) = (d.words left).map (addWord v) := by
  have solid := (Bool.or_eq_false_iff.mp inside).1
  rw [words, if_neg (by simp [solid]), dif_neg (by simp [inside])]
  split
  · rename_i none
    rw [none] at read
    contradiction
  · rename_i found
    rw [found] at read
    cases read
    rfl

theorem wordsAdded {found : Option (List Text × Text)} {r : Text}
    (added : found.map (addWord v) = some (ws, r)) : ∃ more, found = some (more, r) ∧ ws = v :: more := by
  obtain ⟨⟨more, r'⟩, whole, same⟩ := Option.map_eq_some_iff.mp added
  obtain ⟨rfl, rfl⟩ := Prod.mk.inj same
  exact ⟨more, whole, rfl⟩

theorem wordsUsed {r : Text} (found : d.words s = some (ws, r)) : r.length ≤ s.length ∧
    ∀ v ∈ ws, ∃ used, d.Used {} used v ∧ used.length + r.length ≤ s.length := by
  fun_induction d.words s generalizing ws r with
  | case1 =>
    cases found
    exact ⟨Nat.le_refl _, fun v member => absurd member List.not_mem_nil⟩
  | case2 c rest white ih =>
    obtain ⟨shorter, parts⟩ := ih found
    refine ⟨Nat.le_succ_of_le shorter, fun v member => ?_⟩
    obtain ⟨used, usedFor, within⟩ := parts v member
    exact ⟨used, usedFor, Nat.le_succ_of_le within⟩
  | case3 c rest solid ended =>
    cases found
    exact ⟨Nat.le_refl _, fun v member => absurd member List.not_mem_nil⟩
  | case4 => contradiction
  | case5 c rest solid inside v left read ih =>
    obtain ⟨more, later, rfl⟩ := wordsAdded found
    obtain ⟨shorter, parts⟩ := ih later
    obtain ⟨used, whole, usedFor⟩ := d.readUsed read
    rw [whole, List.length_append]
    refine ⟨by omega, List.forall_mem_cons.mpr ⟨⟨used, usedFor, by omega⟩, fun w member => ?_⟩⟩
    obtain ⟨part, partFor, within⟩ := parts w member
    exact ⟨part, partFor, by omega⟩

theorem wordsTight {r : Text} (found : d.words s = some ([v], r))
    (tight : s.length ≤ v.length + r.length) : ∀ c ∈ v, d.plain c = true := by
  obtain ⟨used, usedFor, within⟩ := (d.wordsUsed found).2 v List.mem_cons_self
  have short : used.length ≤ v.length := by omega
  have same : v = used := usedFor.kept.eq_of_length_le short
  rw [same]
  exact usedFor.plain rfl short

def Stops (rest : Text) : Prop := d.read {} rest = some ([], rest)

theorem stopsNil : d.Stops [] := rfl

theorem stopsCons (ends : d.ends c = true) (rest : Text) : d.Stops (c :: rest) := by
  rw [Stops, read, if_pos ⟨rfl, ends⟩]

theorem wordsPlain (all : ∀ c ∈ v, d.plain c = true) (some : v ≠ []) (stops : d.Stops rest) :
    d.words (v ++ rest) = (d.words rest).map (addWord v) := by
  have read := d.readPlain all rest
  rw [show d.read {} rest = _ from stops, Option.map_some, prepend, List.append_nil] at read
  obtain ⟨c, more, rfl⟩ := List.exists_cons_of_ne_nil some
  exact d.wordsRead (d.plainInside (all c List.mem_cons_self)).2 read

theorem wordsSpaced (all : ∀ v ∈ ws, v ≠ [] ∧ ∀ c ∈ v, d.plain c = true) (rest : Text) :
    d.words (ws.flatMap (· ++ [' ']) ++ rest) = (d.words rest).map fun r => (ws ++ r.1, r.2) := by
  induction ws with
  | nil => exact Option.map_id'.symm
  | cons v ws ih =>
    obtain ⟨⟨some, plain⟩, later⟩ := List.forall_mem_cons.mp all
    have stops := d.stopsCons d.endsSpace (ws.flatMap (· ++ [' ']) ++ rest)
    calc d.words ((v :: ws).flatMap (· ++ [' ']) ++ rest)
        = d.words (v ++ ' ' :: (ws.flatMap (· ++ [' ']) ++ rest)) := by
          rw [List.flatMap_cons, List.append_assoc, List.append_assoc]
          rfl
      _ = ((d.words rest).map fun r => (ws ++ r.1, r.2)).map (addWord v) := by
          rw [d.wordsPlain plain some stops, d.wordsWhite d.conventions.space, ih later]
      _ = (d.words rest).map fun r => ((v :: ws) ++ r.1, r.2) := Option.map_map _ _ _

theorem wordsBehind (all : ∀ v ∈ ws, v ≠ [] ∧ ∀ c ∈ v, d.plain c = true) {more : List Text}
    {r : Text} : d.words (ws.flatMap (· ++ [' ']) ++ s) = some (ws ++ more, r) ↔
      d.words s = some (more, r) := by
  rw [d.wordsSpaced all, Option.map_eq_some_iff]
  constructor
  · rintro ⟨found, whole, same⟩
    obtain ⟨front, left⟩ := Prod.mk.inj same
    rw [whole, ← left, ← List.append_cancel_left front]
  · intro found
    exact ⟨_, found, rfl⟩

structure Closes (rest : Text) : Prop where
  stops : d.Stops rest
  words : d.words rest = some ([], rest)

theorem closesNil : d.Closes [] := ⟨d.stopsNil, d.wordsNil⟩

theorem closesOperator (solid : isBlank c = false) (operator : isOperator c = true) (rest : Text) :
    d.Closes (c :: rest) where
  stops := d.stopsCons (d.endsOperator operator) rest
  words := d.wordsOperator (d.conventions.solid solid) operator rest

theorem wordsExact (all : ∀ w ∈ ws, w ≠ [] ∧ ∀ c ∈ w, d.plain c = true) (some : v ≠ [])
    (closes : d.Closes rest) :
    d.words (ws.flatMap (· ++ [' ']) ++ (v ++ rest)) = .some (ws ++ [v], rest) ↔
      ∀ c ∈ v, d.plain c = true := by
  rw [d.wordsBehind all]
  constructor
  · intro found
    exact d.wordsTight found (Nat.le_of_eq List.length_append)
  · intro plain
    rw [d.wordsPlain plain some closes.stops, closes.words]
    rfl

end Words

def inner (d : Dialect) (opening closing s : Text) : Option (List Text × Text) :=
  (d.read {} s).bind fun word =>
    (opening.isPrefixOf? word.1).bind fun command =>
      (d.words command).bind fun found => if found.2 = closing then some (found.1, word.2) else none

section Inner
variable (d : Dialect) {opening closing v left : Text} {ws : List Text}

theorem innerFound {s : Text} (found : d.inner opening closing s = some (ws, left)) :
    ∃ command, d.read {} s = some (opening ++ command, left) ∧ d.words command = some (ws, closing) := by
  obtain ⟨⟨word, left'⟩, read, found⟩ := Option.bind_eq_some_iff.mp found
  obtain ⟨command, front, found⟩ := Option.bind_eq_some_iff.mp found
  obtain ⟨⟨ws', closing'⟩, words, found⟩ := Option.bind_eq_some_iff.mp found
  have whole : opening ++ command = word := List.isPrefixOf?_eq_some_iff_append_eq.mp front
  split at found
  · rename_i closes
    obtain ⟨rfl, rfl⟩ := Prod.mk.inj (Option.some.inj found)
    obtain rfl : closing' = closing := closes
    exact ⟨command, by rw [whole, read], words⟩
  · contradiction

theorem spacedQuiet (all : ∀ w ∈ ws, w ≠ [] ∧ ∀ c ∈ w, d.plain c = true) :
    ∀ c ∈ ws.flatMap (· ++ [' ']), d.quiet c = true := by
  intro c member
  obtain ⟨w, listed, within⟩ := List.mem_flatMap.mp member
  rcases List.mem_append.mp within with letter | space
  · exact (d.plainInside ((all w listed).2 c letter)).1
  · rw [List.mem_singleton.mp space]
    exact d.calmQuiet rfl

theorem innerExact (q : Quote) (openingQuiet : ∀ c ∈ opening, d.quiet c = true)
    (all : ∀ w ∈ ws, w ≠ [] ∧ ∀ c ∈ w, d.plain c = true) (some : v ≠ [])
    (closingQuiet : ∀ c ∈ closing, d.quiet c = true) (closes : d.Closes closing)
    (stops : d.Stops left) :
    d.inner opening closing
        (q.sign :: (opening ++ (ws.flatMap (· ++ [' ']) ++ (v ++ (closing ++ q.sign :: left))))) =
      .some (ws ++ [v], left) ↔ ∀ c ∈ v, d.plain c = true := by
  have read : d.read {}
      (q.sign :: (opening ++ (ws.flatMap (· ++ [' ']) ++ (v ++ (closing ++ q.sign :: left))))) =
      ((d.read ⟨.some q, false⟩ (v ++ (closing ++ q.sign :: left))).map
        (prepend (ws.flatMap (· ++ [' '])))).map (prepend opening) := by
    rw [d.readOpen, d.readBetween q openingQuiet, d.readBetween q (d.spacedQuiet all)]
  constructor
  · intro found
    obtain ⟨command, whole, words⟩ := d.innerFound found
    rw [read] at whole
    obtain ⟨command', front, whole⟩ := prepended.mp whole
    obtain rfl := List.append_cancel_left front
    obtain ⟨last, rfl, later⟩ := prepended.mp whole
    obtain ⟨used, text, usedFor⟩ := d.readUsed later
    -- The quotes that end the word are lost.
    have lost := usedFor.quoted (by simp)
    have lengths := congrArg List.length text
    have held : (⟨.some q, false⟩ : Mode).held.length = 0 := rfl
    simp only [List.length_append, List.length_cons, held] at lost lengths
    exact d.wordsTight ((d.wordsBehind all).mp words) (by omega)
  · intro plain
    have last : d.read ⟨.some q, false⟩ (v ++ (closing ++ q.sign :: left)) =
        .some (v ++ closing, left) := by
      rw [d.readBetween q fun c member => (d.plainInside (plain c member)).1,
        d.readBetween q closingQuiet, d.readClose, show d.read {} left = _ from stops]
      simp [prepend]
    have words := (d.wordsExact all some closes).mpr plain
    simp only [inner, read, last, Option.map_some, prepend, Option.bind_some,
      List.isPrefixOf?_eq_some_iff_append_eq.mpr rfl, words, if_true]

end Inner

def markedOnly (signs : Text) (c : Char) : Text := if signs.contains c then [c] else ['\\', c]

def joined (c : Char) (t : Text) : Text := if c = '\n' then [] else t

theorem markedOnlyKept (signs : Text) (c : Char) : (markedOnly signs c).Sublist ['\\', c] := by
  unfold markedOnly
  split <;> simp

theorem joinedKept {c : Char} {s t : Text} (kept : t.Sublist s) : (joined c t).Sublist s := by
  unfold joined
  split
  · exact List.nil_sublist s
  · exact kept

def posix (w : Conventions) : Dialect where
  conventions := w
  dollars := ['$', '\x60']
  marks q := q ≠ some .single
  escaped q c :=
    match q with
    | none => some (joined c [c])
    | some .single => some ['\\', c]
    | some .double => some (joined c (markedOnly ['$', '\x60', '"', '\\'] c))
  dollarsKnown c found := by simpa using found
  marksBare := rfl
  escapedKept q c t same := by
    rcases q with _ | _ | _ <;> cases same
    · exact joinedKept (List.Sublist.refl _)
    · exact List.Sublist.refl _
    · exact joinedKept (markedOnlyKept _ c)

def fish (w : Conventions) : Dialect where
  conventions := w
  dollars := ['$']
  marks _ := true
  escaped q c :=
    match q with
    | none => if c.isAlphanum then none else some (joined c [c])
    | some .single => some (markedOnly ['\'', '\\'] c)
    | some .double => some (joined c (markedOnly ['$', '"', '\\'] c))
  dollarsKnown c found := Or.inl (by simpa using found)
  marksBare := rfl
  escapedKept q c t same := by
    rcases q with _ | _ | _
    · simp only at same
      split at same
      · contradiction
      · cases same
        exact joinedKept (List.Sublist.refl _)
    · cases same
      exact markedOnlyKept _ c
    · cases same
      exact joinedKept (markedOnlyKept _ c)

end Dialect

end ScriptDoc
