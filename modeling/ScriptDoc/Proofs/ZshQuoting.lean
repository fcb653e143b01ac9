import ScriptDoc.Proofs.CompletionCoverage

/-! Specifications in apostrophes. A zsh script quotes the description of a switch, but writes its
spellings and the name of its value as they are. What a shell reads there is the specification that was
meant exactly if these hold no mark of their own. -/
namespace ScriptDoc

namespace Zsh

inductive Quoting where
  | bare
  | marked
  | quoted
  deriving DecidableEq, Repr

namespace Quoting

def marks : Quoting → Char → Bool
  | .bare, c => c = '\'' || c = '\\'
  | .marked, _ => false
  | .quoted, c => c = '\''

def crossed : Quoting → Char → Quoting
  | .bare, c => if c = '\'' then .quoted else .marked
  | _, _ => .bare

def settled : Quoting → Quoting
  | .marked => .bare
  | q => q

end Quoting

def unquoteFrom (q : Quoting) : Text → Option Text
  | [] => if q = .bare then some [] else none
  | c :: rest =>
    if q.marks c then unquoteFrom (q.crossed c) rest
    else (unquoteFrom q.settled rest).map (c :: ·)

def unquote (s : Text) : Option Text := unquoteFrom .bare s

def isMark (c : Char) : Bool := c = '\'' || c = '\\'

section Reading
variable {q : Quoting} {c : Char} {s rest u : Text}

theorem markIsMark (marked : q.marks c = true) : isMark c = true := by
  cases q with
  | bare => exact marked
  | marked => contradiction
  | quoted => exact Bool.or_eq_true_iff.mpr (Or.inl marked)

theorem marksOnly (other : isMark c = false) (q : Quoting) : q.marks c = false := by
  cases marked : q.marks c with
  | true => exact (markIsMark marked).symm.trans other
  | false => rfl

theorem readMark (mark : q.marks c = true) (rest : Text) :
    unquoteFrom q (c :: rest) = unquoteFrom (q.crossed c) rest := if_pos mark

theorem readOther (other : q.marks c = false) (rest : Text) :
    unquoteFrom q (c :: rest) = (unquoteFrom q.settled rest).map (c :: ·) :=
  if_neg (by simp [other])

theorem readSplits (read : unquoteFrom q (s ++ rest) = some u) :
    ∃ after v tail, u = v ++ tail ∧ Text.Kept isMark s v ∧ unquoteFrom after rest = some tail := by
  induction s generalizing q u with
  | nil => exact ⟨q, [], u, rfl, Text.keptSelf [], read⟩
  | cons c s ih =>
    rw [List.cons_append] at read
    cases marked : q.marks c with
    | true =>
      rw [readMark marked] at read
      obtain ⟨after, v, tail, same, kept, later⟩ := ih read
      exact ⟨after, v, tail, same, Text.keptAppend (Text.keptMark (markIsMark marked)) kept, later⟩
    | false =>
      rw [readOther marked] at read
      obtain ⟨found, whole, rfl⟩ := Option.map_eq_some_iff.mp read
      obtain ⟨after, v, tail, rfl, kept, later⟩ := ih whole
      exact ⟨after, c :: v, tail, rfl, Text.keptAppend (Text.keptSelf [c]) kept, later⟩

theorem readThrough (steady : q.settled = q) (other : isMark c = false) (s rest u : Text) :
    unquoteFrom q (s ++ c :: rest) = some (s ++ c :: u) ↔
      (∀ d ∈ s, q.marks d = false) ∧ unquoteFrom q rest = some u := by
  have ends (after : Quoting) (tail : Text) : unquoteFrom after (c :: rest) = some tail →
      ∃ more, tail = c :: more ∧ unquoteFrom after.settled rest = some more := by
    intro read
    rw [readOther (marksOnly other after)] at read
    obtain ⟨more, found, same⟩ := Option.map_eq_some_iff.mp read
    exact ⟨more, same.symm, found⟩
  induction s with
  | nil =>
    rw [List.nil_append, readOther (marksOnly other q), steady]
    simp
  | cons d s ih =>
    rw [List.cons_append, List.cons_append, List.forall_mem_cons]
    cases marked : q.marks d with
    | true =>
      refine ⟨fun read => ?_, fun both => absurd both.1.1 (by simp)⟩
      rw [readMark marked] at read
      obtain ⟨after, v, tail, same, kept, later⟩ := readSplits read
      obtain ⟨more, rfl, -⟩ := ends after tail later
      -- The mark is in the text that was meant, but not in what is read of it.
      have whole : v = d :: s :=
        Text.keptFront (Text.keptAppend (Text.keptMark (markIsMark marked)) kept) other same.symm
      have shorter := kept.sublist.length_le
      rw [whole, List.length_cons] at shorter
      omega
    | false =>
      rw [readOther marked, steady, Option.map_eq_some_iff]
      constructor
      · intro read
        obtain ⟨found, read, same⟩ := read
        rw [(List.cons.inj same).2] at read
        obtain ⟨unmarked, later⟩ := ih.mp read
        exact ⟨⟨rfl, unmarked⟩, later⟩
      · intro both
        exact ⟨_, ih.mpr ⟨both.1.2, both.2⟩, rfl⟩

theorem readEscaped (s rest : Text) :
    unquoteFrom .quoted (escape s ++ rest) = (unquoteFrom .quoted rest).map (s ++ ·) := by
  induction s with
  | nil => exact Option.map_id'.symm
  | cons c s ih =>
    have written : escape (c :: s) ++ rest =
        (if c = '\'' then ['\'', '\\', '\'', '\''] else [c]) ++ (escape s ++ rest) := by
      rw [escape, Text.replace, List.flatMap_cons, List.append_assoc]
      rfl
    have read : unquoteFrom .quoted (escape (c :: s) ++ rest) =
        (unquoteFrom .quoted (escape s ++ rest)).map (c :: ·) := by
      rw [written]
      split
      · rename_i quote
        rw [quote]
        rfl
      · rename_i other
        exact readOther (by simpa [Quoting.marks] using other) _
    rw [read, ih, Option.map_map]
    rfl

theorem readNext (steady : q.settled = q) (other : isMark c = false) (rest u : Text) :
    unquoteFrom q (c :: rest) = some (c :: u) ↔ unquoteFrom q rest = some u := by
  have through := readThrough steady other [] rest u
  rwa [and_iff_right fun d none => absurd none List.not_mem_nil] at through

theorem quotedUnmarked : (∀ d ∈ s, Quoting.quoted.marks d = false) ↔ '\'' ∉ s := by
  simp only [Quoting.marks, decide_eq_false_iff_not]
  exact ⟨fun each member => each _ member rfl, fun absent d member same => absent (same ▸ member)⟩

theorem bareUnmarked : (∀ d ∈ s, Quoting.bare.marks d = false) ↔ '\'' ∉ s ∧ '\\' ∉ s := by
  simp only [Quoting.marks, Bool.or_eq_false_iff, decide_eq_false_iff_not]
  refine ⟨fun each => ⟨fun member => (each _ member).1 rfl, fun member => (each _ member).2 rfl⟩, ?_⟩
  exact fun absent d member => ⟨fun same => absent.1 (same ▸ member), fun same => absent.2 (same ▸ member)⟩

end Reading

section Specs

def meantPair (short long : Text) : Text :=
  "(" ++ short ++ " " ++ long ++ ")" ++ ("\x7b" ++ short ++ "," ++ long ++ "\x7d")

def meantSpelling : List Text → Text
  | [word] => word
  | [short, long] => meantPair short long
  | _ => []

def meant (s : Switch) : Text :=
  meantSpelling s.words ++ "[" ++ s.description ++ "]" ++ valueSpec s.value?

/- Switches that no mark of their own disturbs. Two spellings also stand outside of apostrophes. -/
structure Literal (s : Switch) : Prop where
  spellings : ∀ word ∈ s.words, '\'' ∉ word
  pair : s.words.length = 2 → ∀ word ∈ s.words, '\\' ∉ word
  value : ∀ v, s.value? = some v → '\'' ∉ v.name

theorem wordsOfSwitch {s : Switch} (filled : s.words ≠ []) :
    (∃ word, s.words = [word]) ∨ ∃ short long, s.words = [short, long] := by
  have few : s.words.length ≤ 2 := by
    refine (List.length_filter_le _ _).trans ?_
    rw [List.length_append]
    have one (o : Option Text) : o.toList.length ≤ 1 := by cases o <;> simp
    have first := one s.short
    have second := one s.long
    omega
  cases words : s.words with
  | nil => exact absurd words filled
  | cons first rest =>
    cases rest with
    | nil => exact Or.inl ⟨first, rfl⟩
    | cons second more =>
      cases more with
      | nil => exact Or.inr ⟨first, second, rfl⟩
      | cons third others =>
        rw [words] at few
        simp only [List.length_cons] at few
        omega

theorem readValue (v : Option Value) :
    unquoteFrom .quoted (valueSpec v ++ "'") = some (valueSpec v) ↔
      ∀ value, v = some value → '\'' ∉ value.name := by
  cases v with
  | none => simp [valueSpec, unquoteFrom, Quoting.marks, Quoting.crossed]
  | some value =>
    have written : valueSpec (some value) ++ "'" = ':' :: (value.name ++ ':' :: ['\'']) := by
      simp [valueSpec]
    have shown : valueSpec (some value) = ':' :: (value.name ++ ':' :: []) := by simp [valueSpec]
    rw [written, shown, readNext rfl rfl, readThrough rfl rfl, quotedUnmarked]
    simp [unquoteFrom, Quoting.marks, Quoting.crossed]

theorem readTail (description : Text) (v : Option Value) :
    unquoteFrom .quoted ("[" ++ escape description ++ "]" ++ valueSpec v ++ "'") =
        some ("[" ++ description ++ "]" ++ valueSpec v) ↔
      ∀ value, v = some value → '\'' ∉ value.name := by
  have written : "[" ++ escape description ++ "]" ++ valueSpec v ++ "'" =
      '[' :: (escape description ++ (']' :: (valueSpec v ++ "'"))) := by simp
  have shown : "[" ++ description ++ "]" ++ valueSpec v =
      '[' :: (description ++ (']' :: valueSpec v)) := by simp
  rw [written, shown, readNext rfl rfl, readEscaped, Option.map_eq_some_iff, ← readValue]
  constructor
  · intro read
    obtain ⟨tail, read, same⟩ := read
    rw [List.append_cancel_left same] at read
    exact (readNext rfl rfl _ _).mp read
  · intro read
    exact ⟨_, (readNext rfl rfl _ _).mpr read, rfl⟩

theorem readSingle (word tail u : Text) :
    unquote ("'" ++ word ++ ('[' :: tail)) = some (word ++ ('[' :: u)) ↔
      '\'' ∉ word ∧ unquoteFrom .quoted ('[' :: tail) = some ('[' :: u) := by
  have opened : unquote ("'" ++ word ++ ('[' :: tail)) = unquoteFrom .quoted (word ++ '[' :: tail) := rfl
  rw [opened, readThrough rfl rfl, quotedUnmarked, readNext rfl rfl]

theorem readPair (short long tail u : Text) :
    unquote ("'" ++ spelledPair short long ++ tail) = some (meantPair short long ++ u) ↔
      ('\'' ∉ short ∧ '\'' ∉ long) ∧ ('\\' ∉ short ∧ '\\' ∉ long) ∧
        unquoteFrom .quoted tail = some u := by
  have written : "'" ++ spelledPair short long ++ tail = '\'' :: '(' :: (short ++ ' ' :: (long ++
      ')' :: '\'' :: '\x7b' :: (short ++ ',' :: (long ++ '\x7d' :: '\'' :: tail)))) := by
    simp [spelledPair]
  have shown : meantPair short long ++ u = '(' :: (short ++ ' ' :: (long ++
      ')' :: '\x7b' :: (short ++ ',' :: (long ++ '\x7d' :: u)))) := by
    simp [meantPair]
  have opens (rest : Text) : unquoteFrom .bare ('\'' :: rest) = unquoteFrom .quoted rest := rfl
  have closes (rest : Text) : unquoteFrom .quoted ('\'' :: rest) = unquoteFrom .bare rest := rfl
  rw [written, shown, unquote, opens, readNext rfl rfl, readThrough rfl rfl, readThrough rfl rfl,
    closes, readNext rfl rfl, readThrough rfl rfl, readThrough rfl rfl, opens, quotedUnmarked,
    quotedUnmarked, bareUnmarked, bareUnmarked]
  grind

theorem specRead {s : Switch} {spec : Text} (filled : s.words ≠ []) (specifies : Specifies s spec) :
    unquote spec = some (meant s) ↔ Literal s := by
  have written : spec = "'" ++ spelled s.words ++
      ('[' :: (escape s.description ++ "]" ++ valueSpec s.value? ++ "'")) := by
    rw [specifies]
    simp only [List.append_assoc]
    rfl
  have shown : meant s = meantSpelling s.words ++
      ('[' :: (s.description ++ "]" ++ valueSpec s.value?)) := by
    simp only [meant, List.append_assoc]
    rfl
  have tail : unquoteFrom .quoted ('[' :: (escape s.description ++ "]" ++ valueSpec s.value? ++ "'")) =
      some ('[' :: (s.description ++ "]" ++ valueSpec s.value?)) ↔ _ :=
    readTail s.description s.value?
  rw [written, shown]
  rcases wordsOfSwitch filled with ⟨word, words⟩ | ⟨short, long, words⟩
  · rw [words, spelled, meantSpelling, readSingle, tail]
    constructor
    · intro read
      exact ⟨by simpa [words] using read.1, by simp [words], read.2⟩
    · intro literal
      exact ⟨literal.spellings word (by simp [words]), literal.value⟩
  · rw [words, spelled, meantSpelling, readPair, tail]
    constructor
    · intro read
      exact ⟨by simpa [words] using read.1, by simpa [words] using read.2.1, read.2.2⟩
    · intro literal
      have quotes := literal.spellings
      have backslashes := literal.pair (by simp [words])
      simp only [words, List.forall_mem_cons] at quotes backslashes
      exact ⟨⟨quotes.1, quotes.2.1⟩, ⟨backslashes.1, backslashes.2.1⟩, literal.value⟩

end Specs

end Zsh

/- There is one specification for each switch of a block, and it is read as it was meant exactly if
there are no marks in the spellings and in the name of the value. -/
theorem specsReadIfLiteral (b : Block) :
    List.Forall₂ (fun s spec => Zsh.unquote spec = some (Zsh.meant s) ↔ Zsh.Literal s)
      b.switches (Zsh.specs b) := by
  have filled : ∀ s ∈ b.switches, s.words ≠ [] := fun s member => by
    simpa using List.of_mem_filter member
  refine List.Forall₂.imp ?_ ((List.forall₂_and_left _ _).mpr ⟨filled, Zsh.specsCovered b⟩)
  intro s spec both
  exact Zsh.specRead both.1 both.2

def strayScript : Text := "#@/command\n # @flag -q' Say less\n"

theorem strayApostropheUnclosed :
    (Document.ofText strayScript).blocks.map Zsh.specs = [["'-q'[Say less]'".toList]] ∧
      Zsh.unquote "'-q'[Say less]'" = none := by
  decide +kernel

end ScriptDoc
