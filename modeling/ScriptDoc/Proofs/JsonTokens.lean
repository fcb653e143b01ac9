import Mathlib.Data.List.Basic
import ScriptDoc.Document.Json

/-! The tokens of JSON. A value stands for a row of tokens, and both of its written forms spell out
this row. They differ in the white space between the tokens only. -/
namespace ScriptDoc
namespace Json

inductive Token where
  | openArray
  | closeArray
  | openObject
  | closeObject
  | comma
  | colon
  | bool (b : Bool)
  | int (n : Int)
  | text (s : Text)
  deriving DecidableEq, Repr

def isWhite (c : Char) : Bool := c = ' ' || c = '\t' || c = '\n' || c = '\r'

def mark? (c : Char) : Option Token :=
  if c = '[' then some .openArray
  else if c = ']' then some .closeArray
  else if c = '\x7b' then some .openObject
  else if c = '\x7d' then some .closeObject
  else if c = ',' then some .comma
  else if c = ':' then some .colon
  else none

def isBare (c : Char) : Bool := !isWhite c && c ≠ '"' && (mark? c).isNone

namespace Token

def spelled : Token → Text
  | .openArray => ['[']
  | .closeArray => [']']
  | .openObject => ['\x7b']
  | .closeObject => ['\x7d']
  | .comma => [',']
  | .colon => [':']
  | .bool b => ofBool b
  | .int n => Text.ofInt n
  | .text s => literal s

def isWord : Token → Bool
  | .bool _ | .int _ => true
  | _ => false

end Token

mutual

def tokens : Json → List Token
  | .bool b => [.bool b]
  | .int n => [.int n]
  | .text s => [.text s]
  | .array items => .openArray :: itemTokens items ++ [.closeArray]
  | .object fields => .openObject :: fieldTokens fields ++ [.closeObject]

def itemTokens : List Json → List Token
  | [] => []
  | [item] => tokens item
  | item :: next :: items => tokens item ++ [.comma] ++ itemTokens (next :: items)

def fieldTokens : List (Text × Json) → List Token
  | [] => []
  | [(key, value)] => [.text key, .colon] ++ tokens value
  | (key, value) :: next :: fields =>
    [.text key, .colon] ++ tokens value ++ [.comma] ++ fieldTokens (next :: fields)

end

theorem induction {motive : Json → Prop} (bool : ∀ b, motive (.bool b)) (int : ∀ n, motive (.int n))
    (text : ∀ s, motive (.text s))
    (array : ∀ items, (∀ item ∈ items, motive item) → motive (.array items))
    (object : ∀ fields, (∀ field ∈ fields, motive field.2) → motive (.object fields)) :
    ∀ json, motive json :=
  @Json.rec motive (fun items => ∀ item ∈ items, motive item)
    (fun fields => ∀ field ∈ fields, motive field.2) (fun field => motive field.2)
    bool int text array object
    (by simp) (fun item items first rest => List.forall_mem_cons.mpr ⟨first, rest⟩)
    (by simp) (fun field fields first rest => List.forall_mem_cons.mpr ⟨first, rest⟩)
    (fun key value holds => holds)

/-! Items and fields are written one after the other, with commas between them. -/

theorem itemTokensJoined (items : List Json) :
    itemTokens items = [Token.comma].intercalate (items.map tokens) := by
  induction items with
  | nil => rfl
  | cons item rest ih =>
    cases rest with
    | nil => simp [itemTokens]
    | cons next more => simp only [itemTokens, ih, List.map_cons, List.intercalate_cons_cons]

theorem fieldTokensJoined (fields : List (Text × Json)) :
    fieldTokens fields = [Token.comma].intercalate
      (fields.map fun field => [.text field.1, .colon] ++ tokens field.2) := by
  induction fields with
  | nil => rfl
  | cons field rest ih =>
    cases rest with
    | nil => simp [fieldTokens]
    | cons next more => simp only [fieldTokens, ih, List.map_cons, List.intercalate_cons_cons]

theorem compactItemsJoined (items : List Json) :
    compactItems items = Text.join [','] (items.map compact) := by
  induction items with
  | nil => rfl
  | cons item rest ih =>
    cases rest with
    | nil => rfl
    | cons next more => simp only [compactItems, ih, List.map_cons, Text.join]

theorem compactFieldsJoined (fields : List (Text × Json)) :
    compactFields fields =
      Text.join [','] (fields.map fun field => literal field.1 ++ [':'] ++ compact field.2) := by
  induction fields with
  | nil => rfl
  | cons field rest ih =>
    cases rest with
    | nil => rfl
    | cons next more => simp only [compactFields, ih, List.map_cons, Text.join]

theorem indentedItemsJoined (depth : Nat) (items : List Json) :
    indentedItems depth items =
      Text.join [','] (items.map fun item => newLine depth ++ indented depth item) := by
  induction items with
  | nil => rfl
  | cons item rest ih =>
    cases rest with
    | nil => rfl
    | cons next more => simp only [indentedItems, ih, List.map_cons, Text.join]

theorem indentedFieldsJoined (depth : Nat) (fields : List (Text × Json)) :
    indentedFields depth fields = Text.join [','] (fields.map fun field =>
      newLine depth ++ literal field.1 ++ ": " ++ indented depth field.2) := by
  induction fields with
  | nil => rfl
  | cons field rest ih =>
    cases rest with
    | nil => rfl
    | cons next more => simp only [indentedFields, ih, List.map_cons, Text.join]

/- A text made of tokens, with some of the given white space between them. A word ends where another
kind of character begins. -/
inductive Spells (gaps : List Char) : List Token → Text → Prop where
  | done : Spells gaps [] []
  | gap {tokens : List Token} {s : Text} {c : Char} (allowed : c ∈ gaps)
      (rest : Spells gaps tokens s) : Spells gaps tokens (c :: s)
  | token {tokens : List Token} {s : Text} (token : Token)
      (ends : token.isWord = true → ∀ c, s.head? = some c → isBare c = false)
      (rest : Spells gaps tokens s) : Spells gaps (token :: tokens) (token.spelled ++ s)

section Spells
variable {gaps : List Char}

theorem spellsOne (token : Token) : Spells gaps [token] token.spelled := by
  have spelled : Spells gaps [token] (token.spelled ++ []) := .token token (by simp) .done
  rwa [List.append_nil] at spelled

theorem spellsAppend {first second : List Token} {s t : Text} (before : Spells gaps first s)
    (after : Spells gaps second t) (ends : ∀ c, t.head? = some c → isBare c = false) :
    Spells gaps (first ++ second) (s ++ t) := by
  induction before with
  | done => exact after
  | gap allowed _ ih => exact .gap allowed ih
  | @token tokens rest token apart _ ih =>
    rw [List.append_assoc]
    refine .token token (fun word c head => ?_) ih
    cases rest with
    | nil => exact ends c head
    | cons d more => exact apart word c head

theorem spellsGaps {tokens : List Token} {s blanks : Text} (allowed : ∀ c ∈ blanks, c ∈ gaps)
    (rest : Spells gaps tokens s) : Spells gaps tokens (blanks ++ s) := by
  induction blanks with
  | nil => exact rest
  | cons c more ih =>
    obtain ⟨first, later⟩ := List.forall_mem_cons.mp allowed
    exact .gap first (ih later)

theorem spellsJoin {α : Type} {tokensOf : α → List Token} {textOf : α → Text} (xs : List α)
    (each : ∀ x ∈ xs, Spells gaps (tokensOf x) (textOf x)) :
    Spells gaps ([Token.comma].intercalate (xs.map tokensOf)) (Text.join [','] (xs.map textOf)) := by
  induction xs with
  | nil => exact .done
  | cons x rest ih =>
    obtain ⟨first, later⟩ := List.forall_mem_cons.mp each
    cases rest with
    | nil => simpa [Text.join] using first
    | cons y more =>
      have separated : Spells gaps (.comma :: [Token.comma].intercalate ((y :: more).map tokensOf))
          ([','] ++ Text.join [','] ((y :: more).map textOf)) :=
        .token .comma (by simp [Token.isWord]) (ih later)
      have appended := spellsAppend first separated fun c head => by
        cases Option.some.inj head
        rfl
      simpa only [List.map_cons, List.intercalate_cons_cons, Text.join, List.append_assoc,
        List.singleton_append] using appended

theorem spellsField {key : Text} {tokens : List Token} {s : Text} (space : Text)
    (allowed : ∀ c ∈ space, c ∈ gaps) (value : Spells gaps tokens s) :
    Spells gaps ([.text key, .colon] ++ tokens) (literal key ++ ([':'] ++ (space ++ s))) :=
  .token (.text key) (by simp [Token.isWord])
    (.token .colon (by simp [Token.isWord]) (spellsGaps allowed value))

theorem headEnds {first : Char} {rest : Text} (ends : isBare first = false) :
    ∀ c, (first :: rest).head? = some c → isBare c = false := by
  intro c head
  cases Option.some.inj head
  exact ends

variable (white : ∀ c ∈ gaps, isWhite c = true)
include white

theorem gapEnds {c : Char} (allowed : c ∈ gaps) : isBare c = false := by
  simp [isBare, white c allowed]

theorem spellsEnclosed (opening closing : Token) {tokens : List Token} {s blanks : Text}
    (opens : opening.isWord = false)
    (closes : ∀ c, closing.spelled.head? = some c → isBare c = false)
    (allowed : ∀ c ∈ blanks, c ∈ gaps) (inner : Spells gaps tokens s) :
    Spells gaps (opening :: tokens ++ [closing])
      (opening.spelled ++ (s ++ (blanks ++ closing.spelled))) := by
  refine .token opening (by simp [opens]) (spellsAppend inner ?_ ?_)
  · exact spellsGaps allowed (spellsOne closing)
  · intro c head
    cases blanks with
    | nil => exact closes c head
    | cons d more =>
      cases Option.some.inj head
      exact gapEnds white (allowed c List.mem_cons_self)

theorem spellsArray {tokens : List Token} {s : Text} (blanks : Text)
    (allowed : ∀ c ∈ blanks, c ∈ gaps) (inner : Spells gaps tokens s) :
    Spells gaps (.openArray :: tokens ++ [.closeArray]) (['['] ++ (s ++ (blanks ++ [']']))) :=
  spellsEnclosed white .openArray .closeArray rfl (headEnds rfl) allowed inner

theorem spellsObject {tokens : List Token} {s : Text} (blanks : Text)
    (allowed : ∀ c ∈ blanks, c ∈ gaps) (inner : Spells gaps tokens s) :
    Spells gaps (.openObject :: tokens ++ [.closeObject])
      (['\x7b'] ++ (s ++ (blanks ++ ['\x7d']))) :=
  spellsEnclosed white .openObject .closeObject rfl (headEnds rfl) allowed inner

end Spells

theorem compactSpells {gaps : List Char} (white : ∀ c ∈ gaps, isWhite c = true) (json : Json) :
    Spells gaps json.tokens json.compact := by
  induction json using induction with
  | bool b => exact spellsOne (.bool b)
  | int n => exact spellsOne (.int n)
  | text s => exact spellsOne (.text s)
  | array items each =>
    rw [tokens, compact, itemTokensJoined, compactItemsJoined, List.append_assoc]
    exact spellsArray white [] (by simp) (spellsJoin items each)
  | object fields each =>
    rw [tokens, compact, fieldTokensJoined, compactFieldsJoined, List.append_assoc]
    refine spellsObject white [] (by simp) (spellsJoin fields fun field member => ?_)
    rw [List.append_assoc]
    exact spellsField [] (by simp) (each field member)

def indentGaps : List Char := ['\n', ' ']

theorem newLineGaps (depth : Nat) : ∀ c ∈ newLine depth, c ∈ indentGaps := by
  intro c member
  rcases List.mem_cons.mp member with rfl | blank
  · decide
  · rw [List.eq_of_mem_replicate blank]
    decide

theorem indentWhite : ∀ c ∈ indentGaps, isWhite c = true := List.all_eq_true.mp rfl

theorem indentedSpells (json : Json) (depth : Nat) :
    Spells indentGaps json.tokens (json.indented depth) := by
  have white := indentWhite
  induction json using induction generalizing depth with
  | bool b => exact spellsOne (.bool b)
  | int n => exact spellsOne (.int n)
  | text s => exact spellsOne (.text s)
  | array items each =>
    cases items with
    | nil => exact spellsArray white [] (by simp) .done
    | cons item rest =>
      rw [tokens, indented, itemTokensJoined, indentedItemsJoined, List.append_assoc,
        List.append_assoc]
      refine spellsArray white _ (newLineGaps depth) (spellsJoin _ fun next member => ?_)
      exact spellsGaps (newLineGaps _) (each next member _)
  | object fields each =>
    cases fields with
    | nil => exact spellsObject white [] (by simp) .done
    | cons field rest =>
      rw [tokens, indented, fieldTokensJoined, indentedFieldsJoined, List.append_assoc,
        List.append_assoc]
      refine spellsObject white _ (newLineGaps depth) (spellsJoin _ fun next member => ?_)
      rw [List.append_assoc, List.append_assoc]
      exact spellsGaps (newLineGaps _) (spellsField [' '] (by simp [indentGaps]) (each next member _))

/-! The characters of a token. -/

def escapeValue? (c : Char) : Option Char :=
  if c = '"' ∨ c = '\\' ∨ c = '/' then some c
  else if c = 'n' then some '\n'
  else if c = 'r' then some '\r'
  else if c = 't' then some '\t'
  else if c = 'b' then some (Char.ofNat 0x08)
  else if c = 'f' then some (Char.ofNat 0x0c)
  else none

theorem escapedCases (c : Char) :
    (∃ letter, escapedChar c = ['\\', letter] ∧ escapeValue? letter = some c) ∨
    (c.toNat < 0x20 ∧ escapedChar c = ['\\', 'u'] ++ hexDigits 4 c.toNat) ∨
    (c ≠ '"' ∧ c ≠ '\\' ∧ 0x20 ≤ c.toNat ∧ escapedChar c = [c]) := by
  have ofCode {n : Nat} (code : c.toNat = n) : c = Char.ofNat n := by rw [← code, Char.ofNat_toNat]
  unfold escapedChar
  split
  · rename_i same
    exact Or.inl ⟨'"', rfl, by rw [same]; rfl⟩
  split
  · rename_i same
    exact Or.inl ⟨'\\', rfl, by rw [same]; rfl⟩
  split
  · rename_i same
    exact Or.inl ⟨'n', rfl, by rw [same]; rfl⟩
  split
  · rename_i same
    exact Or.inl ⟨'r', rfl, by rw [same]; rfl⟩
  split
  · rename_i same
    exact Or.inl ⟨'t', rfl, by rw [same]; rfl⟩
  split
  · rename_i same
    exact Or.inl ⟨'b', rfl, by rw [ofCode same]; rfl⟩
  split
  · rename_i same
    exact Or.inl ⟨'f', rfl, by rw [ofCode same]; rfl⟩
  split
  · rename_i control
    exact Or.inr (Or.inl ⟨control, rfl⟩)
  · rename_i unquoted plain _ _ _ _ _ printable
    exact Or.inr (Or.inr ⟨unquoted, plain, Nat.le_of_not_lt printable, rfl⟩)

theorem escapeLetter {letter c : Char} (stands : escapeValue? letter = some c) :
    letter ∈ "\"\\/nrtbf".toList := by
  unfold escapeValue? at stands
  grind

theorem eachChar {s : Text} {p : Char → Prop} [DecidablePred p]
    (checked : s.all (fun c => decide (p c)) = true) : ∀ c ∈ s, p c := by
  simpa using checked

theorem hexDigitsSolid {n : Nat} (control : n < 0x20) :
    ∀ c ∈ hexDigits 4 n, c ≠ '"' ∧ c ≠ '\\' ∧ 0x20 ≤ c.toNat := by
  have checked : ∀ n < 0x20, (hexDigits 4 n).all
      (fun c => decide (c ≠ '"' ∧ c ≠ '\\' ∧ 0x20 ≤ c.toNat)) = true := by decide
  exact eachChar (checked n control)

theorem ofIntNat (m : Nat) : Text.ofInt (.ofNat m) = Nat.toDigits 10 m := by
  simp [Text.ofInt, Int.toString_eq_repr, Int.repr, Nat.repr_eq_ofList_toDigits]

theorem ofIntNegative (m : Nat) : Text.ofInt (.negSucc m) = '-' :: Nat.toDigits 10 (m + 1) := by
  simp [Text.ofInt, Int.toString_eq_repr, Int.repr, Nat.repr_eq_ofList_toDigits]

theorem digitBare {c : Char} (digit : c.isDigit = true) : isBare c = true ∧ 0x20 ≤ c.toNat := by
  have low : 48 ≤ c.toNat := by
    simp only [Char.isDigit, Bool.and_eq_true, decide_eq_true_eq] at digit
    exact UInt32.le_iff_toNat_le.mp digit.1
  have differs : ∀ d : Char, d.isDigit = false → c ≠ d := by
    rintro d other rfl
    rw [digit] at other
    contradiction
  refine ⟨?_, by omega⟩
  simp [isBare, isWhite, mark?, differs ' ' rfl, differs '\t' rfl, differs '\n' rfl, differs '\r' rfl,
    differs '"' rfl, differs '[' rfl, differs ']' rfl, differs '\x7b' rfl, differs '\x7d' rfl,
    differs ',' rfl, differs ':' rfl]

theorem digitsBare (n : Nat) : ∀ c ∈ Nat.toDigits 10 n, isBare c = true ∧ 0x20 ≤ c.toNat :=
  fun _ member => digitBare (Nat.isDigit_of_mem_toDigits (by decide) (by decide) member)

theorem wordBare {token : Token} (word : token.isWord = true) :
    ∀ c ∈ token.spelled, isBare c = true ∧ 0x20 ≤ c.toNat := by
  cases token with
  | bool b => cases b <;> exact eachChar (by decide)
  | int n =>
    cases n with
    | ofNat m =>
      rw [Token.spelled, ofIntNat]
      exact digitsBare m
    | negSucc m =>
      rw [Token.spelled, ofIntNegative]
      exact List.forall_mem_cons.mpr ⟨by decide, digitsBare (m + 1)⟩
  | openArray | closeArray | openObject | closeObject | comma | colon | text s => contradiction

theorem escapedPrintable (c : Char) : ∀ d ∈ escapedChar c, 0x20 ≤ d.toNat := by
  rcases escapedCases c with ⟨letter, same, stands⟩ | ⟨control, same⟩ | ⟨-, -, printable, same⟩
  · have printable : ∀ d ∈ "\"\\/nrtbf".toList, 0x20 ≤ d.toNat :=
      eachChar (by decide)
    rw [same]
    simpa using printable letter (escapeLetter stands)
  · rw [same]
    refine List.forall_mem_append.mpr ⟨eachChar (by decide), fun d member => ?_⟩
    exact (hexDigitsSolid control d member).2.2
  · rw [same]
    simpa using printable

theorem spelledPrintable (token : Token) : ∀ c ∈ token.spelled, 0x20 ≤ c.toNat := by
  cases token with
  | bool b => exact fun c member => (wordBare rfl c member).2
  | int n => exact fun c member => (wordBare rfl c member).2
  | text s =>
    intro c member
    simp only [Token.spelled, literal, List.mem_append, List.mem_singleton, List.mem_flatMap] at member
    rcases member with (rfl | ⟨d, -, inside⟩) | rfl
    · decide
    · exact escapedPrintable d c inside
    · decide
  | openArray | closeArray | openObject | closeObject | comma | colon =>
    exact eachChar (by decide)

theorem spellsPrintable {gaps : List Char} {tokens : List Token} {s : Text}
    (spells : Spells gaps tokens s) : ∀ c ∈ s, c ∈ gaps ∨ 0x20 ≤ c.toNat := by
  induction spells with
  | done => simp
  | gap allowed _ ih => exact List.forall_mem_cons.mpr ⟨Or.inl allowed, ih⟩
  | token token _ _ ih =>
    exact List.forall_mem_append.mpr ⟨fun c member => Or.inr (spelledPrintable token c member), ih⟩

/-! White space outside of string literals can be taken away. -/

inductive Place where
  | outside
  | inside
  | escaped
  deriving DecidableEq, Repr

def Place.next : Place → Char → Place
  | .outside, c => if c = '"' then .inside else .outside
  | .inside, c => if c = '"' then .outside else if c = '\\' then .escaped else .inside
  | .escaped, _ => .inside

def squeezeFrom (place : Place) : Text → Text
  | [] => []
  | c :: rest =>
    if place = .outside ∧ isWhite c then squeezeFrom (place.next c) rest
    else c :: squeezeFrom (place.next c) rest

def squeeze (s : Text) : Text := squeezeFrom .outside s

def Stays (start stop : Place) (s : Text) : Prop :=
  ∀ rest, squeezeFrom start (s ++ rest) = s ++ squeezeFrom stop rest

theorem staysAppend {start middle stop : Place} {s t : Text} (first : Stays start middle s)
    (second : Stays middle stop t) : Stays start stop (s ++ t) := by
  intro rest
  rw [List.append_assoc, first, second, List.append_assoc]

theorem staysBare {s : Text} (bare : ∀ c ∈ s, isBare c = true) : Stays .outside .outside s := by
  induction s with
  | nil => exact fun rest => rfl
  | cons c more ih =>
    obtain ⟨first, later⟩ := List.forall_mem_cons.mp bare
    simp only [isBare, Bool.and_eq_true, Bool.not_eq_true', decide_eq_true_eq] at first
    intro rest
    have same := ih later rest
    simp [squeezeFrom, Place.next, first, same]

theorem staysInside {s : Text} (plain : ∀ c ∈ s, c ≠ '"' ∧ c ≠ '\\') : Stays .inside .inside s := by
  induction s with
  | nil => exact fun rest => rfl
  | cons c more ih =>
    obtain ⟨first, later⟩ := List.forall_mem_cons.mp plain
    intro rest
    have same := ih later rest
    simp [squeezeFrom, Place.next, first, same]

theorem staysEscape (letter : Char) : Stays .inside .inside ['\\', letter] := by
  intro rest
  simp [squeezeFrom, Place.next]

theorem staysEscaped (c : Char) : Stays .inside .inside (escapedChar c) := by
  rcases escapedCases c with ⟨letter, same, -⟩ | ⟨control, same⟩ | ⟨unquoted, plain, -, same⟩
  · rw [same]
    exact staysEscape letter
  · have digits : ∀ d ∈ hexDigits 4 c.toNat, d ≠ '"' ∧ d ≠ '\\' := fun d member =>
      ⟨(hexDigitsSolid control d member).1, (hexDigitsSolid control d member).2.1⟩
    rw [same]
    exact staysAppend (staysEscape 'u') (staysInside digits)
  · rw [same]
    exact staysInside (by simp [unquoted, plain])

theorem staysContent (s : Text) : Stays .inside .inside (s.flatMap escapedChar) := by
  induction s with
  | nil => exact fun rest => rfl
  | cons c rest ih =>
    rw [List.flatMap_cons]
    exact staysAppend (staysEscaped c) ih

theorem staysSpelled (token : Token) : Stays .outside .outside token.spelled := by
  cases token with
  | bool b => exact staysBare fun c member => (wordBare rfl c member).1
  | int n => exact staysBare fun c member => (wordBare rfl c member).1
  | text s =>
    have opens : Stays .outside .inside ['"'] := fun rest => rfl
    have closes : Stays .inside .outside ['"'] := fun rest => rfl
    exact staysAppend (staysAppend opens (staysContent s)) closes
  | openArray | closeArray | openObject | closeObject | comma | colon => exact fun rest => rfl

theorem squeezeSpelled {gaps : List Char} {tokens : List Token} {s : Text}
    (white : ∀ c ∈ gaps, isWhite c = true) (spells : Spells gaps tokens s) :
    squeeze s = tokens.flatMap Token.spelled := by
  induction spells with
  | done => rfl
  | @gap tokens s c allowed _ ih =>
    have unquoted : c ≠ '"' := by
      rintro rfl
      have quote := white _ allowed
      contradiction
    simpa [squeeze, squeezeFrom, Place.next, white c allowed, unquoted] using ih
  | token token _ _ ih =>
    rw [squeeze, staysSpelled, List.flatMap_cons]
    exact congrArg (token.spelled ++ ·) ih

end Json
end ScriptDoc
