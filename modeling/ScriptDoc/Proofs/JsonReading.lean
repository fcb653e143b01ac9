import ScriptDoc.Cli.Render
import ScriptDoc.Proofs.JsonTokens
import ScriptDoc.Proofs.Text

/-! Reading JSON. A text is taken apart into tokens, and the tokens build a value, while the arrays and
objects that are still open wait on a stack. Both written forms of a document read back to the value
they were written from, and the form on a single line is a line of its own among others. -/
namespace ScriptDoc
namespace Json

/-! Numerals and string literals. -/

def natural? (digits : Text) : Option Nat :=
  if digits = ['0'] ∨ (digits ≠ [] ∧ digits.head? ≠ some '0' ∧ digits.all Char.isDigit) then
    some (Nat.ofDigitChars 10 digits 0)
  else none

def integer? (s : Text) : Option Int :=
  if s.head? = some '-' then (natural? s.tail).map fun n : Nat => -(n : Int)
  else (natural? s).map Int.ofNat

def word? (s : Text) : Option Token :=
  if s = "true" then some (.bool true)
  else if s = "false" then some (.bool false)
  else (integer? s).map .int

def hexValue? (c : Char) : Option Nat :=
  if '0' ≤ c ∧ c ≤ '9' then some (c.toNat - 0x30)
  else if 'a' ≤ c ∧ c ≤ 'f' then some (c.toNat - 0x57)
  else if 'A' ≤ c ∧ c ≤ 'F' then some (c.toNat - 0x37)
  else none

def natOfHex (digits : List Nat) : Nat := digits.foldl (fun n digit => 16 * n + digit) 0

def textOfCodes? : List Nat → Option Text
  | [] => some []
  | code :: rest =>
    if code.isValidChar then (textOfCodes? rest).map (Char.ofNat code :: ·)
    else
      match rest with
      | [] => none
      | low :: rest =>
        if code < 0xdc00 ∧ 0xdc00 ≤ low ∧ low < 0xe000 then
          (textOfCodes? rest).map
            (Char.ofNat (0x10000 + (code - 0xd800) * 0x400 + (low - 0xdc00)) :: ·)
        else none

/-! From characters to tokens. -/

inductive Scan where
  | between
  | word (s : Text)
  | content (codes : List Nat)
  | escape (codes : List Nat)
  | code (codes digits : List Nat)
  deriving DecidableEq, Repr

def begin (c : Char) : List Token × Scan :=
  if isWhite c then ([], .between)
  else if c = '"' then ([], .content [])
  else
    match mark? c with
    | some token => ([token], .between)
    | none => ([], .word [c])

def scanStep : Scan → Char → Option (List Token × Scan)
  | .between, c => some (begin c)
  | .word s, c =>
    if isBare c then some ([], .word (s ++ [c]))
    else (word? s).map fun token => (token :: (begin c).1, (begin c).2)
  | .content codes, c =>
    if c = '"' then (textOfCodes? codes).map fun s => ([.text s], .between)
    else if c = '\\' then some ([], .escape codes)
    else if c.toNat < 0x20 then none
    else some ([], .content (codes ++ [c.toNat]))
  | .escape codes, c =>
    if c = 'u' then some ([], .code codes [])
    else (escapeValue? c).map fun d => ([], .content (codes ++ [d.toNat]))
  | .code codes digits, c =>
    (hexValue? c).map fun digit =>
      if digits.length < 3 then ([], .code codes (digits ++ [digit]))
      else ([], .content (codes ++ [natOfHex (digits ++ [digit])]))

def scanEnd : Scan → Option (List Token)
  | .between => some []
  | .word s => (word? s).map fun token => [token]
  | _ => none

def scan (state : Scan) : Text → Option (List Token)
  | [] => scanEnd state
  | c :: rest => do
    let (found, next) ← scanStep state c
    let later ← scan next rest
    some (found ++ later)

/-! From tokens to a value. -/

inductive Frame where
  | array (items : List Json)
  | object (fields : List (Text × Json)) (key : Text)
  deriving Repr

inductive Build where
  | value (stack : List Frame)
  | key (fields : List (Text × Json)) (stack : List Frame)
  | colon (fields : List (Text × Json)) (key : Text) (stack : List Frame)
  | done (json : Json) (stack : List Frame)
  deriving Repr

def buildStep : Build → Token → Option Build
  | .value stack, .bool b => some (.done (.bool b) stack)
  | .value stack, .int n => some (.done (.int n) stack)
  | .value stack, .text s => some (.done (.text s) stack)
  | .value stack, .openArray => some (.value (.array [] :: stack))
  | .value stack, .openObject => some (.key [] stack)
  | .value (.array [] :: stack), .closeArray => some (.done (.array []) stack)
  | .key fields stack, .text key => some (.colon fields key stack)
  | .key [] stack, .closeObject => some (.done (.object []) stack)
  | .colon fields key stack, .colon => some (.value (.object fields key :: stack))
  | .done item (.array items :: stack), .comma => some (.value (.array (items ++ [item]) :: stack))
  | .done item (.array items :: stack), .closeArray =>
    some (.done (.array (items ++ [item])) stack)
  | .done value (.object fields key :: stack), .comma =>
    some (.key (fields ++ [(key, value)]) stack)
  | .done value (.object fields key :: stack), .closeObject =>
    some (.done (.object (fields ++ [(key, value)])) stack)
  | _, _ => none

def build (state : Build) : List Token → Option Json
  | [] =>
    match state with
    | .done json [] => some json
    | _ => none
  | token :: rest => (buildStep state token).bind fun next => build next rest

def read? (s : Text) : Option Json := (scan .between s).bind (build (.value []))

/-! What is written is scanned. -/

theorem scanSilent {state next : Scan} {c : Char} (step : scanStep state c = some ([], next))
    (rest : Text) : scan state (c :: rest) = scan next rest := by
  rw [scan, step]
  cases later : scan next rest <;> simp [later]

theorem scanFound {state next : Scan} {c : Char} {token : Token}
    (step : scanStep state c = some ([token], next)) (rest : Text) :
    scan state (c :: rest) = (scan next rest).map (token :: ·) := by
  rw [scan, step]
  cases later : scan next rest <;> simp [later]

theorem scanWord {s before rest : Text} {token : Token} (bare : ∀ c ∈ s, isBare c = true)
    (reads : word? (before ++ s) = some token)
    (ends : ∀ c, rest.head? = some c → isBare c = false) :
    scan (.word before) (s ++ rest) = (scan .between rest).map (token :: ·) := by
  induction s generalizing before with
  | nil =>
    rw [List.append_nil] at reads
    cases rest with
    | nil => simp [scan, scanEnd, reads]
    | cons c more =>
      have other := ends c rfl
      simp only [List.nil_append, scan, scanStep, other, reads]
      cases later : scan (begin c).2 more <;> simp [later]
  | cons c more ih =>
    obtain ⟨first, later⟩ := List.forall_mem_cons.mp bare
    have step : scanStep (.word before) c = some ([], .word (before ++ [c])) := if_pos first
    rw [List.cons_append, scanSilent step]
    exact ih later (by simpa using reads)

theorem beginWord {c : Char} (bare : isBare c = true) : begin c = ([], .word [c]) := by
  simp only [isBare, Bool.and_eq_true, Bool.not_eq_true', decide_eq_true_eq, Option.isNone_iff_eq_none]
    at bare
  simp [begin, bare]

theorem naturalLeading {n : Nat} (positive : 0 < n) : (Nat.toDigits 10 n).head? ≠ some '0' := by
  induction n using Nat.strongRecOn with
  | ind n ih =>
    rw [Nat.toDigits_eq_if (by decide)]
    split
    · rename_i small
      have digits : ∀ m < 10, 0 < m → m.digitChar ≠ '0' := by decide
      simpa using digits n small positive
    · rw [List.head?_append_of_ne_nil _ Nat.toDigits_ne_nil]
      exact ih (n / 10) (by omega) (by omega)

theorem naturalReads (n : Nat) : natural? (Nat.toDigits 10 n) = some n := by
  have digits : (Nat.toDigits 10 n).all Char.isDigit = true :=
    List.all_eq_true.mpr fun c member =>
      Nat.isDigit_of_mem_toDigits (by decide) (by decide) member
  have wellFormed : Nat.toDigits 10 n = ['0'] ∨ (Nat.toDigits 10 n ≠ [] ∧
      (Nat.toDigits 10 n).head? ≠ some '0' ∧ (Nat.toDigits 10 n).all Char.isDigit) := by
    rcases Nat.eq_zero_or_pos n with rfl | positive
    · exact Or.inl (Nat.toDigits_zero 10)
    · exact Or.inr ⟨Nat.toDigits_ne_nil, naturalLeading positive, digits⟩
  rw [natural?, if_pos wellFormed, Nat.ofDigitChars_ten_toDigits]

theorem integerReads (n : Int) : integer? (Text.ofInt n) = some n := by
  cases n with
  | ofNat m =>
    have unsigned : (Nat.toDigits 10 m).head? ≠ some '-' := fun head => by
      have digit := Nat.isDigit_of_mem_toDigits (by decide) (by decide) (List.mem_of_head? head)
      contradiction
    rw [ofIntNat, integer?, if_neg unsigned, naturalReads]
    rfl
  | negSucc m =>
    have signed : ('-' :: Nat.toDigits 10 (m + 1)).head? = some '-' := rfl
    rw [ofIntNegative, integer?, if_pos signed, List.tail_cons, naturalReads]
    rfl

theorem wordReads {token : Token} (word : token.isWord = true) :
    word? token.spelled = some token := by
  cases token with
  | bool b => cases b <;> rfl
  | int n =>
    have notTrue : Text.ofInt n ≠ "true" := fun same => by
      have reads := integerReads n
      rw [same] at reads
      contradiction
    have notFalse : Text.ofInt n ≠ "false" := fun same => by
      have reads := integerReads n
      rw [same] at reads
      contradiction
    rw [Token.spelled, word?, if_neg notTrue, if_neg notFalse, integerReads]
    rfl
  | openArray | closeArray | openObject | closeObject | comma | colon | text s => contradiction

theorem scanWordToken {token : Token} {rest : Text} (word : token.isWord = true)
    (ends : ∀ c, rest.head? = some c → isBare c = false) :
    scan .between (token.spelled ++ rest) = (scan .between rest).map (token :: ·) := by
  have reads := wordReads word
  have bare := wordBare word
  cases letters : token.spelled with
  | nil =>
    rw [letters] at reads
    contradiction
  | cons c more =>
    rw [letters] at reads bare
    obtain ⟨first, later⟩ := List.forall_mem_cons.mp bare
    have step : scanStep .between c = some ([], .word [c]) := congrArg some (beginWord first.1)
    rw [List.cons_append, scanSilent step]
    exact scanWord (fun d member => (later d member).1) reads ends

theorem controlDigits : ∀ n < 0x20,
    hexDigits 4 n = ['0', '0', (n / 16).digitChar, (n % 16).digitChar] := by
  decide

theorem hexReads : ∀ digit < 16, hexValue? digit.digitChar = some digit := by
  decide

theorem scanBackslash (codes : List Nat) (rest : Text) :
    scan (.content codes) ('\\' :: rest) = scan (.escape codes) rest :=
  scanSilent rfl rest

theorem scanControl {n : Nat} (control : n < 0x20) (codes : List Nat) (rest : Text) :
    scan (.content codes) (['\\', 'u'] ++ hexDigits 4 n ++ rest) =
      scan (.content (codes ++ [n])) rest := by
  have value : natOfHex [0, 0, n / 16, n % 16] = n := by
    simp only [natOfHex, List.foldl_cons, List.foldl_nil]
    omega
  have high : scanStep (.code codes [0, 0]) (n / 16).digitChar =
      some ([], .code codes [0, 0, n / 16]) := by
    simp [scanStep, hexReads (n / 16) (by omega)]
  have low : scanStep (.code codes [0, 0, n / 16]) (n % 16).digitChar =
      some ([], .content (codes ++ [n])) := by
    simp [scanStep, hexReads (n % 16) (by omega), value]
  have zeros : ∀ s, scan (.escape codes) ('u' :: '0' :: '0' :: s) = scan (.code codes [0, 0]) s :=
    fun s => (scanSilent rfl _).trans ((scanSilent rfl _).trans (scanSilent rfl s))
  rw [controlDigits n control]
  simp only [List.cons_append, List.nil_append]
  rw [scanBackslash, zeros, scanSilent high, scanSilent low]

theorem scanEscaped (c : Char) (codes : List Nat) (rest : Text) :
    scan (.content codes) (escapedChar c ++ rest) = scan (.content (codes ++ [c.toNat])) rest := by
  rcases escapedCases c with
    ⟨letter, same, stands⟩ | ⟨control, same⟩ | ⟨unquoted, plain, printable, same⟩
  · have named : letter ≠ 'u' := by
      rintro rfl
      contradiction
    have step : scanStep (.escape codes) letter = some ([], .content (codes ++ [c.toNat])) := by
      simp [scanStep, named, stands]
    rw [same, List.cons_append, List.singleton_append, scanBackslash, scanSilent step]
  · rw [same, scanControl control]
  · have step : scanStep (.content codes) c = some ([], .content (codes ++ [c.toNat])) := by
      simp [scanStep, unquoted, plain, Nat.not_lt.mpr printable]
    rw [same, List.singleton_append, scanSilent step]

theorem codesRead (s : Text) : textOfCodes? (s.map Char.toNat) = some s := by
  induction s with
  | nil => rfl
  | cons c rest ih =>
    have valid : c.toNat.isValidChar := c.valid
    rw [List.map_cons, textOfCodes?.eq_def]
    simp only [if_pos valid, ih, Char.ofNat_toNat, Option.map_some]

theorem scanContent (s : Text) (codes : List Nat) (rest : Text) :
    scan (.content codes) (s.flatMap escapedChar ++ rest) =
      scan (.content (codes ++ s.map Char.toNat)) rest := by
  induction s generalizing codes with
  | nil => simp
  | cons c more ih => simp [scanEscaped, ih]

theorem scanLiteral (s rest : Text) :
    scan .between (literal s ++ rest) = (scan .between rest).map (.text s :: ·) := by
  have closes : scanStep (.content (s.map Char.toNat)) '"' = some ([.text s], .between) := by
    simp [scanStep, codesRead]
  have opens : scanStep .between '"' = some ([], .content []) := rfl
  rw [literal, List.append_assoc, List.append_assoc, List.singleton_append, scanSilent opens,
    scanContent, List.nil_append, List.singleton_append, scanFound closes]

theorem scanSpelled {gaps : List Char} {tokens : List Token} {s : Text}
    (white : ∀ c ∈ gaps, isWhite c = true) (spells : Spells gaps tokens s) :
    scan .between s = some tokens := by
  induction spells with
  | done => rfl
  | @gap tokens s c allowed _ ih =>
    have step : scanStep .between c = some ([], .between) := by
      simp [scanStep, begin, white c allowed]
    rw [scanSilent step, ih]
  | token token ends _ ih =>
    cases token with
    | bool b => rw [scanWordToken rfl (ends rfl), ih, Option.map_some]
    | int n => rw [scanWordToken rfl (ends rfl), ih, Option.map_some]
    | text s => rw [Token.spelled, scanLiteral, ih, Option.map_some]
    | openArray | closeArray | openObject | closeObject | comma | colon =>
      rw [Token.spelled, List.singleton_append, scanFound rfl, ih, Option.map_some]

/-! What is scanned builds the value it was written from. -/

theorem buildItems {items : List Json} (stack : List Frame) (before : List Json) (rest : List Token)
    (filled : items ≠ [])
    (each : ∀ item ∈ items, ∀ stack rest,
      build (.value stack) (item.tokens ++ rest) = build (.done item stack) rest) :
    build (.value (.array before :: stack)) (itemTokens items ++ .closeArray :: rest) =
      build (.done (.array (before ++ items)) stack) rest := by
  induction items generalizing before with
  | nil => contradiction
  | cons item more ih =>
    obtain ⟨first, later⟩ := List.forall_mem_cons.mp each
    cases more with
    | nil =>
      rw [itemTokens, first]
      rfl
    | cons next others =>
      have continued := ih (before ++ [item]) (by simp) later
      rw [List.append_assoc] at continued
      rw [itemTokens, List.append_assoc, List.append_assoc, first]
      exact continued

theorem buildFields {fields : List (Text × Json)} (stack : List Frame)
    (before : List (Text × Json)) (rest : List Token) (filled : fields ≠ [])
    (each : ∀ field ∈ fields, ∀ stack rest,
      build (.value stack) (field.2.tokens ++ rest) = build (.done field.2 stack) rest) :
    build (.key before stack) (fieldTokens fields ++ .closeObject :: rest) =
      build (.done (.object (before ++ fields)) stack) rest := by
  induction fields generalizing before with
  | nil => contradiction
  | cons field more ih =>
    obtain ⟨key, value⟩ := field
    obtain ⟨first, later⟩ := List.forall_mem_cons.mp each
    -- The key and the colon put the object on the stack, with the field that is being read.
    have opened : ∀ tokens, build (.key before stack) ([.text key, .colon] ++ tokens) =
        build (.value (.object before key :: stack)) tokens := fun tokens => rfl
    cases more with
    | nil =>
      rw [fieldTokens, List.append_assoc, opened, first]
      rfl
    | cons next others =>
      have continued := ih (before ++ [(key, value)]) (by simp) later
      rw [List.append_assoc] at continued
      rw [fieldTokens, List.append_assoc, List.append_assoc, List.append_assoc, opened, first]
      exact continued

theorem buildTokens (json : Json) (stack : List Frame) (rest : List Token) :
    build (.value stack) (json.tokens ++ rest) = build (.done json stack) rest := by
  induction json using induction generalizing stack rest with
  | bool b => rfl
  | int n => rfl
  | text s => rfl
  | array items each =>
    rw [tokens, List.append_assoc, List.singleton_append]
    cases items with
    | nil => rfl
    | cons item more => exact buildItems stack [] rest (by simp) each
  | object fields each =>
    rw [tokens, List.append_assoc, List.singleton_append]
    cases fields with
    | nil => rfl
    | cons field more => exact buildFields stack [] rest (by simp) each

theorem readSpelled {gaps : List Char} {json : Json} {s : Text}
    (white : ∀ c ∈ gaps, isWhite c = true) (spells : Spells gaps json.tokens s) :
    read? s = some json := by
  have built := buildTokens json [] []
  rw [List.append_nil] at built
  rw [read?, scanSpelled white spells, Option.bind_some, built]
  rfl

theorem spellsLine {tokens : List Token} {s : Text} (spells : Spells indentGaps tokens s) :
    Spells indentGaps tokens (s ++ ['\n']) := by
  have feed : Spells indentGaps [] ['\n'] := .gap (by simp [indentGaps]) .done
  have ended := spellsAppend spells feed (headEnds rfl)
  rwa [List.append_nil] at ended

end Json
open Json

namespace Document

theorem jsonTextSpells (d : Document) : Spells indentGaps d.toJson.tokens d.toJsonText :=
  spellsLine (indentedSpells d.toJson 0)

theorem jsonLineSpells (d : Document) : Spells indentGaps d.toJson.tokens d.toJsonLine :=
  spellsLine (compactSpells indentWhite d.toJson)

theorem jsonLinePlain (d : Document) : '\n' ∉ d.toJson.compact := by
  intro member
  have spells : Spells [] d.toJson.tokens d.toJson.compact := compactSpells (by simp) d.toJson
  have printable := spellsPrintable spells '\n' member
  simp at printable

theorem jsonLineReads (d : Document) : read? d.toJson.compact = some d.toJson :=
  readSpelled indentWhite (compactSpells indentWhite d.toJson)

end Document

theorem renderJsonLines (today : Text) {documents : List Document} (several : documents.length ≠ 1) :
    renderAll today "json" documents = .ok (documents.flatMap Document.toJsonLine) := by
  have known : Catalogue.standard.get "json" = .ok .json := by rfl
  rw [renderAll, known]
  simp only [ne_eq, not_true_eq_false, false_and, if_false]
  split
  · contradiction
  · rfl

theorem splitJsonLines (documents : List Document) :
    Text.splitOn '\n' (documents.flatMap Document.toJsonLine) =
      documents.map (fun d => d.toJson.compact) ++ [[]] := by
  induction documents with
  | nil => rfl
  | cons d rest ih =>
    rw [List.flatMap_cons, Document.toJsonLine, List.append_assoc, List.singleton_append,
      Text.splitOnFirst d.jsonLinePlain, ih]
    rfl

theorem jsonOutputsFaithful :
    (∀ d : Document,
      read? d.toJsonText = some d.toJson ∧ read? d.toJsonLine = some d.toJson ∧
      squeeze d.toJsonText = squeeze d.toJsonLine ∧
      ∃ line, d.toJsonLine = line ++ ['\n'] ∧ '\n' ∉ line) ∧
    ∀ (today : Text) (documents : List Document), 2 ≤ documents.length →
      ∃ text lines, renderAll today "json" documents = .ok text ∧
        Text.splitOn '\n' text = lines ++ [[]] ∧
        lines.map read? = documents.map fun d => some d.toJson := by
  refine ⟨fun d => ⟨?_, ?_, ?_, ?_⟩, fun today documents several => ?_⟩
  · exact readSpelled indentWhite d.jsonTextSpells
  · exact readSpelled indentWhite d.jsonLineSpells
  · rw [squeezeSpelled indentWhite d.jsonTextSpells, squeezeSpelled indentWhite d.jsonLineSpells]
  · exact ⟨d.toJson.compact, rfl, d.jsonLinePlain⟩
  · refine ⟨_, _, renderJsonLines today (by omega), splitJsonLines documents, ?_⟩
    rw [List.map_map]
    exact List.map_congr_left fun d _ => d.jsonLineReads

def trickyScript : Document :=
  { path := some "a\nb"
    metadata := { description := some ("\"\\\n\t\r" ++ [Char.ofNat 0, Char.ofNat 0x1b, 'é']) }
    blocks := [{ visibility := .command, line := -1, stdin := some {} }]
    warnings := [⟨1, ",]"⟩] }

theorem jsonOutputsFaithfulForTwo :
    2 ≤ [trickyScript, {}].length ∧
    ∃ text lines, renderAll "2026-01-01" "json" [trickyScript, {}] = .ok text ∧
      Text.splitOn '\n' text = lines ++ [[]] ∧
      lines.map read? = [some trickyScript.toJson, some ({} : Document).toJson] :=
  ⟨by decide, jsonOutputsFaithful.2 "2026-01-01" [trickyScript, {}] (by decide)⟩

end ScriptDoc
