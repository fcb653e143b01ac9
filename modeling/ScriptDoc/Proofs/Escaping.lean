import Mathlib.Data.List.Basic
import ScriptDoc.Completion.Script
import ScriptDoc.ManPage
import ScriptDoc.Proofs.ShellWords

/-! Escaping that can be undone. A manual page puts a backslash before some characters in two rounds,
and the second goes over what the first has written. Backslashes come first, so that no backslash of the
second round is escaped again, and the two rounds are one pass over the characters. A zsh script leaves
its apostrophes at every apostrophe of a text and enters them again, within one and the same word. -/
namespace ScriptDoc

namespace Backslash

structure Sign where
  char : Char
  escaped : Bool
  deriving DecidableEq, Repr

def readFrom (behind : Bool) : Text → Option (List Sign)
  | [] => if behind then none else some []
  | c :: rest =>
    if behind = false ∧ c = '\\' then readFrom true rest
    else (readFrom false rest).map (⟨c, behind⟩ :: ·)

def signs (s : Text) : Option (List Sign) := readFrom false s

def unescape (s : Text) : Option Text := (signs s).map fun read => read.map Sign.char

def bare (s : Text) : Option Text :=
  (signs s).map fun read => (read.filter fun sign => !sign.escaped).map Sign.char

def escape (special s : Text) : Text :=
  s.flatMap fun c => if special.contains c then ['\\', c] else [c]

/- Writing that puts a backslash before each special character and leaves the others alone. -/
structure OnePass (special : Text) (write : Text → Text) : Prop where
  each : ∀ s, write s = escape special s
  undone : ∀ s, unescape (write s) = some s
  unescaped : ∀ s, bare (write s) = some (s.filter fun c => !special.contains c)
  injective : Function.Injective write
  append : ∀ s t, write (s ++ t) = write s ++ write t

section Reading
variable {c : Char} {special : Text}

theorem readEscaped (c : Char) (rest : Text) :
    readFrom false ('\\' :: c :: rest) = (readFrom false rest).map (⟨c, true⟩ :: ·) := by
  simp [readFrom]

theorem readBare (other : c ≠ '\\') (rest : Text) :
    readFrom false (c :: rest) = (readFrom false rest).map (⟨c, false⟩ :: ·) :=
  if_neg fun both => other both.2

theorem escapeRead (marks : special.contains '\\' = true) (s : Text) :
    signs (escape special s) = some (s.map fun c => ⟨c, special.contains c⟩) := by
  induction s with
  | nil => rfl
  | cons c s ih =>
    rw [signs] at ih
    rw [signs, escape, List.flatMap_cons, ← escape, List.map_cons]
    cases found : special.contains c with
    | true =>
      rw [if_pos rfl, List.cons_append, List.singleton_append, readEscaped, ih]
      rfl
    | false =>
      have other : c ≠ '\\' := fun same => by
        rw [same, marks] at found
        contradiction
      rw [if_neg (by decide), List.singleton_append, readBare other, ih]
      rfl

theorem escapeUndone (marks : special.contains '\\' = true) (s : Text) :
    unescape (escape special s) = some s := by
  rw [unescape, escapeRead marks, Option.map_some, List.map_map]
  exact congrArg some (List.map_id s)

theorem escapeOnePass (marks : special.contains '\\' = true) : OnePass special (escape special) where
  each _ := rfl
  undone := escapeUndone marks
  unescaped s := by
    rw [bare, escapeRead marks, Option.map_some, List.filter_map, List.map_map]
    exact congrArg some (List.map_id _)
  injective s t same := by
    have read := escapeUndone marks s
    rw [same, escapeUndone marks] at read
    exact (Option.some.inj read).symm
  append _ _ := List.flatMap_append

theorem roundsEscape (other : c ≠ '\\') (s : Text) :
    Text.replace c ['\\', c] (Text.replace '\\' ['\\', '\\'] s) = escape ['\\', c] s := by
  unfold Text.replace escape
  rw [List.flatMap_assoc]
  congr 1
  funext x
  by_cases backslash : x = '\\'
  · simp [backslash, Ne.symm other]
  · by_cases special : x = c <;> simp [backslash, special, other]

end Reading
end Backslash

namespace Dialect
variable (w : Conventions)

theorem readInside {c : Char} (other : c ≠ '\'') (rest : Text) :
    (posix w).read ⟨some .single, false⟩ (c :: rest) =
      ((posix w).read ⟨some .single, false⟩ rest).map (prepend [c]) := by
  have stands : (posix w).stands ⟨some .single, false⟩ c = some [c] := by
    simp [stands, posix, turned, Quote.sign, expands, other]
  have next : (posix w).next ⟨some .single, false⟩ c = ⟨some .single, false⟩ := by
    simp [next, posix, turned, Quote.sign, other]
  rw [read, if_neg (by simp), stands, next, Option.bind_some]

theorem readApostrophe (rest : Text) :
    (posix w).read ⟨some .single, false⟩ ('\'' :: '\\' :: '\'' :: '\'' :: rest) =
      ((posix w).read ⟨some .single, false⟩ rest).map (prepend ['\'']) := by
  have inside : (posix w).ends '\\' = false := by
    rw [ends, (posix w).conventions.solid rfl]
    rfl
  have backslash : (posix w).read {} ('\\' :: '\'' :: '\'' :: rest) =
      (posix w).read ⟨none, true⟩ ('\'' :: '\'' :: rest) :=
    (posix w).readLost (by simp [inside]) rfl _
  have escaped : (posix w).read ⟨none, true⟩ ('\'' :: '\'' :: rest) =
      ((posix w).read {} ('\'' :: rest)).map (prepend ['\'']) := by
    rw [read, if_neg (by simp)]
    rfl
  have closed := (posix w).readClose .single ('\\' :: '\'' :: '\'' :: rest)
  have opened := (posix w).readOpen .single rest
  rw [Quote.sign] at closed opened
  rw [closed, backslash, escaped, opened]

theorem readApostrophes (s rest : Text) :
    (posix w).read ⟨some .single, false⟩ (Zsh.escape s ++ rest) =
      ((posix w).read ⟨some .single, false⟩ rest).map (prepend s) := by
  induction s with
  | nil => exact Option.map_id'.symm
  | cons c s ih =>
    have first : (posix w).read ⟨some .single, false⟩ (Zsh.escape (c :: s) ++ rest) =
        ((posix w).read ⟨some .single, false⟩ (Zsh.escape s ++ rest)).map (prepend [c]) := by
      rw [Zsh.escape, Text.replace, List.flatMap_cons]
      by_cases apostrophe : c = '\''
      · rw [if_pos apostrophe, apostrophe]
        exact readApostrophe w (Zsh.escape s ++ rest)
      · rw [if_neg apostrophe]
        exact readInside w apostrophe (Zsh.escape s ++ rest)
    rw [first, ih, Option.map_map]
    rfl

theorem wordInApostrophes (s : Text) {rest : Text} (stops : (posix w).Stops rest) :
    (posix w).words ('\'' :: (Zsh.escape s ++ '\'' :: rest)) =
      ((posix w).words rest).map (addWord s) := by
  have opened := (posix w).readOpen .single (Zsh.escape s ++ '\'' :: rest)
  have closed := (posix w).readClose .single rest
  rw [Quote.sign] at opened closed
  have whole : (posix w).read {} ('\'' :: (Zsh.escape s ++ '\'' :: rest)) = some (s, rest) := by
    rw [opened, readApostrophes, closed, show (posix w).read {} rest = _ from stops, Option.map_some,
      prepend, List.append_nil]
  exact (posix w).wordsRead ((posix w).signInside .single) whole

end Dialect

/- Manual pages escape in one pass that can be undone, and so they do within quotes, where no quote is
left without a backslash. A text that zsh scripts put in apostrophes is read as one word, the text. -/
theorem escapingReversible :
    Backslash.OnePass ['\\', '-'] ManPage.escape ∧
    (∃ inner : Text → Text, (∀ s, ManPage.quote s = '"' :: (inner s ++ ['"'])) ∧
      Backslash.OnePass ['\\', '"'] inner ∧
      ∀ s, ∃ bare, Backslash.bare (inner s) = some bare ∧ '"' ∉ bare) ∧
    ∀ (w : Conventions) (s : Text),
      (Dialect.posix w).words ('\'' :: (Zsh.escape s ++ ['\''])) = some ([s], []) := by
  have page : ManPage.escape = Backslash.escape ['\\', '-'] :=
    funext fun s => Backslash.roundsEscape (by decide) s
  have quoted (s : Text) : ManPage.quote s = '"' :: (Backslash.escape ['\\', '"'] s ++ ['"']) := by
    rw [ManPage.quote, Backslash.roundsEscape (by decide)]
    rfl
  have inner : Backslash.OnePass ['\\', '"'] (Backslash.escape ['\\', '"']) :=
    Backslash.escapeOnePass (by decide)
  refine ⟨?_, ⟨_, quoted, inner, fun s => ⟨_, inner.unescaped s, by simp⟩⟩, fun w s => ?_⟩
  · rw [page]
    exact Backslash.escapeOnePass (by decide)
  · rw [Dialect.wordInApostrophes w s (Dialect.stopsNil _), Dialect.wordsNil]
    rfl

end ScriptDoc
