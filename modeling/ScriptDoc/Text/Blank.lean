import ScriptDoc.Text.Basic

/-!
Blanks. Trimming and word splitting know the blanks of every script; the line shapes of a
script know the six ASCII blanks only.
-/
namespace ScriptDoc

def isAsciiBlank (c : Char) : Bool :=
  c = ' ' || ('\t' ≤ c && c ≤ '\r')

def isBlank (c : Char) : Bool :=
  let n := c.toNat
  isAsciiBlank c || (0x1c ≤ n && n ≤ 0x1f) || n = 0x85 || n = 0xa0 || n = 0x1680 ||
    (0x2000 ≤ n && n ≤ 0x200a) || n = 0x2028 || n = 0x2029 || n = 0x202f || n = 0x205f || n = 0x3000

def isWordChar (c : Char) : Bool := c.isAlphanum || c = '_'

namespace Text

def trimLeft (s : Text) : Text := s.dropWhile isBlank

def trimRight (s : Text) : Text := (s.reverse.dropWhile isBlank).reverse

def trim (s : Text) : Text := trimRight (trimLeft s)

def wordsFrom (word : Text) : Text → List Text
  | [] => if word.isEmpty then [] else [word]
  | c :: rest =>
    if isBlank c then
      if word.isEmpty then wordsFrom [] rest else word :: wordsFrom [] rest
    else wordsFrom (word ++ [c]) rest

def words (s : Text) : List Text := wordsFrom [] s

theorem trimLeftShorter (s : Text) : (trimLeft s).length ≤ s.length :=
  (List.dropWhile_sublist _).length_le

theorem trimRightShorter (s : Text) : (trimRight s).length ≤ s.length := by
  have h := (List.dropWhile_sublist (l := s.reverse) isBlank).length_le
  simpa [trimRight] using h

theorem trimShorter (s : Text) : (trim s).length ≤ s.length :=
  Nat.le_trans (trimRightShorter _) (trimLeftShorter _)

end Text
end ScriptDoc
