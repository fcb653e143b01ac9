import Mathlib.Data.List.Forall2
import ScriptDoc.Proofs.LineEndings
import ScriptDoc.Proofs.SubcommandTokens
import ScriptDoc.Proofs.ToolkitLaws

/-! The lines of what is written. A text made of whole lines is known from its lines, leaving control
sequences out of a text leaves its lines apart, and what a document read from a script says about a
record, or a name, fits on one line. -/
namespace ScriptDoc

section Lines

def WholeLines (s : Text) : Prop := s = [] ∨ s.getLast? = some '\n'

theorem wholeAppend {a b : Text} (first : WholeLines a) (second : WholeLines b) :
    WholeLines (a ++ b) := by
  rcases second with rfl | ended
  · rwa [List.append_nil]
  · right
    rw [List.getLast?_append, ended]
    rfl

theorem linesBehind (a b : Text) :
    Text.lines (a ++ '\n' :: b) = Text.lines (a ++ ['\n']) ++ Text.lines b := by
  induction a using lineInduction with
  | last s plain =>
    rw [linesNext plain, linesNext plain]
    rfl
  | next line rest plain ih =>
    rw [List.append_assoc, List.cons_append, linesNext plain, ih, List.append_assoc,
      List.cons_append, linesNext plain, List.cons_append]

theorem linesAppend {a : Text} (whole : WholeLines a) (b : Text) :
    Text.lines (a ++ b) = Text.lines a ++ Text.lines b := by
  rcases whole with rfl | ended
  · rfl
  · obtain ⟨front, rfl⟩ := List.getLast?_eq_some_iff.mp ended
    rw [List.append_assoc, List.singleton_append, linesBehind]

theorem linesEnded {bodies : List Text} (plain : ∀ s ∈ bodies, '\n' ∉ s) (rest : Text) :
    Text.lines (bodies.flatMap (fun s => s ++ ['\n']) ++ rest) =
      bodies.map (fun s => s ++ ['\n']) ++ Text.lines rest := by
  induction bodies with
  | nil => rfl
  | cons body more ih =>
    rw [List.flatMap_cons, List.append_assoc, List.append_assoc, List.singleton_append,
      linesNext (plain body List.mem_cons_self),
      ih fun s member => plain s (List.mem_cons_of_mem _ member)]
    rfl

end Lines

section Stripped

theorem strippedEnded {bodies : List Text} {out : Text}
    (stripped : Stripped (bodies.flatMap fun s => s ++ ['\n']) out) :
    ∃ shown, List.Forall₂ Stripped bodies shown ∧ out = shown.flatMap fun s => s ++ ['\n'] := by
  induction bodies generalizing out with
  | nil => exact ⟨[], .nil, strippedPlain stripped List.not_mem_nil⟩
  | cons body more ih =>
    rw [List.flatMap_cons, List.append_assoc, List.singleton_append] at stripped
    obtain ⟨front, back, rfl, first, later⟩ := strippedFeed stripped
    obtain ⟨shown, each, rfl⟩ := ih later
    exact ⟨front :: shown, .cons first each, by simp⟩

theorem shownPlain {bodies shown : List Text} (plain : ∀ s ∈ bodies, '\n' ∉ s)
    (each : List.Forall₂ Stripped bodies shown) : ∀ s ∈ shown, '\n' ∉ s := by
  induction each with
  | nil => simp
  | cons first _ ih =>
    obtain ⟨body, more⟩ := List.forall_mem_cons.mp plain
    exact List.forall_mem_cons.mpr
      ⟨fun member => body ((strippedSublist first).subset member), ih more⟩

end Stripped

section Strings

theorem stringsOneLine (t : Text) : ∀ s ∈ (Document.ofText t).strings, '\n' ∉ s := by
  have plain := linesPlain t
  rw [Document.ofText, readingInterpretsSegments]
  exact interpretPlain (segmentsSound plain (segmentsExist plain))

theorem blockStringsOneLine {t : Text} {b : Block} (member : b ∈ (Document.ofText t).blocks) :
    ∀ s ∈ b.strings, '\n' ∉ s := blockStringsPlain (stringsOneLine t) member

end Strings

end ScriptDoc
