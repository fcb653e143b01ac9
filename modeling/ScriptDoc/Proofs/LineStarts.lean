import ScriptDoc.ManPage
import ScriptDoc.Proofs.PrintedLines

/-! Where the lines of a text start. Escaping, quoting and upper-casing rewrite a text character by
character. None of them adds or drops a line feed, or makes a line start with a control character of
troff that did not start with it before. -/
namespace ScriptDoc

def LaterLine (c : Char) (s : Text) : Prop := ['\n', c] <:+: s

def StartsLine (c : Char) (s : Text) : Prop := s.head? = some c ∨ LaterLine c s

instance (c : Char) (s : Text) : Decidable (LaterLine c s) :=
  inferInstanceAs (Decidable (['\n', c] <:+: s))

instance (c : Char) (s : Text) : Decidable (StartsLine c s) :=
  inferInstanceAs (Decidable (s.head? = some c ∨ LaterLine c s))

section Lines
variable {c x : Char} {s : Text}

theorem laterNil : ¬ LaterLine c [] := by simp [LaterLine]

theorem laterCons : LaterLine c (x :: s) ↔ (x = '\n' ∧ s.head? = some c) ∨ LaterLine c s :=
  Text.pairCons

theorem startsBehindFeed : StartsLine c s ↔ LaterLine c ('\n' :: s) := by
  simp [laterCons, StartsLine]

theorem laterAppend {a b : Text} : LaterLine c (a ++ b) ↔
    LaterLine c a ∨ (a.getLast? = some '\n' ∧ b.head? = some c) ∨ LaterLine c b := by
  induction a with
  | nil => simp [laterNil]
  | cons y rest ih =>
    rw [List.cons_append, laterCons, ih, laterCons]
    cases rest with
    | nil => simp [laterNil]
    | cons z more =>
      rw [List.cons_append, List.head?_cons, List.head?_cons, List.getLast?_cons_cons, or_assoc]

theorem laterPlain (plain : '\n' ∉ s) : ¬ LaterLine c s := fun later =>
  plain (later.subset List.mem_cons_self)

theorem laterBehind {front : Text} (plain : '\n' ∉ front) :
    LaterLine c (front ++ s) ↔ LaterLine c s := by
  have unended : front.getLast? ≠ some '\n' := fun last => plain (List.mem_of_getLast? last)
  simp [laterAppend, laterPlain plain, unended]

theorem laterMiddle {a b : Text} (feed : x ≠ '\n') (other : x ≠ c) :
    LaterLine c (a ++ x :: b) ↔ LaterLine c a ∨ LaterLine c b := by
  simp [laterAppend, laterCons, feed, other]

theorem startsMiddle {a b : Text} (feed : x ≠ '\n') (other : x ≠ c) :
    StartsLine c (a ++ x :: b) ↔ StartsLine c a ∨ LaterLine c b := by
  rw [startsBehindFeed, ← List.cons_append, laterMiddle feed other, ← startsBehindFeed]

theorem startsBehind {front : Text} (plain : '\n' ∉ x :: front) (other : x ≠ c) :
    StartsLine c (x :: front ++ s) ↔ LaterLine c s := by
  rw [StartsLine, laterBehind plain]
  simp [other]

theorem startsNil : ¬ StartsLine c [] := by simp [StartsLine, laterNil]

theorem startsPlain (plain : '\n' ∉ s) : StartsLine c s ↔ s.head? = some c := by
  simp [StartsLine, laterPlain plain]

theorem startsPieces (solid : c ≠ '\n') (s : Text) :
    ((∃ line ∈ Text.splitOn '\n' s, line.head? = some c) ↔ StartsLine c s) ∧
      ((∃ line ∈ (Text.splitOn '\n' s).tail, line.head? = some c) ↔ LaterLine c s) := by
  induction s using lineInduction with
  | last s plain => simp [Text.splitOnWhole plain, startsPlain plain, laterPlain plain]
  | next line rest plain ih =>
    have behind : LaterLine c (line ++ '\n' :: rest) ↔ StartsLine c rest := by
      rw [laterBehind plain, startsBehindFeed]
    rw [Text.splitOnFirst plain, StartsLine, behind, ← ih.1]
    refine ⟨?_, Iff.rfl⟩
    cases line with
    | nil => simp [solid.symm]
    | cons x line => simp

end Lines

structure KeepsStarts (c : Char) (f : Char → Text) : Prop where
  feed : f '\n' = ['\n']
  other : ∀ x, x ≠ '\n' → '\n' ∉ f x ∧ ∃ y rest, f x = y :: rest ∧ (y = c ↔ x = c)

section Rewriting
variable {c : Char} {f : Char → Text}

theorem keptHead (keeps : KeepsStarts c f) (s : Text) :
    (s.flatMap f).head? = some c ↔ s.head? = some c := by
  cases s with
  | nil => rfl
  | cons x s =>
    by_cases feed : x = '\n'
    · subst feed
      simp [keeps.feed]
    · obtain ⟨_, y, rest, same, first⟩ := keeps.other x feed
      simp [same, first]

theorem keptLater (keeps : KeepsStarts c f) (s : Text) :
    LaterLine c (s.flatMap f) ↔ LaterLine c s := by
  induction s with
  | nil => rfl
  | cons x s ih =>
    rw [List.flatMap_cons, laterCons]
    by_cases feed : x = '\n'
    · subst feed
      rw [keeps.feed, List.singleton_append, laterCons, keptHead keeps, ih]
    · rw [laterBehind (keeps.other x feed).1, ih]
      simp [feed]

theorem keptStarts (keeps : KeepsStarts c f) (s : Text) :
    StartsLine c (s.flatMap f) ↔ StartsLine c s := by
  rw [StartsLine, keptHead keeps, keptLater keeps, StartsLine]

theorem replaceKeeps {old first : Char} {rest : Text} (feed : old ≠ '\n') (other : old ≠ c)
    (fresh : first ≠ c) (plain : '\n' ∉ first :: rest) :
    KeepsStarts c fun x => if x = old then first :: rest else [x] := by
  refine ⟨if_neg feed.symm, fun x unfed => ?_⟩
  by_cases replaced : x = old
  · subst replaced
    rw [if_pos rfl]
    exact ⟨plain, first, rest, rfl, by simp [fresh, other]⟩
  · rw [if_neg replaced]
    exact ⟨by simpa using unfed.symm, x, [], rfl, Iff.rfl⟩

end Rewriting

def Control (c : Char) : Prop := c = '.' ∨ c = '\''

section Control
variable {c : Char} (control : Control c)
include control

theorem controlOther {x : Char} (dot : x ≠ '.') (apostrophe : x ≠ '\'') : x ≠ c := by
  rcases control with rfl | rfl
  · exact dot
  · exact apostrophe

theorem controlReplaceKeeps {old second : Char} (feed : old ≠ '\n') (dot : old ≠ '.')
    (apostrophe : old ≠ '\'') (plain : second ≠ '\n') :
    KeepsStarts c fun x => if x = old then ['\\', second] else [x] :=
  replaceKeeps feed (controlOther control dot apostrophe)
    (controlOther control (by decide) (by decide)) (by simp [plain.symm])

theorem escapeLater (s : Text) : LaterLine c (ManPage.escape s) ↔ LaterLine c s := by
  unfold ManPage.escape Text.replace
  rw [keptLater (controlReplaceKeeps control (by decide) (by decide) (by decide) (by decide)),
    keptLater (controlReplaceKeeps control (by decide) (by decide) (by decide) (by decide))]

theorem escapeStarts (s : Text) : StartsLine c (ManPage.escape s) ↔ StartsLine c s := by
  unfold ManPage.escape Text.replace
  rw [keptStarts (controlReplaceKeeps control (by decide) (by decide) (by decide) (by decide)),
    keptStarts (controlReplaceKeeps control (by decide) (by decide) (by decide) (by decide))]

theorem quoteLater (s : Text) : LaterLine c (ManPage.quote s) ↔ LaterLine c s := by
  have mark : '"' ≠ c := controlOther control (by decide) (by decide)
  unfold ManPage.quote Text.replace
  rw [laterMiddle (by decide) mark, List.singleton_append, laterCons,
    keptLater (controlReplaceKeeps control (by decide) (by decide) (by decide) (by decide)),
    keptLater (controlReplaceKeeps control (by decide) (by decide) (by decide) (by decide))]
  simp [laterNil]

end Control

theorem capitalFilled (c : Char) : capital c ≠ [] := by
  have forms : longCapitals.all (fun entry => !entry.2.isEmpty) = true := by decide +kernel
  unfold capital
  simp only
  split
  · rename_i form found
    have filled := List.all_eq_true.mp forms _ (List.mem_of_find?_eq_some found)
    simpa using filled
  · split
    · exact List.cons_ne_nil _ _
    · exact List.cons_ne_nil _ _

/- A letter that a capital brings in is none of the characters below the letter A. -/
theorem capitalCodes {c y : Char} (member : y ∈ capital c) :
    y = c ∨ 65 ≤ y.toNat ∨ y.toNat = 0 := by
  have forms : longCapitals.all (fun entry => entry.2.all fun n => 65 ≤ n) = true := by
    decide +kernel
  have runs : capitalRuns.all (fun run => 65 ≤ (run.first : Int) + run.shift) = true := by
    decide +kernel
  have code {n : Nat} (high : 65 ≤ n) : 65 ≤ (Char.ofNat n).toNat ∨ (Char.ofNat n).toNat = 0 := by
    by_cases valid : n.isValidChar
    · rw [Char.ofNat, dif_pos valid]
      exact Or.inl high
    · rw [Char.ofNat, dif_neg valid]
      exact Or.inr rfl
  unfold capital at member
  simp only at member
  split at member
  · rename_i form found
    obtain ⟨n, inside, rfl⟩ := List.mem_map.mp member
    have high := List.all_eq_true.mp forms _ (List.mem_of_find?_eq_some found)
    exact Or.inr (code (by simpa using List.all_eq_true.mp high n inside))
  · split at member
    · rename_i run found
      have shifted := List.all_eq_true.mp runs run (List.mem_of_find?_eq_some found)
      have covered := List.find?_some found
      simp only [CapitalRun.covers, Bool.and_eq_true, decide_eq_true_eq] at shifted covered
      rw [List.mem_singleton.mp member]
      exact Or.inr (code (by omega))
    · exact Or.inl (List.mem_singleton.mp member)

theorem capitalKeeps {c : Char} (control : Control c) : KeepsStarts c capital := by
  have same {y x : Char} (member : y ∈ capital x) (low : y.toNat < 65) (some : y.toNat ≠ 0) :
      y = x := by
    rcases capitalCodes member with same | high | zero
    · exact same
    · omega
    · exact absurd zero some
  have own : capital c = [c] := by
    rcases control with rfl | rfl
    · decide +kernel
    · decide +kernel
  refine ⟨by decide +kernel, fun x unfed => ⟨fun member => ?_, ?_⟩⟩
  · exact unfed (same member (by decide) (by decide)).symm
  · obtain ⟨y, rest, form⟩ := List.exists_cons_of_ne_nil (capitalFilled x)
    refine ⟨y, rest, form, ?_, ?_⟩
    · rintro rfl
      have member : y ∈ capital x := form ▸ List.mem_cons_self
      rcases control with rfl | rfl
      · exact (same member (by decide) (by decide)).symm
      · exact (same member (by decide) (by decide)).symm
    · rintro rfl
      rw [own] at form
      exact (List.cons.inj form).1.symm

theorem upperLater {c : Char} (control : Control c) (s : Text) :
    LaterLine c (Text.upper s) ↔ LaterLine c s := keptLater (capitalKeeps control) s

end ScriptDoc
