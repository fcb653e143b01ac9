import ScriptDoc.File.Script
import ScriptDoc.Proofs.FileTree
import ScriptDoc.Proofs.Text
import ScriptDoc.Proofs.Utf8

/-! Reading a script is all or nothing. A document comes back exactly for a file of strict UTF-8, an
error says what could not be opened or decoded, and what has been written is read back. -/
namespace ScriptDoc

namespace Tree

def Holds (t : Tree) (directory path : Path) (bytes : Bytes) : Prop :=
  ∃ place access, t.resolve directory path = .ok place ∧ access.read = true ∧
    t.get? place = some (.file bytes access)

/- What is read need not be a file: a device may give bytes as well. -/
def Yields (t : Tree) (directory path : Path) (bytes : Bytes) : Prop :=
  ∃ place access, t.resolve directory path = .ok place ∧ access.read = true ∧
    (t.get? place = some (.file bytes access) ∨ t.get? place = some (.special (some bytes) access))

end Tree

def ScriptError.About (given : Text) : ScriptError → Prop
  | .access e => e.path = (Path.ofText given).toText
  | .unread e => e.path = (Path.ofText given).toText
  | .encoding path _ => path = given
  | _ => False

namespace Text

theorem memSplitOn {separator c : Char} (other : c ≠ separator) (s : Text) :
    c ∈ s ↔ ∃ piece ∈ splitOn separator s, c ∈ piece := by
  induction s with
  | nil => simp [splitOn]
  | cons d rest ih =>
    rw [splitOn]
    split
    · rename_i ends
      subst ends
      simp [other, ih]
    · split
      · rename_i none
        simp [none] at ih
        simp [ih]
      · rename_i piece pieces some
        simp only [some, List.exists_mem_cons_iff] at ih
        simp [ih, or_assoc]

theorem memOfPiece {separator : Text} {pieces : List Text} {piece : Text} {c : Char}
    (inside : piece ∈ pieces) (member : c ∈ piece) : c ∈ join separator pieces := by
  induction pieces with
  | nil => contradiction
  | cons first rest ih =>
    by_cases more : rest = []
    · subst more
      rw [List.mem_singleton.mp inside] at member
      exact member
    · rw [joinCons separator first more, List.mem_append, List.mem_append]
      rcases List.mem_cons.mp inside with rfl | later
      · exact Or.inl (Or.inl member)
      · exact Or.inr (ih later)

end Text

theorem Path.memText {c : Char} (slash : c ≠ '/') (dot : c ≠ '.') (given : Text) :
    c ∈ (Path.ofText given).toText ↔ c ∈ given := by
  rw [Text.memSplitOn slash given]
  constructor
  · intro member
    unfold Path.toText at member
    split at member
    · exact absurd (List.mem_singleton.mp member) dot
    · rcases List.mem_append.mp member with front | inside
      · exact absurd (List.eq_of_mem_replicate front) slash
      · rcases Text.memJoin inside with between | ⟨piece, part, found⟩
        · exact absurd (List.mem_singleton.mp between) slash
        · exact ⟨piece, (List.mem_filter.mp part).1, found⟩
  · rintro ⟨piece, inside, member⟩
    have real : Path.isRealPart piece = true := by
      have filled : piece ≠ [] := List.ne_nil_of_mem member
      have real : piece ≠ ['.'] := by
        rintro rfl
        exact dot (List.mem_singleton.mp member)
      simp [Path.isRealPart, filled, real]
    have part : piece ∈ (Path.ofText given).parts := List.mem_filter.mpr ⟨inside, real⟩
    have some : (Path.ofText given).parts.isEmpty = false := by
      simpa using List.ne_nil_of_mem part
    rw [Path.toText, some, Bool.and_false]
    exact List.mem_append_right _ (Text.memOfPiece part member)

theorem nulText (given : Text) :
    (Path.ofText given).toText.contains nul = true ↔ nul ∈ given := by
  rw [List.contains_iff_mem]
  exact Path.memText (by decide) (by decide) given

namespace Tree
variable {t : Tree} {directory : Path}

theorem contentsExact {node : Node} {bytes : Bytes} :
    node.contents = .ok bytes ↔ ∃ access : Access, access.read = true ∧
      (node = .file bytes access ∨ node = .special (some bytes) access) := by
  rcases node with ⟨held, access⟩ | ⟨content, access⟩ | ⟨access⟩ <;>
    by_cases readable : access.read = true
  · simp [Node.contents, Node.access, readable]
  · simp [Node.contents, Node.access, readable]
  · cases content <;> simp [Node.contents, Node.access, readable]
  · simp [Node.contents, Node.access, readable]
  · simp [Node.contents, Node.access, readable]
  · simp [Node.contents, Node.access, readable]

theorem nodeExact {path : Path} {node : Node} :
    t.node directory path = .ok node ↔
      ∃ place, t.resolve directory path = .ok place ∧ t.get? place = some node := by
  constructor
  · intro found
    obtain ⟨place, reached, found⟩ := bindOk found
    split at found
    · rename_i here
      cases found
      exact ⟨place, reached, here⟩
    · contradiction
  · rintro ⟨place, reached, here⟩
    simp [Tree.node, reached, here, bind, Except.bind]

theorem bytesExact {path : Path} {bytes : Bytes} :
    t.bytes directory path = .ok bytes ↔ t.Yields directory path bytes := by
  constructor
  · intro read
    obtain ⟨node, found, read⟩ := bindOk read
    obtain ⟨place, reached, here⟩ := nodeExact.mp found
    obtain ⟨access, readable, kind⟩ := contentsExact.mp read
    refine ⟨place, access, reached, readable, ?_⟩
    rcases kind with rfl | rfl
    · exact Or.inl here
    · exact Or.inr here
  · rintro ⟨place, access, reached, readable, here⟩
    rcases here with file | special
    · simp only [Tree.bytes, nodeExact.mpr ⟨place, reached, file⟩, bind, Except.bind]
      exact contentsExact.mpr ⟨access, readable, Or.inl rfl⟩
    · simp only [Tree.bytes, nodeExact.mpr ⟨place, reached, special⟩, bind, Except.bind]
      exact contentsExact.mpr ⟨access, readable, Or.inr rfl⟩

theorem openExact {given : Text} {bytes : Bytes} :
    t.openScript directory (Path.ofText given) = .ok bytes ↔
      nul ∉ given ∧ t.Yields directory (Path.ofText given) bytes := by
  rw [← bytesExact, ← nulText]
  unfold openScript
  split
  · rename_i embedded
    exact ⟨by simp, fun both => absurd embedded both.1⟩
  · rename_i legal
    rw [and_iff_right legal]
    cases t.bytes directory (Path.ofText given) with
    | ok found => simp
    | error fault => cases fault <;> simp [FileFault.isExpected]

theorem openRefused {given : Text} {e : ScriptError}
    (refused : t.openScript directory (Path.ofText given) = .error e) (legal : nul ∉ given) :
    e.About given := by
  rw [← nulText] at legal
  rw [openScript, if_neg legal] at refused
  split at refused
  · contradiction
  · split at refused
    · cases refused
      rfl
    · cases refused
      rfl

theorem readExact {given : Text} {d : Document} :
    t.readScript directory given = .ok d ↔
      nul ∉ given ∧ ∃ s, t.Yields directory (Path.ofText given) (s.flatMap String.utf8EncodeChar) ∧
        d = { Document.ofText s with path := some given } := by
  unfold readScript
  constructor
  · intro read
    split at read
    · contradiction
    rename_i bytes opened
    split at read
    · contradiction
    rename_i s decoded
    cases read
    obtain ⟨legal, yields⟩ := openExact.mp opened
    rw [(Utf8.decodeExact bytes s).mp decoded, Utf8.encodeStandard] at yields
    exact ⟨legal, s, yields, rfl⟩
  · rintro ⟨legal, s, yields, rfl⟩
    simp only [openExact.mpr ⟨legal, yields⟩, Utf8.decodeStandard]

theorem readRefused {given : Text} {e : ScriptError}
    (refused : t.readScript directory given = .error e) (legal : nul ∉ given) : e.About given := by
  unfold readScript at refused
  split at refused
  · rename_i unopened
    cases refused
    exact openRefused unopened legal
  · split at refused
    · cases refused
      rfl
    · contradiction

end Tree

end ScriptDoc
