import Mathlib.Data.List.Nodup
import Mathlib.Data.List.Perm.Subperm
import ScriptDoc.Proofs.Segmentation

/-! What has been read stays as it is. A call of the reader may end what is being read and then read its
line outside of everything, so each of its effects is at most the effects of these two, and a history
of calls only ever adds to the document. -/
namespace ScriptDoc

inductive Call where
  | read (s : Text) (line : Int)
  | finish (line : Int)
  deriving DecidableEq, Repr

def perform (now : State × Document) : Call → State × Document
  | .read s line => step now.1 s line now.2
  | .finish line => (.top, finish now.1 line now.2)

def history (calls : List Call) : State × Document := calls.foldl perform (.top, {})

inductive BlocksGrow (old : List Block) : List Block → Prop where
  | same : BlocksGrow old old
  | added (b : Block) : BlocksGrow old (old ++ [b])
  | bound {front : List Block} {last : Block} (name : Text) (shape : old = front ++ [last])
      (free : last.functionName = none) :
      BlocksGrow old (front ++ [{ last with functionName := some name }])

def changedFields (old new : Metadata) : List MetaField :=
  MetaField.all.filter fun field => new.get field ≠ old.get field

structure Adds (line : Int) (most : Nat) (old new : Document) : Prop where
  warnings : ∃ added, new.warnings = old.warnings ++ added ∧ added.length ≤ most ∧
    ∀ w ∈ added, w.line = line
  fields : (changedFields old.metadata new.metadata).length ≤ most

theorem changedNone (m : Metadata) : changedFields m m = [] := by
  simp [changedFields]

theorem changedFit {old new : Metadata} {fields : List MetaField}
    (inside : ∀ field ∈ changedFields old new, field ∈ fields) :
    (changedFields old new).length ≤ fields.length := by
  have distinct : (changedFields old new).Nodup := List.Nodup.filter _ (by decide)
  exact (List.subperm_of_subset distinct inside).length_le

theorem changedOne (m : Metadata) (value : Text) (field : MetaField) :
    (changedFields m (m.set value field)).length ≤ 1 := by
  have only : ∀ other ∈ changedFields m (m.set value field), other ∈ [field] := by
    intro other member
    have changed := (List.mem_filter.mp member).2
    rw [setGet] at changed
    by_contra different
    rw [if_neg (fun same => different (by simp [same]))] at changed
    simp at changed
  exact changedFit only

theorem changedTwice (a b c : Metadata) :
    (changedFields a c).length ≤ (changedFields a b).length + (changedFields b c).length := by
  rw [← List.length_append]
  refine changedFit fun field member => ?_
  obtain ⟨known, changed⟩ := List.mem_filter.mp member
  by_cases first : b.get field = a.get field
  · refine List.mem_append_right _ (List.mem_filter.mpr ⟨known, ?_⟩)
    rw [first]
    exact changed
  · exact List.mem_append_left _ (List.mem_filter.mpr ⟨known, decide_eq_true first⟩)

theorem addsNothing (line : Int) (most : Nat) {old new : Document}
    (warnings : new.warnings = old.warnings) (metadata : new.metadata = old.metadata) :
    Adds line most old new := by
  refine ⟨⟨[], by rw [warnings, List.append_nil], Nat.zero_le most, by simp⟩, ?_⟩
  rw [metadata, changedNone]
  exact Nat.zero_le most

theorem addsMore {line : Int} {few many : Nat} {old new : Document} (adds : Adds line few old new)
    (order : few ≤ many) : Adds line many old new := by
  obtain ⟨⟨added, same, size, here⟩, fields⟩ := adds
  exact ⟨⟨added, same, Nat.le_trans size order, here⟩, Nat.le_trans fields order⟩

theorem addsTwice {line : Int} {few more : Nat} {old middle new : Document}
    (first : Adds line few old middle) (second : Adds line more middle new) :
    Adds line (few + more) old new := by
  obtain ⟨⟨early, sameEarly, sizeEarly, hereEarly⟩, fieldsEarly⟩ := first
  obtain ⟨⟨late, sameLate, sizeLate, hereLate⟩, fieldsLate⟩ := second
  refine ⟨⟨early ++ late, ?_, ?_, ?_⟩, ?_⟩
  · rw [sameLate, sameEarly, List.append_assoc]
  · rw [List.length_append]
    omega
  · intro w member
    exact (List.mem_append.mp member).elim (hereEarly w) (hereLate w)
  · have both := changedTwice old.metadata middle.metadata new.metadata
    omega

theorem warnAdds (d : Document) (line : Int) (message : Text) : Adds line 1 d (d.warn line message) := by
  refine ⟨⟨[⟨line, message⟩], rfl, Nat.le_refl 1, by simp⟩, ?_⟩
  have same : (d.warn line message).metadata = d.metadata := rfl
  rw [same, changedNone]
  exact Nat.zero_le 1

theorem setMetadataAdds (d : Document) (tag value : Text) (line : Int) :
    Adds line 1 d (d.setMetadata tag value line) ∧
      (d.setMetadata tag value line).blocks = d.blocks := by
  unfold Document.setMetadata
  split
  · rename_i field _
    exact ⟨⟨⟨[], by simp, by simp, by simp⟩, changedOne d.metadata value field⟩, rfl⟩
  · exact ⟨warnAdds d line _, rfl⟩

theorem finishAdds (state : State) (line : Int) (d : Document) :
    Adds line 1 d (finish state line d) ∧
      ((finish state line d).blocks = d.blocks ∨
        ∃ b, (finish state line d).blocks = d.blocks ++ [b]) := by
  cases state with
  | top => exact ⟨addsNothing line 1 rfl rfl, Or.inl rfl⟩
  | metadata tag lines =>
    obtain ⟨adds, same⟩ := setMetadataAdds d tag (Text.join ['\n'] lines) line
    exact ⟨adds, Or.inl same⟩
  | block draft =>
    exact ⟨addsNothing line 1 rfl rfl, Or.inr ⟨draft.finish, rfl⟩⟩

theorem stepTopAdds (s : Text) (line : Int) (d : Document) :
    Adds line 1 d (stepTop s line d).2 ∧
      ((stepTop s line d).2.blocks = d.blocks ∨
        ∃ name, (stepTop s line d).2.blocks = bindLast d.blocks (some name)) := by
  cases shape : TopLine.ofText s with
  | shebang interpreter =>
    have read : stepTop s line d = (.top, { d with shebang := some interpreter }) := by
      simp only [stepTop, shape]
    rw [read]
    exact ⟨addsNothing line 1 rfl rfl, Or.inl rfl⟩
  | metaValue tag value =>
    have read : stepTop s line d = (.top, d.setMetadata tag value line) := by
      simp only [stepTop, shape]
    obtain ⟨adds, same⟩ := setMetadataAdds d tag value line
    rw [read]
    exact ⟨adds, Or.inl same⟩
  | metaOpen _ | blockOpen _ _ =>
    have read : (stepTop s line d).2 = d := by simp only [stepTop, shape]
    rw [read]
    exact ⟨addsNothing line 1 rfl rfl, Or.inl rfl⟩
  | other =>
    cases declares : functionName? s with
    | none =>
      have read : (stepTop s line d).2 = d := by simp only [stepTop, shape, declares]
      rw [read]
      exact ⟨addsNothing line 1 rfl rfl, Or.inl rfl⟩
    | some name =>
      have read : (stepTop s line d).2 = { d with blocks := bindLast d.blocks (some name) } := by
        simp only [stepTop, shape, declares, bindFunctionExact]
      rw [read]
      exact ⟨addsNothing line 1 rfl rfl, Or.inr ⟨name, rfl⟩⟩

theorem stepContentAdds (draft : Draft) (content : Text) (line : Int) (d : Document) :
    Adds line 1 d (stepContent draft content line d).2 ∧
      (stepContent draft content line d).2.blocks = d.blocks := by
  unfold stepContent
  split
  · simp only
    split
    · exact ⟨addsNothing line 1 rfl rfl, rfl⟩
    · exact ⟨warnAdds d line _, rfl⟩
  · exact ⟨addsNothing line 1 rfl rfl, rfl⟩

theorem stepAdds (state : State) (s : Text) (line : Int) (d : Document) :
    Adds line 2 d (step state s line d).2 := by
  obtain ⟨finished, _⟩ := finishAdds state line d
  have reads := stepReads state s line d
  generalize step state s line d = after at reads ⊢
  cases reads with
  | closes inside closed => exact addsMore finished (Nat.le_succ 1)
  | outside free => exact addsTwice finished (stepTopAdds s line _).1
  | value here unclosed found => exact addsNothing line 2 rfl rfl
  | content here unclosed found => exact addsMore (stepContentAdds _ _ line d).1 (Nat.le_succ 1)

theorem finishBlocksGrow (state : State) (line : Int) (d : Document) :
    BlocksGrow d.blocks (finish state line d).blocks := by
  rcases (finishAdds state line d).2 with same | ⟨b, same⟩ <;> rw [same]
  · exact .same
  · exact .added b

theorem bindGrows (blocks : List Block) (name : Text) :
    BlocksGrow blocks (bindLast blocks (some name)) := by
  rcases List.eq_nil_or_concat blocks with rfl | ⟨front, last, rfl⟩
  · exact .same
  · rw [List.concat_eq_append, bindLastConcat]
    cases function : last.functionName with
    | none =>
      simp only [Block.bindFunction, function]
      exact .bound name rfl function
    | some first =>
      simp only [Block.bindFunction, function]
      exact .same

theorem stepBlocksGrow (state : State) (s : Text) (line : Int) (d : Document) :
    BlocksGrow d.blocks (step state s line d).2.blocks := by
  have reads := stepReads state s line d
  generalize step state s line d = after at reads ⊢
  cases reads with
  | closes inside closed => exact finishBlocksGrow state line d
  | value here unclosed found => exact .same
  | content here unclosed found =>
    rw [(stepContentAdds _ _ line d).2]
    exact .same
  | outside free =>
    obtain ⟨_, top⟩ := stepTopAdds s line (finish state line d)
    -- a block that ends on this line takes the function itself, so it is no older block that does
    rcases (finishAdds state line d).2 with blocks | ⟨b, blocks⟩ <;> rw [blocks] at top <;>
      rcases top with top | ⟨name, top⟩ <;> rw [top]
    · exact .same
    · exact bindGrows d.blocks name
    · exact .added b
    · rw [bindLastConcat]
      exact .added _

/- Every warning and every block stays in its place; only the last block may still get a function,
and only if it has none. -/
structure Keeps (old new : Document) : Prop where
  warnings : old.warnings <+: new.warnings
  blocks : ∀ i b, old.blocks[i]? = some b → ∃ function,
    new.blocks[i]? = some { b with functionName := function } ∧
    (b.functionName ≠ none ∨ i + 1 < old.blocks.length → function = b.functionName)

theorem keepsRefl (d : Document) : Keeps d d :=
  ⟨List.prefix_refl _, fun _ b found => ⟨b.functionName, found, fun _ => rfl⟩⟩

theorem keepsTrans {old middle new : Document} (first : Keeps old middle)
    (second : Keeps middle new) : Keeps old new := by
  refine ⟨first.warnings.trans second.warnings, fun i b found => ?_⟩
  obtain ⟨early, inMiddle, keptEarly⟩ := first.blocks i b found
  obtain ⟨late, inNew, keptLate⟩ := second.blocks i _ inMiddle
  refine ⟨late, inNew, fun fixed => ?_⟩
  have same := keptEarly fixed
  rw [← same]
  apply keptLate
  rcases fixed with function | earlier
  · exact Or.inl (by rw [same]; exact function)
  · right
    obtain ⟨_, next, _⟩ := first.blocks (i + 1) _ (List.getElem?_eq_getElem earlier)
    exact (List.getElem?_eq_some_iff.mp next).1

theorem keepsOf {line : Int} {most : Nat} {old new : Document} (adds : Adds line most old new)
    (grow : BlocksGrow old.blocks new.blocks) : Keeps old new := by
  obtain ⟨added, same, _⟩ := adds.warnings
  refine ⟨⟨added, same.symm⟩, fun i b found => ?_⟩
  have inside := (List.getElem?_eq_some_iff.mp found).1
  generalize old.blocks = before at grow found inside
  generalize new.blocks = after at grow
  cases grow with
  | same => exact ⟨b.functionName, found, fun _ => rfl⟩
  | added c =>
    refine ⟨b.functionName, ?_, fun _ => rfl⟩
    rw [List.getElem?_append_left inside]
    exact found
  | @bound front last name shape free =>
    subst shape
    by_cases earlier : i < front.length
    · refine ⟨b.functionName, ?_, fun _ => rfl⟩
      rw [List.getElem?_append_left earlier] at found ⊢
      exact found
    · have whole : (front ++ [last]).length = front.length + 1 := by simp
      have position : i = front.length := by omega
      subst position
      have same : last = b := by simpa using found
      subst same
      refine ⟨some name, by simp, fun fixed => ?_⟩
      rcases fixed with function | early
      · exact absurd free function
      · omega

theorem performKeeps (now : State × Document) (call : Call) : Keeps now.2 (perform now call).2 := by
  cases call with
  | read s line => exact keepsOf (stepAdds now.1 s line now.2) (stepBlocksGrow now.1 s line now.2)
  | finish line =>
    exact keepsOf (finishAdds now.1 line now.2).1 (finishBlocksGrow now.1 line now.2)

theorem performAllKeeps (now : State × Document) (calls : List Call) :
    Keeps now.2 (calls.foldl perform now).2 := by
  induction calls generalizing now with
  | nil => exact keepsRefl now.2
  | cons call rest ih => exact keepsTrans (performKeeps now call) (ih (perform now call))

theorem historyIsAppendOnly (calls : List Call) :
    let now := history calls
    (∀ s line, BlocksGrow now.2.blocks (perform now (.read s line)).2.blocks ∧
      Adds line 2 now.2 (perform now (.read s line)).2) ∧
    (∀ line, (perform now (.finish line)).1 = .top ∧
      ((perform now (.finish line)).2.blocks = now.2.blocks ∨
        ∃ b, (perform now (.finish line)).2.blocks = now.2.blocks ++ [b]) ∧
      Adds line 1 now.2 (perform now (.finish line)).2) ∧
    ∀ more, Keeps now.2 (history (calls ++ more)).2 := by
  intro now
  refine ⟨fun s line => ⟨stepBlocksGrow now.1 s line now.2, stepAdds now.1 s line now.2⟩,
    fun line => ?_, fun more => ?_⟩
  · obtain ⟨adds, blocks⟩ := finishAdds now.1 line now.2
    exact ⟨rfl, blocks, adds⟩
  · rw [history, List.foldl_append]
    exact performAllKeeps now more

end ScriptDoc
