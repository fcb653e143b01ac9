import ScriptDoc.Proofs.Concatenation

/-! The function of a block is the first one declared between the end of its segment and the next block,
on a line that is read outside of everything. Lines inside a metadata value or a block declare nothing,
whatever they look like, and a line that ends such a run by interrupting it is read outside. -/
namespace ScriptDoc

def ReadOutside (state : State) (s : Text) : Prop :=
  state = .top ∨ (¬ Closing s ∧ ∀ content, ¬ Continuation s content)

def Declares (lines : List Text) (k : Nat) (name : Text) : Prop :=
  ∃ s, lines[k]? = some s ∧ ReadOutside (advance .top {} 0 (lines.take k)).1 s ∧
    TopShape s .other ∧ functionName? s = some name

structure DeclaresBetween (lines : List Text) (after : Nat) (next : Option Block) (k : Nat)
    (name : Text) : Prop where
  behind : after ≤ k
  ahead : ∀ b, next = some b → (k + 1 : Nat) < b.line
  declares : Declares lines k name

def FirstOf (candidate : Nat → Text → Prop) : Option Text → Prop
  | some name => ∃ k, candidate k name ∧ ∀ j < k, ∀ other, ¬ candidate j other
  | none => ∀ k name, ¬ candidate k name

def BindsFirst (lines : List Text) (b : Block) (next : Option Block) : Prop :=
  ∃ (header : Nat) (contents : List Text) (ending after : Nat) (rest : List Text),
    b.line = header ∧ Run header (lines.drop header) contents ending after rest ∧
    FirstOf (DeclaresBetween lines after next) b.functionName

def State.inside : State → Bool
  | .top => false
  | .metadata _ _ | .block _ => true

def opensRun (s : Text) : Bool :=
  match TopLine.ofText s with
  | .metaOpen _ | .blockOpen _ _ => true
  | _ => false

def insideAfter (inside : Bool) (s : Text) : Bool :=
  if inside && continues s then true else if inside && isClose s then false else opensRun s

def outsideAt (inside : Bool) (s : Text) : Bool :=
  !inside || (!isClose s && (continuation? s).isNone)

def DeclaresAt (inside : Bool) (before : Nat) : List Text → Nat → Text → Prop
  | [], _, _ => False
  | s :: rest, k, name =>
    (k = before ∧ outsideAt inside s = true ∧ TopLine.ofText s = .other ∧
      functionName? s = some name) ∨
    DeclaresAt (insideAfter inside s) (before + 1) rest k name

theorem stepTopInside (s : Text) (line : Int) (d : Document) :
    (stepTop s line d).1.inside = opensRun s := by
  cases shape : TopLine.ofText s with
  | other =>
    cases declares : functionName? s <;> simp only [stepTop, shape, declares, opensRun] <;> rfl
  | shebang _ | metaValue _ _ | metaOpen _ | blockOpen _ _ =>
    simp only [stepTop, shape, opensRun]
    rfl

theorem stepContentInside (draft : Draft) (content : Text) (line : Int) (d : Document) :
    (stepContent draft content line d).1.inside = true := by
  unfold stepContent
  split
  · simp only
    split <;> rfl
  · rfl

theorem stepInside (state : State) (s : Text) (line : Int) (d : Document) :
    (step state s line d).1.inside = insideAfter state.inside s := by
  have reads := stepReads state s line d
  generalize step state s line d = after at reads ⊢
  cases reads with
  | closes inside closed =>
    have within : state.inside = true := by
      cases state with
      | top => contradiction
      | metadata _ _ | block _ => rfl
    rw [within]
    simp [insideAfter, continues, closed, State.inside]
  | outside free =>
    rw [stepTopInside]
    rcases free with rfl | ⟨unclosed, interrupts⟩
    · rfl
    · simp [insideAfter, continues, unclosed, interrupts]
  | value here unclosed found =>
    subst here
    simp [insideAfter, continues, unclosed, found, State.inside]
  | content here unclosed found =>
    subst here
    rw [stepContentInside]
    simp [insideAfter, continues, unclosed, found, State.inside]

theorem readOutsideExact {state : State} {s : Text} (plain : '\n' ∉ s) :
    ReadOutside state s ↔ outsideAt state.inside s = true := by
  have interrupts : (¬ Closing s ∧ ∀ content, ¬ Continuation s content) ↔
      isClose s = false ∧ continuation? s = none := by
    rw [closingExact, Bool.not_eq_true, Option.eq_none_iff_forall_ne_some]
    simp only [continuationExact plain]
  rw [ReadOutside, interrupts]
  cases state <;> cases closed : isClose s <;>
    simp [outsideAt, State.inside, closed]

theorem declaresAfter {inside : Bool} {before k : Nat} {lines : List Text} {name : Text}
    (declares : DeclaresAt inside before lines k name) : before ≤ k := by
  induction lines generalizing inside before with
  | nil => exact declares.elim
  | cons s rest ih =>
    rcases declares with ⟨here, _⟩ | later
    · omega
    · have := ih later
      omega

theorem declaresFrom (state : State) (d : Document) (before : Nat) {lines : List Text}
    (plain : ∀ s ∈ lines, '\n' ∉ s) (k : Nat) (name : Text) :
    (∃ s, lines[k]? = some s ∧ ReadOutside (advance state d before (lines.take k)).1 s ∧
      TopShape s .other ∧ functionName? s = some name) ↔
    DeclaresAt state.inside before lines (before + k) name := by
  induction lines generalizing state d before k with
  | nil => simp [DeclaresAt]
  | cons s rest ih =>
    have plainS := plain s (by simp)
    have plainRest : ∀ t ∈ rest, '\n' ∉ t := fun t member => plain t (by simp [member])
    cases k with
    | zero =>
      have none : ¬ DeclaresAt (insideAfter state.inside s) (before + 1) rest before name := by
        intro later
        have := declaresAfter later
        omega
      simp [DeclaresAt, none, advance, readOutsideExact plainS, topShapeExact plainS]
    | succ k =>
      have later := ih (step state s (before + 1 : Nat) d).1 (step state s (before + 1 : Nat) d).2
        (before + 1) plainRest k
      rw [stepInside] at later
      simp only [DeclaresAt, List.getElem?_cons_succ, List.take_succ_cons, advance]
      rw [later]
      have same : before + 1 + k = before + (k + 1) := by omega
      simp [same]

theorem declaresExact {lines : List Text} (plain : ∀ s ∈ lines, '\n' ∉ s) (k : Nat) (name : Text) :
    Declares lines k name ↔ DeclaresAt false 0 lines k name := by
  have counted := declaresFrom .top {} 0 plain k name
  rwa [Nat.zero_add] at counted

theorem declaresRest {inside : Bool} {before k : Nat} {s name : Text} {rest : List Text}
    (silent : outsideAt inside s = true → TopLine.ofText s = .other → functionName? s = none) :
    DeclaresAt inside before (s :: rest) k name ↔
      DeclaresAt (insideAfter inside s) (before + 1) rest k name := by
  constructor
  · rintro (⟨_, outside, shape, declares⟩ | later)
    · rw [silent outside shape] at declares
      contradiction
    · exact later
  · exact Or.inr

theorem declaresPastRun (before k : Nat) (lines : List Text) (name : Text) :
    DeclaresAt true before lines k name ↔
      DeclaresAt false (runEnd before lines).after (runEnd before lines).rest k name := by
  induction lines generalizing before with
  | nil => exact Iff.rfl
  | cons s rest ih =>
    cases closed : isClose s with
    | true =>
      have stop : continues s = false := by simp [continues, closed]
      rw [(runStops before rest stop).2, declaresRest (by simp [outsideAt, closed])]
      simp [insideAfter, stop, closed, endRun]
    | false =>
      cases found : continuation? s with
      | none =>
        have stop : continues s = false := by simp [continues, found]
        rw [(runStops before rest stop).2]
        simp [DeclaresAt, insideAfter, outsideAt, stop, closed, found, endRun]
      | some content =>
        have more : continues s = true := by simp [continues, closed, found]
        rw [(runContinues before rest closed found).2, ← ih,
          declaresRest (by simp [outsideAt, found])]
        simp [insideAfter, more]

theorem declaresPastOpener {s : Text} (opens : opensRun s = true) (inside : Bool) (before k : Nat)
    (rest : List Text) (name : Text) :
    DeclaresAt inside before (s :: rest) k name ↔
      DeclaresAt false (runEnd (before + 1) rest).after (runEnd (before + 1) rest).rest k name := by
  have means : TopLine.ofText s ≠ .other := by
    intro shape
    simp [opensRun, shape] at opens
  obtain ⟨unclosed, interrupts⟩ := meaningInterrupts means
  have next : insideAfter inside s = true := by
    simpa [insideAfter, continues, unclosed, interrupts] using opens
  rw [declaresRest (fun _ shape => absurd shape means), next, declaresPastRun]

theorem declaresAppend (inside : Bool) (before k : Nat) (xs ys : List Text) (name : Text) :
    DeclaresAt inside before (xs ++ ys) k name ↔
      DeclaresAt inside before xs k name ∨
      DeclaresAt (xs.foldl insideAfter inside) (before + xs.length) ys k name := by
  induction xs generalizing inside before with
  | nil => simp [DeclaresAt]
  | cons s rest ih =>
    have same : before + 1 + rest.length = before + (s :: rest).length := by
      rw [List.length_cons]
      omega
    rw [List.cons_append, DeclaresAt, DeclaresAt, ih, same, or_assoc]
    rfl

theorem declaresBefore {inside : Bool} {before k : Nat} {lines : List Text} {name : Text}
    (declares : DeclaresAt inside before lines k name) : k < before + lines.length := by
  induction lines generalizing inside before with
  | nil => exact declares.elim
  | cons s rest ih =>
    rw [List.length_cons]
    rcases declares with ⟨here, _⟩ | later
    · omega
    · have := ih later
      omega

theorem firstOfCongr {first second : Nat → Text → Prop} {function : Option Text}
    (same : ∀ k name, first k name ↔ second k name) (found : FirstOf first function) :
    FirstOf second function := by
  have equal : first = second := funext fun k => funext fun name => propext (same k name)
  rwa [← equal]

theorem oneLineShut {line : Nat} {s : Text} {segment : Segment} (one : segment.OneLine line s) :
    insideAfter false s = false := by
  cases one <;> simp [insideAfter, opensRun, *]

/- The segments know the first declaration, since each line that declares a function outside is a
segment by itself. -/
theorem declaredFirst (before : Nat) (lines : List Text) :
    FirstOf (fun k name => DeclaresAt false before lines k name ∧
        ∀ b, (Segment.blocks (segments before lines)).head? = some b → (k + 1 : Nat) < b.line)
      (Segment.declared? (segments before lines)) := by
  refine segmentsInduction (motive := fun before lines found =>
    FirstOf (fun k name => DeclaresAt false before lines k name ∧
        ∀ b, (Segment.blocks found).head? = some b → (k + 1 : Nat) < b.line)
      (Segment.declared? found)) ?_ ?_ ?_ ?_ before lines
  · intro before k name candidate
    exact candidate.1
  · intro before s rest segment one ih
    have shut := oneLineShut one
    have skipped : (TopLine.ofText s = .other → functionName? s = none) →
        FirstOf (fun k name => DeclaresAt false before (s :: rest) k name ∧
            ∀ b, (Segment.blocks (segment :: segments (before + 1) rest)).head? = some b →
              (k + 1 : Nat) < b.line) (Segment.declared? (segments (before + 1) rest)) := by
      intro silent
      refine firstOfCongr (fun k name => ?_) ih
      rw [one.blocks, declaresRest (fun _ => silent), shut]
    cases one with
    | shebang shape | metaValue shape => exact skipped (by simp [shape])
    | inert shape declares => exact skipped (fun _ => declares)
    | function shape declares =>
      refine ⟨before, ⟨Or.inl ⟨rfl, rfl, shape, declares⟩, fun b head => ?_⟩, fun k earlier other
        candidate => ?_⟩
      · have placed := blocksPlaced (before + 1) rest _ rfl
        exact (placedBounds placed b (List.mem_of_head? head)).1
      · have := declaresAfter candidate.1
        omega
  · intro before s rest tag opens ih
    refine firstOfCongr (fun k name => ?_) ih
    rw [declaresPastOpener (by simp [opensRun, opens])]
    rfl
  · intro before s rest keyword extra opens ih k name candidate
    have next := candidate.2 _ rfl
    have behind := declaresAfter candidate.1
    rw [Block.documentedLine] at next
    omega

structure OpenedAt (header : Nat) (opener : Text) (tail : List Text) (b : Block)
    (next : Option Block) : Prop where
  opens : opensRun opener = true
  line : b.line = (header : Int)
  function : b.functionName =
    Segment.declared? (segments (runEnd header tail).after (runEnd header tail).rest)
  follows : next =
    (Segment.blocks (segments (runEnd header tail).after (runEnd header tail).rest)).head?

theorem runPrefix (before : Nat) (lines : List Text) :
    ∃ run, lines = run ++ (runEnd before lines).rest ∧
      (runEnd before lines).after = before + run.length := by
  obtain ⟨run, whole⟩ := runEndSuffix before lines
  refine ⟨run, whole.symm, ?_⟩
  have lengths := congrArg List.length whole
  obtain ⟨_, left, _⟩ := runSpan before lines
  rw [List.length_append] at lengths
  omega

theorem openedBehindRun {before : Nat} (s : Text) {rest : List Text} {b : Block}
    {next : Option Block}
    (opened : ∃ xs opener tail, (runEnd (before + 1) rest).rest = xs ++ opener :: tail ∧
      OpenedAt ((runEnd (before + 1) rest).after + xs.length + 1) opener tail b next) :
    ∃ xs opener tail, s :: rest = xs ++ opener :: tail ∧
      OpenedAt (before + xs.length + 1) opener tail b next := by
  obtain ⟨xs, opener, tail, same, found⟩ := opened
  obtain ⟨run, whole, after⟩ := runPrefix (before + 1) rest
  refine ⟨s :: (run ++ xs), opener, tail, ?_, ?_⟩
  · rw [whole, same, List.cons_append, List.append_assoc]
  · have place : before + (s :: (run ++ xs)).length + 1 =
        (runEnd (before + 1) rest).after + xs.length + 1 := by
      rw [List.length_cons, List.length_append]
      omega
    rw [place]
    exact found

theorem blockOpener (before : Nat) (lines : List Text) :
    ∀ (i : Nat) (b : Block), (Segment.blocks (segments before lines))[i]? = some b →
      ∃ xs opener tail, lines = xs ++ opener :: tail ∧
        OpenedAt (before + xs.length + 1) opener tail b
          (Segment.blocks (segments before lines))[i + 1]? := by
  refine segmentsInduction (motive := fun before lines found => ∀ (i : Nat) (b : Block),
    (Segment.blocks found)[i]? = some b → ∃ xs opener tail, lines = xs ++ opener :: tail ∧
      OpenedAt (before + xs.length + 1) opener tail b (Segment.blocks found)[i + 1]?)
    ?_ ?_ ?_ ?_ before lines
  · intro before i b found
    simp [Segment.blocks] at found
  · intro before s rest segment one ih i b found
    rw [one.blocks] at found ⊢
    obtain ⟨xs, opener, tail, rfl, opened⟩ := ih i b found
    refine ⟨s :: xs, opener, tail, rfl, ?_⟩
    rw [List.length_cons, Nat.add_right_comm before, ← Nat.add_assoc]
    exact opened
  · intro before s rest tag opens ih i b found
    exact openedBehindRun s (ih i b found)
  · intro before s rest keyword extra opens ih i b found
    cases i with
    | succ i => exact openedBehindRun s (ih i b found)
    | zero =>
      cases Option.some.inj found
      refine ⟨[], s, rest, rfl, by simp [opensRun, opens], rfl, rfl, ?_⟩
      exact List.head?_eq_getElem?.symm

theorem declaresBehind {xs tail : List Text} {opener : Text}
    (plain : ∀ s ∈ xs ++ opener :: tail, '\n' ∉ s) (opens : opensRun opener = true) (k : Nat)
    (name : Text) :
    ((runEnd (xs.length + 1) tail).after ≤ k ∧ Declares (xs ++ opener :: tail) k name) ↔
      DeclaresAt false (runEnd (xs.length + 1) tail).after (runEnd (xs.length + 1) tail).rest
        k name := by
  obtain ⟨contents, _⟩ := runSpan (xs.length + 1) tail
  rw [declaresExact plain, declaresAppend, Nat.zero_add, declaresPastOpener opens]
  constructor
  · rintro ⟨behind, inside | later⟩
    · have := declaresBefore inside
      omega
    · exact later
  · intro later
    exact ⟨declaresAfter later, Or.inr later⟩

theorem blocksBindFirst {lines : List Text} (plain : ∀ s ∈ lines, '\n' ∉ s) (i : Nat) (b : Block)
    (found : (Segment.blocks (segments 0 lines))[i]? = some b) :
    BindsFirst lines b (Segment.blocks (segments 0 lines))[i + 1]? := by
  obtain ⟨xs, opener, tail, rfl, opened⟩ := blockOpener 0 lines i b found
  have plainTail : ∀ s ∈ tail, '\n' ∉ s := fun s member => plain s (by simp [member])
  have run : Run (xs.length + 1) ((xs ++ opener :: tail).drop (xs.length + 1)) (runContents tail)
      (runEnd (xs.length + 1) tail).ending (runEnd (xs.length + 1) tail).after
      (runEnd (xs.length + 1) tail).rest := by
    have dropped : (xs ++ opener :: tail).drop (xs.length + 1) = tail := by simp
    rw [dropped]
    exact runExists plainTail
  rw [Nat.zero_add] at opened
  refine ⟨_, _, _, _, _, opened.line, run, ?_⟩
  rw [opened.function]
  refine firstOfCongr (fun k name => ?_) (declaredFirst _ _)
  rw [← declaresBehind plain opened.opens, ← opened.follows]
  constructor
  · rintro ⟨⟨behind, declares⟩, ahead⟩
    exact ⟨behind, ahead, declares⟩
  · rintro ⟨behind, ahead, declares⟩
    exact ⟨⟨behind, declares⟩, ahead⟩

theorem bindLastElse (blocks : List Block) (function : Option Text) :
    (bindLast blocks function).length = blocks.length ∧
      ∀ i, i + 1 ≠ blocks.length → (bindLast blocks function)[i]? = blocks[i]? := by
  cases function with
  | none => exact ⟨rfl, fun _ _ => rfl⟩
  | some name =>
    rcases List.eq_nil_or_concat blocks with rfl | ⟨front, last, rfl⟩
    · exact ⟨rfl, fun _ _ => rfl⟩
    · rw [List.concat_eq_append, bindLastConcat]
      refine ⟨by simp, fun i other => ?_⟩
      rw [List.length_append, List.length_singleton] at other
      by_cases early : i < front.length
      · rw [List.getElem?_append_left early, List.getElem?_append_left early]
      · rw [List.getElem?_eq_none (by simp; omega), List.getElem?_eq_none (by simp; omega)]

theorem bindLastBefore {blocks : List Block} (more : List Block) (function : Option Text) {i : Nat}
    (other : i + 1 ≠ blocks.length) :
    (bindLast blocks function ++ more)[i]? = (blocks ++ more)[i]? := by
  obtain ⟨length, same⟩ := bindLastElse blocks function
  rw [List.getElem?_append, List.getElem?_append, length, same i other]

theorem blocksFromOutside {xs : List Text} {s : Text} {segment : Segment} (ys : List Text)
    (outside : outsideAt (readSoFar xs).1.inside (dropLineEnd s) = true)
    (one : segment.OneLine (xs.length + 1) (dropLineEnd s)) :
    (Document.ofLines (xs ++ s :: ys)).blocks =
      bindLast (Document.ofLines xs).blocks
        (Segment.declared? (segment :: segments (xs.length + 1) (ys.map dropLineEnd))) ++
      Segment.blocks (segments (xs.length + 1) (ys.map dropLineEnd)) := by
  have ended : (finish (readSoFar xs).1 (xs.length + 1 : Nat) (readSoFar xs).2).blocks =
      (Document.ofLines xs).blocks := by
    rw [finishElsewhere _ _ xs.length, ← ofLinesFinish]
  have restarts : Document.ofLines (xs ++ s :: ys) =
      readPlain .top (finish (readSoFar xs).1 (xs.length + 1 : Nat) (readSoFar xs).2) xs.length
        (dropLineEnd s :: ys.map dropLineEnd) := by
    rw [ofLinesAppend, List.map_cons]
    generalize readSoFar xs = sofar at outside
    obtain ⟨state, d⟩ := sofar
    cases state with
    | top => rfl
    | metadata _ _ | block _ =>
      obtain ⟨unclosed, interrupts⟩ : isClose (dropLineEnd s) = false ∧
          continuation? (dropLineEnd s) = none := by
        simpa [outsideAt, State.inside] using outside
      exact readInterrupted _ _ _ _ unclosed interrupts
  rw [restarts, readSegments, segmentsOneLine _ one, allBlocks, one.blocks, ended]

theorem blankOutside (inside : Bool) : outsideAt inside (dropLineEnd []) = true := by
  cases inside <;> rfl

theorem blankOneLine (line : Nat) : Segment.OneLine line (dropLineEnd []) .inert := .inert rfl rfl

theorem functionBindingExact (lines : List Text) (plain : ∀ s ∈ lines, '\n' ∉ s) :
    (∀ (i : Nat) (b : Block), (Document.ofLines lines).blocks[i]? = some b →
      BindsFirst (lines.map dropLineEnd) b (Document.ofLines lines).blocks[i + 1]?) ∧
    ∀ xs s ys name, lines = xs ++ s :: ys → Declares (lines.map dropLineEnd) xs.length name →
      (∀ i, i + 1 ≠ (Document.ofLines xs).blocks.length →
        (Document.ofLines lines).blocks[i]? = (Document.ofLines (xs ++ [] :: ys)).blocks[i]?) ∧
      ((Document.ofLines xs).blocks = [] →
        (Document.ofLines lines).blocks = (Document.ofLines (xs ++ [] :: ys)).blocks) := by
  have stripped : ∀ s ∈ lines.map dropLineEnd, '\n' ∉ s := by
    intro s member
    obtain ⟨raw, inside, rfl⟩ := List.mem_map.mp member
    exact dropLineEndPlain (plain raw inside)
  refine ⟨fun i b found => ?_, fun xs s ys name whole declares => ?_⟩
  · rw [readingInterpretsSegments lines] at found ⊢
    exact blocksBindFirst stripped i b found
  · subst whole
    obtain ⟨t, here, outside, shape, declares⟩ := declares
    have same : t = dropLineEnd s := by simpa using here.symm
    have before : ((xs ++ s :: ys).map dropLineEnd).take xs.length = xs.map dropLineEnd := by simp
    have plainT : '\n' ∉ t := stripped t (List.mem_of_getElem? here)
    rw [before, readOutsideExact plainT] at outside
    subst same
    have bound := blocksFromOutside ys outside
      (.function ((topShapeExact plainT).mp shape) declares)
    have blank := blocksFromOutside ys (blankOutside (readSoFar xs).1.inside)
      (blankOneLine (xs.length + 1))
    have others : ∀ i, i + 1 ≠ (Document.ofLines xs).blocks.length →
        (Document.ofLines (xs ++ s :: ys)).blocks[i]? =
          (Document.ofLines (xs ++ [] :: ys)).blocks[i]? := by
      intro i other
      rw [bound, blank, bindLastBefore _ _ other, bindLastBefore _ _ other]
    refine ⟨others, fun none => List.ext_getElem? fun i => others i ?_⟩
    rw [none]
    exact Nat.succ_ne_zero i

/- A function before the first block, one inside the block, one inside a metadata value, and the line
that interrupts this value: the last one is the block's. -/
theorem functionBindingExactForCommand :
    (∀ s ∈ ["f()".toList, "#@/command".toList, " # g()".toList, "#?/name".toList, " # h()".toList,
      "k()".toList], '\n' ∉ s) ∧
    BindsFirst (["f()".toList, "#@/command".toList, " # g()".toList, "#?/name".toList,
        " # h()".toList, "k()".toList].map dropLineEnd)
      { visibility := .command, description := "g()".toList, functionName := some "k".toList,
        line := 2 } none ∧
    (Document.ofLines ["f()".toList, "#@/command".toList, " # g()".toList, "#?/name".toList,
        " # h()".toList, "k()".toList]).blocks =
      (Document.ofLines [[], "#@/command".toList, " # g()".toList, "#?/name".toList,
        " # h()".toList, "k()".toList]).blocks := by
  have binding := functionBindingExact ["f()".toList, "#@/command".toList, " # g()".toList,
    "#?/name".toList, " # h()".toList, "k()".toList] (by decide)
  have declares : Declares (["f()".toList, "#@/command".toList, " # g()".toList, "#?/name".toList,
      " # h()".toList, "k()".toList].map dropLineEnd) 0 "f".toList :=
    ⟨"f()".toList, by decide, Or.inl rfl, (topShapeExact (by decide)).mpr (by decide), by decide⟩
  exact ⟨by decide, binding.1 0 _ (by decide), (binding.2 [] _ _ _ rfl declares).2 (by decide)⟩

end ScriptDoc
