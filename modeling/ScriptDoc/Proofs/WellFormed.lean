import ScriptDoc.Proofs.RecordShape
import ScriptDoc.Proofs.Segmentation

/-! Every document that is read from a text is well formed: spellings, tokens, values, descriptions
and names have their shapes, and a line feed stands only where a text of several lines is meant. What a
document holds is known from its segments, so the segments of a text are where the argument starts. -/
namespace ScriptDoc

def Block.records (b : Block) : List Record :=
  b.flags.map .flag ++ b.options.map .option ++ b.operands.map .operand ++ b.env.map .env ++
    b.reads.map .reads ++ b.stdin.toList.map .stdin ++ b.exit.map .exit ++
    b.stdout.toList.map .stdout ++ b.stderr.toList.map .stderr ++ b.sets.map .sets ++
    b.writes.map .writes ++ b.deprecated.toList.map .deprecated

def FunctionName (name : Text) : Prop :=
  ∃ c rest, name = c :: rest ∧ isWordChar c = true ∧ ∀ d ∈ rest, isNameChar d = true

structure Block.WellFormed (b : Block) : Prop where
  records : ∀ r ∈ b.records, r.WellFormed
  named : ∀ name, b.name = some name →
    b.visibility = .subcommand ∧ name ≠ [] ∧ Text.Trimmed name
  function : ∀ name, b.functionName = some name → FunctionName name
  description : b.description ≠ [] → ∀ line ∈ Text.splitOn '\n' b.description,
    line ≠ [] ∧ isTagLine line = false

def Block.strings (b : Block) : List Text :=
  b.name.toList ++ b.functionName.toList ++ b.records.flatMap Record.strings

def Document.strings (d : Document) : List Text :=
  d.path.toList ++ d.shebang.toList ++ d.blocks.flatMap Block.strings ++
    d.warnings.map Warning.message

def Block.Holds (b : Block) : Record → Prop
  | .flag r => r ∈ b.flags
  | .option r => r ∈ b.options
  | .operand r => r ∈ b.operands
  | .env r => r ∈ b.env
  | .reads r => r ∈ b.reads
  | .stdin r => b.stdin = some r
  | .exit r => r ∈ b.exit
  | .stdout r => b.stdout = some r
  | .stderr r => b.stderr = some r
  | .sets r => r ∈ b.sets
  | .writes r => r ∈ b.writes
  | .deprecated r => b.deprecated = some r

theorem memRecords {b : Block} {r : Record} : r ∈ b.records ↔ b.Holds r := by
  cases r <;> simp [Block.records, Block.Holds]

theorem holdsWith {b : Block} {records : List Record} {r : Record}
    (holds : (b.withRecords records).Holds r) : r ∈ records ∨ b.Holds r := by
  cases r with
  | flag r | option r | operand r | env r | reads r | exit r | sets r | writes r =>
    rcases List.mem_append.mp holds with before | added
    · exact Or.inr before
    · obtain ⟨record, inside, same⟩ := List.mem_filterMap.mp added
      split at same <;> cases same
      exact Or.inl inside
  | stdin r | stdout r | stderr r | deprecated r =>
    rcases Option.or_eq_some_iff.mp holds with last | ⟨_, before⟩
    · obtain ⟨record, inside, same⟩ := List.mem_filterMap.mp (List.mem_of_getLast? last)
      split at same <;> cases same
      exact Or.inl inside
    · exact Or.inr before

theorem splitTagPlain {content name text : Text} (plain : '\n' ∉ content)
    (split : splitTag? content = some (name, text)) : '\n' ∉ name ∧ '\n' ∉ text := by
  unfold splitTag? at split
  split at split
  · rename_i rest trimmed
    have plainRest : '\n' ∉ rest := by
      intro member
      apply plainTrim plain
      rw [trimmed]
      exact List.mem_cons_of_mem _ member
    cases Option.some.inj split
    exact ⟨fun member => plainRest (splitTokenMem (Or.inl member)),
      plainTrim fun member => plainRest (splitTokenMem (Or.inr member))⟩
  · contradiction

theorem followersSolid {contents : List Text} (plain : ∀ s ∈ contents, '\n' ∉ s) :
    ∀ s ∈ followers contents, s ≠ [] ∧ Text.SolidEnds s ∧ '\n' ∉ s := by
  intro s member
  obtain ⟨inside, filled⟩ := List.mem_filter.mp member
  obtain ⟨content, taken, rfl⟩ := List.mem_map.mp inside
  exact ⟨by simpa using filled, Text.trimSolidEnds content,
    plainTrim (plain content ((List.takeWhile_subset _) taken))⟩

structure TagGroup.Plain (group : TagGroup) : Prop where
  name : '\n' ∉ group.name
  text : '\n' ∉ group.text
  followers : ∀ s ∈ group.followers, s ≠ [] ∧ Text.SolidEnds s ∧ '\n' ∉ s

theorem tagGroupsPlain {contents : List Text} (before : Nat) (plain : ∀ s ∈ contents, '\n' ∉ s) :
    ∀ group ∈ tagGroups before contents, group.Plain := by
  induction contents generalizing before with
  | nil => simp [tagGroups]
  | cons content rest ih =>
    have later : ∀ s ∈ rest, '\n' ∉ s := fun s member => plain s (by simp [member])
    simp only [tagGroups]
    split
    · rename_i name text split
      intro group member
      rcases List.mem_cons.mp member with rfl | inRest
      · obtain ⟨plainName, plainText⟩ := splitTagPlain (plain content (by simp)) split
        exact ⟨plainName, plainText, followersSolid later⟩
      · exact ih (before + 1) later group inRest
    · exact ih (before + 1) later

theorem continuedSound {r : Record} {followers : List Text} (sound : r.Sound)
    (solid : ∀ s ∈ followers, s ≠ [] ∧ Text.SolidEnds s ∧ '\n' ∉ s) :
    (r.continued followers).Sound := by
  rw [Record.continuedExtends]
  split
  · exact sound
  · rename_i some
    obtain ⟨filled, ends⟩ := Text.joinSolid [' '] (by simpa using some)
      (fun s member => ⟨(solid s member).1, (solid s member).2.1⟩)
    refine Record.extendSound sound filled ends (fun member => ?_)
    rcases Text.memJoin member with between | ⟨piece, inside, found⟩
    · exact absurd between (by decide)
    · exact (solid piece inside).2.2 found

theorem tagRecordsSound {contents : List Text} (before : Nat) (plain : ∀ s ∈ contents, '\n' ∉ s) :
    ∀ r ∈ tagRecords before contents, r.Sound := by
  intro r member
  obtain ⟨group, inside, same⟩ := List.mem_filterMap.mp member
  have plainGroup := tagGroupsPlain before plain group inside
  unfold TagGroup.record? at same
  split at same
  · rename_i record read
    cases Option.some.inj same
    exact continuedSound (Record.readSound plainGroup.text read) plainGroup.followers
  · contradiction

theorem tagWarningsPlain {contents : List Text} (before : Nat) (plain : ∀ s ∈ contents, '\n' ∉ s) :
    ∀ w ∈ tagWarnings before contents, '\n' ∉ w.message := by
  intro w member
  obtain ⟨group, inside, same⟩ := List.mem_filterMap.mp member
  unfold TagGroup.warning? at same
  split at same
  · contradiction
  · rename_i e read
    cases Option.some.inj same
    exact tagMessagePlain (tagGroupsPlain before plain group inside).name read

theorem leadingTextLines {contents : List Text} (plain : ∀ s ∈ contents, '\n' ∉ s) :
    ∀ s ∈ leadingText contents, s ≠ [] ∧ isTagLine s = false ∧ '\n' ∉ s := by
  intro s member
  obtain ⟨taken, filled⟩ := List.mem_filter.mp member
  have untagged := List.mem_takeWhile_imp taken
  exact ⟨by simpa using filled, by simpa using untagged,
    plain s ((List.takeWhile_subset _) taken)⟩

theorem headerNamed {keyword extra name : Text}
    (named : (blockHeader keyword extra).2 = some name) :
    (blockHeader keyword extra).1 = .subcommand ∧ name ≠ [] ∧ name = extra := by
  unfold blockHeader at named ⊢
  split
  · rename_i subcommand
    rw [if_pos subcommand] at named
    simp only at named
    split at named
    · contradiction
    · rename_i filled
      cases Option.some.inj named
      exact ⟨rfl, by simpa using filled, rfl⟩
  · rename_i other
    rw [if_neg other] at named
    -- no other header has a name
    split at named
    · cases named
    · split at named <;> cases named

theorem documentedHolds {keyword extra : Text} {line : Nat} {contents : List Text}
    {function : Option Text} {r : Record}
    (holds : { Block.documented keyword extra line contents with functionName := function }.Holds r) :
    r ∈ tagRecords line contents := by
  have same : (Block.documented keyword extra line contents).Holds r := by
    cases r <;> exact holds
  rcases holdsWith same with added | before
  · exact added
  · cases r <;> cases before

theorem documentedWellFormed {keyword extra : Text} (line : Nat) {contents : List Text}
    {function : Option Text} (trimmed : Text.Trimmed extra) (plain : ∀ s ∈ contents, '\n' ∉ s)
    (declared : ∀ name, function = some name → FunctionName name) :
    { Block.documented keyword extra line contents with functionName := function }.WellFormed := by
  refine ⟨fun r member => ?_, fun name named => ?_, declared, fun filled => ?_⟩
  · have inside := documentedHolds (memRecords.mp member)
    exact (tagRecordsSound line plain r inside).toWellFormed
  · obtain ⟨subcommand, nonempty, same⟩ := headerNamed named
    rw [same] at nonempty ⊢
    exact ⟨subcommand, nonempty, trimmed⟩
  · have lines := leadingTextLines plain
    have some : leadingText contents ≠ [] := by
      intro none
      apply filled
      change Text.join ['\n'] (leadingText contents) = []
      rw [none]
      rfl
    change ∀ line ∈ Text.splitOn '\n' (Text.join ['\n'] (leadingText contents)), _
    rw [Text.splitOnJoin some (fun s member => (lines s member).2.2)]
    exact fun s member => ⟨(lines s member).1, (lines s member).2.1⟩

theorem functionNamePlain {name : Text} (shape : FunctionName name) : '\n' ∉ name := by
  obtain ⟨c, rest, rfl, first, later⟩ := shape
  intro member
  rcases List.mem_cons.mp member with rfl | inside
  · exact absurd first (by decide)
  · exact absurd (later '\n' inside) (by decide)

theorem documentedPlain {keyword extra : Text} (line : Nat) {contents : List Text}
    {function : Option Text} (plainExtra : '\n' ∉ extra) (plain : ∀ s ∈ contents, '\n' ∉ s)
    (declared : ∀ name, function = some name → FunctionName name) :
    ∀ s ∈ { Block.documented keyword extra line contents with functionName := function }.strings,
      '\n' ∉ s := by
  intro s member
  rcases List.mem_append.mp member with names | inRecords
  · rcases List.mem_append.mp names with named | function
    · rw [(headerNamed (Option.mem_toList.mp named)).2.2]
      exact plainExtra
    · exact functionNamePlain (declared s (Option.mem_toList.mp function))
  · obtain ⟨r, held, inside⟩ := List.mem_flatMap.mp inRecords
    exact (tagRecordsSound line plain r (documentedHolds (memRecords.mp held))).plain s inside

theorem takeNameShape {s name rest : Text} (found : takeName? s = some (name, rest)) :
    FunctionName name := by
  cases s with
  | nil => contradiction
  | cons c tail =>
    simp only [takeName?] at found
    split at found
    · rename_i word
      cases Option.some.inj found
      exact ⟨c, _, rfl, word, fun d member => List.mem_takeWhile_imp member⟩
    · contradiction

theorem keywordFunctionShape {s name : Text} (declares : keywordFunction? s = some name) :
    FunctionName name := by
  simp only [keywordFunction?, bind, Option.bind_eq_some_iff] at declares
  obtain ⟨after, _, found⟩ := declares
  split at found
  · split at found
    · simp only [Option.bind_eq_some_iff] at found
      obtain ⟨⟨taken, rest⟩, shape, same⟩ := found
      cases Option.some.inj same
      exact takeNameShape shape
    · contradiction
  · contradiction

theorem parenFunctionShape {s name : Text} (declares : parenFunction? s = some name) :
    FunctionName name := by
  simp only [parenFunction?, bind, Option.bind_eq_some_iff] at declares
  obtain ⟨⟨taken, rest⟩, shape, found⟩ := declares
  simp only at found
  split at found
  · cases Option.some.inj found
    exact takeNameShape shape
  · contradiction

theorem functionNameShape {s name : Text} (declares : functionName? s = some name) :
    FunctionName name := by
  simp only [functionName?] at declares
  split at declares
  · rename_i found
    cases Option.some.inj declares
    exact keywordFunctionShape found
  · exact parenFunctionShape declares

def Segment.Sound : Segment → Prop
  | .shebang interpreter => '\n' ∉ interpreter
  | .metaValue _ tag _ => '\n' ∉ tag
  | .metadata tag _ _ => '\n' ∉ tag
  | .block _ _ extra contents =>
    Text.Trimmed extra ∧ '\n' ∉ extra ∧ ∀ s ∈ contents, '\n' ∉ s
  | .function name => FunctionName name
  | .inert => True

theorem runPlain {before : Nat} {lines contents rest : List Text} {ending after : Nat}
    (plain : ∀ s ∈ lines, '\n' ∉ s) (run : Run before lines contents ending after rest) :
    (∀ s ∈ contents, '\n' ∉ s) ∧ (∀ s ∈ rest, '\n' ∉ s) := by
  induction run with
  | @more before s lines content contents ending after rest shape unclosed next ih =>
    obtain ⟨plainContents, plainRest⟩ := ih (fun t member => plain t (by simp [member]))
    have plainLine := plain s (by simp)
    refine ⟨fun t member => ?_, plainRest⟩
    rcases List.mem_cons.mp member with rfl | later
    · intro inside
      rcases shape with rfl | ⟨rfl, _⟩ <;> exact plainLine (by simp [inside])
    · exact plainContents t later
  | closed shape => exact ⟨by simp, fun t member => plain t (by simp [member])⟩
  | interrupted unclosed other => exact ⟨by simp, plain⟩
  | ended => exact ⟨by simp, by simp⟩

theorem shebangPlain {s interpreter : Text} (plain : '\n' ∉ s)
    (shape : TopShape s (.shebang interpreter)) : '\n' ∉ interpreter := by
  cases shape with
  | shebang shape =>
    obtain ⟨rfl, _⟩ := shape
    exact plainTrim fun member => plain (by simp [member])

theorem metaTagPlain {s tag : Text} (plain : '\n' ∉ s)
    (shape : TopShape s (.metaOpen tag) ∨ ∃ value, TopShape s (.metaValue tag value)) :
    '\n' ∉ tag := by
  rcases shape with shape | ⟨value, shape⟩
  · cases shape with
    | metaOpen shape _ =>
      obtain ⟨blanks, rfl, _⟩ := shape
      exact fun member => plain (by simp [member])
  · cases shape with
    | metaValue shape =>
      obtain ⟨blanks, rfl, _⟩ := shape
      exact fun member => plain (by simp [member])

theorem blockExtraPlain {s keyword extra : Text} (plain : '\n' ∉ s)
    (shape : TopShape s (.blockOpen keyword extra)) : Text.Trimmed extra ∧ '\n' ∉ extra := by
  cases shape with
  | blockOpen shape =>
    obtain ⟨blanks, rfl, _⟩ := shape
    exact ⟨Text.trimTrimmed _, plainTrim fun member => plain (by simp [member])⟩

theorem segmentsSound {before : Nat} {lines : List Text} {found : List Segment}
    (plain : ∀ s ∈ lines, '\n' ∉ s) (cut : Segmented before lines found) :
    ∀ segment ∈ found, segment.Sound := by
  induction cut with
  | nil before => simp
  | @shebang before s rest interpreter found shape next ih =>
    exact List.forall_mem_cons.mpr ⟨shebangPlain (plain s (by simp)) shape,
      ih fun t member => plain t (by simp [member])⟩
  | @metaValue before s rest tag value found shape next ih =>
    exact List.forall_mem_cons.mpr ⟨metaTagPlain (plain s (by simp)) (Or.inr ⟨value, shape⟩),
      ih fun t member => plain t (by simp [member])⟩
  | @metadata before s lines tag contents ending after rest found shape run next ih =>
    obtain ⟨_, plainRest⟩ := runPlain (fun t member => plain t (by simp [member])) run
    exact List.forall_mem_cons.mpr ⟨metaTagPlain (plain s (by simp)) (Or.inl shape), ih plainRest⟩
  | @block before s lines keyword extra contents ending after rest found shape run next ih =>
    obtain ⟨plainContents, plainRest⟩ := runPlain (fun t member => plain t (by simp [member])) run
    obtain ⟨trimmed, plainExtra⟩ := blockExtraPlain (plain s (by simp)) shape
    exact List.forall_mem_cons.mpr ⟨⟨trimmed, plainExtra, plainContents⟩, ih plainRest⟩
  | @function before s rest name found shape declares next ih =>
    exact List.forall_mem_cons.mpr ⟨functionNameShape declares,
      ih fun t member => plain t (by simp [member])⟩
  | @inert before s rest found shape declares next ih =>
    exact List.forall_mem_cons.mpr ⟨trivial, ih fun t member => plain t (by simp [member])⟩

theorem declaredShape {found : List Segment} (sound : ∀ segment ∈ found, segment.Sound) :
    ∀ name, Segment.declared? found = some name → FunctionName name := by
  induction found with
  | nil => simp [Segment.declared?]
  | cons segment rest ih =>
    obtain ⟨first, later⟩ := List.forall_mem_cons.mp sound
    intro name declared
    cases segment with
    | function other =>
      cases Option.some.inj declared
      exact first
    | block line keyword extra contents => contradiction
    | shebang _ | metaValue _ _ _ | metadata _ _ _ | inert => exact ih later name declared

/- Every block comes from a segment, and takes its function from the segments after it. -/
theorem blockOrigin {found : List Segment} (sound : ∀ segment ∈ found, segment.Sound) {b : Block}
    (member : b ∈ Segment.blocks found) :
    ∃ line keyword extra contents function,
      b = { Block.documented keyword extra line contents with functionName := function } ∧
      Segment.Sound (.block line keyword extra contents) ∧
      ∀ name, function = some name → FunctionName name := by
  induction found with
  | nil => contradiction
  | cons segment rest ih =>
    obtain ⟨first, later⟩ := List.forall_mem_cons.mp sound
    cases segment with
    | block line keyword extra contents =>
      rcases List.mem_cons.mp member with rfl | inRest
      · exact ⟨line, keyword, extra, contents, _, rfl, first, declaredShape later⟩
      · exact ih later inRest
    | shebang _ | metaValue _ _ _ | metadata _ _ _ | function _ | inert => exact ih later member

theorem segmentWarningsPlain {segment : Segment} (sound : segment.Sound) :
    ∀ w ∈ segment.warnings, '\n' ∉ w.message := by
  have unknown : ∀ (line : Nat) {tag : Text}, '\n' ∉ tag →
      ∀ w ∈ Segment.unknownTag line tag, '\n' ∉ w.message := by
    intro line tag plain w member
    unfold Segment.unknownTag at member
    split at member
    · contradiction
    · rw [List.mem_singleton.mp member]
      exact List.not_mem_append (by decide) plain
  cases segment with
  | metaValue line tag value => exact unknown line sound
  | metadata tag contents ending => exact unknown ending sound
  | block line keyword extra contents => exact tagWarningsPlain line sound.2.2
  | shebang _ | function _ | inert => simp [Segment.warnings]

theorem lineEnds (s : Text) : ∀ line ∈ Text.lines s,
    '\n' ∉ line ∨ ∃ body, line = body ++ ['\n'] ∧ '\n' ∉ body := by
  induction s with
  | nil => simp [Text.lines]
  | cons c rest ih =>
    simp only [Text.lines]
    split
    · rename_i feed
      subst feed
      exact List.forall_mem_cons.mpr ⟨Or.inr ⟨[], rfl, by simp⟩, ih⟩
    · rename_i other
      have differs : '\n' ≠ c := fun same => other same.symm
      split
      · intro line member
        rw [List.mem_singleton.mp member]
        exact Or.inl (by simpa using differs)
      · rename_i line more lines
        rw [lines] at ih
        obtain ⟨first, later⟩ := List.forall_mem_cons.mp ih
        refine List.forall_mem_cons.mpr ⟨?_, later⟩
        rcases first with plain | ⟨body, rfl, plain⟩
        · exact Or.inl (List.not_mem_cons_of_ne_of_not_mem differs plain)
        · exact Or.inr ⟨c :: body, rfl, List.not_mem_cons_of_ne_of_not_mem differs plain⟩

theorem linesPlain (s : Text) : ∀ line ∈ (Text.lines s).map dropLineEnd, '\n' ∉ line := by
  intro line member
  obtain ⟨raw, inside, rfl⟩ := List.mem_map.mp member
  rcases lineEnds s raw inside with plain | ⟨body, rfl, plain⟩
  · exact dropLineEndPlain plain
  · have stripped : dropLineEnd (body ++ ['\n']) =
        if body.getLast? = some '\r' then body.dropLast else body := by
      simp [dropLineEnd]
    rw [stripped]
    split
    · exact fun inBody => plain ((List.dropLast_subset body) inBody)
    · exact plain

theorem interpretWellFormed {found : List Segment} (sound : ∀ segment ∈ found, segment.Sound) :
    ∀ b ∈ (interpret found).blocks, b.WellFormed := by
  intro b member
  obtain ⟨line, keyword, extra, contents, function, rfl, ⟨trimmed, _, plain⟩, declared⟩ :=
    blockOrigin sound member
  exact documentedWellFormed line trimmed plain declared

theorem interpretPlain {found : List Segment} (sound : ∀ segment ∈ found, segment.Sound) :
    ∀ s ∈ (interpret found).strings, '\n' ∉ s := by
  intro s member
  simp only [Document.strings, List.mem_append] at member
  rcases member with ((path | shebang) | inBlocks) | inWarnings
  · simp [interpret] at path
  · have last := List.mem_of_getLast? (Option.mem_toList.mp shebang)
    obtain ⟨segment, inside, found⟩ := List.mem_filterMap.mp last
    cases segment with
    | shebang interpreter =>
      cases Option.some.inj found
      exact sound _ inside
    | metaValue _ _ _ | metadata _ _ _ | block _ _ _ _ | function _ | inert => contradiction
  · obtain ⟨b, held, inside⟩ := List.mem_flatMap.mp inBlocks
    obtain ⟨line, keyword, extra, contents, function, rfl, ⟨_, plainExtra, plain⟩, declared⟩ :=
      blockOrigin sound held
    exact documentedPlain line plainExtra plain declared s inside
  · obtain ⟨w, raised, rfl⟩ := List.mem_map.mp inWarnings
    obtain ⟨segment, inside, raised⟩ := List.mem_flatMap.mp raised
    exact segmentWarningsPlain (sound segment inside) w raised

theorem documentsAreWellFormed (s : Text) :
    (∀ b ∈ (Document.ofText s).blocks, b.WellFormed) ∧
      ∀ t ∈ (Document.ofText s).strings, '\n' ∉ t := by
  have plain := linesPlain s
  have sound : ∀ segment ∈ segments 0 ((Text.lines s).map dropLineEnd), segment.Sound :=
    segmentsSound plain (segmentsExist plain)
  have read : Document.ofText s = interpret (segments 0 ((Text.lines s).map dropLineEnd)) :=
    readingInterpretsSegments (Text.lines s)
  rw [read]
  exact ⟨interpretWellFormed sound, interpretPlain sound⟩

end ScriptDoc
