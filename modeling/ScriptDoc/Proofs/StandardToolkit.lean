import Mathlib.Data.List.TakeWhile
import ScriptDoc.Cli.Standard
import ScriptDoc.Proofs.FileTree
import ScriptDoc.Proofs.ToolkitLaws

/-! The toolkit that the program is run with keeps all that is promised of one. -/
namespace ScriptDoc
namespace Standard

section Stops
variable {t : Tree} {directory : Path}

inductive Stop : Parsed → Prop where
  | fault (f : Fault) : Stop (.replied f.reply)
  | help (text : Text) : Stop (.replied { stdout := text })
  | crash (c : Crash) : Stop (.crashed c)

def Stops (reading : Reading α) : Prop := ∀ p, reading = .error p → Stop p

theorem okStops (value : α) : Stops (.ok value : Reading α) := by
  intro p stopped
  contradiction

theorem refuseStops (f : Fault) : Stops (refuse f : Reading α) := by
  rintro p ⟨⟩
  exact .fault f

theorem bindStops {reading : Reading α} {next : α → Reading β} (first : Stops reading)
    (later : ∀ value, Stops (next value)) : Stops (reading >>= next) := by
  cases reading with
  | error p =>
    rintro q ⟨⟩
    exact first p rfl
  | ok value => exact later value

theorem checkPathStops (fault : Text → PathProblem → Fault) (given : Text) :
    Stops (checkPath t directory fault given) := by
  unfold checkPath
  split
  · rintro p ⟨⟩
    exact .crash _
  · split
    · exact okStops ()
    · split
      · exact refuseStops _
      · split
        · exact okStops ()
        · exact refuseStops _

theorem scannedStops [DecidableEq α] (page : Page) (table : OptionTable (Asked α))
    (arguments : List Text) : Stops (scanned page table arguments) := by
  unfold scanned
  split
  · exact refuseStops _
  · split
    · rintro p ⟨⟩
      exact .help _
    · exact okStops _

theorem renderStops (s : Scanned (Asked RenderOption)) : Stops (renderRequest t directory s) := by
  refine bindStops ?_ fun _ => bindStops ?_ fun _ => okStops _
  · cases s.value? (.option .output) with
    | none => exact okStops ()
    | some path => exact checkPathStops _ path
  · unfold checkFiles
    split
    · exact refuseStops _
    · exact okStops ()

theorem choiceStops (s : Scanned (Asked CompleteOption)) (option : CompleteOption) :
    Stops (choice s option) := by
  unfold choice
  split
  · exact okStops _
  · split
    · exact okStops _
    · exact refuseStops _

theorem checkChoiceStops (s : Scanned (Asked CompleteOption)) (asked : Asked CompleteOption) :
    Stops (checkChoice s asked) := by
  unfold checkChoice
  split
  · exact okStops ()
  · rename_i option
    have stops := choiceStops s option
    cases chosen : choice s option with
    | ok shell => exact okStops ()
    | error p =>
      rintro q ⟨⟩
      exact stops p chosen

theorem choicesStop (s : Scanned (Asked CompleteOption)) : Stops (checkChoices s) := by
  unfold checkChoices
  generalize s.given = given
  induction given with
  | nil => exact okStops ()
  | cons entry rest ih => exact bindStops (checkChoiceStops s entry.1) fun _ => ih

theorem completeStops (s : Scanned (Asked CompleteOption)) :
    Stops (completeRequest t directory s) := by
  refine bindStops (choicesStop s) fun _ => ?_
  split
  · exact refuseStops _
  · rename_i script rest _
    refine bindStops (checkPathStops _ script) fun _ => bindStops ?_ fun _ =>
      bindStops (choiceStops s .shell) fun _ => bindStops (choiceStops s .setup) fun _ => okStops _
    unfold checkRest
    split
    · exact okStops ()
    · exact refuseStops _

theorem programStops (arguments : List Text) : Stop (program arguments) := by
  unfold program
  split
  · exact .fault _
  · split
    · exact .help _
    · exact .help _

end Stops

section Render
variable {t : Tree} {directory : Path}

theorem requestFiles {s : Scanned (Asked RenderOption)} {r : RenderRequest}
    (accepted : renderRequest t directory s = .ok r) : r.files ≠ [] := by
  obtain ⟨_, -, accepted⟩ := bindOk accepted
  obtain ⟨_, checked, accepted⟩ := bindOk accepted
  cases accepted
  unfold checkFiles at checked
  split at checked
  · contradiction
  · rename_i filled
    simpa using filled

theorem parsedCases {reading : Reading Parsed} (stops : Stops reading) :
    Stop (Reading.parsed reading) ∨ ∃ p, reading = .ok p ∧ Reading.parsed reading = p := by
  cases reading with
  | error p => exact Or.inl (stops p rfl)
  | ok p => exact Or.inr ⟨p, rfl, rfl⟩

theorem renderComes (t : Tree) (directory : Path) (arguments : List Text) :
    let p := (parseRender t directory arguments).parsed
    Stop p ∨ ∃ r : RenderRequest, p = .render r ∧ r.files ≠ [] := by
  intro p
  have stops : Stops (parseRender t directory arguments) :=
    bindStops (scannedStops _ _ arguments) fun s => bindStops (renderStops s) fun _ => okStops _
  rcases parsedCases stops with stop | ⟨q, accepted, same⟩
  · exact Or.inl stop
  · obtain ⟨s, -, accepted⟩ := bindOk accepted
    obtain ⟨r, asked, accepted⟩ := bindOk accepted
    cases accepted
    exact Or.inr ⟨r, same, requestFiles asked⟩

theorem completeComes (t : Tree) (directory : Path) (arguments : List Text) :
    let p := (parseComplete t directory arguments).parsed
    Stop p ∨ ∃ r : CompleteRequest, p = .complete r := by
  intro p
  have stops : Stops (parseComplete t directory arguments) :=
    bindStops (scannedStops _ _ arguments) fun s => bindStops (completeStops s) fun _ => okStops _
  rcases parsedCases stops with stop | ⟨q, accepted, same⟩
  · exact Or.inl stop
  · obtain ⟨s, -, accepted⟩ := bindOk accepted
    obtain ⟨r, -, accepted⟩ := bindOk accepted
    cases accepted
    exact Or.inr ⟨r, same⟩

inductive Comes : Parsed → Prop where
  | stopped {p : Parsed} (stop : Stop p) : Comes p
  | render {r : RenderRequest} (files : r.files ≠ []) : Comes (.render r)
  | complete (r : CompleteRequest) : Comes (.complete r)

theorem parseComes (t : Tree) (directory : Path) (arguments : List Text) :
    Comes (parse t directory arguments) := by
  unfold parse
  split
  · exact .stopped (programStops [])
  · rename_i first rest
    split
    · rcases renderComes t directory rest with stop | ⟨r, same, files⟩
      · exact .stopped stop
      · rw [same]
        exact .render files
    · split
      · rcases completeComes t directory rest with stop | ⟨r, same⟩
        · exact .stopped stop
        · rw [same]
          exact .complete r
      · exact .stopped (programStops _)

theorem parsedComes {arguments : List Text} {p : Parsed}
    (parsed : Toolkit.standard.parse t directory arguments = p) : Comes p := by
  rw [← parsed]
  exact parseComes t directory arguments

theorem spelledParses {r : RenderRequest} (files : r.files ≠ []) (printing : r.output = none) :
    parse t directory (Command.render.name :: r.spelled) = .render r := by
  obtain ⟨files, format, tag, output, warnings, quiet⟩ := r
  cases printing
  obtain ⟨first, rest, rfl⟩ := List.exists_cons_of_ne_nil files
  cases format <;> cases tag <;> cases warnings <;> cases quiet <;> rfl

end Render

section Complete
variable {t : Tree} {directory : Path} {script : Text}

def shellsGiven (shells : List Shell) (others : List Text) : Scanned (Asked CompleteOption) :=
  ⟨shells.map fun shell => (.option .shell, shell.name), others⟩

theorem scanArgument {given : Text} (plain : given.head? ≠ some '-' ∨ given = ['-'])
    (rest : List Text) : completeTable.scanFrom true none (given :: rest) =
      (completeTable.scanFrom true none rest).map (Scanned.addArgument given) := by
  rcases plain with other | rfl
  · cases given with
    | nil => rfl
    | cons c more =>
      have different : c ≠ '-' := fun same => other (by rw [same]; rfl)
      rw [OptionTable.scanFrom]
      · rfl
      all_goals simp [different]
  · rfl

theorem addNothing (action : Except ε (Scanned α)) :
    action.map (Scanned.addOption []) = action := by
  cases action with
  | error e => rfl
  | ok scanned => rfl

theorem scanApart (value : Text) (rest : List Text) :
    completeTable.scanFrom true none ("--shell" :: value :: rest) =
      (completeTable.scanFrom true none rest).map
        (Scanned.addOption [(.option .shell, value)]) :=
  addNothing _

theorem scanJoined (value : Text) (rest : List Text) :
    completeTable.scanFrom true none (joinedOption "--shell" value :: rest) =
      (completeTable.scanFrom true none rest).map
        (Scanned.addOption [(.option .shell, value)]) :=
  rfl

theorem asksScan {arguments others : List Text} {shells : List Shell}
    (asks : Asks arguments shells others) :
    completeTable.scan true arguments = .ok (shellsGiven shells others) := by
  rw [OptionTable.scan]
  induction asks with
  | done => rfl
  | ended rest => rfl
  | apart shell asks ih =>
    rw [scanApart, ih]
    rfl
  | joined shell asks ih =>
    rw [scanJoined, ih]
    rfl
  | argument plain asks ih =>
    rw [scanArgument plain, ih]
    rfl

theorem shellValue (shells : List Shell) (others : List Text) :
    (shellsGiven shells others).value? (.option .shell) = shells.getLast?.map Shell.name := by
  have all : (shellsGiven shells others).given.filter (fun entry => entry.1 = .option .shell) =
      (shellsGiven shells others).given := List.filter_eq_self.mpr (by simp [shellsGiven])
  rw [Scanned.value?, all, shellsGiven, List.getLast?_map, Option.map_map]
  rfl

theorem otherValue {asked : Asked CompleteOption} (other : asked ≠ .option .shell)
    (shells : List Shell) (others : List Text) :
    (shellsGiven shells others).value? asked = none := by
  simp [Scanned.value?, shellsGiven, Ne.symm other]

theorem shellChoice {shells : List Shell} (known : ∀ shell ∈ shells, shell = .bash ∨ shell = .fish)
    (others : List Text) : choice (shellsGiven shells others) .shell = .ok shells.getLast? := by
  rw [choice, shellValue]
  cases last : shells.getLast? with
  | none => rfl
  | some shell =>
    rcases known shell (List.mem_of_getLast? last) with rfl | rfl
    · rfl
    · rfl

theorem forMPasses {items : List α} {check : α → Except ε Unit}
    (each : ∀ item ∈ items, check item = .ok ()) : items.forM check = .ok () := by
  induction items with
  | nil => rfl
  | cons item rest ih =>
    obtain ⟨first, later⟩ := List.forall_mem_cons.mp each
    have step : (item :: rest).forM check = check item >>= fun _ => rest.forM check := rfl
    rw [step, first]
    exact ih later

theorem choicesPass {shells : List Shell} (known : ∀ shell ∈ shells, shell = .bash ∨ shell = .fish)
    (others : List Text) : checkChoices (shellsGiven shells others) = .ok () := by
  refine forMPasses fun entry member => ?_
  obtain ⟨shell, -, rfl⟩ := List.mem_map.mp member
  rw [checkChoice, shellChoice known others]
  rfl

theorem pathRefused (fault : Text → PathProblem → Fault) (legal : nul ∉ script)
    (unfit : t.Unfit directory script) :
    ∃ problem, checkPath t directory fault script = refuse (fault script problem) := by
  obtain ⟨node, found, kind⟩ := unfit
  rw [checkPath, if_neg (by simpa using legal), found]
  simp only
  split
  · exact ⟨_, rfl⟩
  · rename_i file
    rcases kind with directory | unreadable
    · exact absurd directory file
    · rw [if_neg (by simp [unreadable])]
      exact ⟨_, rfl⟩

theorem pathAccepted {fault : Text → PathProblem → Fault} (legal : nul ∉ script)
    (fit : ¬ t.Unfit directory script) : checkPath t directory fault script = .ok () := by
  rw [checkPath, if_neg (by simpa using legal)]
  split
  · rfl
  · rename_i node found
    have file : ¬ node.isDirectory = true := fun directory => fit ⟨node, found, Or.inl directory⟩
    rw [if_neg file]
    split
    · rfl
    · rename_i unreadable
      exact absurd ⟨node, found, Or.inr (by simpa using unreadable)⟩ fit

theorem handlerParses {arguments : List Text} {choice : Option Shell}
    (call : HandlerCall arguments choice script) :
    parse t directory (Command.complete.name :: arguments) =
      Reading.parsed (checkPath t directory .script script >>= fun _ =>
        .ok (.complete ⟨script, choice, none⟩)) := by
  obtain ⟨shells, asks, known, rfl⟩ := call
  have found : scanned .complete completeTable arguments = .ok (shellsGiven shells [script]) := by
    rw [scanned, asksScan asks]
    simp only [Scanned.has, otherValue (by decide : Asked.help ≠ .option CompleteOption.shell),
      Option.isSome_none, Bool.false_eq_true, if_false]
  have setup : Standard.choice (shellsGiven shells [script]) .setup = .ok none := by
    rw [Standard.choice, otherValue (by decide)]
  have request : completeRequest t directory (shellsGiven shells [script]) =
      checkPath t directory .script script >>= fun _ => .ok ⟨script, shells.getLast?, none⟩ := by
    have opened : completeRequest t directory (shellsGiven shells [script]) =
        checkChoices (shellsGiven shells [script]) >>= fun _ =>
        checkPath t directory .script script >>= fun _ =>
        Standard.choice (shellsGiven shells [script]) .shell >>= fun shell =>
        Standard.choice (shellsGiven shells [script]) .setup >>= fun setup =>
        .ok ⟨script, shell, setup⟩ := rfl
    rw [opened, choicesPass known, shellChoice known, setup]
    rfl
  have begun : parse t directory (Command.complete.name :: arguments) =
      (parseComplete t directory arguments).parsed := rfl
  rw [begun, parseComplete, found]
  cases checked : checkPath t directory .script script with
  | error p => simp [request, checked, bind, Except.bind, Reading.parsed]
  | ok _ => simp [request, checked, bind, Except.bind, Reading.parsed]

end Complete

section Echo

theorem sequenceTaken {s after : Text} (found : ControlSequence.rest? s = some after) :
    Text.withoutSequences ('\x1b' :: '[' :: s) = after.withoutSequences := by
  rw [Text.withoutSequences]
  split
  · rename_i other same
    cases Option.some.inj (found.symm.trans same)
    rfl
  · rename_i unfinished
    rw [found] at unfinished
    contradiction

theorem sequenceKept {s : Text} (unfinished : ControlSequence.rest? s = none) :
    Text.withoutSequences ('\x1b' :: '[' :: s) = '\x1b' :: '[' :: s.withoutSequences := by
  rw [Text.withoutSequences]
  split
  · rename_i other same
    rw [unfinished] at same
    contradiction
  · rfl

theorem ordinaryKept {c : Char} {s : Text} (other : ∀ rest, c = '\x1b' → s = '[' :: rest → False) :
    Text.withoutSequences (c :: s) = c :: s.withoutSequences := by
  rw [Text.withoutSequences]
  exact other

theorem sequenceParts {s after : Text} (found : ControlSequence.rest? s = some after) :
    ∃ codes final, s = codes ++ final :: after ∧
      (∀ c ∈ codes, 0x20 ≤ c.toNat ∧ c.toNat ≤ 0x3f) ∧
      0x40 ≤ final.toNat ∧ final.toNat ≤ 0x7e := by
  unfold ControlSequence.rest? at found
  split at found
  · rename_i final tail behind
    split at found
    · rename_i ends
      cases Option.some.inj found
      refine ⟨s.takeWhile ControlSequence.isParameter ++
        (s.dropWhile ControlSequence.isParameter).takeWhile ControlSequence.isIntermediate, final,
        ?_, ?_, by simpa [ControlSequence.isFinal] using ends⟩
      · rw [← behind, List.append_assoc, List.takeWhile_append_dropWhile,
          List.takeWhile_append_dropWhile]
      · intro c member
        rcases List.mem_append.mp member with parameter | intermediate
        · have range := List.mem_takeWhile_imp parameter
          simp only [ControlSequence.isParameter, Bool.and_eq_true, decide_eq_true_eq] at range
          omega
        · have range := List.mem_takeWhile_imp intermediate
          simp only [ControlSequence.isIntermediate, Bool.and_eq_true, decide_eq_true_eq] at range
          omega
    · contradiction
  · contradiction

theorem withoutSequencesStripped (s : Text) : Stripped s s.withoutSequences := by
  induction s using Text.withoutSequences.induct with
  | case1 =>
    rw [Text.withoutSequences]
    exact .done
  | case2 s after found _ ih =>
    rw [sequenceTaken found]
    obtain ⟨codes, final, rfl, inner, ends⟩ := sequenceParts found
    exact .dropped inner ends ih
  | case3 s unfinished ih =>
    rw [sequenceKept unfinished]
    exact .kept _ (.kept _ ih)
  | case4 c s other ih =>
    rw [ordinaryKept other]
    exact .kept c ih

theorem withoutSequencesFront {front : Text} (plain : '\x1b' ∉ front) (s : Text) :
    (front ++ s).withoutSequences = front ++ s.withoutSequences := by
  induction front with
  | nil => rfl
  | cons c front ih =>
    obtain ⟨other, later⟩ := List.ne_and_not_mem_of_not_mem_cons plain
    rw [List.cons_append, ordinaryKept fun _ escape => absurd escape.symm other, ih later,
      List.cons_append]

theorem styleFound {codes : Text} (digits : ∀ c ∈ codes, c.isDigit = true ∨ c = ';') (after : Text) :
    ControlSequence.rest? (codes ++ 'm' :: after) = some after := by
  have parameters : ∀ c ∈ codes, ControlSequence.isParameter c = true := by
    intro c member
    rcases digits c member with digit | rfl
    · obtain ⟨low, high⟩ : 48 ≤ c.toNat ∧ c.toNat ≤ 57 := Char.isDigit_iff_toNat.mp digit
      simp only [ControlSequence.isParameter, Bool.and_eq_true, decide_eq_true_eq]
      omega
    · decide
  rw [ControlSequence.rest?, List.dropWhile_append_of_pos parameters]
  rfl

theorem styleLeftOut {before codes after : Text} (plain : '\x1b' ∉ before) (plainToo : '\x1b' ∉ after)
    (digits : ∀ c ∈ codes, c.isDigit = true ∨ c = ';') :
    (before ++ styleSequence codes ++ after).withoutSequences = before ++ after := by
  have sequence : styleSequence codes ++ after = '\x1b' :: '[' :: (codes ++ 'm' :: after) := by
    simp [styleSequence]
  rw [List.append_assoc, withoutSequencesFront plain, sequence, sequenceTaken (styleFound digits after)]
  exact congrArg _ (strippedPlain (withoutSequencesStripped after) plainToo)

end Echo

end Standard

theorem standardLawful : Toolkit.standard.Lawful where
  complaintCode command complaint message := by
    rcases complaint with _ | _ | (_ | hint) <;> rfl
  complaintSilent command complaint message := by
    rcases complaint with _ | _ | (_ | hint) <;> rfl
  refusalSilent t directory arguments reply parsed failed := by
    cases Standard.parsedComes parsed with
    | stopped stop =>
      cases stop with
      | fault f => rfl
      | help text => exact absurd rfl failed
  filesRequired t directory arguments r parsed := by
    cases Standard.parsedComes parsed with
    | stopped stop => cases stop
    | render files => exact files
  longNames t directory r := Standard.spelledParses
  scriptAccepted t directory arguments choice script call legal fit := by
    refine (Standard.handlerParses call).trans ?_
    rw [Standard.pathAccepted legal fit]
    rfl
  scriptRefused t directory arguments choice script call legal unfit := by
    obtain ⟨problem, refused⟩ := Standard.pathRefused .script legal unfit
    have ended : '\n' ∈ (Standard.Fault.script script problem).reply.stderr := by
      simp [Standard.Fault.reply, Standard.report]
    refine ⟨_, (Standard.handlerParses call).trans ?_, rfl, rfl, ended⟩
    rw [refused]
    rfl
  commandKept t directory arguments r parsed := by
    have begun : (Standard.parseComplete t directory arguments).parsed = .render r := parsed
    rcases Standard.completeComes t directory arguments with stop | ⟨_, same⟩
    · rw [begun] at stop
      cases stop
    · rw [begun] at same
      cases same
  terminalVerbatim s := rfl
  onlySequences isTerminal s := by
    cases isTerminal with
    | true => exact Stripped.refl s
    | false => exact Standard.withoutSequencesStripped s
  stylesLeftOut before codes after := Standard.styleLeftOut

end ScriptDoc
