import ScriptDoc.Proofs.StandardToolkit

/-! What a run leaves behind. A run that fails has printed nothing and changed no file. A run that
does not fail has changed at most the file it was told to write, and this file holds the text that
the run would have handed to standard output. -/
namespace ScriptDoc

def Toolkit.Renders (k : Toolkit) (t : Tree) (s : Surroundings) (arguments : List Text)
    (r : RenderRequest) : Prop :=
  k.parse t s.directory (k.withCommand arguments) = .render r

theorem runDelivers (r : RenderRequest) (t : Tree) (s : Surroundings) :
    (∃ warned a, ∀ output, { r with output }.run t s = .abort t warned a) ∨
      ∃ warned text, ∀ output,
        { r with output }.run t s = { r with output }.deliver t s.directory warned text := by
  by_cases both : (r.format.isSome && r.tag.isSome) = true
  · exact Or.inl ⟨[], .failure .formatAndTag, fun output => if_pos both⟩
  cases loaded : r.load t s with
  | error a =>
    refine Or.inl ⟨[], a, fun output => ?_⟩
    have same : { r with output }.load t s = .error a := loaded
    rw [RenderRequest.run, if_neg both, same]
  | ok pair =>
    obtain ⟨settings, documents⟩ := pair
    have same output : { r with output }.load t s = .ok (settings, documents) := loaded
    let warned := if settings.quiet then [] else documents.flatMap Document.warningLines
    cases produced : r.produce s.today settings.format
        (if settings.warnings then documents
          else documents.map fun d => { d with warnings := [] }) with
    | error f =>
      refine Or.inl ⟨warned, .failure f, fun output => ?_⟩
      have unproduced : { r with output }.produce _ _ _ = .error f := produced
      rw [RenderRequest.run, if_neg both, same]
      simp only [unproduced]
      rfl
    | ok text =>
      refine Or.inr ⟨warned, text, fun output => ?_⟩
      have alike : { r with output }.produce _ _ _ = .ok text := produced
      rw [RenderRequest.run, if_neg both, same]
      simp only [alike]
      rfl

inductive Ended (r : RenderRequest) (t : Tree) (s : Surroundings) : Prop where
  | failed (warned : List Text) (a : Abort) (aborted : r.run t s = .abort t warned a)
  | printed (warned : List Text) (text : Text) (unredirected : r.output = none)
      (success : r.run t s = .success t warned text)
  | written (given : Text) (warned : List Text) (text : Text) (place : List Text)
      (redirected : r.output = some given)
      (found : t.newPlace s.directory (Path.ofText given) = .ok place) (vacant : t.Vacant place)
      (success : r.run t s = .success (t.set place (.file (Utf8.encode text))) warned [])
      (otherwise : { r with output := none }.run t s = .success t warned text)

theorem requestEnds (r : RenderRequest) (t : Tree) (s : Surroundings) : Ended r t s := by
  rcases runDelivers r t s with ⟨warned, a, aborts⟩ | ⟨warned, text, delivers⟩
  · exact .failed warned a (aborts r.output)
  have delivered : r.run t s = r.deliver t s.directory warned text := delivers r.output
  rw [RenderRequest.deliver] at delivered
  cases redirected : r.output with
  | none =>
    rw [redirected] at delivered
    exact .printed warned text redirected delivered
  | some given =>
    rw [redirected] at delivered
    rcases t.outputCases s.directory (Path.ofText given) text with
      ⟨e, failed⟩ | ⟨place, found, vacant, written⟩
    · simp only [failed] at delivered
      exact .failed warned _ delivered
    · simp only [written] at delivered
      exact .written given warned text place redirected found vacant delivered (delivers none)

theorem Toolkit.rendered {k : Toolkit} {t : Tree} {s : Surroundings} {arguments : List Text}
    {r : RenderRequest} (renders : k.Renders t s arguments r) :
    k.run t s arguments = (k.conclude s .render (r.run t s)).reported s := by
  rw [run, invoke, show k.parse t s.directory (k.withCommand arguments) = .render r from renders]
  rfl

namespace Toolkit
variable {k : Toolkit} (lawful : k.Lawful) {t : Tree} {s : Surroundings} {arguments : List Text}
include lawful

theorem invokeEnds (t : Tree) (s : Surroundings) (arguments : List Text) :
    (k.invoke t s arguments).Untouched t ∨ ∃ r given warned text place, k.Renders t s arguments r ∧
      r.output = some given ∧ t.newPlace s.directory (Path.ofText given) = .ok place ∧ t.Vacant place ∧
      r.run t s = .success (t.set place (.file (Utf8.encode text))) warned [] := by
  unfold invoke
  cases parsed : k.parse t s.directory (k.withCommand arguments) with
  | replied reply => exact Or.inl (replyUntouched lawful (lawful.refusalSilent _ _ _ _ parsed))
  | crashed c => exact Or.inl (Outcome.crashedUntouched t [] c)
  | complete r => exact Or.inl (completeUntouched lawful r)
  | render r =>
    cases requestEnds r t s with
    | failed warned a aborted =>
      simp only [answer, aborted]
      exact Or.inl (concludeUntouched lawful .render warned (.error a))
    | printed warned text unredirected success =>
      simp only [answer, success]
      exact Or.inl (concludeUntouched lawful .render warned (.ok text))
    | written given warned text place redirected found vacant success otherwise =>
      exact Or.inr ⟨r, given, warned, text, place, parsed, redirected, found, vacant, success⟩

theorem renderedWritten {r : RenderRequest} (renders : k.Renders t s arguments r) {after : Tree}
    {warned : List Text} (ran : r.run t s = .success after warned []) :
    k.run t s arguments = ⟨0, [], k.printed s warned, after, none⟩ := by
  rw [rendered renders, ran, concludeNothing lawful]
  rfl

theorem failureSilent (failed : (k.run t s arguments).exitCode ≠ 0) :
    (k.run t s arguments).stdout = [] ∧ (k.run t s arguments).tree = t := by
  rcases invokeEnds lawful t s arguments with
    untouched | ⟨r, _, _, _, _, renders, -, -, -, ran⟩
  · simp only [run, Outcome.reportedCode, Outcome.reportedStdout, Outcome.reportedTree] at failed ⊢
    exact ⟨untouched.silent failed, untouched.tree⟩
  · rw [renderedWritten lawful renders ran] at failed
    exact absurd rfl failed

theorem onlyTargetDiffers {place : List Text}
    (differs : (k.run t s arguments).tree.get? place ≠ t.get? place) :
    ∃ r given, k.Renders t s arguments r ∧ r.output = some given ∧
      (k.run t s arguments).tree.resolve s.directory (Path.ofText given) = .ok place := by
  rcases invokeEnds lawful t s arguments with
    untouched | ⟨r, given, warned, text, target, renders, redirected, found, vacant, ran⟩
  · rw [run, Outcome.reportedTree, untouched.tree] at differs
    exact absurd rfl differs
  · rw [renderedWritten lawful renders ran] at differs ⊢
    have equal : place = target := Decidable.byContradiction fun other =>
      differs (by rw [Tree.getSet vacant, if_neg other])
    exact ⟨r, given, renders, redirected, equal ▸ Tree.resolveFilled _ vacant found⟩

theorem printsToo {r : RenderRequest} (renders : k.Renders t s arguments r) :
    ∃ others, k.Renders t s others { r with output := none } := by
  have files := lawful.filesRequired _ _ _ _ renders
  refine ⟨Command.render.name :: { r with output := none }.spelled, ?_⟩
  rw [Renders, withCommandNamed]
  exact lawful.longNames t s.directory _ files rfl

theorem printedOutcome {others : List Text} {r : RenderRequest} {warned : List Text} {text : Text}
    (renders : k.Renders t s others r) (ran : r.run t s = .success t warned text) :
    let p := k.run t s others
    p.tree = t ∧
      (s.Writes (k.echo s.stdoutIsTerminal text) →
        p = ⟨0, k.echo s.stdoutIsTerminal text, k.printed s warned, t, none⟩) ∧
      ∀ message, s.encoding.refusal? (k.echo s.stdoutIsTerminal text) = some message →
        p.exitCode = 1 ∧ p.stdout = [] ∧ p.crash = some (.output message) := by
  intro p
  have ended : p = (k.conclude s .render (.success t warned text)).reported s := by
    rw [show p = _ from rendered renders, ran]
  rw [ended, Outcome.reportedTree]
  refine ⟨(concludeUntouched lawful .render warned (.ok text)).tree, fun writes => ?_,
    fun message refused => ?_⟩
  · rw [concludeWritten lawful writes]
    rfl
  · rw [concludeUnwritten refused, Outcome.reportedCode, Outcome.reportedStdout,
      Outcome.reportedCrash]
    exact ⟨rfl, rfl, rfl⟩

end Toolkit

theorem failureChangesNothing {k : Toolkit} (lawful : k.Lawful) (t : Tree) (s : Surroundings)
    (arguments : List Text) :
    let o := k.run t s arguments
    (o.exitCode ≠ 0 → o.stdout = [] ∧ o.tree = t) ∧
    (o.exitCode = 0 →
      (∀ place, o.tree.get? place ≠ t.get? place → ∃ r given, k.Renders t s arguments r ∧
        r.output = some given ∧ o.tree.resolve s.directory (Path.ofText given) = .ok place) ∧
      ∀ r given, k.Renders t s arguments r → r.output = some given →
        o.stdout = [] ∧ (∃ others, k.Renders t s others { r with output := none }) ∧
        ∃ text, o.tree.bytes s.directory (Path.ofText given) = .ok (Utf8.encode text) ∧
          let shown := k.echo s.stdoutIsTerminal text
          Stripped text shown ∧ (s.stdoutIsTerminal = true ∨ '\x1b' ∉ text → shown = text) ∧
          ∀ others, k.Renders t s others { r with output := none } →
            let p := k.run t s others
            p.tree = t ∧
            (s.Writes shown → p.exitCode = 0 ∧ p.stdout = shown ∧ p.stderr = o.stderr) ∧
            ∀ message, s.encoding.refusal? shown = some message →
              p.exitCode = 1 ∧ p.stdout = [] ∧ p.crash = some (.output message)) := by
  intro o
  refine ⟨Toolkit.failureSilent lawful,
    fun succeeded => ⟨fun place => Toolkit.onlyTargetDiffers lawful, ?_⟩⟩
  intro r given renders redirected
  cases requestEnds r t s with
  | failed warned a aborted =>
    have ended : o = _ := Toolkit.rendered renders
    rw [ended, aborted, Outcome.reportedCode] at succeeded
    exact absurd succeeded (Toolkit.concludeAbort lawful).1
  | printed warned text unredirected success =>
    rw [redirected] at unredirected
    contradiction
  | written target warned text place redirectedTo found vacant success otherwise =>
    cases Option.some.inj (redirected.symm.trans redirectedTo)
    have ended : o = _ := Toolkit.renderedWritten lawful renders success
    rw [ended]
    refine ⟨rfl, Toolkit.printsToo lawful renders, text, Tree.bytesFilled vacant _ found,
      lawful.onlySequences _ text, Toolkit.echoPlain lawful, fun others rendersToo => ?_⟩
    obtain ⟨same, writes, refused⟩ := Toolkit.printedOutcome lawful rendersToo otherwise
    refine ⟨same, fun writable => ?_, refused⟩
    rw [writes writable]
    exact ⟨rfl, rfl, rfl⟩

def colouredName : Text := "a\x1b[31mb\n"

def colouredTree : Tree :=
  { entries := [(["s.sh"], .file (Utf8.encode ("#?/name " ++ colouredName)))] }

def pipe : Surroundings := { directory := ⟨1, []⟩, today := "2026-01-01" }

def nameToFile : List Text := ["-g", "name", "-o", "out", "s.sh"]

def nameToPipe : List Text := ["-g", "name", "s.sh"]

def missingToFile : List Text := ["-o", "out", "other.sh"]

def nameRequest : RenderRequest :=
  { files := ["s.sh"], tag := some "name".toList, output := some "out".toList }

theorem failureChangesNothingForName :
    let k := Toolkit.standard
    ((k.run colouredTree pipe missingToFile).exitCode ≠ 0 ∧
      (k.run colouredTree pipe missingToFile).tree = colouredTree) ∧
    (k.run colouredTree pipe nameToFile).exitCode = 0 ∧
    k.Renders colouredTree pipe nameToFile nameRequest ∧
    ∃ text others,
      (k.run colouredTree pipe nameToFile).tree.bytes pipe.directory (Path.ofText "out".toList) =
        .ok (Utf8.encode text) ∧
      k.Renders colouredTree pipe others { nameRequest with output := none } ∧
      pipe.Writes (k.echo false text) ∧ (k.run colouredTree pipe others).stdout = k.echo false text := by
  intro k
  have failed : (k.run colouredTree pipe missingToFile).exitCode ≠ 0 := by decide +kernel
  have succeeded : (k.run colouredTree pipe nameToFile).exitCode = 0 := by decide +kernel
  have renders : k.Renders colouredTree pipe nameToFile nameRequest := by
    unfold Toolkit.Renders
    decide +kernel
  have first := failureChangesNothing standardLawful colouredTree pipe missingToFile
  have second := failureChangesNothing standardLawful colouredTree pipe nameToFile
  obtain ⟨-, ⟨others, printing⟩, text, holds, -, -, prints⟩ :=
    (second.2 succeeded).2 nameRequest "out" renders rfl
  obtain ⟨-, stdout, -⟩ := (prints others printing).2.1 rfl
  exact ⟨⟨failed, (first.1 failed).2⟩, succeeded, renders, text, others, holds, printing, rfl, stdout⟩

/- The file holds what a terminal would show, and this is not what the pipe gets. -/
theorem fileKeepsSequences :
    let k := Toolkit.standard
    k.Renders colouredTree pipe nameToFile nameRequest ∧
    k.Renders colouredTree pipe nameToPipe { nameRequest with output := none } ∧
    (k.run colouredTree pipe nameToFile).exitCode = 0 ∧
    (k.run colouredTree pipe nameToPipe).stdout = "ab\n" ∧
    (k.run colouredTree pipe nameToFile).tree.bytes pipe.directory (Path.ofText "out") =
      .ok (Utf8.encode colouredName) ∧
    (k.run colouredTree pipe nameToFile).tree.bytes pipe.directory (Path.ofText "out") ≠
      .ok (Utf8.encode (k.run colouredTree pipe nameToPipe).stdout) := by
  intro k
  have writes : k.Renders colouredTree pipe nameToFile nameRequest := by
    unfold Toolkit.Renders
    decide +kernel
  have prints : k.Renders colouredTree pipe nameToPipe { nameRequest with output := none } := by
    unfold Toolkit.Renders
    decide +kernel
  have ran : { nameRequest with output := none }.run colouredTree pipe =
      .success colouredTree [] colouredName := by rfl
  -- What becomes of the colour is a promise of the toolkit.
  have shown : k.echo false colouredName = "ab\n" :=
    standardLawful.stylesLeftOut "a" "31" "b\n" (by decide) (by decide) (by simp)
  have stdout : (k.run colouredTree pipe nameToPipe).stdout = "ab\n" := by
    rw [(Toolkit.printedOutcome standardLawful prints ran).2.1 rfl]
    exact shown
  have holds : (k.run colouredTree pipe nameToFile).tree.bytes pipe.directory (Path.ofText "out") =
      .ok (Utf8.encode colouredName) := by rfl
  have differ : Utf8.encode colouredName ≠ Utf8.encode "ab\n" := by decide +kernel
  refine ⟨writes, prints, by decide +kernel, stdout, holds, ?_⟩
  rw [holds, stdout]
  exact fun same => differ (Except.ok.inj same)

end ScriptDoc
