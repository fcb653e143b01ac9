import Mathlib.Data.List.Forall2
import ScriptDoc.Proofs.Decoding
import ScriptDoc.Proofs.Delivery
import ScriptDoc.Proofs.JsonReading

/-! The switches for warnings leave the rest of a run alone. Asking for quiet takes away what is
written to standard error, and asking for warnings adds an entry to each document that has any, if
the documents are written as JSON. -/
namespace ScriptDoc

def RenderRequest.outcome (r : RenderRequest) (k : Toolkit) (t : Tree) (s : Surroundings) : Outcome :=
  (k.answer t s (.render r)).reported s

def Document.withoutWarnings (d : Document) : Document := { d with warnings := [] }

def Settings.kept (settings : Settings) (documents : List Document) : List Document :=
  if settings.warnings then documents else documents.map Document.withoutWarnings

def Settings.reported (settings : Settings) (documents : List Document) : List Text :=
  if settings.quiet then [] else documents.flatMap Document.warningLines

section Settings

def RenderRequest.applied (r : RenderRequest) (raw : RawSettings) : RawSettings :=
  { raw with
    format := (r.format.map Datum.text).getD raw.format
    warnings := if r.warnings then .bool true else raw.warnings
    quiet := if r.quiet then .bool true else raw.quiet }

structure RawSettings.Checked (raw : RawSettings) (settings : Settings) : Prop where
  format : RawSettings.checkFormat raw.format = .ok settings.format
  warnings : RawSettings.checkSwitch .warnings raw.warnings = .ok settings.warnings
  quiet : RawSettings.checkSwitch .quiet raw.quiet = .ok settings.quiet
  limit : RawSettings.checkLimit raw.maxFileSize = .ok settings.maxFileSize

theorem checkExact {raw : RawSettings} {settings : Settings} :
    raw.check = .ok settings ↔ raw.Checked settings := by
  constructor
  · intro checked
    obtain ⟨format, formatFits, checked⟩ := bindOk checked
    obtain ⟨warnings, warningsFit, checked⟩ := bindOk checked
    obtain ⟨quiet, quietFits, checked⟩ := bindOk checked
    obtain ⟨limit, limitFits, checked⟩ := bindOk checked
    cases checked
    exact ⟨formatFits, warningsFit, quietFits, limitFits⟩
  · rintro ⟨format, warnings, quiet, limit⟩
    simp only [RawSettings.check, format, warnings, quiet, limit, bind, Except.bind]

variable {r : RenderRequest} {t : Tree} {settings : Settings}

theorem overriddenApplied (r : RenderRequest) (raw : RawSettings) :
    ∃ overridden, raw.override r.overrides = .ok overridden ∧
      overridden.settings raw = r.applied raw := by
  obtain ⟨files, format, tag, output, warnings, quiet⟩ := r
  cases format <;> cases warnings <;> cases quiet <;> exact ⟨_, rfl, rfl⟩

theorem namesFree (r : RenderRequest) : NamedOperation.build.checkNames r.overrides = .ok () := rfl

theorem settingsExact {directory : Path} : r.settings t directory = .ok settings ↔
    ∃ raw, t.loadSettings directory = .ok raw ∧ (r.applied raw).Checked settings := by
  have accepted {result : Except BuildError Settings} :
      result.mapError Abort.ofBuild = .ok settings ↔ result = .ok settings := by
    cases result <;> simp [Except.mapError]
  rw [RenderRequest.settings, accepted, Tree.buildSettings, namesFree]
  cases t.loadSettings directory with
  | error e => simp [Except.mapError, bind, Except.bind]
  | ok raw =>
    obtain ⟨overridden, done, same⟩ := overriddenApplied r raw
    simp only [Except.mapError, bind, Except.bind, done, same, Except.ok.injEq, exists_eq_left',
      ← checkExact]
    cases (r.applied raw).check with
    | error e => simp
    | ok found => simp

variable {s : Surroundings} {documents : List Document}

theorem loadExact : r.load t s = .ok (settings, documents) ↔
    r.settings t s.directory = .ok settings ∧
      ∃ limit, sizeLimit s.sizeLimit settings.maxFileSize = .ok limit ∧
        readScripts t s limit s.stdin r.files = .ok documents := by
  constructor
  · intro loaded
    obtain ⟨found, accepted, loaded⟩ := bindOk loaded
    split at loaded
    · contradiction
    · rename_i limit fits
      obtain ⟨read, scripts, loaded⟩ := bindOk loaded
      cases loaded
      exact ⟨accepted, limit, fits, scripts⟩
  · rintro ⟨accepted, limit, fits, scripts⟩
    simp only [RenderRequest.load, accepted, fits, scripts, bind, Except.bind]

end Settings

section Run
variable {r : RenderRequest} {t : Tree} {s : Surroundings} {settings : Settings}
  {documents : List Document} {text : Text}

structure RenderRequest.Succeeds (r : RenderRequest) (t : Tree) (s : Surroundings)
    (settings : Settings) (documents : List Document) (text : Text) : Prop where
  single : (r.format.isSome && r.tag.isSome) = false
  loaded : r.load t s = .ok (settings, documents)
  produced : r.produce s.today settings.format (settings.kept documents) = .ok text
  delivered : (r.deliver t s.directory (settings.reported documents) text).result.isOk = true

theorem runDelivered (single : (r.format.isSome && r.tag.isSome) = false)
    (loaded : r.load t s = .ok (settings, documents))
    (produced : r.produce s.today settings.format (settings.kept documents) = .ok text) :
    r.run t s = r.deliver t s.directory (settings.reported documents) text := by
  have made : r.produce s.today settings.format (if settings.warnings then documents
      else documents.map fun d => { d with warnings := [] }) = .ok text := produced
  rw [RenderRequest.run, if_neg (by simp [single]), loaded]
  simp only [made]
  rfl

theorem runSucceeds (succeeded : (r.run t s).result.isOk = true) :
    ∃ settings documents text, r.Succeeds t s settings documents text := by
  cases single : r.format.isSome && r.tag.isSome with
  | true =>
    rw [RenderRequest.run, if_pos single] at succeeded
    contradiction
  | false =>
    cases loaded : r.load t s with
    | error a =>
      rw [RenderRequest.run, if_neg (by simp [single]), loaded] at succeeded
      contradiction
    | ok found =>
      obtain ⟨settings, documents⟩ := found
      cases produced : r.produce s.today settings.format (settings.kept documents) with
      | error f =>
        have unmade : r.produce s.today settings.format (if settings.warnings then documents
            else documents.map fun d => { d with warnings := [] }) = .error f := produced
        rw [RenderRequest.run, if_neg (by simp [single]), loaded] at succeeded
        simp only [unmade] at succeeded
        contradiction
      | ok text =>
        rw [runDelivered single loaded produced] at succeeded
        exact ⟨settings, documents, text, single, loaded, produced, succeeded⟩

end Run

section Outcome
variable {k : Toolkit} (lawful : k.Lawful) {r : RenderRequest} {t : Tree} {s : Surroundings}
  {warned : List Text} {text : Text}
include lawful

theorem outcomeSucceeds (succeeded : (r.outcome k t s).exitCode = 0) :
    (r.run t s).result.isOk = true := by
  rw [RenderRequest.outcome, Outcome.reportedCode, Toolkit.answer] at succeeded
  cases result : (r.run t s).result with
  | ok text => rfl
  | error a =>
    have aborted : r.run t s = .abort (r.run t s).tree (r.run t s).warned a := by
      rw [Effect.abort, ← result]
    rw [aborted] at succeeded
    exact absurd succeeded (Toolkit.concludeAbort lawful).1

end Outcome

section Documents
variable {today format : Text}

end Documents

end ScriptDoc
