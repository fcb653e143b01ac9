import ScriptDoc.Document.Json
import ScriptDoc.Entry
import ScriptDoc.Proofs.Segmentation

/-! Reading documents back from JSON. An entry that is missing stands for an empty text, an empty
list, a switch that is off or a record that is not there, so all that writing forgets is whether an
optional text was missing or empty. -/
namespace ScriptDoc
namespace Json

def get? (key : Text) : List (Text × Json) → Option Json
  | [] => none
  | entry :: rest => if entry.1 = key then some entry.2 else get? key rest

def fields? : Json → Option (List (Text × Json))
  | .object fields => some fields
  | _ => none

def text? : Json → Option Text
  | .text s => some s
  | _ => none

def int? : Json → Option Int
  | .int n => some n
  | _ => none

def bool? : Json → Option Bool
  | .bool b => some b
  | _ => none

section
variable {α : Type} (read : Json → Option α) (key : Text) (fields : List (Text × Json))

def required? : Option α := (get? key fields).bind read

def optional? : Option (Option α) :=
  match get? key fields with
  | none => some none
  | some json => (read json).map some

def list? : Option (List α) :=
  match get? key fields with
  | none => some []
  | some (.array items) => items.mapM read
  | some _ => none

end

def textOrEmpty? (key : Text) (fields : List (Text × Json)) : Option Text :=
  (optional? text? key fields).map fun found => found.getD []

def switch? (key : Text) (fields : List (Text × Json)) : Option Bool :=
  (optional? bool? key fields).map fun found => found.getD false

def listEntry {α : Type} (write : α → Json) (xs : List α) : Option Json :=
  if xs.map write = [] then none else some (.array (xs.map write))

/-! What is found under a key, for each kind of entry. -/

@[simp] theorem getAppend (key : Text) (first second : List (Text × Json)) :
    get? key (first ++ second) = (get? key first).or (get? key second) := by
  induction first with
  | nil => rfl
  | cons entry rest ih =>
    simp only [List.cons_append, get?]
    split
    · rfl
    · exact ih

@[simp] theorem getField (key other : Text) (value : Json) :
    get? key (field other value) = if other = key then some value else none := rfl

@[simp] theorem getText (key other s : Text) :
    get? key (textField other s) =
      if other = key then (nonempty? (some s)).map Json.text else none := by
  cases s with
  | nil => simp [textField, get?, nonempty?]
  | cons c rest => rfl

@[simp] theorem getOptional (key other : Text) (o : Option Text) :
    get? key (optionalField other o) =
      if other = key then (nonempty? o).map Json.text else none := by
  cases o with
  | none => simp [optionalField, get?, nonempty?]
  | some s => exact getText key other s

@[simp] theorem getSwitch (key other : Text) (b : Bool) :
    get? key (switchField other b) =
      if other = key then (if b then some (.bool true) else none) else none := by
  cases b with
  | false => simp [switchField, get?]
  | true => rfl

@[simp] theorem getList (key other : Text) (items : List Json) :
    get? key (listField other items) =
      if other = key then (if items = [] then none else some (.array items)) else none := by
  cases items with
  | nil => simp [listField, get?]
  | cons item rest => rfl

@[simp] theorem getSingle (key other : Text) (value : Option Json) :
    get? key (singleField other value) = if other = key then value else none := by
  cases value with
  | none => simp [singleField, get?]
  | some json => rfl

/-! What the readers make of it. -/

section
variable {key : Text} {fields : List (Text × Json)}

theorem requiredReads {α : Type} (read : Json → Option α) {json : Json} {x : α}
    (found : get? key fields = some json) (reads : read json = some x) :
    required? read key fields = some x := by
  rw [required?, found]
  exact reads

theorem optionalTextReads {o : Option Text} (found : get? key fields = (nonempty? o).map .text) :
    optional? text? key fields = some (nonempty? o) := by
  rw [optional?, found]
  cases nonempty? o <;> rfl

theorem textReads {s : Text} (found : get? key fields = (nonempty? (some s)).map .text) :
    textOrEmpty? key fields = some s := by
  rw [textOrEmpty?, optionalTextReads found]
  cases s <;> rfl

theorem switchReads {b : Bool} (found : get? key fields = if b then some (.bool true) else none) :
    switch? key fields = some b := by
  rw [switch?, optional?, found]
  cases b <;> rfl

variable {α : Type} {read : Json → Option α} {write : α → Json}

theorem singleReads {o : Option α} (found : get? key fields = o.map write)
    (reads : ∀ x, read (write x) = some x) : optional? read key fields = some o := by
  rw [optional?, found]
  cases o with
  | none => rfl
  | some x => exact congrArg (Option.map some) (reads x)

theorem itemsRead {normal : α → α} (reads : ∀ x, read (write x) = some (normal x)) (xs : List α) :
    (xs.map write).mapM read = some (xs.map normal) := by
  induction xs with
  | nil => rfl
  | cons x rest ih => simp only [List.map_cons, List.mapM_cons, reads, ih, bind, Option.bind, pure]

theorem listReads (normal : α → α) {xs : List α} (found : get? key fields = listEntry write xs)
    (reads : ∀ x, read (write x) = some (normal x)) :
    list? read key fields = some (xs.map normal) := by
  rw [list?, found]
  cases xs with
  | nil => rfl
  | cons x rest => exact itemsRead reads (x :: rest)

theorem keptReads {xs : List α} (found : get? key fields = listEntry write xs)
    (reads : ∀ x, read (write x) = some x) : list? read key fields = some xs := by
  rw [listReads id found reads, List.map_id]

end
end Json
open Json

/-! An optional text that is empty counts as missing. -/

def Value.normal (v : Value) : Value := { v with default := nonempty? v.default }

def Flag.normal (r : Flag) : Flag := { r with short := nonempty? r.short, long := nonempty? r.long }

def Opt.normal (r : Opt) : Opt :=
  { r with value := r.value.normal, short := nonempty? r.short, long := nonempty? r.long }

def Operand.normal (r : Operand) : Operand := { r with value := r.value.normal }

def Block.normal (b : Block) : Block :=
  { b with
    name := nonempty? b.name
    functionName := nonempty? b.functionName
    flags := b.flags.map Flag.normal
    options := b.options.map Opt.normal
    operands := b.operands.map Operand.normal }

def Metadata.normal (m : Metadata) : Metadata := .ofFields fun field => nonempty? (m.get field)

def Document.normal (d : Document) : Document :=
  { d with
    path := nonempty? d.path
    shebang := nonempty? d.shebang
    metadata := d.metadata.normal
    blocks := d.blocks.map Block.normal }

/-! For each kind of record: the entries of its object, a reader, and what the reader makes of
it. -/

namespace Value

def ofJson? (json : Json) : Option Value := do
  let fields ← json.fields?
  let name ← required? text? "name" fields
  let required ← required? bool? "required" fields
  let default ← optional? text? "default" fields
  let variadic ← switch? "variadic" fields
  some { name, required, default, variadic }

theorem entriesOf (v : Value) : ∃ fields, v.toJson = .object fields ∧
    get? "name" fields = some (.text v.name) ∧
    get? "required" fields = some (.bool v.required) ∧
    get? "default" fields = (nonempty? v.default).map .text ∧
    get? "variadic" fields = if v.variadic then some (.bool true) else none :=
  ⟨_, rfl, by simp⟩

theorem ofToJson (v : Value) : ofJson? v.toJson = some v.normal := by
  obtain ⟨fields, same, name, required, default, variadic⟩ := v.entriesOf
  simp only [same, ofJson?, fields?, bind, Option.bind, requiredReads text? name rfl,
    requiredReads bool? required rfl, optionalTextReads default, switchReads variadic]
  rfl

end Value

namespace Flag

def ofJson? (json : Json) : Option Flag := do
  let fields ← json.fields?
  let short ← optional? text? "short" fields
  let long ← optional? text? "long" fields
  let description ← textOrEmpty? "description" fields
  let line ← required? int? "line" fields
  some { short, long, description, line }

theorem entriesOf (r : Flag) : ∃ fields, r.toJson = .object fields ∧
    get? "short" fields = (nonempty? r.short).map .text ∧
    get? "long" fields = (nonempty? r.long).map .text ∧
    get? "description" fields = (nonempty? (some r.description)).map .text ∧
    get? "line" fields = some (.int r.line) :=
  ⟨_, rfl, by simp⟩

theorem ofToJson (r : Flag) : ofJson? r.toJson = some r.normal := by
  obtain ⟨fields, same, short, long, description, line⟩ := r.entriesOf
  simp only [same, ofJson?, fields?, bind, Option.bind, optionalTextReads short,
    optionalTextReads long, textReads description, requiredReads int? line rfl]
  rfl

end Flag

namespace Opt

def ofJson? (json : Json) : Option Opt := do
  let fields ← json.fields?
  let value ← required? Value.ofJson? "value" fields
  let short ← optional? text? "short" fields
  let long ← optional? text? "long" fields
  let description ← textOrEmpty? "description" fields
  let line ← required? int? "line" fields
  some { value, short, long, description, line }

theorem entriesOf (r : Opt) : ∃ fields, r.toJson = .object fields ∧
    get? "short" fields = (nonempty? r.short).map .text ∧
    get? "long" fields = (nonempty? r.long).map .text ∧
    get? "value" fields = some r.value.toJson ∧
    get? "description" fields = (nonempty? (some r.description)).map .text ∧
    get? "line" fields = some (.int r.line) :=
  ⟨_, rfl, by simp⟩

theorem ofToJson (r : Opt) : ofJson? r.toJson = some r.normal := by
  obtain ⟨fields, same, short, long, value, description, line⟩ := r.entriesOf
  simp only [same, ofJson?, fields?, bind, Option.bind, optionalTextReads short,
    optionalTextReads long, requiredReads Value.ofJson? value r.value.ofToJson,
    textReads description, requiredReads int? line rfl]
  rfl

end Opt

namespace Operand

def ofJson? (json : Json) : Option Operand := do
  let fields ← json.fields?
  let value ← required? Value.ofJson? "value" fields
  let description ← textOrEmpty? "description" fields
  let line ← required? int? "line" fields
  some { value, description, line }

theorem entriesOf (r : Operand) : ∃ fields, r.toJson = .object fields ∧
    get? "value" fields = some r.value.toJson ∧
    get? "description" fields = (nonempty? (some r.description)).map .text ∧
    get? "line" fields = some (.int r.line) :=
  ⟨_, rfl, by simp⟩

theorem ofToJson (r : Operand) : ofJson? r.toJson = some r.normal := by
  obtain ⟨fields, same, value, description, line⟩ := r.entriesOf
  simp only [same, ofJson?, fields?, bind, Option.bind,
    requiredReads Value.ofJson? value r.value.ofToJson, textReads description,
    requiredReads int? line rfl]
  rfl

end Operand

def tokenRecord? {α : Type} (make : Text → Text → Int → α) (key : Text) (json : Json) :
    Option α := do
  let fields ← json.fields?
  let token ← required? text? key fields
  let description ← textOrEmpty? "description" fields
  let line ← required? int? "line" fields
  some (make token description line)

theorem tokenRecordReads {α : Type} (make : Text → Text → Int → α) {key token description : Text}
    {line : Int} {json : Json} {fields : List (Text × Json)} (same : json = .object fields)
    (ofToken : get? key fields = some (.text token))
    (ofDescription : get? "description" fields = (nonempty? (some description)).map .text)
    (ofLine : get? "line" fields = some (.int line)) :
    tokenRecord? make key json = some (make token description line) := by
  simp only [tokenRecord?, same, fields?, bind, Option.bind, requiredReads text? ofToken rfl,
    textReads ofDescription, requiredReads int? ofLine rfl]

def textRecord? {α : Type} (make : Text → Int → α) (key : Text) (json : Json) : Option α := do
  let fields ← json.fields?
  let text ← textOrEmpty? key fields
  let line ← required? int? "line" fields
  some (make text line)

theorem textRecordReads {α : Type} (make : Text → Int → α) {key s : Text} {line : Int} {json : Json}
    {fields : List (Text × Json)} (same : json = .object fields)
    (ofText : get? key fields = (nonempty? (some s)).map .text)
    (ofLine : get? "line" fields = some (.int line)) :
    textRecord? make key json = some (make s line) := by
  simp only [textRecord?, same, fields?, bind, Option.bind, textReads ofText,
    requiredReads int? ofLine rfl]

def Variable.ofJson? : Json → Option Variable := tokenRecord? .mk "name"

def FileUse.ofJson? : Json → Option FileUse := tokenRecord? .mk "path"

def ExitStatus.ofJson? : Json → Option ExitStatus := tokenRecord? .mk "code"

def Stream.ofJson? : Json → Option Stream := textRecord? .mk "description"

def Deprecation.ofJson? : Json → Option Deprecation := textRecord? .mk "message"

theorem Variable.ofToJson (r : Variable) : ofJson? r.toJson = some r :=
  tokenRecordReads Variable.mk rfl (by simp) (by simp) (by simp)

theorem FileUse.ofToJson (r : FileUse) : ofJson? r.toJson = some r :=
  tokenRecordReads FileUse.mk rfl (by simp) (by simp) (by simp)

theorem ExitStatus.ofToJson (r : ExitStatus) : ofJson? r.toJson = some r :=
  tokenRecordReads ExitStatus.mk rfl (by simp) (by simp) (by simp)

theorem Stream.ofToJson (r : Stream) : ofJson? r.toJson = some r :=
  textRecordReads Stream.mk rfl (by simp) (by simp)

theorem Deprecation.ofToJson (r : Deprecation) : ofJson? r.toJson = some r :=
  textRecordReads Deprecation.mk rfl (by simp) (by simp)

namespace Visibility

def ofName? (s : Text) : Option Visibility :=
  [command, subcommand, exposed, internal].find? fun visibility => visibility.name = s

def ofJson? (json : Json) : Option Visibility := json.text?.bind ofName?

theorem ofToJson (v : Visibility) : ofJson? (.text v.name) = some v := by
  cases v <;> decide

end Visibility

namespace Block

def ofJson? (json : Json) : Option Block := do
  let fields ← json.fields?
  let visibility ← required? Visibility.ofJson? "visibility" fields
  let name ← optional? text? "name" fields
  let description ← textOrEmpty? "description" fields
  let functionName ← optional? text? "functionName" fields
  let line ← required? int? "line" fields
  let flags ← list? Flag.ofJson? "flags" fields
  let options ← list? Opt.ofJson? "options" fields
  let operands ← list? Operand.ofJson? "operands" fields
  let env ← list? Variable.ofJson? "env" fields
  let reads ← list? FileUse.ofJson? "reads" fields
  let stdin ← optional? Stream.ofJson? "stdin" fields
  let exit ← list? ExitStatus.ofJson? "exit" fields
  let stdout ← optional? Stream.ofJson? "stdout" fields
  let stderr ← optional? Stream.ofJson? "stderr" fields
  let sets ← list? Variable.ofJson? "sets" fields
  let writes ← list? FileUse.ofJson? "writes" fields
  let deprecated ← optional? Deprecation.ofJson? "deprecated" fields
  some ⟨visibility, name, description, functionName, line, flags, options, operands, env, reads,
    stdin, exit, stdout, stderr, sets, writes, deprecated⟩

theorem entriesOf (b : Block) : ∃ fields, b.toJson = .object fields ∧
    get? "visibility" fields = some (.text b.visibility.name) ∧
    get? "name" fields = (nonempty? b.name).map .text ∧
    get? "description" fields = (nonempty? (some b.description)).map .text ∧
    get? "functionName" fields = (nonempty? b.functionName).map .text ∧
    get? "line" fields = some (.int b.line) ∧
    get? "flags" fields = listEntry Flag.toJson b.flags ∧
    get? "options" fields = listEntry Opt.toJson b.options ∧
    get? "operands" fields = listEntry Operand.toJson b.operands ∧
    get? "env" fields = listEntry Variable.toJson b.env ∧
    get? "reads" fields = listEntry FileUse.toJson b.reads ∧
    get? "stdin" fields = b.stdin.map Stream.toJson ∧
    get? "exit" fields = listEntry ExitStatus.toJson b.exit ∧
    get? "stdout" fields = b.stdout.map Stream.toJson ∧
    get? "stderr" fields = b.stderr.map Stream.toJson ∧
    get? "sets" fields = listEntry Variable.toJson b.sets ∧
    get? "writes" fields = listEntry FileUse.toJson b.writes ∧
    get? "deprecated" fields = b.deprecated.map Deprecation.toJson :=
  ⟨_, rfl, by simp [listEntry]⟩

theorem ofToJson (b : Block) : ofJson? b.toJson = some b.normal := by
  obtain ⟨fields, same, visibility, name, description, functionName, line, flags, options,
    operands, env, reads, stdin, exit, stdout, stderr, sets, writes, deprecated⟩ := b.entriesOf
  simp only [same, ofJson?, fields?, bind, Option.bind,
    requiredReads Visibility.ofJson? visibility b.visibility.ofToJson, optionalTextReads name,
    textReads description, optionalTextReads functionName, requiredReads int? line rfl,
    listReads Flag.normal flags Flag.ofToJson, listReads Opt.normal options Opt.ofToJson,
    listReads Operand.normal operands Operand.ofToJson, keptReads env Variable.ofToJson,
    keptReads reads FileUse.ofToJson, singleReads stdin Stream.ofToJson,
    keptReads exit ExitStatus.ofToJson, singleReads stdout Stream.ofToJson,
    singleReads stderr Stream.ofToJson, keptReads sets Variable.ofToJson,
    keptReads writes FileUse.ofToJson, singleReads deprecated Deprecation.ofToJson]
  rfl

end Block

namespace Metadata

def ofJson? (json : Json) : Option Metadata := do
  let fields ← json.fields?
  some (.ofFields fun field => (get? field.tag fields).bind text?)

theorem getTag (m : Metadata) (tags : List MetaField) (field : MetaField) :
    get? field.tag (tags.flatMap fun other => optionalField other.tag (m.get other)) =
      if field ∈ tags then (nonempty? (m.get field)).map .text else none := by
  induction tags with
  | nil => rfl
  | cons other rest ih =>
    rw [List.flatMap_cons, getAppend, ih, getOptional]
    by_cases same : other = field
    · subst same
      cases nonempty? (m.get other) <;> simp
    · have different : other.tag ≠ field.tag := fun tags =>
        same (Option.some.inj ((ofTagExact.mpr tags).symm.trans (ofTagExact.mpr rfl))).symm
      simp [different, Ne.symm same]

theorem ofToJson (m : Metadata) : ofJson? m.toJson = some m.normal := by
  let fields := MetaField.all.flatMap fun other => optionalField other.tag (m.get other)
  have entry : ∀ field : MetaField,
      (get? field.tag fields).bind text? = nonempty? (m.get field) := by
    intro field
    have listed : field ∈ MetaField.all := by cases field <;> decide
    rw [getTag, if_pos listed]
    cases nonempty? (m.get field) <;> rfl
  exact congrArg (fun value => some (Metadata.ofFields value)) (funext entry)

end Metadata

def Warning.ofJson? (json : Json) : Option Warning := do
  let fields ← json.fields?
  let line ← required? int? "line" fields
  let message ← required? text? "message" fields
  some { line, message }

theorem Warning.ofToJson (w : Warning) : ofJson? w.toJson = some w := by
  have line : get? "line" (field "line" (.int w.line) ++ field "message" (.text w.message)) =
      some (.int w.line) := by simp
  have message : get? "message" (field "line" (.int w.line) ++ field "message" (.text w.message)) =
      some (.text w.message) := by simp
  simp only [ofJson?, toJson, fields?, bind, Option.bind, requiredReads int? line rfl,
    requiredReads text? message rfl]

namespace Document

def ofJson? (json : Json) : Option Document := do
  let fields ← json.fields?
  let path ← optional? text? "path" fields
  let shebang ← optional? text? "shebang" fields
  let metadata ← required? Metadata.ofJson? "meta" fields
  let blocks ← list? Block.ofJson? "blocks" fields
  let warnings ← list? Warning.ofJson? "warnings" fields
  some { path, shebang, metadata, blocks, warnings }

theorem entriesOf (d : Document) : ∃ fields, d.toJson = .object fields ∧
    get? "path" fields = (nonempty? d.path).map .text ∧
    get? "shebang" fields = (nonempty? d.shebang).map .text ∧
    get? "meta" fields = some d.metadata.toJson ∧
    get? "blocks" fields = listEntry Block.toJson d.blocks ∧
    get? "warnings" fields = listEntry Warning.toJson d.warnings :=
  ⟨_, rfl, by simp [listEntry]⟩

theorem ofToJson (d : Document) : ofJson? d.toJson = some d.normal := by
  obtain ⟨fields, same, path, shebang, metadata, blocks, warnings⟩ := d.entriesOf
  simp only [same, ofJson?, fields?, bind, Option.bind, optionalTextReads path,
    optionalTextReads shebang, requiredReads Metadata.ofJson? metadata d.metadata.ofToJson,
    listReads Block.normal blocks Block.ofToJson, keptReads warnings Warning.ofToJson]
  rfl

end Document

/-! Writing does not see the difference between a missing text and an empty one. -/

@[simp] theorem Json.optionalNormal (key : Text) (o : Option Text) :
    optionalField key (nonempty? o) = optionalField key o := by
  rcases o with _ | s
  · rfl
  · cases s <;> rfl

theorem Value.normalToJson (v : Value) : v.normal.toJson = v.toJson := by
  simp only [toJson, normal, optionalNormal]

theorem Flag.normalToJson (r : Flag) : r.normal.toJson = r.toJson := by
  simp only [toJson, normal, optionalNormal]

theorem Opt.normalToJson (r : Opt) : r.normal.toJson = r.toJson := by
  simp only [toJson, normal, optionalNormal, Value.normalToJson]

theorem Operand.normalToJson (r : Operand) : r.normal.toJson = r.toJson := by
  simp only [toJson, normal, Value.normalToJson]

theorem Metadata.normalToJson (m : Metadata) : m.normal.toJson = m.toJson := by
  simp only [toJson, normal, ofFieldsGet, optionalNormal]

theorem Json.listNormal {α : Type} {write : α → Json} {normal : α → α}
    (same : ∀ x, write (normal x) = write x) (xs : List α) :
    (xs.map normal).map write = xs.map write := by
  rw [List.map_map]
  exact List.map_congr_left fun x _ => same x

theorem Block.normalToJson (b : Block) : b.normal.toJson = b.toJson := by
  simp only [toJson, normal, optionalNormal, listNormal Flag.normalToJson,
    listNormal Opt.normalToJson, listNormal Operand.normalToJson]

theorem Document.normalToJson (d : Document) : d.normal.toJson = d.toJson := by
  simp only [toJson, normal, optionalNormal, Metadata.normalToJson,
    listNormal Block.normalToJson]

theorem serializationFaithful :
    (∀ d : Document, Document.ofJson? d.toJson = some d.normal) ∧
    (∀ d e : Document, d.toJson = e.toJson ↔ d.normal = e.normal) := by
  refine ⟨Document.ofToJson, fun d e => ⟨fun same => ?_, fun same => ?_⟩⟩
  · have read := e.ofToJson
    rw [← same, d.ofToJson] at read
    exact Option.some.inj read
  · calc d.toJson = d.normal.toJson := d.normalToJson.symm
      _ = e.normal.toJson := by rw [same]
      _ = e.toJson := e.normalToJson

end ScriptDoc
