import ScriptDoc.ManPage
import ScriptDoc.Proofs.VerbatimValues
import ScriptDoc.Proofs.PrintedLines

/-! Manual pages, line by line. Some lines the formatter begins with a request of its own, and the
others are running text. The layout says which are which, for every document and every date. -/
namespace ScriptDoc
namespace ManPage

inductive Request where
  | title
  | heading
  | tagged
  | bold
  | indent
  | outdent
  | paragraph
  deriving DecidableEq, Repr

def Request.name : Request → Text
  | .title => ".TH"
  | .heading => ".SH"
  | .tagged => ".TP"
  | .bold => ".B"
  | .indent => ".RS"
  | .outdent => ".RE"
  | .paragraph => ".PP"

inductive PageLine where
  | request (kind : Request) (argument : Option Text)
  | text (s : Text)
  deriving DecidableEq, Repr

def PageLine.written : PageLine → Text
  | .request kind none => kind.name ++ ['\n']
  | .request kind (some argument) => kind.name ++ ' ' :: argument ++ ['\n']
  | .text s => s ++ ['\n']

section Layout

def textLines (s : Text) : List PageLine := (Text.splitOn '\n' s).map .text

def requestLines (kind : Request) (s : Text) : List PageLine :=
  .request kind (Text.splitOn '\n' s).head? :: (Text.splitOn '\n' s).tail.map .text

def headed (title : Text) (lines : List PageLine) : List PageLine :=
  .request .heading (some title) :: lines

def optionalLines (title : Text) (value : Option Text) (lay : Text → List PageLine) : List PageLine :=
  (nonempty? value).elim [] fun s => headed title (lay s)

def titleArgument (m : Metadata) (date : Text) : Text :=
  escape (Text.upper ((nonempty? m.name).getD "UNKNOWN")) ++ " " ++
    (nonempty? m.manSection).getD "1" ++ " " ++ quote date ++ " " ++ quote (m.version.getD [])

def nameText (m : Metadata) : Text :=
  escape ((nonempty? m.name).getD "UNKNOWN") ++
    match nonempty? m.description with
    | some description => " \\- " ++ escape (Text.firstLine description)
    | none => []

def termLines (name description : Text) : List PageLine :=
  .request .tagged none :: requestLines .bold (escape name) ++
    if description.isEmpty then [] else textLines (escape description)

def termSectionLines (title : Text) (terms : List (Text × Text)) : List PageLine :=
  if terms.isEmpty then [] else headed title (terms.flatMap fun term => termLines term.1 term.2)

def nestedLines (e : Entry) : List PageLine :=
  .request .indent none :: termLines e.label e.description ++ [.request .outdent none]

def subcommandTextLines (b : Block) : List PageLine :=
  match b.deprecated with
  | some mark => textLines (deprecationMark ++ escape (deprecationText mark))
  | none => if b.description.isEmpty then [] else textLines (escape b.description)

def subcommandLines (b : Block) : List PageLine :=
  .request .tagged none :: requestLines .bold (escape (b.name.getD [])) ++ subcommandTextLines b ++
    b.entries.flatMap nestedLines

def commandsLines (d : Document) : List PageLine :=
  if d.subcommands.isEmpty then [] else headed "COMMANDS" (d.subcommands.flatMap subcommandLines)

def exampleLines (s : Text) : List PageLine :=
  .request .paragraph none :: requestLines .bold (escape s)

def commandTerms (d : Document) (terms : Block → List (Text × Text)) : List (Text × Text) :=
  d.command?.toList.flatMap terms

def layout (d : Document) (date : Text) : List PageLine :=
  requestLines .title (titleArgument d.metadata date) ++
    headed "NAME" (textLines (nameText d.metadata)) ++
    optionalLines "SYNOPSIS" d.metadata.synopsis (fun s => requestLines .bold (escape s)) ++
    optionalLines "DESCRIPTION" d.metadata.description (fun s => textLines (escape s)) ++
    termSectionLines "OPTIONS"
      (commandTerms d fun b => b.entries.map fun e => (e.label, e.description)) ++
    commandsLines d ++
    termSectionLines "ENVIRONMENT"
      (commandTerms d fun b => b.env.map fun r => (r.name, r.description)) ++
    termSectionLines "FILES"
      (commandTerms d fun b => (b.reads ++ b.writes).map fun r => (r.path, r.description)) ++
    termSectionLines "EXIT STATUS"
      (commandTerms d fun b => b.exit.map fun r => (r.code, r.description)) ++
    optionalLines "EXAMPLES" d.metadata.examples
      (fun s => (Text.splitOn '\n' s).flatMap exampleLines) ++
    optionalLines "AUTHOR" d.metadata.author (fun s => textLines (escape s))

end Layout

structure Laid (s : Text) (lines : List PageLine) : Prop where
  whole : WholeLines s
  lines : Text.lines s = lines.map PageLine.written

section Laid

theorem laidNil : Laid [] [] := ⟨Or.inl rfl, rfl⟩

theorem laidAppend {a b : Text} {first second : List PageLine} (front : Laid a first)
    (back : Laid b second) : Laid (a ++ b) (first ++ second) := by
  refine ⟨wholeAppend front.whole back.whole, ?_⟩
  rw [linesAppend front.whole, front.lines, back.lines, List.map_append]

theorem laidFlatMap {α : Type} {items : List α} {write : α → Text} {lay : α → List PageLine}
    (each : ∀ item ∈ items, Laid (write item) (lay item)) :
    Laid (items.flatMap write) (items.flatMap lay) := by
  induction items with
  | nil => exact laidNil
  | cons item rest ih =>
    exact laidAppend (each item List.mem_cons_self)
      (ih fun other member => each other (List.mem_cons_of_mem _ member))

theorem linesOfPieces (s : Text) :
    Text.lines (s ++ ['\n']) = (Text.splitOn '\n' s).map fun line => line ++ ['\n'] := by
  induction s using lineInduction with
  | last s plain =>
    rw [linesNext plain, Text.splitOnWhole plain]
    rfl
  | next line rest plain ih =>
    rw [List.append_assoc, List.cons_append, linesNext plain, ih, Text.splitOnFirst plain,
      List.map_cons]

theorem splitOnBehind {front : Text} (plain : '\n' ∉ front) {s first : Text} {more : List Text}
    (split : Text.splitOn '\n' s = first :: more) :
    Text.splitOn '\n' (front ++ s) = (front ++ first) :: more := by
  induction front with
  | nil => exact split
  | cons c front ih =>
    obtain ⟨other, later⟩ := List.ne_and_not_mem_of_not_mem_cons plain
    rw [List.cons_append, Text.splitOn, if_neg (Ne.symm other), ih later]
    rfl

theorem laidText (s : Text) : Laid (s ++ ['\n']) (textLines s) := by
  refine ⟨Or.inr List.getLast?_concat, ?_⟩
  rw [linesOfPieces, textLines, List.map_map]
  rfl

theorem laidRequest (kind : Request) (s : Text) :
    Laid (kind.name ++ ' ' :: s ++ ['\n']) (requestLines kind s) := by
  have plain : '\n' ∉ kind.name ++ [' '] := by cases kind <;> decide
  refine ⟨Or.inr List.getLast?_concat, ?_⟩
  obtain ⟨first, more, split⟩ := List.exists_cons_of_ne_nil (splitLines s).1
  have front : kind.name ++ ' ' :: s = kind.name ++ [' '] ++ s := by simp
  rw [requestLines, linesOfPieces, front, splitOnBehind plain split, split]
  simp [PageLine.written]

theorem laidBare (kind : Request) : Laid (kind.name ++ ['\n']) [.request kind none] := by
  have plain : '\n' ∉ kind.name := by cases kind <;> decide
  refine ⟨Or.inr List.getLast?_concat, ?_⟩
  rw [linesNext plain]
  rfl

theorem laidHeaded {title body : Text} {lines : List PageLine} (plain : '\n' ∉ title)
    (laid : Laid body lines) : Laid (".SH " ++ title ++ "\n" ++ body) (headed title lines) := by
  have heading := laidRequest .heading title
  rw [requestLines, Text.splitOnWhole plain] at heading
  exact laidAppend heading laid

theorem laidOptional {title text : Text} {value : Option Text} {write : Text → Text}
    {lay : Text → List PageLine} (plain : '\n' ∉ title) (each : ∀ s, Laid (write s) (lay s))
    (absent : nonempty? value = none → text = [])
    (present : ∀ s, nonempty? value = some s → text = ".SH " ++ title ++ "\n" ++ write s) :
    Laid text (optionalLines title value lay) := by
  unfold optionalLines
  cases found : nonempty? value with
  | none =>
    rw [absent found]
    exact laidNil
  | some s =>
    rw [present s found]
    exact laidHeaded plain (each s)

theorem laidTitle (m : Metadata) (date : Text) :
    Laid (heading m date) (requestLines .title (titleArgument m date)) := by
  have joined (name number day version : Text) :
      ".TH " ++ name ++ " " ++ number ++ " " ++ day ++ " " ++ version ++ "\n" =
        Request.title.name ++ ' ' :: (name ++ " " ++ number ++ " " ++ day ++ " " ++ version) ++
          ['\n'] := by
    simp [Request.name]
  have laid := laidRequest .title (titleArgument m date)
  rwa [titleArgument, ← joined] at laid

theorem laidName (m : Metadata) : Laid (nameSection m) (headed "NAME" (textLines (nameText m))) := by
  have same : nameSection m = ".SH " ++ "NAME" ++ "\n" ++ (nameText m ++ ['\n']) := by
    unfold nameSection nameText
    cases nonempty? m.description <;> simp [textLine]
  rw [same]
  exact laidHeaded (by decide) (laidText _)

theorem laidTagged (name : Text) : Laid (".TP\n.B " ++ escape name ++ "\n")
    (.request .tagged none :: requestLines .bold (escape name)) :=
  laidAppend (laidBare .tagged) (laidRequest .bold (escape name))

theorem laidTerm (name description : Text) :
    Laid (term name description) (termLines name description) := by
  refine laidAppend (laidTagged name) ?_
  split
  · exact laidNil
  · exact laidText _

theorem laidTermSection {title : Text} (plain : '\n' ∉ title) (terms : List (Text × Text)) :
    Laid (termSection title terms) (termSectionLines title terms) := by
  unfold termSection termSectionLines
  split
  · exact laidNil
  · exact laidHeaded plain (laidFlatMap fun item _ => laidTerm item.1 item.2)

theorem laidNested (e : Entry) : Laid (nestedEntry e) (nestedLines e) :=
  laidAppend (laidAppend (laidBare .indent) (laidTerm e.label e.description)) (laidBare .outdent)

theorem laidSubcommand (b : Block) : Laid (subcommand b) (subcommandLines b) := by
  refine laidAppend (laidAppend (laidTagged _) ?_) (laidFlatMap fun e _ => laidNested e)
  unfold subcommandText subcommandTextLines
  cases b.deprecated with
  | some mark =>
    simp only [textLine, ← List.append_assoc]
    exact laidText _
  | none =>
    simp only
    split
    · exact laidNil
    · exact laidText _

theorem laidCommands (d : Document) : Laid (commandsSection d) (commandsLines d) := by
  have plain : '\n' ∉ ("COMMANDS" : Text) := by decide
  unfold commandsSection commandsLines
  split
  · exact laidNil
  · exact laidHeaded plain (laidFlatMap fun b _ => laidSubcommand b)

theorem laidExample (s : Text) : Laid (exampleLine s) (exampleLines s) :=
  laidAppend (laidBare .paragraph) (laidRequest .bold (escape s))

theorem laidMetadata (m : Metadata) :
    Laid (synopsisSection m)
        (optionalLines "SYNOPSIS" m.synopsis fun s => requestLines .bold (escape s)) ∧
      Laid (descriptionSection m)
        (optionalLines "DESCRIPTION" m.description fun s => textLines (escape s)) ∧
      Laid (examplesSection m)
        (optionalLines "EXAMPLES" m.examples fun s =>
          (Text.splitOn '\n' s).flatMap exampleLines) ∧
      Laid (authorSection m) (optionalLines "AUTHOR" m.author fun s => textLines (escape s)) := by
  refine ⟨?_, ?_, ?_, ?_⟩
  · refine laidOptional (by decide) (fun s => laidRequest .bold (escape s)) ?_ ?_
    · intro absent
      simp only [synopsisSection, absent]
    · intro s present
      simp only [synopsisSection, present]
      rfl
  · refine laidOptional (by decide) (fun s => laidText (escape s)) ?_ ?_
    · intro absent
      simp only [descriptionSection, absent]
    · intro s present
      simp only [descriptionSection, present]
      rfl
  · refine laidOptional (by decide) (fun s => laidFlatMap fun line _ => laidExample line) ?_ ?_
    · intro absent
      simp only [examplesSection, absent]
    · intro s present
      simp only [examplesSection, present]
      rfl
  · refine laidOptional (by decide) (fun s => laidText (escape s)) ?_ ?_
    · intro absent
      simp only [authorSection, absent]
    · intro s present
      simp only [authorSection, present]
      rfl

theorem laidPage (d : Document) (date : Text) : Laid (d.manPage date) (layout d date) := by
  obtain ⟨synopsis, description, examples, author⟩ := laidMetadata d.metadata
  have top := laidAppend (laidAppend (laidAppend (laidTitle d.metadata date) (laidName d.metadata))
    synopsis) description
  unfold Document.manPage layout commandTerms
  cases d.command? with
  | none =>
    have nothing (title : Text) : termSectionLines title [] = [] := rfl
    simp only [Option.toList_none, List.flatMap_nil, nothing, List.append_nil]
    exact laidAppend (laidAppend (laidAppend top (laidCommands d)) examples) author
  | some b =>
    simp only [Option.toList_some, List.flatMap_singleton, contextSections, ← List.append_assoc]
    refine laidAppend (laidAppend (laidAppend (laidAppend (laidAppend (laidAppend (laidAppend top
      ?_) (laidCommands d)) ?_) ?_) ?_) examples) author
    · exact laidTermSection (by decide) _
    · exact laidTermSection (by decide) _
    · exact laidTermSection (by decide) _
    · exact laidTermSection (by decide) _

end Laid

end ManPage
end ScriptDoc
