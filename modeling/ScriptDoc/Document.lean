import ScriptDoc.Block

/-!
The documentation of one script: metadata of the file, its blocks in source order, and warnings
about documentation that could not be read.
-/
namespace ScriptDoc

inductive MetaField where
  | name
  | version
  | synopsis
  | description
  | examples
  | manSection
  | author
  | license
  deriving DecidableEq, Repr

namespace MetaField

def all : List MetaField :=
  [.name, .version, .synopsis, .description, .examples, .manSection, .author, .license]

def tag : MetaField → Text
  | .name => "name"
  | .version => "version"
  | .synopsis => "synopsis"
  | .description => "description"
  | .examples => "examples"
  | .manSection => "section"
  | .author => "author"
  | .license => "license"

def ofTag? (s : Text) : Option MetaField := all.find? fun field => field.tag = s

end MetaField

structure Metadata where
  name : Option Text := none
  version : Option Text := none
  synopsis : Option Text := none
  description : Option Text := none
  examples : Option Text := none
  manSection : Option Text := none
  author : Option Text := none
  license : Option Text := none
  deriving DecidableEq, Repr

namespace Metadata

def get (m : Metadata) : MetaField → Option Text
  | .name => m.name
  | .version => m.version
  | .synopsis => m.synopsis
  | .description => m.description
  | .examples => m.examples
  | .manSection => m.manSection
  | .author => m.author
  | .license => m.license

def set (m : Metadata) (value : Text) : MetaField → Metadata
  | .name => { m with name := some value }
  | .version => { m with version := some value }
  | .synopsis => { m with synopsis := some value }
  | .description => { m with description := some value }
  | .examples => { m with examples := some value }
  | .manSection => { m with manSection := some value }
  | .author => { m with author := some value }
  | .license => { m with license := some value }

end Metadata

structure Warning where
  line : Int
  message : Text
  deriving DecidableEq, Repr

structure Document where
  path : Option Text := none
  shebang : Option Text := none
  metadata : Metadata := {}
  blocks : List Block := []
  warnings : List Warning := []
  deriving DecidableEq, Repr

namespace Document

def warn (d : Document) (line : Int) (message : Text) : Document :=
  { d with warnings := d.warnings ++ [⟨line, message⟩] }

def setMetadata (d : Document) (tag value : Text) (line : Int) : Document :=
  match MetaField.ofTag? tag with
  | some field => { d with metadata := d.metadata.set value field }
  | none => d.warn line ("unknown shedoc tag: #?/" ++ tag)

def addBlock (d : Document) (b : Block) : Document := { d with blocks := d.blocks ++ [b] }

def bindFunction (d : Document) (function : Text) : Document :=
  match d.blocks.getLast? with
  | some last => { d with blocks := d.blocks.dropLast ++ [last.bindFunction function] }
  | none => d

def command? (d : Document) : Option Block :=
  (d.blocks.filter fun b => b.visibility = .command).getLast?

def subcommands (d : Document) : List Block :=
  d.blocks.filter fun b => b.visibility = .subcommand

end Document
end ScriptDoc
