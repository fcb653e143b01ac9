import ScriptDoc.Document

/-!
The entries of a block: its flags and then its options, as every listing shows them. An empty
spelling counts as none.
-/
namespace ScriptDoc

def nonempty? : Option Text → Option Text
  | some (c :: rest) => some (c :: rest)
  | _ => none

structure Entry where
  short : Option Text
  long : Option Text
  description : Text
  value : Option Value
  deriving DecidableEq, Repr

def Flag.entry (r : Flag) : Entry := ⟨nonempty? r.short, nonempty? r.long, r.description, none⟩

def Opt.entry (r : Opt) : Entry :=
  ⟨nonempty? r.short, nonempty? r.long, r.description, some r.value⟩

def Block.entries (b : Block) : List Entry :=
  b.flags.map Flag.entry ++ b.options.map Opt.entry

namespace Entry

def spellings (e : Entry) : List Text := e.short.toList ++ e.long.toList

end Entry

def flagLabel (short long : Option Text) : Text :=
  match nonempty? short, nonempty? long with
  | some s, some l => s ++ ", " ++ l
  | some s, none => s
  | none, some l => "    " ++ l
  | none, none => []

def optionLabel (short long : Option Text) (value : Value) : Text :=
  let spelled := flagLabel short long
  if spelled.isEmpty then value.written else spelled ++ [' '] ++ value.written

def Entry.label (e : Entry) : Text :=
  match e.value with
  | some value => optionLabel e.short e.long value
  | none => flagLabel e.short e.long

def deprecationMark : Text := "[deprecated] "

def Block.summary (b : Block) : Text :=
  let first := Text.firstLine b.description
  match b.deprecated with
  | none => first
  | some mark => deprecationMark ++ (if first.isEmpty then mark.message else first)

end ScriptDoc
