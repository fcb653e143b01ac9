import ScriptDoc.Toml.Scalar

/-!
TOML documents. Statements fill a table of tables; a table can be opened by its header only once,
and arrays and tables written in place can never be opened again.
-/
namespace ScriptDoc
namespace Toml

/-- Changes the table at a path, and makes the tables on the way. The last table of an array
stands for the array unless arrays are closed. -/
def changeAt (openArrays : Bool) (change : Table → Except Fault Table) :
    List Text → Table → Except Fault Table
  | [], t => change t
  | name :: path, t =>
    match t.get? name with
    | none => do
      let inner ← changeAt openArrays change path []
      .ok (t.set name (.table inner))
    | some (.table inner) => do
      let inner ← changeAt openArrays change path inner
      .ok (t.set name (.table inner))
    | some (.list items) =>
      match openArrays, items.getLast? with
      | true, some (.table inner) => do
        let inner ← changeAt openArrays change path inner
        .ok (t.set name (.list (items.dropLast ++ [.table inner])))
      | _, _ => .error .malformed
    | some _ => .error .malformed

def addNew (name : Text) (value : Datum) (t : Table) : Except Fault Table :=
  match t.get? name with
  | none => .ok (t.set name value)
  | some _ => .error .malformed

def addTable (name : Text) (t : Table) : Except Fault Table :=
  match t.get? name with
  | none => .ok (t.set name (.list [.table []]))
  | some (.list items) => .ok (t.set name (.list (items ++ [.table []])))
  | some _ => .error .malformed

def isContainer : Datum → Bool
  | .list _ => true
  | .table _ => true
  | _ => false

def isClosed (closed : List (List Text)) (path : List Text) : Bool :=
  closed.any fun place => place.isPrefixOf path

mutual

def value : Nat → Text → Except Fault (Datum × Text)
  | 0, _ => .error .malformed
  | fuel + 1, s =>
    match s with
    | '"' :: '"' :: '"' :: rest =>
      (extraQuotes '"' (basicString true .plain (dropFirstNewline rest))).map fun (s, rest) =>
        (.text s, rest)
    | '"' :: rest => (basicString false .plain rest).map fun (s, rest) => (.text s, rest)
    | '\'' :: '\'' :: '\'' :: rest =>
      (extraQuotes '\'' (longLiteralString (dropFirstNewline rest))).map fun (s, rest) =>
        (.text s, rest)
    | '\'' :: rest => (literalString rest).map fun (s, rest) => (.text s, rest)
    | '[' :: rest => do
      let (items, rest) ← arrayItems fuel rest
      .ok (.list items, rest)
    | '\x7b' :: rest =>
      match skipSpaces rest with
      | '\x7d' :: rest => .ok (.table [], rest)
      | rest => do
        let (t, rest) ← inlineEntries fuel [] [] rest
        .ok (.table t, rest)
    | s => scalar s

def arrayItems : Nat → Text → Except Fault (List Datum × Text)
  | 0, _ => .error .malformed
  | fuel + 1, s => do
    match ← skipFiller false s with
    | ']' :: rest => .ok ([], rest)
    | s =>
      let (item, rest) ← value fuel s
      match ← skipFiller false rest with
      | ']' :: rest => .ok ([item], rest)
      | ',' :: rest =>
        let (items, rest) ← arrayItems fuel rest
        .ok (item :: items, rest)
      | _ => .error .malformed

def inlineEntries : Nat → List (List Text) → Table → Text → Except Fault (Table × Text)
  | 0, _, _, _ => .error .malformed
  | fuel + 1, closed, t, s => do
    let (path, datum, rest) ← keyValue fuel s
    if isClosed closed path then .error .malformed
    else
      let t ← changeAt false (addNew (path.getLast?.getD []) datum) path.dropLast t
      match skipSpaces rest with
      | '\x7d' :: rest => .ok (t, rest)
      | ',' :: rest =>
        let closed := if isContainer datum then path :: closed else closed
        inlineEntries fuel closed t (skipSpaces rest)
      | _ => .error .malformed

def keyValue : Nat → Text → Except Fault (List Text × Datum × Text)
  | 0, _ => .error .malformed
  | fuel + 1, s => do
    let (path, rest) ← key fuel s
    match rest with
    | '=' :: rest =>
      let (datum, rest) ← value fuel (skipSpaces rest)
      .ok (path, datum, rest)
    | _ => .error .malformed

end

/-- What the statements so far have made: the tables, the header in force, the places that are
closed, the tables that have been opened, and those that the next header will count as opened. -/
structure Progress where
  table : Table := []
  header : List Text := []
  closed : List (List Text) := []
  opened : List (List Text) := []
  touched : List (List Text) := []

namespace Progress

def passed (header path : List Text) : List (List Text) :=
  (List.range path.length).tail.map fun count => header ++ path.take count

def assign (p : Progress) (path : List Text) (datum : Datum) : Except Fault Progress :=
  let tables := passed p.header path
  let whole := p.header ++ path
  if tables.any p.opened.contains then .error .malformed
  else if isClosed p.closed whole.dropLast then .error .malformed
  else do
    let table ← changeAt true (addNew (path.getLast?.getD []) datum) whole.dropLast p.table
    .ok { p with
      table := table
      touched := tables ++ p.touched
      closed := if isContainer datum then whole :: p.closed else p.closed }

def settle (p : Progress) : Progress :=
  { p with opened := p.touched ++ p.opened, touched := [] }

def openTable (p : Progress) (path : List Text) : Except Fault Progress :=
  if p.opened.contains path || isClosed p.closed path then .error .malformed
  else do
    let table ← changeAt true .ok path p.table
    .ok { p with table := table, header := path, opened := path :: p.opened }

def openItem (p : Progress) (path : List Text) : Except Fault Progress :=
  if isClosed p.closed path then .error .malformed
  else do
    let table ← changeAt true (addTable (path.getLast?.getD [])) path.dropLast p.table
    .ok { p with
      table := table
      header := path
      closed := p.closed.filter fun place => !path.isPrefixOf place
      opened := path :: p.opened.filter fun place => !path.isPrefixOf place }

end Progress

def isKeyStart (c : Char) : Bool := isBareKeyChar c || c = '"' || c = '\''

def statement (fuel : Nat) (p : Progress) : Text → Except Fault (Progress × Text)
  | '[' :: '[' :: rest => do
    let (path, rest) ← key fuel (skipSpaces rest)
    let p ← p.settle.openItem path
    match rest with
    | ']' :: ']' :: rest => .ok (p, rest)
    | _ => .error .malformed
  | '[' :: rest => do
    let (path, rest) ← key fuel (skipSpaces rest)
    let p ← p.settle.openTable path
    match rest with
    | ']' :: rest => .ok (p, rest)
    | _ => .error .malformed
  | '#' :: rest => .ok (p, '#' :: rest)
  | c :: rest =>
    if isKeyStart c then do
      let (path, datum, rest) ← keyValue fuel (c :: rest)
      let p ← p.assign path datum
      .ok (p, rest)
    else .error .malformed
  | [] => .ok (p, [])

def statements : Nat → Progress → Text → Except Fault Table
  | 0, _, _ => .error .malformed
  | fuel + 1, p, s =>
    match skipSpaces s with
    | [] => .ok p.table
    | '\n' :: rest => statements fuel p rest
    | s => do
      let (p, rest) ← statement (fuel + 1) p s
      match ← skipComment (skipSpaces rest) with
      | [] => .ok p.table
      | '\n' :: rest => statements fuel p rest
      | _ => .error .malformed

def read (s : Text) : Except Fault Table := statements (2 * s.length + 4) {} s

end Toml
end ScriptDoc
