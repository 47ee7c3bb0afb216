import QuantNet.Toml.Value

/-!
# Settings documents

How the statements of a document make one table.

## The model

A document is a list of statements: a header opens a table or the next element of a list of tables,
and an assignment gives a value to a key of the table opened last. The path in front of a key leads
through tables, which it makes if they do not exist, and through the last elements of lists of
tables. Every table remembers how it came to be, because a table may be opened by a header once, a
table made by a dotted key may be extended by dotted keys only, and a table opened by a header may
not. A key is given a value once.
-/

namespace QuantNet.Toml

/-- How a table came to be. -/
inductive Origin where
  /-- By a header of its own. -/
  | header
  /-- On the path of a header. -/
  | path
  /-- On the path of a dotted key. -/
  | dotted
deriving DecidableEq

/-- What a key of a document under construction leads to. -/
inductive Item where
  /-- A value. -/
  | value (v : Value)
  /-- A table. -/
  | table (origin : Origin) (entries : List (String × Item))
  /-- A list of tables, each opened by a header. -/
  | tables (elements : List (List (String × Item)))

/-- The entries of a table under construction. -/
abbrev Entries := List (String × Item)

/-- The entries with one key added or replaced. -/
def setItem (key : String) (item : Item) : Entries → Entries
  | [] => [(key, item)]
  | (k, x) :: rest => if k = key then (key, item) :: rest else (k, x) :: setItem key item rest

/-! ### Paths -/

/-- The entries after a change to the table a path leads to. `made` is the origin of the tables that
the path makes and of those it may extend: a dotted key may not enter a table with a header of its
own. The change sees the origin of the table. -/
def changeAt (made : Origin) (change : Origin → Entries → Option Entries) :
    (path : List String) → (origin : Origin) → Entries → Option Entries
  | [], origin, entries => change origin entries
  | key :: path, _, entries =>
    match entries.lookup key with
    | none => (changeAt made change path made []).map fun new => setItem key (.table made new) entries
    | some (.value _) => none
    | some (.table origin inner) =>
      if made = .dotted ∧ origin = .header then none
      else (changeAt made change path origin inner).map fun new =>
        setItem key (.table origin new) entries
    | some (.tables elements) =>
      (changeAt made change path .header (elements.getLast?.getD [])).map fun new =>
        setItem key (.tables (elements.dropLast ++ [new])) entries

/-! ### Statements -/

/-- A statement of a document. -/
inductive Statement where
  /-- A key on a dotted path is given a value. -/
  | assign (path : List String) (key : String) (value : Value)
  /-- A header opens a table. -/
  | openTable (path : List String) (key : String)
  /-- A header opens the next element of a list of tables. -/
  | openElement (path : List String) (key : String)

/-- The entries of a table after an assignment. A key without a path belongs to a table that was not
made by dotted keys, a key with a path to one that was. -/
def assign (path : List String) (key : String) (value : Value) (entries : Entries) : Option Entries :=
  changeAt .dotted (fun origin inner =>
    if decide (origin = .dotted) = path.isEmpty ∨ (inner.lookup key).isSome then none
    else some (setItem key (.value value) inner)) path .header entries

/-- The entries of a document after a table is opened. -/
def openTable (path : List String) (key : String) (root : Entries) : Option Entries :=
  changeAt .path (fun _ inner =>
    match inner.lookup key with
    | none => some (setItem key (.table .header []) inner)
    | some (.table .path entries) => some (setItem key (.table .header entries) inner)
    | some _ => none) path .header root

/-- The entries of a document after an element of a list of tables is opened. -/
def openElement (path : List String) (key : String) (root : Entries) : Option Entries :=
  changeAt .path (fun _ inner =>
    match inner.lookup key with
    | none => some (setItem key (.tables [[]]) inner)
    | some (.tables elements) => some (setItem key (.tables (elements ++ [[]])) inner)
    | some _ => none) path .header root

/-- The entries of a document after statements in order; `current` is the path of the table opened
last. -/
def place : (current : List String) → Entries → List Statement → Option Entries
  | _, root, [] => some root
  | current, root, .assign path key value :: rest =>
    (changeAt .path (fun _ inner => assign path key value inner) current .header root).bind fun root =>
      place current root rest
  | _, root, .openTable path key :: rest =>
    (openTable path key root).bind fun root => place (path ++ [key]) root rest
  | _, root, .openElement path key :: rest =>
    (openElement path key root).bind fun root => place (path ++ [key]) root rest

/-! ### Values -/

mutual

/-- The value of a finished item. -/
def Item.toValue : Item → Value
  | .value v => v
  | .table _ entries => .table (entriesToValues entries)
  | .tables elements => .array (elementsToValues elements)

/-- The values of the entries of a finished table. -/
def entriesToValues : List (String × Item) → List (String × Value)
  | [] => []
  | (key, item) :: rest => (key, item.toValue) :: entriesToValues rest

/-- The values of the elements of a finished list of tables. -/
def elementsToValues : List (List (String × Item)) → List Value
  | [] => []
  | entries :: rest => .table (entriesToValues entries) :: elementsToValues rest

end

/-- The table that statements make. -/
def ofStatements? (statements : List Statement) : Option Value :=
  (place [] [] statements).map fun entries => .table (entriesToValues entries)

/-- The table that assignments inside braces make. -/
def ofAssignments? (assignments : List (List String × String × Value)) : Option Value :=
  (assignments.foldlM (fun entries a => assign a.1 a.2.1 a.2.2 entries) []).map fun entries =>
    .table (entriesToValues entries)

end QuantNet.Toml
