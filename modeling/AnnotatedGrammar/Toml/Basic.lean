/-!
# TOML documents as trees

A document is a table of named items. Tables come into being in several ways, by a header, by a
dotted key, or because a header names something inside them; which way it was decides how they may
be extended later.
-/

namespace AnnotatedGrammar.Toml

/-- How a table came into being. -/
inductive TableKind
  /-- By a header of its own, or as one of an array of tables. -/
  | explicit
  /-- By the header of something inside it. -/
  | implicit
  /-- By a dotted key. -/
  | dotted
deriving DecidableEq, Repr, Inhabited

/-- What a name in a document stands for. Numbers and dates are only told apart from other items. -/
inductive Item
  | boolean (b : Bool)
  | text (s : String)
  | number
  | date
  | array (items : List Item)
  /-- A table written between braces; it is never extended. -/
  | inlineTable (entries : List (String × Item))
  | table (kind : TableKind) (entries : List (String × Item))
  /-- The tables of an array, the last one written last. -/
  | tableArray (tables : List (List (String × Item)))
deriving Repr, Inhabited

/-- The named items of a table, in the order in which they came. -/
abbrev Entries := List (String × Item)

namespace Entries

/-- The item of a name. -/
def find? (name : String) (entries : Entries) : Option Item := List.lookup name entries

/-- The entries with the item of a name put in place of an earlier one, or added. -/
def put (name : String) (item : Item) : Entries → Entries
  | [] => [(name, item)]
  | (n, i) :: rest => if n = name then (n, item) :: rest else (n, i) :: put name item rest

/-- Changes the table at the end of a path; tables missing on the way are made. Dotted keys may go
neither into a table that has a header nor into an array or a value; headers may go into the last
table of an array of tables. -/
def modifyAt (dotted : Bool) (change : TableKind → Entries → Option Entries) :
    List String → TableKind → Entries → Option Entries
  | [], kind, entries => change kind entries
  | name :: path, _, entries =>
    match find? name entries with
    | none => do
      let kind := if dotted then TableKind.dotted else .implicit
      let inner ← modifyAt dotted change path kind []
      return put name (.table kind inner) entries
    | some (.table kind inner) =>
      if dotted && kind == .explicit then none
      else do return put name (.table kind (← modifyAt dotted change path kind inner)) entries
    | some (.tableArray tables) => do
      let last ← tables.getLast?
      let changed ← modifyAt dotted change path .explicit last
      return put name (.tableArray (tables.dropLast ++ [changed])) entries
    | some _ => none

/-- Adds an item under a new name. A dotted key adds only to a table made by dotted keys. -/
def add (isDotted : Bool) (name : String) (item : Item) (kind : TableKind) (entries : Entries) :
    Option Entries :=
  if (kind == .dotted) == isDotted && (find? name entries).isNone then
    some (put name item entries)
  else none

/-- Adds an item under a key, relative to the table that is being filled. -/
def insertKey (key : List String) (item : Item) (kind : TableKind) (entries : Entries) :
    Option Entries :=
  match key.getLast? with
  | none => none
  | some name =>
    let path := key.dropLast
    modifyAt true (add (!path.isEmpty) name item) path kind entries

/-- Opens the table of a header. A table that only other headers have named so far may be opened. -/
def openTable (name : String) (_kind : TableKind) (entries : Entries) : Option Entries :=
  match find? name entries with
  | none => some (put name (.table .explicit []) entries)
  | some (.table .implicit inner) => some (put name (.table .explicit inner) entries)
  | some _ => none

/-- Adds a table to an array of tables. -/
def openElement (name : String) (_kind : TableKind) (entries : Entries) : Option Entries :=
  match find? name entries with
  | none => some (put name (.tableArray [[]]) entries)
  | some (.tableArray tables) => some (put name (.tableArray (tables ++ [[]])) entries)
  | some _ => none

/-- Carries out a header; `isElement` tells the header of one of an array of tables. -/
def openHeader (isElement : Bool) (path : List String) (root : Entries) : Option Entries :=
  match path.getLast? with
  | none => none
  | some name =>
    modifyAt false (if isElement then openElement name else openTable name) path.dropLast
      .explicit root

/-- Adds an item under a key to the table that the last header opened. -/
def insertUnder (header key : List String) (item : Item) (root : Entries) : Option Entries :=
  modifyAt false (insertKey key item) header .explicit root

end Entries
end AnnotatedGrammar.Toml
