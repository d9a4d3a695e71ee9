import AnnotatedGrammar.Disk.Basic

/-!
# Disks in memory

A tree of directories and files that answers as a disk does: names are looked up one after another,
a file ends the way, and what stands in the way is reported with its reason.
-/

namespace AnnotatedGrammar

/-- What a path leads to. -/
inductive DiskEntry
  | directory
  | file (bytes : ByteArray)

/-- The names that lead from the root to something. -/
abbrev Location := List String

/-- Directories and files by their locations. The root is always there and is not listed. -/
structure DiskTree where
  entries : List (Location × DiskEntry)
  /-- Where paths begin that do not begin at the root. -/
  home : Location

namespace DiskTree

/-- What a location holds. -/
def entry? (tree : DiskTree) (place : Location) : Option DiskEntry :=
  if place.isEmpty then some .directory else tree.entries.lookup place

/-- Whether a location holds a directory. -/
def hasDirectory (tree : DiskTree) (place : Location) : Bool :=
  match tree.entry? place with
  | some .directory => true
  | _ => false

/-- The tree without what a location holds. -/
def erase (place : Location) (tree : DiskTree) : DiskTree :=
  { tree with entries := tree.entries.filter (·.1 != place) }

/-- The tree with something at a location, in place of what it held. -/
def put (place : Location) (entry : DiskEntry) (tree : DiskTree) : DiskTree :=
  let tree := tree.erase place
  { tree with entries := tree.entries ++ [(place, entry)] }

/-- Longest name, in bytes. -/
def nameLimit : Nat := 255

/-- Longest path, in bytes. -/
def pathLimit : Nat := 4095

/-- The location that a name stands for in a directory, whether it holds something or not. -/
def child (tree : DiskTree) (place : Location) (name : String) : Except SystemFault Location :=
  if !tree.hasDirectory place then .error .notDirectory
  else if name == "." then .ok place
  else if name == ".." then .ok place.dropLast
  else if nameLimit < name.utf8ByteSize then .error .nameTooLong
  else .ok (place ++ [name])

/-- Follows names through directories to something that is there. -/
def follow (tree : DiskTree) (place : Location) : List String → Except SystemFault Location
  | [] => .ok place
  | name :: names => do
    let next ← tree.child place name
    if (tree.entry? next).isSome then tree.follow next names else .error .missing

/-- The names along a path as they are looked up: a slash at the end asks for a directory. -/
def lookupNames (path : String) : List String :=
  Path.names path ++ if path.toList.getLast? == some '/' then ["."] else []

/-- Where a path begins; an empty path leads nowhere. -/
def origin (tree : DiskTree) (path : String) : Except SystemFault Location :=
  if path.isEmpty then .error .missing
  else if pathLimit < path.utf8ByteSize then .error .nameTooLong
  else .ok (if Path.isAbsolute path then [] else tree.home)

/-- The location of something that is there. -/
def locate (tree : DiskTree) (path : String) : Except SystemFault Location := do
  tree.follow (← tree.origin path) (lookupNames path)

/-- The location that the last of some names stands for, whether it holds something or not; the
way there has to exist. -/
def place (tree : DiskTree) (path : String) (names : List String) :
    Except SystemFault Location := do
  let outer ← tree.follow (← tree.origin path) names.dropLast
  match names.getLast? with
  | some name => tree.child outer name
  | none => return outer

/-- How many bytes something takes. -/
def size (tree : DiskTree) (path : String) : Except SystemFault Nat := do
  match tree.entry? (← tree.locate path) with
  | some (.file bytes) => return bytes.size
  | _ => return 0

/-- Everything in a file. -/
def read (tree : DiskTree) (path : String) : Except SystemFault ByteArray := do
  match tree.entry? (← tree.locate path) with
  | some (.file bytes) => return bytes
  | _ => .error .isDirectory

/-- Whether a path leads to a directory. -/
def isDirectory (tree : DiskTree) (path : String) : Bool :=
  match tree.locate path with
  | .ok place => tree.hasDirectory place
  | .error _ => false

/-- The tree with one more directory. A slash at the end of the path makes no difference. -/
def makeDirectory (tree : DiskTree) (path : String) : Except SystemFault DiskTree := do
  let place ← tree.place path (Path.names path)
  if (tree.entry? place).isSome then .error .taken else return tree.put place .directory

/-- The tree with a text in a file. -/
def write (tree : DiskTree) (path text : String) : Except SystemFault DiskTree := do
  let place ← tree.place path (lookupNames path)
  if tree.hasDirectory place then .error .isDirectory
  else return tree.put place (.file text.toUTF8)

/-- The tree with a file at another location. -/
def rename (tree : DiskTree) (path target : String) : Except SystemFault DiskTree := do
  let source ← tree.locate path
  let destination ← tree.place target (lookupNames target)
  match tree.entry? source with
  | none => .error .missing
  | some entry =>
    if tree.hasDirectory destination then .error .isDirectory
    else return (tree.erase source).put destination entry

/-- The tree without a file. -/
def remove (tree : DiskTree) (path : String) : DiskTree :=
  match tree.locate path with
  | .ok place => if tree.hasDirectory place then tree else tree.erase place
  | .error _ => tree

/-- A tree in which files were put, below its home directory, with the directories that they lie
in. -/
def ofFiles (home : Location) (files : List (String × ByteArray)) : DiskTree :=
  let directory (tree : DiskTree) (place : Location) : DiskTree := tree.put place .directory
  let root := (Path.beginnings home ++ [home]).foldl directory ⟨[], home⟩
  let add (tree : DiskTree) (file : String × ByteArray) : DiskTree :=
    let place := home ++ Path.steps file.1
    let tree := (Path.beginnings place).foldl directory tree
    tree.put place (.file file.2)
  files.foldl add root

/-- The files below the home directory with their paths from there. -/
def files (tree : DiskTree) : List (String × ByteArray) :=
  tree.entries.filterMap fun (place, entry) =>
    match entry with
    | .file bytes =>
      if tree.home.isPrefixOf place then
        some ("/".intercalate (place.drop tree.home.length), bytes)
      else none
    | .directory => none

/-- The files that a tree has and an earlier one did not have, or not with the same content. -/
def newFiles (tree earlier : DiskTree) : List (String × ByteArray) :=
  let known := earlier.files
  tree.files.filter fun (path, bytes) => known.lookup path != some bytes

/-- Something that keeps a tree can serve as a disk. -/
def disk {σ : Type} (get : σ → DiskTree) (set : DiskTree → σ → σ) : Disk (StateM σ) :=
  let change (f : DiskTree → Except SystemFault DiskTree) : StateM σ (Except SystemFault Unit) :=
    fun state =>
      match f (get state) with
      | .ok tree => (.ok (), set tree state)
      | .error fault => (.error fault, state)
  { size := fun path state => ((get state).size path, state)
    read := fun path state => ((get state).read path, state)
    isDirectory := fun path state => ((get state).isDirectory path, state)
    makeDirectory := fun path => change (·.makeDirectory path)
    write := fun path text => change (·.write path text)
    rename := fun path target => change (·.rename path target)
    remove := fun path state => ((), set ((get state).remove path) state) }

end DiskTree
end AnnotatedGrammar
