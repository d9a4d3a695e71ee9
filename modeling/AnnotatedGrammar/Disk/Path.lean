/-!
# Paths

A path is a text of names between slashes. Slashes in a row count once, and the name `.` leads
nowhere. The name of a grammar file, without its ending, gives the generated files their names.
-/

namespace AnnotatedGrammar.Path

/-- The names along a path. -/
def names (path : String) : List String :=
  ((path.toList.splitOn '/').filter (!·.isEmpty)).map String.ofList

/-- Whether a path begins at the root. -/
def isAbsolute (path : String) : Bool := path.toList.head? == some '/'

/-- The names along a path that lead somewhere. -/
def steps (path : String) : List String := (names path).filter (· != ".")

/-- The path of a file in a directory. -/
def join (directory name : String) : String :=
  if directory.toList.getLast?.all (· == '/') then directory ++ name else directory ++ "/" ++ name

/-- The beginnings of a list of names, the shortest first; neither nothing nor the whole list. -/
def beginnings : List String → List (List String)
  | [] | [_] => []
  | name :: rest => [name] :: (beginnings rest).map (name :: ·)

/-- The directories that a path lies in by its text, the innermost first. -/
def enclosing (path : String) : List String :=
  let root := if isAbsolute path then "/" else ""
  (beginnings (steps path)).reverse.map fun names => root ++ "/".intercalate names

/-- The name at the end of a path, unless it leads back out of a directory. -/
def fileName? (path : String) : Option String := (steps path).getLast?.filter (· != "..")

/-- A name without its ending: what stands before the last dot, if anything does. -/
def stem (name : String) : List Char :=
  let cs := name.toList
  let before := (cs.reverse.dropWhile (· != '.')).drop 1
  if before.isEmpty then cs else before.reverse

/-- The name of a grammar: the name of its file as an identifier. Where no letter or digit is left,
it is called `grammar`. -/
def baseName (path : String) : String :=
  let cs := ((fileName? path).map stem).getD []
  let base := cs.map fun c => if c.isAlphanum then c else '_'
  if base.all (· == '_') then "grammar"
  else if base.head?.any Char.isDigit then String.ofList ('_' :: base)
  else String.ofList base

end AnnotatedGrammar.Path
