import AnnotatedGrammar.Model.Query

/-!
# The model in C++

Which C++ types the values of the model have, how a text is written as a string literal, and in
which order the classes can be defined.

Identifiers, texts and keywords are strings; numbers are floating-point numbers and references are
integers. An instance is a shared pointer, and an absent instance a null pointer.
-/

namespace AnnotatedGrammar

/-- The type of a primitive value. -/
def Primitive.cppType : Primitive → String
  | identifier | text | keyword => "std::string"
  | number => "double"
  | reference => "std::int64_t"

/-- A pointer to instances of a class. -/
def sharedPointer (className : String) : String := "std::shared_ptr<" ++ className ++ ">"

namespace GrammarModel

/-- The type of one item. -/
def elementType (m : GrammarModel) : ElementType → String
  | .primitive p => p.cppType
  | .instance c => sharedPointer (m.className c)

/-- The type of a value. -/
def valueType (m : GrammarModel) (v : Value) : String :=
  let element := m.elementType v.element
  match v.cardinality, v.element with
  | .scalar, _ => element
  | .optional, .instance _ => element
  | .optional, .primitive _ => "std::optional<" ++ element ++ ">"
  | .list, _ => "std::vector<" ++ element ++ ">"

/-- The type of a field. -/
def fieldType (m : GrammarModel) (f : FieldModel) : String :=
  m.valueType ⟨f.element, f.cardinality⟩

end GrammarModel

/-- A character inside a string literal. -/
def cppEscape (c : Char) : List Char :=
  if c = '"' then ['\\', '"']
  else if c = '\\' then ['\\', '\\']
  else if c = '\n' then ['\\', 'n']
  else if c = '\t' then ['\\', 't']
  else if c = '\r' then ['\\', 'r']
  else [c]

/-- A text as a string literal. -/
def cppString (text : String) : String :=
  String.ofList ('"' :: (text.toList.flatMap cppEscape ++ ['"']))

/-- The order in which classes are defined, and those that must be announced before. -/
structure DeclarationOrder where
  classes : List ClassId
  forward : List ClassId
deriving DecidableEq, Repr, Inhabited

namespace DeclarationOrder

/-- The classes placed so far. -/
structure Visit where
  /-- Which classes were reached. -/
  reached : Array Bool
  /-- The classes in order, latest first. -/
  placed : List ClassId

/-- The classes that the fields of a class refer to. -/
def fieldClasses (m : GrammarModel) (c : ClassId) : List ClassId :=
  (m.fieldsOf c).filterMap fun f =>
    match f.element with
    | .instance target => some target
    | .primitive _ => none

/-- The classes that should come before a class: its base, then those its fields refer to. -/
def wanted (m : GrammarModel) (c : ClassId) : List ClassId :=
  ((m.class? c).bind (·.base)).toList ++ fieldClasses m c

/-- Places a class behind the classes it wants, unless it was reached before. A chain of classes
without repetition is no longer than `depth`. -/
def visit (m : GrammarModel) : Nat → ClassId → Visit → Visit
  | 0, _, v => v
  | depth + 1, c, v =>
    if v.reached.getD c true then v
    else
      let v : Visit := { v with reached := v.reached.setIfInBounds c true }
      let v := (wanted m c).foldl (fun v target => visit m depth target v) v
      { v with placed := c :: v.placed }

/-- The classes that fields refer to before they are defined; `defined` tells which classes are
defined and `forward` holds those found so far. -/
def missing (m : GrammarModel) (defined announced : Array Bool) (forward : List ClassId) :
    List ClassId → List ClassId
  | [] => forward
  | c :: rest =>
    let new := ((fieldClasses m c).filter fun target =>
      target != c && !defined.getD target true && !announced.getD target true).eraseDups
    let announced := new.foldl (fun flags target => flags.setIfInBounds target true) announced
    missing m (defined.setIfInBounds c true) announced (new ++ forward) rest

/-- Bases come before the classes that derive from them. A class that fields refer to comes before
the referring class, except where references run in a cycle. -/
def ofModel (m : GrammarModel) : DeclarationOrder :=
  let size := m.classes.size
  let initial : Visit := ⟨Array.replicate size false, []⟩
  let final := (List.range size).foldl (fun v c => visit m (size + 1) c v) initial
  let classes := final.placed.reverse
  let flags := Array.replicate size false
  ⟨classes, (missing m flags flags [] classes).mergeSort⟩

end DeclarationOrder
end AnnotatedGrammar
