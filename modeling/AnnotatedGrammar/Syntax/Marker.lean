import AnnotatedGrammar.Source.Position

/-!
# Markers and directives

A marker `@key` or `@key(value)` says how the element, group or rule it is written on appears in
the data model. A directive `%name value ;` settles something about the whole grammar. The parser
accepts any name; this module says which names have a meaning, and where.
-/

namespace AnnotatedGrammar

/-- A marker as written in a grammar. -/
structure Marker where
  key : String
  value : Option String
  span : Span
deriving DecidableEq, Repr, Inhabited

/-- The marker as text. -/
def Marker.display (marker : Marker) : String :=
  match marker.value with
  | some value => "@" ++ marker.key ++ "(" ++ value ++ ")"
  | none => "@" ++ marker.key

/-- The markers that have a meaning. -/
inductive MarkerKey
  /-- Names the class that the element's value belongs to. -/
  | classOf
  /-- Names the field that the element fills. -/
  | field
  /-- Declares the element's type. -/
  | typeOf
  /-- Names the field that identifies an instance of the class. -/
  | keyOf
  /-- The field holds a list. -/
  | list
  /-- The field may be absent. -/
  | optional
  /-- The element contributes no value. -/
  | skip
deriving DecidableEq, Repr, Inhabited

/-- Where a marker is written. -/
inductive MarkerSite
  | rule
  | group
  /-- A direct branch of an alternation. -/
  | branch
  | element
deriving DecidableEq, Repr, Inhabited

/-- All sites. -/
def MarkerSite.all : List MarkerSite := [rule, group, branch, element]

/-- The site as messages speak of it. -/
def MarkerSite.word : MarkerSite → String
  | rule => "rule"
  | group => "group"
  | branch => "alternation branch"
  | element => "element"

namespace MarkerKey

/-- All keys, in the order in which they are listed to users. -/
def all : List MarkerKey := [classOf, field, typeOf, keyOf, list, optional, skip]

/-- The key as it is written. -/
def word : MarkerKey → String
  | classOf => "class"
  | field => "field"
  | typeOf => "type"
  | keyOf => "key"
  | list => "list"
  | optional => "optional"
  | skip => "skip"

/-- The key of a written name. -/
def ofWord? (word : String) : Option MarkerKey := all.find? fun key => key.word == word

/-- Whether the marker is written with a value. -/
def takesValue : MarkerKey → Bool
  | classOf | field | typeOf | keyOf => true
  | list | optional | skip => false

/-- Whether the marker may be written at a site. Groups and branches are also elements of the
sequence around them, so whatever an element admits they admit too. -/
def allowedOn (key : MarkerKey) (site : MarkerSite) : Bool :=
  match key with
  | classOf => site != .element
  | typeOf => true
  | keyOf => site == .rule
  | field | list | optional | skip => site != .rule

end MarkerKey

/-- The directives that have a meaning. -/
inductive DirectiveKind
  /-- The namespace of the generated classes. -/
  | namespaceName
  /-- What every class name begins with. -/
  | classPrefix
  /-- The rule that derives whole texts. -/
  | start
deriving DecidableEq, Repr, Inhabited

/-- The directive of a written name. -/
def DirectiveKind.ofWord? (word : String) : Option DirectiveKind :=
  if word = "namespace" then some namespaceName
  else if word = "prefix" then some classPrefix
  else if word = "start" then some start
  else none

/-- A directive as written in a grammar. -/
structure Directive where
  name : String
  value : String
  span : Span
deriving DecidableEq, Repr, Inhabited

end AnnotatedGrammar
