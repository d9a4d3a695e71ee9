import AnnotatedGrammar.Artifact.Basic

/-!
# Class definitions

The source file that defines the members of the classes: constructors, names, merging and keys.
Merging moves nothing into a field that holds a single primitive value, because every production
that builds the class sets such a field itself.
-/

namespace AnnotatedGrammar

/-- A class as the source file defines it. -/
structure ClassDefinition where
  name : String
  kind : ClassKind
  /-- The tags of a tagged class, the first of which a new instance has. -/
  tags : List String
  fields : List FieldModel
  /-- Type and name of the key field, if the class has one. -/
  key : Option (String × String)
deriving DecidableEq, Repr, Inhabited

namespace ClassDefinition

/-- The definition of a class; a tagged class without tags has none. -/
def ofClass (m : GrammarModel) (c : ClassModel) : Checked ClassDefinition :=
  if c.kind = .tagged ∧ c.variants = [] then
    .error (.invariant .classImplementation (.withoutVariants c.name) none)
  else
    .ok
      { name := c.name
        kind := c.kind
        tags := if c.kind = .tagged then c.variants.map (·.tag) else []
        fields := m.fieldsOf c.id
        key := (c.key.bind m.field?).map fun f => (m.fieldType f, f.name) }

/-- Whether merging moves the value of a field. -/
def isMerged (f : FieldModel) : Bool :=
  f.cardinality != .scalar ||
    match f.element with
    | .instance _ => true
    | .primitive _ => false

/-- What a new instance starts with. -/
def initializers (d : ClassDefinition) : List String :=
  (d.tags.head?.map fun tag => "tag(Tag::" ++ tag ++ ")").toList ++
  d.fields.map fun f => f.name ++ "()"

/-- The constructor. -/
def constructorLayout (d : ClassDefinition) : List Layout.Item :=
  let head := d.name ++ "::" ++ d.name ++ "()"
  if d.initializers.isEmpty then [.line (head ++ " = default;"), .blank]
  else [.line (head ++ " : " ++ ", ".intercalate d.initializers ++ " \x7b\x7d"), .blank]

/-- The function that returns the name of the class. -/
def nameLayout (d : ClassDefinition) : List Layout.Item :=
  if d.kind = .abstract then []
  else
    [.opening ("const char* " ++ d.name ++ "::class_name() const"),
      .line ("return " ++ cppString d.name ++ ";"), .closing "", .blank]

/-- The function that returns the name of a tag. -/
def tagNameLayout (d : ClassDefinition) : List Layout.Item :=
  if d.kind = .tagged then
    [.opening ("const char* " ++ d.name ++ "::tag_name(Tag tag)"), .line "switch (tag) \x7b"] ++
    d.tags.flatMap (fun tag =>
      [.line ("case Tag::" ++ tag ++ ":"), .indent, .line ("return " ++ cppString tag ++ ";"),
        .dedent]) ++
    [.line "\x7d", .line "return \"\";", .closing "", .blank]
  else []

/-- Merges one field. -/
def mergeLayout (f : FieldModel) : List Layout.Item :=
  if f.cardinality = .list then
    [.line ("detail::append(" ++ f.name ++ ", other." ++ f.name ++ ");")]
  else
    [.opening ("if (other." ++ f.name ++ ")"), .line (f.name ++ " = other." ++ f.name ++ ";"),
      .closing ""]

/-- The function that merges another instance into this one. -/
def mergeFromLayout (d : ClassDefinition) : List Layout.Item :=
  let head := "void " ++ d.name ++ "::merge_from(const " ++ d.name ++ "&"
  match d.fields.filter isMerged with
  | [] => [.line (head ++ ") \x7b\x7d"), .blank]
  | merged =>
    [.opening (head ++ " other)")] ++ merged.flatMap mergeLayout ++ [.closing "", .blank]

/-- The function that returns the key. -/
def keyLayout (d : ClassDefinition) : List Layout.Item :=
  match d.key with
  | none => []
  | some (type, field) =>
    [.opening ("const " ++ type ++ "& " ++ d.name ++ "::key() const"),
      .line ("return " ++ field ++ ";"), .closing "", .blank]

/-- The definition in full. -/
def layout (d : ClassDefinition) : List Layout.Item :=
  d.constructorLayout ++ d.nameLayout ++ d.tagNameLayout ++ d.mergeFromLayout ++ d.keyLayout

end ClassDefinition

namespace ArtifactSource

/-- The definitions of all classes, in the order of their declarations. -/
def definitions (s : ArtifactSource) : Checked (List ClassDefinition) :=
  ((DeclarationOrder.ofModel s.model).classes.filterMap s.model.class?).mapM
    (ClassDefinition.ofClass s.model)

/-- The source file of a model. -/
def definitionLayout (s : ArtifactSource) : Checked (List Layout.Item) := do
  let classes ← s.definitions
  return s.opening .line ++
    [includeLine (s.fileName .classDeclarations), .blank,
      namespaceOpening s.model.namespaceName, .blank] ++
    classes.flatMap ClassDefinition.layout ++
    [namespaceClosing s.model.namespaceName]

end ArtifactSource
end AnnotatedGrammar
