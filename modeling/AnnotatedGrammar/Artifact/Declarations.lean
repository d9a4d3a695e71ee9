import AnnotatedGrammar.Artifact.Basic

/-!
# Class declarations

The header that declares the classes of a model, each behind those it needs. It also holds the list
helpers that the parser's actions call.
-/

namespace AnnotatedGrammar

/-- A class as the header declares it. -/
structure ClassDeclaration where
  name : String
  base : Option String
  kind : ClassKind
  /-- The tags of a tagged class. -/
  tags : List String
  /-- The type of the key, if the class has one. -/
  keyType : Option String
  /-- Type and name of every field. -/
  members : List (String × String)
deriving DecidableEq, Repr, Inhabited

namespace ClassDeclaration

/-- The declaration of a class. -/
def ofClass (m : GrammarModel) (c : ClassModel) : ClassDeclaration where
  name := c.name
  base := c.base.map m.className
  kind := c.kind
  tags := c.variants.map (·.tag)
  keyType := (c.key.bind m.field?).map m.fieldType
  members := (m.fieldsOf c.id).map fun f => (m.fieldType f, f.name)

/-- Whether instances carry a tag. -/
def isTagged (d : ClassDeclaration) : Bool := d.kind == .tagged

/-- The first line, without its brace. -/
def header (d : ClassDeclaration) : String :=
  match d.base with
  | some base => "class " ++ d.name ++ " : public " ++ base
  | none => "class " ++ d.name

/-- How the class declares its name. -/
def nameMember (d : ClassDeclaration) : String :=
  if d.kind = .abstract then "virtual const char* class_name() const = 0;"
  else if d.base.isSome then "const char* class_name() const override;"
  else "virtual const char* class_name() const;"

/-- The declaration of the tags. -/
def tagLayout (d : ClassDeclaration) : List Layout.Item :=
  [.opening "enum class Tag"] ++ d.tags.map (fun tag => .line (tag ++ ",")) ++
    [.closing ";", .blank]

/-- The member functions. -/
def functionLayout (d : ClassDeclaration) : List Layout.Item :=
  [.line (d.name ++ "();")] ++
  (if d.base.isNone then [.line ("virtual ~" ++ d.name ++ "() = default;")] else []) ++
  [.blank, .line d.nameMember] ++
  (if d.isTagged then [.line "static const char* tag_name(Tag tag);"] else []) ++
  [.line ("void merge_from(const " ++ d.name ++ "& other);")] ++
  (match d.keyType with
    | some type => [.line ("const " ++ type ++ "& key() const;")]
    | none => [])

/-- The data members. -/
def memberLayout (d : ClassDeclaration) : List Layout.Item :=
  (if d.isTagged || !d.members.isEmpty then [.blank] else []) ++
  (if d.isTagged then [.line "Tag tag;"] else []) ++
  d.members.map fun member => .line (member.1 ++ " " ++ member.2 ++ ";")

/-- The declaration in full. -/
def layout (d : ClassDeclaration) : List Layout.Item :=
  [.opening d.header, .dedent, .line "public:", .indent] ++
  (if d.isTagged then d.tagLayout else []) ++ d.functionLayout ++ d.memberLayout ++
  [.closing ";"]

end ClassDeclaration

namespace ArtifactSource

/-- The standard headers that the declarations need. -/
def standardHeaders : List String :=
  ["<cstdint>", "<memory>", "<optional>", "<string>", "<type_traits>", "<utility>", "<vector>"]

/-- The declaration of a type predicate that holds of the instances of one template. -/
def typePredicate (name type : String) : List Layout.Item :=
  [.line ("template <class T> struct " ++ name ++ " : std::false_type \x7b\x7d;"),
    .line ("template <class T> struct " ++ name ++ "<" ++ type ++
      "<T>> : std::true_type \x7b\x7d;")]

/-- The line between two branches of a condition. -/
def otherwise (condition : String) : List Layout.Item :=
  [.dedent, .line ("\x7d else " ++ condition ++ "\x7b"), .indent]

/-- Adds a value to a list if it is there. -/
def appendIfPresent (value : String) : List Layout.Item :=
  [.opening "if (value)", .line ("list.push_back(T(" ++ value ++ "));"), .closing ""]

/-- The list helpers: adding a list adds its items, adding something absent adds nothing, and an
instance may be added to a list of its base. -/
def listHelpers : List Layout.Item :=
  [.line "namespace detail \x7b", .blank] ++
  typePredicate "is_vector" "std::vector" ++
  typePredicate "is_optional" "std::optional" ++
  typePredicate "is_shared_ptr" "std::shared_ptr" ++
  [.blank,
    .line "template <class T, class U>",
    .opening "void append(std::vector<T>& list, U&& value)",
    .line "using V = std::decay_t<U>;",
    .opening "if constexpr (is_vector<V>::value)",
    .opening "for (const auto& item : value)",
    .line "append(list, item);",
    .closing ""] ++
  otherwise "if constexpr (is_optional<V>::value) " ++ appendIfPresent "*value" ++
  otherwise "if constexpr (is_shared_ptr<V>::value) " ++ appendIfPresent "value" ++
  otherwise "" ++
  [.line "list.push_back(T(std::forward<U>(value)));",
    .closing "",
    .closing "",
    .blank,
    .line "template <class T, class U>",
    .opening "void prepend(std::vector<T>& list, U&& value)",
    .line "std::vector<T> head;",
    .line "append(head, std::forward<U>(value));",
    .line "list.insert(list.begin(), head.begin(), head.end());",
    .closing "",
    .blank,
    .line "\x7d  // namespace detail"]

/-- The classes to be announced, and the declarations in order. -/
def declarations (s : ArtifactSource) : List String × List ClassDeclaration :=
  let order := DeclarationOrder.ofModel s.model
  (order.forward.map s.model.className,
    (order.classes.filterMap s.model.class?).map (ClassDeclaration.ofClass s.model))

/-- The header of a model. -/
def declarationLayout (s : ArtifactSource) : List Layout.Item :=
  let (forward, classes) := s.declarations
  s.opening .line ++
  [.line "#pragma once", .blank] ++
  standardHeaders.map (fun header => .line ("#include " ++ header)) ++
  [.blank, namespaceOpening s.model.namespaceName, .blank] ++
  listHelpers ++ [.blank] ++
  forward.map (fun name => .line ("class " ++ name ++ ";")) ++ [.blank] ++
  classes.flatMap (fun d => d.layout ++ [.blank]) ++
  [namespaceClosing s.model.namespaceName]

end ArtifactSource
end AnnotatedGrammar
