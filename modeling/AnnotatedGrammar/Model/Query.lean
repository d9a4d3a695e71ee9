import AnnotatedGrammar.Model.Build

/-!
# Asking a model

Look-ups by name and index, the order of classes by inheritance, and which fields an expression
fills.
-/

namespace AnnotatedGrammar.GrammarModel

/-- The rule of an index. -/
def rule? (m : GrammarModel) (id : RuleId) : Option RuleModel := m.rules[id]?

/-- The class of an index. -/
def class? (m : GrammarModel) (c : ClassId) : Option ClassModel := m.classes[c]?

/-- The field of an index. -/
def field? (m : GrammarModel) (f : FieldId) : Option FieldModel := m.fields[f]?

/-- The rule of a name. -/
def ruleByName? (m : GrammarModel) (name : String) : Option RuleModel :=
  m.rules.find? fun rule => rule.name == name

/-- The class of a name, as it is generated or as the grammar has it. -/
def classByName? (m : GrammarModel) (name : String) : Option ClassModel :=
  m.classes.find? fun c => c.name == name || c.sourceName == name

/-- The name of a class. -/
def className (m : GrammarModel) (c : ClassId) : String :=
  match m.class? c with
  | some model => model.name
  | none => ""

/-- The fields of a class, in order. -/
def fieldsOf (m : GrammarModel) (c : ClassId) : List FieldModel :=
  match m.class? c with
  | some model => model.fields.filterMap m.field?
  | none => []

/-- The field of a class by its name, as it is generated or as the grammar has it. -/
def fieldByName? (m : GrammarModel) (c : ClassId) (name : String) : Option FieldModel :=
  (m.fieldsOf c).find? fun f => f.name == name || f.sourceName == some name

/-- What an expression yields; none for one without a value and for one that was never asked. -/
def nodeValue? (m : GrammarModel) (node : NodeId) : Option Value := (m.nodeValues.get? node).join

/-- The field of a class that an expression fills. An expression with a class of its own may fill a
field of that class and one of the class around it. -/
def fieldFor? (m : GrammarModel) (c : ClassId) (node : NodeId) : Option FieldModel :=
  (m.fieldsOf c).find? fun f => f.nodes.contains node

/-- The place of an expression within its rule. -/
def nodePath (m : GrammarModel) (node : NodeId) : String := (m.nodePaths.get? node).getD ""

/-- The class or one of its bases is the other class; at most `steps` bases are looked at. -/
def reaches (m : GrammarModel) (ancestor : ClassId) : Nat → ClassId → Bool
  | 0, c => c == ancestor
  | steps + 1, c =>
    c == ancestor ||
      match (m.class? c).bind (·.base) with
      | some base => reaches m ancestor steps base
      | none => false

/-- Whether a class is another one or derives from it. -/
def isAncestor (m : GrammarModel) (ancestor c : ClassId) : Bool :=
  m.reaches ancestor m.classes.size c

/-- The classes that derive directly from a class. -/
def derivedOf (m : GrammarModel) (c : ClassId) : List ClassModel :=
  m.classes.toList.filter fun derived => derived.base == some c

/-- The type of a value's items as messages speak of it. -/
def elementName (m : GrammarModel) : ElementType → String
  | .primitive p => p.word
  | .instance c => m.className c

/-- Whether anything inside an expression fills a field of a class. -/
def fillsFieldsOf (m : GrammarModel) (e : Expr) (c : ClassId) : Bool :=
  e.preorder.any fun node =>
    match (m.nodeFields.get? node.id).bind m.field? with
    | some f => f.owner == c
    | none => false

end AnnotatedGrammar.GrammarModel
