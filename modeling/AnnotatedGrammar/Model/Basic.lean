import AnnotatedGrammar.Syntax.Tree

/-!
# The data model of a grammar

Rules, classes and fields lie in tables and refer to one another by their index, so that classes may
refer to each other in cycles. What each expression of the grammar yields is kept by the
expression's number.
-/

namespace AnnotatedGrammar

/-- The index of a rule. -/
abbrev RuleId := Nat

/-- The index of a class. -/
abbrev ClassId := Nat

/-- The index of a field. -/
abbrev FieldId := Nat

/-- Values that are not instances of a class. -/
inductive Primitive
  | identifier
  | number
  | text
  | reference
  /-- The text of a literal that fills a field. -/
  | keyword
deriving DecidableEq, Repr, Inhabited

namespace Primitive

/-- All kinds of primitive values. -/
def all : List Primitive := [identifier, number, text, reference, keyword]

/-- The kind as a grammar names it. -/
def word : Primitive → String
  | identifier => "identifier"
  | number => "number"
  | text => "text"
  | reference => "reference"
  | keyword => "keyword"

/-- The kind of a name. -/
def ofWord? (word : String) : Option Primitive := all.find? fun p => p.word == word

/-- The value of a word of a pattern. -/
def ofPattern : Pattern → Primitive
  | .identifier => identifier
  | .number => number
  | .quotedString => text
  | .instanceReference => reference

end Primitive

/-- What a value, or each item of a list, is. -/
inductive ElementType
  | primitive (p : Primitive)
  | instance (c : ClassId)
deriving DecidableEq, Repr, Inhabited

/-- How many items a value has. -/
inductive Cardinality
  | scalar
  | optional
  | list
deriving DecidableEq, Repr, Inhabited

namespace Cardinality

/-- The cardinality of a value inside something that is itself optional or repeated. -/
def wrap : Cardinality → Cardinality → Cardinality
  | list, _ | _, list => list
  | optional, _ | _, optional => optional
  | scalar, scalar => scalar

/-- Position in the order scalar, optional, list. -/
def rank : Cardinality → Nat
  | scalar => 0
  | optional => 1
  | list => 2

/-- The more general of two cardinalities. -/
def max (a b : Cardinality) : Cardinality := if b.rank ≤ a.rank then a else b

/-- The cardinality as messages speak of it. -/
def word : Cardinality → String
  | scalar => "scalar"
  | optional => "optional"
  | list => "list"

end Cardinality

/-- What an expression yields as one element. -/
structure Value where
  element : ElementType
  cardinality : Cardinality
deriving DecidableEq, Repr, Inhabited

namespace Value

/-- A single item. -/
def scalar (element : ElementType) : Value := ⟨element, .scalar⟩

/-- A single primitive value. -/
def ofPrimitive (p : Primitive) : Value := scalar (.primitive p)

/-- A single instance of a class. -/
def ofClass (c : ClassId) : Value := scalar (.instance c)

/-- The value seen from outside something optional or repeated. -/
def wrapped (v : Value) (outer : Cardinality) : Value :=
  { v with cardinality := outer.wrap v.cardinality }

/-- The value as text, with the class by its index. -/
def display (v : Value) : String :=
  v.cardinality.word ++ " " ++
    match v.element with
    | .primitive p => p.word
    | .instance c => "class#" ++ toString c

end Value

/-- How the instances of a class are made. -/
inductive ClassKind
  | concrete
  /-- A base that only its derived classes have instances of. -/
  | abstract
  /-- One of several variants, told apart by a tag. -/
  | tagged
deriving DecidableEq, Repr, Inhabited

/-- What a class was made for. -/
inductive ClassOrigin
  | rule (id : RuleId)
  | node (id : NodeId)
  /-- An alternative without a class of its own under a polymorphic base. -/
  | synthesized (id : NodeId)
deriving DecidableEq, Repr, Inhabited

/-- One of the variants of a tagged class. -/
structure Variant where
  tag : String
  /-- The branch that the variant stands for. -/
  node : NodeId
  payload : Option FieldId
deriving DecidableEq, Repr, Inhabited

/-- A class of the model. -/
structure ClassModel where
  id : ClassId
  name : String
  /-- The name as the grammar has it. -/
  sourceName : String
  kind : ClassKind
  base : Option ClassId
  fields : List FieldId
  variants : List Variant
  key : Option FieldId
  origin : ClassOrigin
  span : Span
deriving DecidableEq, Repr, Inhabited

/-- A field of a class. -/
structure FieldModel where
  id : FieldId
  owner : ClassId
  name : String
  /-- The name as the grammar has it, if the grammar names the field. -/
  sourceName : Option String
  cardinality : Cardinality
  element : ElementType
  /-- The expressions that fill the field, in the order of the grammar. -/
  nodes : List NodeId
deriving DecidableEq, Repr, Inhabited

/-- What a rule makes of the text it matches. -/
inductive RuleRole
  /-- Every alternative builds an instance of the class. -/
  | builds (c : ClassId)
  /-- The alternatives build or pass on instances of classes derived from the base. -/
  | polymorphic (base : ClassId)
  /-- The alternatives are the variants of a tagged class. -/
  | tagged (c : ClassId)
  /-- The rule yields the one value in its body, or none. -/
  | passthrough
deriving DecidableEq, Repr, Inhabited

namespace RuleRole

/-- The class of the rule's instances. -/
def class? : RuleRole → Option ClassId
  | builds c | polymorphic c | tagged c => some c
  | passthrough => none

/-- The role as messages speak of it. -/
def word : RuleRole → String
  | builds _ => "class"
  | polymorphic _ => "polymorphic"
  | tagged _ => "union"
  | passthrough => "passthrough"

end RuleRole

/-- A rule of the model. -/
structure RuleModel where
  id : RuleId
  name : String
  /-- The nonterminal of the rule. -/
  symbol : String
  role : RuleRole
  value : Option Value
  span : Span
deriving DecidableEq, Repr, Inhabited

/-- What is known about some of the expressions of a grammar, by their numbers. -/
structure NodeTable (α : Type) where
  cells : Array (Option α)
deriving Repr, Inhabited

namespace NodeTable

variable {α : Type}

/-- Nothing known yet, with room for the numbers below `size`. -/
def empty (size : Nat) : NodeTable α := ⟨Array.replicate size none⟩

/-- What is known about an expression. -/
def get? (t : NodeTable α) (id : Nat) : Option α := (t.cells[id]?).join

/-- Records what is known about an expression, in place of what was known before. -/
def insert (t : NodeTable α) (id : Nat) (a : α) : NodeTable α :=
  if id < t.cells.size then ⟨t.cells.setIfInBounds id (some a)⟩
  else ⟨(t.cells ++ Array.replicate (id - t.cells.size) none).push (some a)⟩

/-- Everything recorded, in the order of the numbers. -/
def entries (t : NodeTable α) : List (Nat × α) :=
  t.cells.toList.zipIdx.filterMap fun cell => cell.1.map fun a => (cell.2, a)

@[simp] theorem get?_empty (size : Nat) (id : Nat) : (empty size : NodeTable α).get? id = none := by
  simp only [get?, empty, Array.getElem?_replicate]
  split <;> rfl

theorem get?_insert (t : NodeTable α) (id id' : Nat) (a : α) :
    (t.insert id a).get? id' = if id = id' then some a else t.get? id' := by
  unfold insert get?
  by_cases hid : id = id'
  · subst hid
    split
    · rename_i h; simp [h]
    · rename_i h
      have hsize : t.cells.size + (id - t.cells.size) = id := by omega
      rw [Array.getElem?_push]
      simp [hsize]
  · split
    · simp [hid]
    · rename_i h
      have hsize : t.cells.size + (id - t.cells.size) = id := by omega
      have hne : id' ≠ id := fun h => hid h.symm
      simp only [Array.getElem?_push, Array.size_append, Array.size_replicate, hsize, hne,
        if_false, Array.getElem?_append, Array.getElem?_replicate]
      by_cases hlt : id' < t.cells.size
      · simp [hlt]
      · simp only [hlt, if_false]
        rw [Array.getElem?_eq_none (by omega)]
        split <;> rfl

end NodeTable
end AnnotatedGrammar
