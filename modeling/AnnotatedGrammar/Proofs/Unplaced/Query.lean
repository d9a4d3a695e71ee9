import AnnotatedGrammar.Production.Check
import AnnotatedGrammar.Proofs.Unplaced.Model

/-!
# Questions to a model without places

A model without places answers every question as the model does, apart from the places.
-/

namespace AnnotatedGrammar

namespace GrammarModel

variable (m : GrammarModel) (symbols : SymbolTable)

@[simp] theorem rule?_unplaced (id : RuleId) :
    (m.unplaced symbols).rule? id = (m.rule? id).map RuleModel.unplaced :=
  Array.getElem?_map

@[simp] theorem class?_unplaced (c : ClassId) :
    (m.unplaced symbols).class? c = (m.class? c).map ClassModel.unplaced :=
  Array.getElem?_map

@[simp] theorem field?_unplaced (f : FieldId) : (m.unplaced symbols).field? f = m.field? f := rfl

@[simp] theorem className_unplaced (c : ClassId) :
    (m.unplaced symbols).className c = m.className c := by
  rw [className, class?_unplaced, className]
  cases m.class? c <;> rfl

@[simp] theorem fieldsOf_unplaced (c : ClassId) :
    (m.unplaced symbols).fieldsOf c = m.fieldsOf c := by
  rw [fieldsOf, class?_unplaced, fieldsOf]
  cases m.class? c <;> rfl

@[simp] theorem fieldFor?_unplaced (c : ClassId) (node : NodeId) :
    (m.unplaced symbols).fieldFor? c node = m.fieldFor? c node := by
  rw [fieldFor?, fieldsOf_unplaced, fieldFor?]

@[simp] theorem nodePath_unplaced (node : NodeId) :
    (m.unplaced symbols).nodePath node = m.nodePath node := rfl

@[simp] theorem fillsFieldsOf_unplaced (e : Expr) (c : ClassId) :
    (m.unplaced symbols).fillsFieldsOf e.unplaced c = m.fillsFieldsOf e c := by
  simp only [fillsFieldsOf, Expr.preorder_unplaced, List.any_map, Function.comp_def,
    Expr.id_unplaced]
  rfl

variable {m symbols}

/-- The values of expressions are the same with and without places. -/
theorem values_unplaced (hsymbols : m.symbols.Agrees symbols) :
    (∀ e, (m.unplaced symbols).valueOf? e.unplaced = m.valueOf? e) ∧
      (∀ e, (m.unplaced symbols).shapeValue? e.unplaced = m.shapeValue? e) ∧
      ∀ es, (m.unplaced symbols).valuesOf (es.map Expr.unplaced) = m.valuesOf es := by
  have hvalues : (m.unplaced symbols).nodeValues = m.nodeValues := rfl
  have hclasses : (m.unplaced symbols).nodeClasses = m.nodeClasses := rfl
  have hresolve (name : String) :
      (m.unplaced symbols).symbols.resolve? name = m.symbols.resolve? name := hsymbols name
  apply valueOf?.mutual_induct m
  case case1 =>
    intro e recorded hrecorded
    rw [valueOf?, valueOf?, Expr.id_unplaced, hvalues, hrecorded]
  case case2 =>
    intro e hrecorded hskip
    simp only [valueOf?, Expr.id_unplaced, hvalues, hrecorded, Expr.hasMarker_unplaced, hskip,
      if_true]
  case case3 =>
    intro e hrecorded hskip hclass
    simp only [valueOf?, Expr.id_unplaced, hvalues, hclasses, hrecorded, Expr.hasMarker_unplaced,
      if_neg hskip, hclass, if_true]
  case case4 =>
    intro e hrecorded hskip hclass hshape
    simp only [valueOf?, Expr.id_unplaced, hvalues, hrecorded, Expr.hasMarker_unplaced,
      if_neg hskip, if_neg hclass, hshape]
  case case5 | case6 =>
    intro info text _
    have hfield := Expr.hasMarker_unplaced (.terminal info (.literal text)) .field
    rw [Expr.unplaced] at hfield ⊢
    rw [shapeValue?, shapeValue?, hfield]
  case case7 =>
    intro info p
    rw [Expr.unplaced, shapeValue?, shapeValue?]
  case case8 | case10 =>
    intros
    rw [Expr.unplaced, shapeValue?, shapeValue?, hresolve]
    simp_all only
  case case9 =>
    intro info name id hrule
    rw [Expr.unplaced, shapeValue?, shapeValue?, hresolve, hrule]
    simp only [rule?_unplaced, Option.bind_map]
    rfl
  case case11 =>
    intro info body hbody
    rw [Expr.unplaced, shapeValue?, shapeValue?, hbody]
  case case12 | case13 =>
    intros
    rw [Expr.unplaced, Expr.unplacedAll_eq_map, shapeValue?, shapeValue?]
    simp_all only
  case case14 =>
    intro info branches
    rw [Expr.unplaced, shapeValue?, shapeValue?, hclasses]
    rfl
  case case15 =>
    intro info body hbody
    rw [Expr.unplaced, shapeValue?, shapeValue?, hbody]
  case case16 =>
    intro info body kind hbody
    rw [Expr.unplaced, shapeValue?, shapeValue?, hbody]
  case case17 =>
    rw [List.map_nil, valuesOf, valuesOf]
  case case18 =>
    intro e rest he hrest
    rw [List.map_cons, valuesOf, valuesOf, he, hrest]

end GrammarModel
end AnnotatedGrammar
