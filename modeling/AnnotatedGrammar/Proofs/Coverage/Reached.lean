import AnnotatedGrammar.Proofs.Analysis.Footprint
import AnnotatedGrammar.Proofs.Analysis.Settled
import AnnotatedGrammar.Proofs.Coverage.Changes

/-!
# What the walks reach

A site is an expression of a rule body together with what a walk takes it for. The sites that are
reached are described here from the rules on, by what the model says in the end. Nothing is made
anywhere else: a class is made where it is carried, and a field is filled from the content of its
class.
-/

namespace AnnotatedGrammar

/-- An expression, or several, with what a walk takes it for. -/
inductive Site
  /-- One element with a value. -/
  | element (e : Expr)
  /-- A shape, without regard to a class of its own. -/
  | shape (e : Expr)
  /-- The alternatives under a base. -/
  | branches (branches : List Expr)
  /-- The alternatives of a tagged class. -/
  | choice (c : ClassId) (branches : List Expr)
  /-- The carrier of a class. -/
  | bearer (e : Expr) (c : ClassId)
  /-- The whole content of a class. -/
  | body (c : ClassId) (content : Expr) (isBearer : Bool)
  /-- An alternative under a base that is the whole content of a class. -/
  | sole (c : ClassId) (branch : Expr)
  /-- An expression inside the content of a class; the flag tells whether it carries the class. -/
  | content (c : ClassId) (e : Expr) (isBearer : Bool)

namespace Expr

/-- Inside the content of a class, the expression stands for one value. -/
structure IsValue (e : Expr) (isBearer : Bool) : Prop where
  kept : ¬(!isBearer && e.hasMarker .skip) = true
  single : (!isBearer && e.isFieldElement) = true ∨ e.IsUnit

/-- Inside the content of a class, the expression stands for its parts. -/
structure IsComposed (e : Expr) (isBearer : Bool) : Prop where
  kept : ¬(!isBearer && e.hasMarker .skip) = true
  noField : ¬(!isBearer && e.isFieldElement) = true
  noUnit : ¬e.IsUnit

end Expr

namespace GrammarModel

variable (m : GrammarModel)

/-- A rule of the model, with the rule of the grammar that it stands for. -/
def HasRule (rule : RuleModel) (source : Rule) : Prop :=
  (rule, source) ∈ m.rules.toList.zip m.grammar.rules.toList

/-- A walk through the rules of the grammar comes to a site. -/
inductive Reached : Site → Prop
  | builds {rule : RuleModel} {source : Rule} {c : ClassId} (hrule : m.HasRule rule source)
      (hrole : rule.role = .builds c) : Reached (.body c source.body false)
  | polymorphic {rule : RuleModel} {source : Rule} {c : ClassId} {info : NodeInfo}
      {branches : List Expr} (hrule : m.HasRule rule source) (hrole : rule.role = .polymorphic c)
      (hkind : Settled.HasKind m c .abstract)
      (hcore : source.body.core = .alternation info branches) :
      Reached (.branches branches)
  | tagged {rule : RuleModel} {source : Rule} {c : ClassId} {info : NodeInfo}
      {branches : List Expr} (hrule : m.HasRule rule source) (hrole : rule.role = .tagged c)
      (hkind : Settled.HasKind m c .tagged)
      (hcore : source.body.core = .alternation info branches) :
      Reached (.choice c branches)
  | passthrough {rule : RuleModel} {source : Rule} (hrule : m.HasRule rule source)
      (hrole : rule.role = .passthrough) : Reached (.element source.body)
  | bearing {e : Expr} {c : ClassId} (h : Reached (.element e)) (hskip : ¬e.hasMarker .skip = true)
      (hmarker : e.hasMarker .classOf = true) (hclass : m.nodeClasses.get? e.id = some c) :
      Reached (.bearer e c)
  | shaped {e : Expr} (h : Reached (.element e)) (hskip : ¬e.hasMarker .skip = true)
      (hmarker : ¬e.hasMarker .classOf = true) : Reached (.shape e)
  | child {e x : Expr} (h : Reached (.shape e)) (halternation : e.isAlternation = false)
      (hx : x ∈ e.children) : Reached (.element x)
  | base {info : NodeInfo} {branches : List Expr} {c : ClassId}
      (h : Reached (.shape (.alternation info branches)))
      (hclass : m.nodeClasses.get? info.id = some c) (hkind : Settled.HasKind m c .abstract) :
      Reached (.branches branches)
  | choice {info : NodeInfo} {branches : List Expr} {c : ClassId}
      (h : Reached (.shape (.alternation info branches)))
      (hclass : m.nodeClasses.get? info.id = some c) (hkind : Settled.HasKind m c .tagged) :
      Reached (.choice c branches)
  | branch {branches : List Expr} {c : ClassId} {x : Expr} (h : Reached (.choice c branches))
      (hx : x ∈ branches) : Reached (.element x)
  | derived {branches : List Expr} {x : Expr} {c : ClassId} (h : Reached (.branches branches))
      (hx : x ∈ branches) (hmarker : x.core.hasMarker .classOf = true)
      (hclass : m.nodeClasses.get? x.core.id = some c) : Reached (.bearer x.core c)
  | referring {branches : List Expr} {x : Expr} {info : NodeInfo} {name : String}
      (h : Reached (.branches branches)) (hx : x ∈ branches)
      (hmarker : ¬x.core.hasMarker .classOf = true) (hcore : x.core = .reference info name) :
      Reached (.element x)
  | synthesized {branches : List Expr} {x : Expr} {c : ClassId} (h : Reached (.branches branches))
      (hx : x ∈ branches) (hmarker : ¬x.core.hasMarker .classOf = true)
      (hclass : m.nodeClasses.get? x.id = some c) : Reached (.sole c x)
  | sole {c : ClassId} {x : Expr} (h : Reached (.sole c x)) : Reached (.content c x false)
  | abstract {e : Expr} {c : ClassId} {info : NodeInfo} {branches : List Expr}
      (h : Reached (.bearer e c)) (hkind : Settled.HasKind m c .abstract)
      (hcore : e.classContent.1.core = .alternation info branches) : Reached (.branches branches)
  | concrete {e : Expr} {c : ClassId} (h : Reached (.bearer e c))
      (hkind : Settled.HasKind m c .concrete) :
      Reached (.body c e.classContent.1 e.classContent.2)
  | single {c : ClassId} {content : Expr} {isBearer : Bool}
      (h : Reached (.body c content isBearer)) (halternatives : content.classAlternatives? = none) :
      Reached (.content c content isBearer)
  | several {c : ClassId} {content x : Expr} {isBearer : Bool} {branches : List Expr}
      (h : Reached (.body c content isBearer))
      (halternatives : content.classAlternatives? = some branches) (hx : x ∈ branches) :
      Reached (.content c x false)
  | part {c : ClassId} {e x : Expr} {isBearer : Bool} (h : Reached (.content c e isBearer))
      (hcomposed : e.IsComposed isBearer) (hfills : m.fillsFieldsOf e c = true)
      (hx : x ∈ e.children) : Reached (.content c x false)
  | own {c : ClassId} {e : Expr} (h : Reached (.content c e false)) (hvalue : e.IsValue false) :
      Reached (.element e)
  | carried {c : ClassId} {e : Expr} (h : Reached (.content c e true)) (hvalue : e.IsValue true) :
      Reached (.shape e)

/-- A walk comes to the body of a rule, taken for what the role of the rule makes of it. -/
def RuleReached : RuleRole → Expr → Prop
  | .builds c, body => m.Reached (.body c body false)
  | .polymorphic _, body => ∀ info branches, body.core = .alternation info branches →
      m.Reached (.branches branches)
  | .tagged c, body => ∀ info branches, body.core = .alternation info branches →
      m.Reached (.choice c branches)
  | .passthrough, body => m.Reached (.element body)

/-- A walk comes to a class where it is carried. -/
structure ClassReached (c : ClassId) : Prop where
  concrete : Settled.HasKind m c .concrete →
    (∃ content isBearer, m.Reached (.body c content isBearer)) ∨ ∃ x, m.Reached (.sole c x)
  tagged : Settled.HasKind m c .tagged → ∃ branches, m.Reached (.choice c branches)

/-- A walk comes to an expression as to one value inside the content of a class. -/
def ValueReached (c : ClassId) (node : NodeId) : Prop :=
  ∃ e isBearer, e.id = node ∧ e.IsValue isBearer ∧ m.Reached (.content c e isBearer)

/-- An expression fills a field of a class that has instances. -/
def Fills (f : FieldId) (c : ClassId) (node : NodeId) : Prop :=
  Settled.HasKind m c .concrete ∧ ∃ field, m.field? f = some field ∧ field.owner = c ∧
    node ∈ field.nodes

/-- A walk comes to whatever was made between two drafts. -/
structure AllReached (d d' : Draft) : Prop where
  classes : ∀ c, d.classes.size ≤ c → c < d'.classes.size → m.ClassReached c
  fills : ∀ f c node, d'.Fills f c node → ¬d.Fills f c node → m.ValueReached c node

variable {m} {d d₁ d' : Draft}

theorem AllReached.trans (h : m.AllReached d d₁) (h' : m.AllReached d₁ d') : m.AllReached d d' where
  classes c hge hlt := by
    by_cases hbetween : c < d₁.classes.size
    · exact h.classes c hge hbetween
    · exact h'.classes c (Nat.not_lt.mp hbetween) hlt
  fills f c node hfills hnew := by
    by_cases hbetween : d₁.Fills f c node
    · exact h.fills f c node hbetween hnew
    · exact h'.fills f c node hfills hbetween

theorem AllReached.of_calm (h : d.Calm d') : m.AllReached d d' where
  classes _ hge hlt := absurd (h.classes_size ▸ hlt) (Nat.not_lt.mpr hge)
  fills _ _ _ hfills hnew := absurd (h.fills_of hfills) hnew

end GrammarModel
end AnnotatedGrammar
