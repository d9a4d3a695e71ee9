import AnnotatedGrammar.Proofs.Coverage.Reached
import AnnotatedGrammar.Proofs.Model.WellFormed

/-!
# Where expressions stand

Whatever is reached lies in the body of a rule. Inside the content of a class a sequence, and
parentheses without markers of their own, stand for their parts; a production that builds the class
has these parts one behind the other in its body. So the place of an expression among the parts is
the place of its term in the body.
-/

namespace AnnotatedGrammar

/-! ## Sites -/

namespace Site

/-- The expressions of a site. -/
def exprs : Site → List Expr
  | .element e | .shape e | .bearer e _ | .body _ e _ | .sole _ e | .content _ e _ => [e]
  | .branches es | .choice _ es => es

/-- All of a site is inside the body of a rule. -/
def Inside (site : Site) (m : GrammarModel) : Prop :=
  ∃ rule ∈ m.grammar.rules, ∀ e ∈ site.exprs, e.preorder ⊆ rule.body.preorder

variable {site site' : Site} {m : GrammarModel}

theorem Inside.of_subset (h : site.Inside m)
    (hsub : ∀ x ∈ site'.exprs, ∃ e ∈ site.exprs, x.preorder ⊆ e.preorder) : site'.Inside m := by
  obtain ⟨rule, hrule, hinside⟩ := h
  refine ⟨rule, hrule, fun x hx => ?_⟩
  obtain ⟨e, he, hsubset⟩ := hsub x hx
  exact List.Subset.trans hsubset (hinside e he)

/-- A site with one expression, next to another one. -/
theorem Inside.single {e x : Expr} (h : site.Inside m) (hexprs : site'.exprs = [x])
    (he : e ∈ site.exprs) (hsub : x.preorder ⊆ e.preorder) : site'.Inside m := by
  refine h.of_subset fun y hy => ?_
  rw [hexprs] at hy
  exact ⟨e, he, List.mem_singleton.mp hy ▸ hsub⟩

theorem Inside.occurs {e : Expr} (h : site.Inside m) (he : e ∈ site.exprs) : m.Occurs e := by
  obtain ⟨rule, hrule, hinside⟩ := h
  exact ⟨rule, hrule, hinside e he e.self_mem_preorder⟩

end Site

namespace Expr

variable {e x : Expr} {branches : List Expr}

theorem preorder_subset_of_core {info : NodeInfo} (hcore : e.core = .alternation info branches)
    (hx : x ∈ branches) : x.preorder ⊆ e.preorder := by
  refine List.Subset.trans ?_ e.preorder_core_subset
  exact preorder_subset_of_child (e := e.core) (by rw [hcore]; exact hx)

theorem preorder_subset_of_classAlternatives (h : e.classAlternatives? = some branches)
    (hx : x ∈ branches) : x.preorder ⊆ e.preorder := by
  obtain ⟨info, hcore⟩ := core_of_classAlternatives h
  exact preorder_subset_of_core hcore hx

end Expr

variable {m : GrammarModel}

theorem GrammarModel.HasRule.mem {rule : RuleModel} {source : Rule} (h : m.HasRule rule source) :
    source ∈ m.grammar.rules :=
  Array.mem_toList_iff.mp (List.of_mem_zip h).2

/-- Whatever is reached lies in the body of a rule. -/
theorem GrammarModel.Reached.inside {site : Site} (h : m.Reached site) : site.Inside m := by
  have hself {e : Expr} : e.preorder ⊆ e.preorder := List.Subset.refl _
  induction h with
  | builds hrule => exact ⟨_, hrule.mem, List.forall_mem_singleton.mpr hself⟩
  | passthrough hrule => exact ⟨_, hrule.mem, List.forall_mem_singleton.mpr hself⟩
  | polymorphic hrule _ _ hcore =>
    exact ⟨_, hrule.mem, fun _ hx => Expr.preorder_subset_of_core hcore hx⟩
  | tagged hrule _ _ hcore =>
    exact ⟨_, hrule.mem, fun _ hx => Expr.preorder_subset_of_core hcore hx⟩
  | bearing _ _ _ _ ih => exact ih.single rfl List.mem_cons_self hself
  | shaped _ _ _ ih => exact ih.single rfl List.mem_cons_self hself
  | child _ _ hx ih => exact ih.single rfl List.mem_cons_self (Expr.preorder_subset_of_child hx)
  | base _ _ _ ih =>
    exact ih.of_subset fun x hx => ⟨_, List.mem_cons_self, Expr.preorder_subset_of_child hx⟩
  | choice _ _ _ ih =>
    exact ih.of_subset fun x hx => ⟨_, List.mem_cons_self, Expr.preorder_subset_of_child hx⟩
  | branch _ hx ih => exact ih.single rfl hx hself
  | derived _ hx _ _ ih => exact ih.single rfl hx (Expr.preorder_core_subset _)
  | referring _ hx _ _ ih => exact ih.single rfl hx hself
  | synthesized _ hx _ _ ih => exact ih.single rfl hx hself
  | sole _ ih => exact ih.single rfl List.mem_cons_self hself
  | abstract _ _ hcore ih =>
    refine ih.of_subset fun x hx => ⟨_, List.mem_cons_self, ?_⟩
    exact List.Subset.trans (Expr.preorder_subset_of_core hcore hx)
      (Expr.preorder_classContent_subset _)
  | concrete _ _ ih => exact ih.single rfl List.mem_cons_self (Expr.preorder_classContent_subset _)
  | single _ _ ih => exact ih.single rfl List.mem_cons_self hself
  | several _ halternatives hx ih =>
    exact ih.single rfl List.mem_cons_self
      (Expr.preorder_subset_of_classAlternatives halternatives hx)
  | part _ _ _ hx ih => exact ih.single rfl List.mem_cons_self (Expr.preorder_subset_of_child hx)
  | own _ _ ih => exact ih.single rfl List.mem_cons_self hself
  | carried _ _ ih => exact ih.single rfl List.mem_cons_self hself


/-! ## Parts -/

namespace Expr

/-- Whether an expression inside the content of a class counts as one, whatever it consists of. The
flag tells whether it carries the class. -/
def standsAlone (e : Expr) (isBearer : Bool) : Bool :=
  !isBearer && (e.hasMarker .skip || e.isFieldElement)

mutual

/-- What stands for an expression inside the content of a class, from left to right: the expression
itself, or what stands for its parts. -/
def parts (isBearer : Bool) : Expr → List Expr
  | sequence info items =>
    if (sequence info items).standsAlone isBearer then [sequence info items] else partsAll items
  | group info body =>
    if (group info body).standsAlone isBearer then [group info body] else body.parts false
  | e => [e]

/-- What stands for several expressions in a row. -/
def partsAll : List Expr → List Expr
  | [] => []
  | e :: rest => e.parts false ++ partsAll rest

end

/-- What is built from an expression has a value of another expression at a place: it is the one
among the parts there, or the expression is the operand of a quantifier whose field markers speak of
every match. -/
inductive PutsAt (whole e : Expr) : Expr → Nat → Prop
  | part {isBearer : Bool} {i : Nat} (hpart : (whole.parts isBearer)[i]? = some e) :
      PutsAt whole e e i
  | operand (hmarkers : e.carriesOnlyFieldMarkers = true) (hwhole : whole = e.quantifiedAtom) :
      PutsAt whole e whole 0

variable {e body : Expr} {isBearer : Bool} {info : NodeInfo} {items : List Expr}

theorem standsAlone_of_skip (h : (!isBearer && e.hasMarker .skip) = true) :
    e.standsAlone isBearer = true := by
  rw [standsAlone, Bool.and_or_distrib_left, h, Bool.true_or]

theorem standsAlone_of_field (h : (!isBearer && e.isFieldElement) = true) :
    e.standsAlone isBearer = true := by
  rw [standsAlone, Bool.and_or_distrib_left, h, Bool.or_true]

theorem standsAlone_eq_false (hskip : ¬(!isBearer && e.hasMarker .skip) = true)
    (hfield : ¬(!isBearer && e.isFieldElement) = true) : e.standsAlone isBearer = false := by
  rw [standsAlone, Bool.and_or_distrib_left, Bool.eq_false_of_not_eq_true hskip,
    Bool.eq_false_of_not_eq_true hfield, Bool.or_false]

theorem parts_of_single (hsequence : ∀ info items, e ≠ sequence info items)
    (hgroup : ∀ info body, e ≠ group info body) : e.parts isBearer = [e] := by
  rw [parts]
  · exact hsequence
  · exact hgroup

theorem parts_of_standsAlone (h : e.standsAlone isBearer = true) : e.parts isBearer = [e] := by
  cases e with
  | sequence | group => rw [parts, if_pos h]
  | terminal | reference | alternation | optional | repeated => exact parts_of_single nofun nofun

theorem parts_sequence (h : (sequence info items).standsAlone isBearer = false) :
    (sequence info items).parts isBearer = partsAll items := by
  rw [parts, if_neg (Bool.eq_false_iff.mp h)]

theorem parts_group (h : (group info body).standsAlone isBearer = false) :
    (group info body).parts isBearer = body.parts false := by
  rw [parts, if_neg (Bool.eq_false_iff.mp h)]

/-- An expression that stands for one value is its only part. -/
theorem IsValue.parts_eq (h : e.IsValue isBearer) : e.parts isBearer = [e] := by
  by_cases hfield : (!isBearer && e.isFieldElement) = true
  · exact parts_of_standsAlone (standsAlone_of_field hfield)
  · have hunit := h.single.resolve_left hfield
    apply parts_of_single
    · rintro info items rfl
      exact hunit
    · rintro info body rfl
      exact hunit

end Expr

end AnnotatedGrammar
