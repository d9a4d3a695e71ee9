import AnnotatedGrammar.Model.Query
import AnnotatedGrammar.Production.Quantifier

/-!
# Inside an expression

What holds of everything inside an expression also holds of everything inside its parts: the items,
branches and operands, the core inside its parentheses, the content of a class, and the operand of
collapsed quantifiers.
-/

namespace AnnotatedGrammar.Expr

theorem mem_preorderAll {x : Expr} {es : List Expr} :
    x ∈ preorderAll es ↔ ∃ e ∈ es, x ∈ e.preorder := by
  induction es with
  | nil => simp [preorderAll]
  | cons e rest ih => simp [preorderAll, ih]

theorem self_mem_preorder (e : Expr) : e ∈ e.preorder := by
  cases e <;> simp [preorder]

@[simp] theorem info_withInfo (e : Expr) (info : NodeInfo) : (e.withInfo info).info = info := by
  cases e <;> rfl

@[simp] theorem children_withInfo (e : Expr) (info : NodeInfo) :
    (e.withInfo info).children = e.children := by
  cases e <;> rfl

theorem preorder_core_subset (e : Expr) : e.core.preorder ⊆ e.preorder := by
  unfold core
  fun_induction stripGroups e with
  | case1 => exact List.Subset.refl _
  | case2 =>
    rename_i ih
    exact List.Subset.trans ih (List.subset_cons_self _ _)
  | case3 => exact List.Subset.refl _

theorem preorder_classContent_subset (e : Expr) : e.classContent.1.preorder ⊆ e.preorder := by
  cases e with
  | group info body => exact List.subset_cons_self _ _
  | _ => exact List.Subset.refl _

theorem preorder_absorb_subset (quantifier : Quantifier) (carrier : Option Expr) (e : Expr) :
    (e.absorb quantifier carrier).atom.preorder ⊆ e.preorder := by
  fun_induction absorb quantifier carrier e with
  | case1 | case3 | case5 =>
    rename_i ih
    exact List.Subset.trans ih (List.subset_cons_self _ _)
  | case2 | case4 | case6 | case7 => exact List.Subset.refl _

/-- Everything inside an expression, itself included, has a property. -/
def Throughout (P : Expr → Prop) (e : Expr) : Prop := ∀ x ∈ e.preorder, P x

theorem throughout_iff {P : Expr → Prop} {e : Expr} :
    e.Throughout P ↔ P e ∧ ∀ child ∈ e.children, child.Throughout P := by
  cases e <;>
    simp only [Throughout, preorder, children, List.forall_mem_cons, mem_preorderAll,
      List.mem_singleton, forall_eq, List.not_mem_nil, false_imp_iff, implies_true, and_true]
  all_goals
    refine and_congr_right fun _ => ⟨fun h child hchild x hx => h x ⟨child, hchild, hx⟩, ?_⟩
    rintro h x ⟨child, hchild, hx⟩
    exact h child hchild x hx

theorem preorder_subset_of_child {e x : Expr} (hx : x ∈ e.children) :
    x.preorder ⊆ e.preorder :=
  fun y hy => (throughout_iff (P := (· ∈ e.preorder)).mp fun _ h => h).2 x hx y hy

namespace Throughout

variable {P Q : Expr → Prop} {e body : Expr} {info : NodeInfo} {items branches : List Expr}
  {kind : Repetition}

theorem self (h : e.Throughout P) : P e := h e e.self_mem_preorder

theorem imp (h : e.Throughout P) (hPQ : ∀ x, P x → Q x) : e.Throughout Q :=
  fun x hx => hPQ x (h x hx)

theorem of_subset {e' : Expr} (h : e.Throughout P) (hsub : e'.preorder ⊆ e.preorder) :
    e'.Throughout P :=
  fun x hx => h x (hsub hx)

theorem ofSequence (h : (sequence info items).Throughout P) : ∀ e ∈ items, e.Throughout P :=
  fun e he x hx => h x (List.mem_cons_of_mem _ (mem_preorderAll.mpr ⟨e, he, hx⟩))

theorem ofAlternation (h : (alternation info branches).Throughout P) :
    ∀ e ∈ branches, e.Throughout P :=
  fun e he x hx => h x (List.mem_cons_of_mem _ (mem_preorderAll.mpr ⟨e, he, hx⟩))

theorem ofGroup (h : (group info body).Throughout P) : body.Throughout P :=
  h.of_subset (List.subset_cons_self _ _)

theorem ofOptional (h : (optional info body).Throughout P) : body.Throughout P :=
  h.of_subset (List.subset_cons_self _ _)

theorem ofRepeated (h : (repeated info body kind).Throughout P) : body.Throughout P :=
  h.of_subset (List.subset_cons_self _ _)

theorem core (h : e.Throughout P) : e.core.Throughout P := h.of_subset e.preorder_core_subset

theorem classContent (h : e.Throughout P) : e.classContent.1.Throughout P :=
  h.of_subset e.preorder_classContent_subset

theorem absorb (h : e.Throughout P) (quantifier : Quantifier) (carrier : Option Expr) :
    (e.absorb quantifier carrier).atom.Throughout P :=
  h.of_subset (preorder_absorb_subset quantifier carrier e)

theorem classAlternatives (h : e.Throughout P) (hbranches : e.classAlternatives? = some branches) :
    ∀ b ∈ branches, b.Throughout P := by
  have hcore := h.core
  unfold classAlternatives? at hbranches
  split at hbranches
  · rename_i heq
    rw [heq] at hcore
    obtain rfl := Option.some.inj hbranches
    exact hcore.ofAlternation
  · cases hbranches

end Throughout

end AnnotatedGrammar.Expr
