import Mathlib.Data.List.Nodup
import AnnotatedGrammar.Model.Shape
import AnnotatedGrammar.Proofs.Syntax.Inside

/-!
# The numbers of a grammar

Numbering goes through the expressions of a grammar in the order of the text. Afterwards every
expression has a number of its own, and expressions differ from those that were parsed in their
numbers alone.
-/

namespace AnnotatedGrammar

namespace Expr

/-- The numbers of several expressions and of everything inside them. -/
def idsAll (es : List Expr) : List NodeId := (preorderAll es).map (·.id)

/-- The numbers of everything inside an expression, itself excluded. -/
def innerIds (e : Expr) : List NodeId := idsAll e.children

/-- The numbers of an expression and of everything inside it. -/
def ids (e : Expr) : List NodeId := e.preorder.map (·.id)

@[simp] theorem idsAll_nil : idsAll [] = [] := rfl

@[simp] theorem idsAll_cons (e : Expr) (rest : List Expr) :
    idsAll (e :: rest) = e.ids ++ idsAll rest := by
  simp [idsAll, ids, preorderAll]

theorem ids_eq (e : Expr) : e.ids = e.id :: e.innerIds := by
  cases e <;> simp [ids, innerIds, idsAll, preorder, preorderAll, children, id, info]

theorem id_mem_ids (e : Expr) : e.id ∈ e.ids := by
  rw [ids_eq]
  exact List.mem_cons_self

theorem innerIds_subset (e : Expr) : e.innerIds ⊆ e.ids := by
  rw [ids_eq]
  exact List.subset_cons_self _ _

theorem innerIds_sublist (e : Expr) : e.innerIds.Sublist e.ids := by
  rw [ids_eq]
  exact List.sublist_cons_self _ _

@[simp] theorem innerIds_sequence (info : NodeInfo) (items : List Expr) :
    (sequence info items).innerIds = idsAll items := rfl

@[simp] theorem innerIds_alternation (info : NodeInfo) (branches : List Expr) :
    (alternation info branches).innerIds = idsAll branches := rfl

@[simp] theorem innerIds_optional (info : NodeInfo) (body : Expr) :
    (optional info body).innerIds = body.ids := by
  simp [innerIds, children]

@[simp] theorem innerIds_repeated (info : NodeInfo) (body : Expr) (kind : Repetition) :
    (repeated info body kind).innerIds = body.ids := by
  simp [innerIds, children]

@[simp] theorem innerIds_group (info : NodeInfo) (body : Expr) :
    (group info body).innerIds = body.ids := by
  simp [innerIds, children]

theorem ids_core_sublist (e : Expr) : e.core.ids.Sublist e.ids := by
  unfold core
  fun_induction stripGroups e with
  | case1 => exact List.Sublist.refl _
  | case2 info body =>
    rename_i ih
    rw [ids_eq (group info body), innerIds_group]
    exact ih.cons _
  | case3 => exact List.Sublist.refl _

theorem innerIds_core_sublist (e : Expr) : e.core.innerIds.Sublist e.innerIds := by
  unfold core
  fun_induction stripGroups e with
  | case1 => exact List.Sublist.refl _
  | case2 info body =>
    rename_i ih
    rw [innerIds_group]
    exact ih.trans body.innerIds_sublist
  | case3 => exact List.Sublist.refl _

theorem innerIds_classContent_sublist (e : Expr) :
    e.classContent.1.innerIds.Sublist e.innerIds := by
  cases e with
  | group info body =>
    rw [innerIds_group]
    exact body.innerIds_sublist
  | _ => exact List.Sublist.refl _

theorem ids_absorb_sublist (quantifier : Quantifier) (carrier : Option Expr) (e : Expr) :
    (e.absorb quantifier carrier).atom.ids.Sublist e.ids := by
  fun_induction absorb quantifier carrier e with
  | case1 | case3 | case5 =>
    rename_i ih
    exact ih.trans (List.sublist_cons_self _ _)
  | case2 | case4 | case6 | case7 => exact List.Sublist.refl _

theorem innerIds_absorb_sublist (quantifier : Quantifier) (carrier : Option Expr) (e : Expr) :
    (e.absorb quantifier carrier).atom.innerIds.Sublist e.ids :=
  (innerIds_sublist _).trans (ids_absorb_sublist quantifier carrier e)

theorem idsAll_classAlternatives_sublist {content : Expr} {branches : List Expr}
    (h : content.classAlternatives? = some branches) :
    (idsAll branches).Sublist content.innerIds := by
  have hcore := content.innerIds_core_sublist
  unfold classAlternatives? at h
  split at h
  · rename_i heq
    rw [heq] at hcore
    obtain rfl := Option.some.inj h
    exact hcore
  · cases h

/-! ## Numbering -/

/-- Some numbers are those from one number up to another one. -/
def Spans (ids : List NodeId) (first after : Nat) : Prop :=
  first ≤ after ∧ ids = List.range' first (after - first)

theorem Spans.nil (next : Nat) : Spans [] next next := by
  simp [Spans]

theorem Spans.cons {ids : List NodeId} {next after : Nat} (h : Spans ids (next + 1) after) :
    Spans (next :: ids) next after := by
  obtain ⟨hle, rfl⟩ := h
  have hlength : after - next = (after - (next + 1)) + 1 := by omega
  refine ⟨by omega, ?_⟩
  rw [hlength, List.range'_succ]

theorem Spans.append {ids ids' : List NodeId} {next between after : Nat}
    (h : Spans ids next between) (h' : Spans ids' between after) :
    Spans (ids ++ ids') next after := by
  obtain ⟨hle, rfl⟩ := h
  obtain ⟨hle', rfl⟩ := h'
  have hlength : after - next = (between - next) + (after - between) := by omega
  have hstart : next + (between - next) = between := by omega
  refine ⟨Nat.le_trans hle hle', ?_⟩
  rw [hlength, ← List.range'_append_1, hstart]

/-- Numbering gives consecutive numbers. -/
theorem ids_numbered :
    (∀ (next : NodeId) (e : Expr), Spans (numbered next e).1.ids next (numbered next e).2) ∧
      ∀ (next : NodeId) (es : List Expr),
        Spans (idsAll (numberedAll next es).1) next (numberedAll next es).2 := by
  apply numbered.mutual_induct
  case case1 =>
    intro next info t
    rw [numbered]
    exact (Spans.nil _).cons
  case case2 =>
    intro next info name
    rw [numbered]
    exact (Spans.nil _).cons
  case case3 | case4 =>
    intro next info items renumbered after heq ih
    rw [heq] at ih
    rw [numbered, heq]
    dsimp only
    rw [ids_eq]
    exact ih.cons
  case case5 | case7 =>
    intro next info body renumbered after heq ih
    rw [heq] at ih
    rw [numbered, heq]
    dsimp only
    rw [ids_eq]
    simp only [innerIds_optional, innerIds_group]
    exact ih.cons
  case case6 =>
    intro next info body kind renumbered after heq ih
    rw [heq] at ih
    rw [numbered, heq]
    dsimp only
    rw [ids_eq]
    rw [innerIds_repeated]
    exact ih.cons
  case case8 =>
    intro next
    rw [numberedAll]
    exact Spans.nil next
  case case9 =>
    intro next e rest renumbered between heq others after heq' ih ih'
    rw [heq] at ih
    rw [heq'] at ih'
    rw [numberedAll, heq]
    dsimp only
    rw [heq']
    dsimp only
    rw [idsAll_cons]
    exact ih.append ih'

/-- Everything in a numbered expression is what numbering makes of something in the expression. -/
theorem mem_preorder_numbered :
    (∀ (next : NodeId) (e : Expr), ∀ y ∈ (numbered next e).1.preorder,
      ∃ x ∈ e.preorder, ∃ id, y = (numbered id x).1) ∧
    ∀ (next : NodeId) (es : List Expr), ∀ y ∈ preorderAll (numberedAll next es).1,
      ∃ x ∈ preorderAll es, ∃ id, y = (numbered id x).1 := by
  have hcons {self self' : Expr} {inner inner' : List Expr}
      (hself : ∃ id, self' = (numbered id self).1)
      (hinner : ∀ y ∈ inner', ∃ x ∈ inner, ∃ id, y = (numbered id x).1) :
      ∀ y ∈ self' :: inner', ∃ x ∈ self :: inner, ∃ id, y = (numbered id x).1 := by
    intro y hy
    rcases List.mem_cons.mp hy with rfl | hy
    · exact ⟨self, List.mem_cons_self, hself⟩
    · obtain ⟨x, hx, hnumbered⟩ := hinner y hy
      exact ⟨x, List.mem_cons_of_mem _ hx, hnumbered⟩
  apply numbered.mutual_induct
  case case1 | case2 =>
    intro next info _
    exact hcons ⟨next, rfl⟩ (by simp)
  case case3 | case4 =>
    intro next info items renumbered after heq ih
    rw [heq] at ih
    rw [numbered, heq]
    exact hcons ⟨next, by rw [numbered, heq]⟩ ih
  case case5 | case7 =>
    intro next info body renumbered after heq ih
    rw [heq] at ih
    rw [numbered, heq]
    exact hcons ⟨next, by rw [numbered, heq]⟩ ih
  case case6 =>
    intro next info body kind renumbered after heq ih
    rw [heq] at ih
    rw [numbered, heq]
    exact hcons ⟨next, by rw [numbered, heq]⟩ ih
  case case8 =>
    intro next y hy
    simp [numberedAll, preorderAll] at hy
  case case9 =>
    intro next e rest renumbered between heq others after heq' ih ih' y hy
    rw [numberedAll, heq] at hy
    dsimp only at hy
    rw [heq'] at hy
    dsimp only at hy
    rw [preorderAll, List.mem_append] at hy
    rw [heq] at ih
    rw [heq'] at ih'
    rcases hy with hy | hy
    · obtain ⟨x, hx, hnumbered⟩ := ih y hy
      exact ⟨x, List.mem_append_left _ hx, hnumbered⟩
    · obtain ⟨x, hx, hnumbered⟩ := ih' y hy
      exact ⟨x, List.mem_append_right _ hx, hnumbered⟩

end Expr

/-- What numbering the body of a rule leaves alone stays as it was for all rules. -/
theorem Rule.map_numberedAll {β : Type} (f : Rule → β)
    (hf : ∀ (rule : Rule) (next : NodeId),
      f { rule with body := (rule.body.numbered next).1 } = f rule)
    (finished rules : List Rule) (next : NodeId) :
    (numberedAll finished next rules).1.map f = finished.reverse.map f ++ rules.map f := by
  induction rules generalizing finished next with
  | nil => exact (List.append_nil _).symm
  | cons rule rest ih =>
    rw [numberedAll]
    dsimp only
    rw [ih, List.reverse_cons, List.map_append, List.map_singleton, hf, List.append_assoc,
      List.singleton_append, List.map_cons]

end AnnotatedGrammar
