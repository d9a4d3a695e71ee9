import AnnotatedGrammar.Model.Draft
import AnnotatedGrammar.Proofs.Analysis.Elements

/-!
# The rules whose values an expression depends on

While an expression is analyzed the values of the rules that it refers to are asked for, wherever
the references stand: inside a class as well as outside. Only what `@skip` stands on is passed over.
-/

namespace AnnotatedGrammar

namespace Expr

/-- Nothing inside the expression is analyzed. A branch of a base that carries a class of its own
is analyzed in spite of `@skip`. -/
def isPassedOver (isBranch : Bool) (e : Expr) : Bool :=
  e.hasMarker .skip && !(isBranch && e.hasMarker .classOf)

mutual

/-- The rules that an expression asks for, in order; `isBranch` tells whether the expression is a
branch of a base, or what parentheses without markers make of one. -/
def reads (sc : Scope) (isBranch : Bool) (e : Expr) : List RuleId :=
  if e.isPassedOver isBranch then []
  else
    match e with
    | terminal _ _ => []
    | reference _ name => (sc.symbols.ruleId? name).toList
    | sequence _ items => readsAll sc false items
    | alternation info branches =>
      readsAll sc (sc.isPolymorphic (alternation info branches)) branches
    | optional _ body | repeated _ body _ => reads sc false body
    | group info body => reads sc (isBranch && !(group info body).keepsGroup) body

/-- The rules that several expressions ask for, in order. -/
def readsAll (sc : Scope) (areBranches : Bool) : List Expr → List RuleId
  | [] => []
  | e :: rest => reads sc areBranches e ++ readsAll sc areBranches rest

end

/-- The rules that an expression asks for, in order, if `@skip` on the expression itself is left out
of account. -/
def innerReads (sc : Scope) : Expr → List RuleId
  | terminal _ _ => []
  | reference _ name => (sc.symbols.ruleId? name).toList
  | sequence _ items => readsAll sc false items
  | alternation info branches => readsAll sc (sc.isPolymorphic (alternation info branches)) branches
  | optional _ body | repeated _ body _ | group _ body => reads sc false body

variable {sc : Scope} {e body : Expr} {info : NodeInfo} {branches : List Expr}

theorem reads_of_skip (hskip : e.hasMarker .skip = true) : e.reads sc false = [] := by
  have hpassed : e.isPassedOver false = true := by simp [isPassedOver, hskip]
  rw [reads.eq_def, if_pos hpassed]

theorem reads_of_not_skip (hskip : ¬e.hasMarker .skip = true) :
    e.reads sc false = e.innerReads sc := by
  have hpassed : ¬e.isPassedOver false = true := by simp [isPassedOver, hskip]
  rw [reads.eq_def, if_neg hpassed]
  cases e <;> rfl

/-- A branch that carries a class of its own is analyzed in spite of `@skip`. -/
theorem reads_of_carried (hmarker : e.hasMarker .classOf = true) :
    e.reads sc true = e.innerReads sc := by
  have hpassed : ¬e.isPassedOver true = true := by simp [isPassedOver, hmarker]
  rw [reads.eq_def, if_neg hpassed]
  cases e with
  | group info body =>
    have hkeeps : (group info body).keepsGroup = true := by simp [keepsGroup, hmarker]
    simp only [hkeeps, innerReads, Bool.not_true, Bool.and_false]
  | _ => rfl

/-- Parentheses without markers that matter here are transparent. -/
theorem reads_group_of_not_keepsGroup (hkeeps : ¬(group info body).keepsGroup = true)
    (isBranch : Bool) : (group info body).reads sc isBranch = body.reads sc isBranch := by
  have hpassed : ¬(group info body).isPassedOver isBranch = true := by
    simp [isPassedOver, (not_hasMarker_of_not_keepsGroup hkeeps).1]
  rw [reads.eq_def, if_neg hpassed]
  simp only [hkeeps, Bool.not_false, Bool.and_true]

theorem reads_core (e : Expr) (isBranch : Bool) :
    e.core.reads sc isBranch = e.reads sc isBranch := by
  unfold core
  fun_induction stripGroups e with
  | case1 => rfl
  | case2 info body hkeeps inner ih => rw [reads_group_of_not_keepsGroup hkeeps, ← ih]
  | case3 => rfl

/-- A branch without a class of its own is analyzed like any other expression. -/
theorem reads_of_not_carried (hmarker : ¬e.core.hasMarker .classOf = true) :
    e.reads sc true = e.reads sc false := by
  have hpassed {e : Expr} (hmarker : ¬e.hasMarker .classOf = true) :
      e.isPassedOver true = e.isPassedOver false := by
    simp [isPassedOver, hmarker]
  unfold core at hmarker
  fun_induction stripGroups e with
  | case1 info body hkeeps =>
    rw [reads.eq_def, hpassed hmarker, reads.eq_def sc false]
    simp only [hkeeps, Bool.not_true, Bool.and_false]
  | case2 info body hkeeps inner ih =>
    rw [reads_group_of_not_keepsGroup hkeeps, reads_group_of_not_keepsGroup hkeeps]
    exact ih hmarker
  | case3 e hgroup =>
    rw [reads.eq_def, hpassed hmarker, reads.eq_def sc false]
    cases e with
    | group info body => exact (hgroup info body rfl).elim
    | _ => rfl

/-- What a branch of a base asks for: what its class needs, if it carries one. -/
theorem reads_branch (hmarker : e.core.hasMarker .classOf = true) :
    e.reads sc true = e.core.innerReads sc := by
  rw [← reads_core, reads_of_carried hmarker]

/-- What alternatives ask for, in parentheses or not. -/
theorem reads_of_core (hproper : e.Proper) (hcore : e.core = alternation info branches) :
    e.reads sc false = readsAll sc (sc.isPolymorphic e.core) branches := by
  have hskip : ¬e.core.hasMarker .skip = true := by
    have hproper' := hproper.core
    rw [hcore] at hproper' ⊢
    exact hproper'.hasMarker_alternation .skip
  rw [← reads_core, reads_of_not_skip hskip, hcore]
  rfl

/-- What filling a class from its content asks for: alternatives are no branches of a base here. -/
def fillReads (sc : Scope) (content : Expr) (isBearer : Bool) : List RuleId :=
  match content.classAlternatives? with
  | some branches => readsAll sc false branches
  | none => if isBearer then content.innerReads sc else content.reads sc false

/-- The content of a class that consists of alternatives asks for what they ask for. -/
theorem reads_content_of_core (hproper : e.Proper) (hcore : e.core = alternation info branches)
    (isBearer : Bool) : (if isBearer then e.innerReads sc else e.reads sc false) =
      readsAll sc (sc.isPolymorphic e.core) branches := by
  have hskip : ¬e.hasMarker .skip = true := by
    rcases e.core_cases with hsame | ⟨⟨info', body, rfl, hkeeps⟩, -⟩
    · obtain rfl : e = alternation info branches := hsame.symm.trans hcore
      exact hproper.hasMarker_alternation .skip
    · exact (not_hasMarker_of_not_keepsGroup hkeeps).1
  rw [← reads_of_not_skip hskip, ite_self, reads_of_core hproper hcore]

theorem fillReads_of_not_polymorphic (hproper : e.Proper)
    (hpolymorphic : ¬sc.isPolymorphic e.core = true) (isBearer : Bool) :
    e.fillReads sc isBearer = if isBearer then e.innerReads sc else e.reads sc false := by
  unfold fillReads
  split
  · rename_i branches hbranches
    obtain ⟨info, hcore⟩ := core_of_classAlternatives hbranches
    rw [reads_content_of_core hproper hcore, Bool.eq_false_iff.mpr hpolymorphic]
  · rfl

/-- What an expression asks for inside is what the content of its class asks for. -/
theorem innerReads_classContent (e : Expr) : e.innerReads sc =
      if e.classContent.2 then e.classContent.1.innerReads sc
      else e.classContent.1.reads sc false := by
  cases e <;> rfl

end Expr
end AnnotatedGrammar
