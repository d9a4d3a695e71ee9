import AnnotatedGrammar.Proofs.Coverage.Lowered
import AnnotatedGrammar.Proofs.Coverage.Models
import AnnotatedGrammar.Proofs.Generation
import AnnotatedGrammar.Proofs.Model.WellFormed

/-!
# Nothing of a model is left unbuilt

Every class with instances is built, every expression fills its field, every variant is chosen once,
and every nonterminal made on the way is used. The check of productions asks only for the converse:
that actions speak of what the model has.
-/

namespace AnnotatedGrammar

open Lowering ProductionDraft

/-- Where a step takes from what was lowered of an expression: from its term, or from the text of a
literal. -/
inductive FieldSource.TakesFrom (e : Expr) (i : Nat) : FieldSource → Prop
  | position : TakesFrom e i (.position i)
  | lexeme {text : String} (htext : e.literalText? = some text) : TakesFrom e i (.lexeme text)

namespace Production

/-- A production puts an expression into a field: it was made for an expression around it, it builds
an instance, or a fragment, of the class that has the field, and one of its steps takes what fills
the field from the place of the expression among the parts, where the term for it stands. -/
inductive Realizes (m : GrammarModel) (nonterminals : Array Nonterminal) (field : FieldModel)
    (e : Expr) (p : Production) : Prop
  | intro {whole x : Expr} {i : Nat} {t : Term} {steps : List Step} {source : FieldSource}
      {mode : AssignMode} (hwhole : m.Occurs whole) (hnode : p.node = some whole.id)
      (hputs : whole.PutsAt e x i) (haction : p.action = .construct field.owner steps)
      (hstep : .assign field.id source mode ∈ steps) (htakes : source.TakesFrom x i)
      (hterm : p.body[i]? = some t) (hstands : t.StandsFor m nonterminals x)

/-- Whether a production chooses a variant of a class. -/
def chooses (c : ClassId) (index : Nat) (p : Production) : Bool :=
  match p.action with
  | .choose c' index' _ => c' == c && index' == index
  | _ => false

theorem exists_of_chooses {c : ClassId} {index : Nat} {p : Production}
    (h : p.chooses c index = true) : ∃ payload, p.action = .choose c index payload := by
  unfold chooses at h
  split at h
  · rename_i c' index' payload haction
    rw [Bool.and_eq_true, beq_iff_eq, beq_iff_eq] at h
    exact ⟨payload, by rw [haction, h.1, h.2]⟩
  · cases h

theorem chooses_of_action {c : ClassId} {index : Nat} {payload : Option Nat} {p : Production}
    (h : p.action = .choose c index payload) : p.chooses c index = true := by
  simp [chooses, h]

end Production

/-- What a lowered model leaves in the draft. -/
structure LowersModel (m : GrammarModel) (D : ProductionDraft) : Prop extends LowersRules m D where
  chooses : ∀ p ∈ D.productions, p.ChoosesWell m
  chosen_le : ∀ id, D.timesChosen id ≤ 1
  used : ∀ n ∈ D.nonterminals, n.isSynthesized = true → D.Uses n.id

/-- The step that fills a field is the last one, and what it takes from stands last. -/
theorem Lowering.Assigns.filled {sc : LoweringScope} {c : ClassId} {owner e : Expr} {t : Term}
    {a a' : Assembly} {field : FieldModel} (h : Assigns sc c owner e t a a')
    (hfield : sc.model.fieldFor? c owner.id = some field) :
    ∃ source mode, a'.body = a.body.push t ∧
      a'.steps = a.steps.push (.assign field.id source mode) ∧
      source.TakesFrom e a.body.size := by
  cases h with
  | nothing hnone =>
    rw [hnone] at hfield
    cases hfield
  | position hfound =>
    obtain rfl := Option.some.inj (hfound.symm.trans hfield)
    exact ⟨_, _, rfl, rfl, .position⟩
  | lexeme hfound htext =>
    obtain rfl := Option.some.inj (hfound.symm.trans hfield)
    exact ⟨_, _, rfl, rfl, .lexeme htext⟩

namespace LowersModel

variable {c : ClassId} {set : ProductionSet}

/-- A class with instances is built. -/
theorem classes (h : LowersModel m D) (hreached : m.ClassReached c)
    (hshaped : ∀ rule ∈ m.grammar.rules, rule.body.Shaped)
    (hkind : Settled.HasKind m c .concrete) : ∃ p ∈ D.productions,
      (∃ steps, p.action = .construct c steps) ∧ D.IsWhole p.lhs := by
  rcases hreached.concrete hkind with ⟨content, isBearer, hbody⟩ | ⟨x, hsole⟩
  · obtain ⟨sc, lhs, rfl, hwhole, hran⟩ := hbody.lowered h.toLowersRules
    cases halternatives : content.classAlternatives? with
    | none =>
      rw [classProductions_none sc lhs c isBearer halternatives] at hran
      obtain ⟨a, -, hproduce⟩ := hran.bind fun _ => .produce
      exact ⟨_, hproduce.produced, ⟨_, rfl⟩, hwhole⟩
    | some branches =>
      obtain ⟨rule, hrule, hinside⟩ := hbody.inside
      obtain ⟨info, hcore⟩ := Expr.core_of_classAlternatives halternatives
      have hmem : content.core ∈ rule.body.preorder :=
        hinside content List.mem_cons_self
          (Expr.preorder_core_subset _ content.core.self_mem_preorder)
      have hne := (hshaped rule hrule content.core hmem).hasBranches info branches hcore
      obtain ⟨x, hx⟩ := List.exists_mem_of_ne_nil branches hne
      rw [classProductions_some sc lhs c isBearer halternatives] at hran
      obtain ⟨a, -, hproduction⟩ := hran.branched hx
      exact ⟨_, hproduction, ⟨_, rfl⟩, hwhole⟩
  · obtain ⟨sc, lhs, a, -, hwhole, -, hproduction⟩ := hsole.lowered h.toLowersRules
    exact ⟨_, hproduction, ⟨_, rfl⟩, hwhole⟩

/-- An expression is put into the field that it fills. -/
theorem nodes (h : LowersModel m D) {node : NodeId} {field : FieldModel}
    (hreached : m.ValueReached field.owner node)
    (hfield : m.fieldFor? field.owner node = some field) :
    ∃ e, m.Occurs e ∧ e.id = node ∧
      ∃ p ∈ D.productions, p.Realizes m D.nonterminals field e := by
  obtain ⟨e, isBearer, rfl, hvalue, hcontent⟩ := hreached
  have hlowered : LoweredContent m D field.owner e isBearer := hcontent.lowered h.toLowersRules
  obtain ⟨rfl, hwhole, ⟨p, hp, hnode, steps, haction, hterms, hsteps⟩, hassigns, hputs, hstands⟩ :=
    hlowered.value hvalue
  obtain ⟨source, mode, hbody, hstep, htakes⟩ := hassigns.filled hfield
  have hmem : .assign field.id source mode ∈ steps := by
    apply hsteps.subset
    rw [hstep, Array.toList_push]
    exact List.mem_append_right _ List.mem_cons_self
  refine ⟨e, hcontent.inside.occurs List.mem_cons_self, rfl, p, hp, ?_⟩
  refine .intro hwhole hnode hputs haction hmem htakes ?_ hstands
  obtain ⟨rest, hrest⟩ := hterms
  rw [← hrest, Assembly.terms, hbody]
  simp

/-- A variant is chosen by exactly one production. -/
theorem variants (h : LowersModel m D) {cls : ClassModel} {i : Nat} {variant : Variant}
    (hreached : m.ClassReached c) (hcls : m.class? c = some cls) (hkind : cls.kind = .tagged)
    (hvariant : cls.variants[i]? = some variant) :
    D.productions.toList.countP (·.chooses c i) = 1 ∧ ∃ p ∈ D.productions, ∃ payload,
      p.action = .choose c i payload ∧ payload.isSome = variant.payload.isSome := by
  obtain ⟨branches, hchoice⟩ := hreached.tagged ⟨cls, hcls, hkind⟩
  obtain ⟨sc, lhs, cls', rfl, hcls', hlength, hran⟩ := hchoice.lowered h.toLowersRules
  obtain rfl := Option.some.inj (hcls.symm.trans hcls')
  have hlt : i < branches.length := hlength ▸ (List.getElem?_eq_some_iff.mp hvariant).1
  obtain ⟨-, p, hp, payload, haction, hpayload⟩ :=
    hran.chosen hcls rfl (List.getElem?_eq_getElem hlt) hvariant
  rw [Nat.zero_add] at haction
  refine ⟨Nat.le_antisymm ?_ ?_, p, hp, payload, haction, hpayload⟩
  · -- whoever chooses the variant does so for its expression, and that happens once
    refine Nat.le_trans (List.countP_mono_left fun q hq hchooses => ?_) (h.chosen_le variant.node)
    obtain ⟨payload', haction'⟩ := Production.exists_of_chooses hchooses
    obtain ⟨cls', variant', hcls', hvariant', hnode, -⟩ :=
      h.chooses q (Array.mem_toList_iff.mp hq) c i payload' haction'
    obtain rfl := Option.some.inj (hcls.symm.trans hcls')
    obtain rfl := Option.some.inj (hvariant.symm.trans hvariant')
    simp [Production.isChoiceOf, haction', hnode]
  · exact List.countP_pos_iff.mpr
      ⟨p, Array.mem_toList_iff.mpr hp, Production.chooses_of_action haction⟩

end LowersModel

namespace GenerationOptions

variable {o : GenerationOptions} {source : List Char} {set : ProductionSet}

end GenerationOptions

end AnnotatedGrammar
