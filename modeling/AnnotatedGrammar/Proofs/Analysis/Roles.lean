import AnnotatedGrammar.Proofs.Analysis.Conclusion

/-!
# Roles of rules

Every rule gets one role, in the order of the rules. A rule whose body is an alternation always
takes a class, so a rule that passes on the value of its body has no alternatives of its own.
-/

namespace AnnotatedGrammar

open Build

section

variable {sc : Scope} {d d' : Draft} {rule : Rule} {role : RuleRole} {r : RuleId}

/-- A rule that passes on the value of its body is no alternation. -/
def RuleRole.Suits (rule : Rule) (role : RuleRole) : Prop :=
  role = .passthrough → rule.body.core.isAlternation = false

/-- Making a class and referring to it is not passing on a value. -/
theorem Build.ne_passthrough_of_makes {makes : ClassId → RuleRole} {raw : String} {isNamed : Bool}
    {kind : ClassKind} {span : Span} (hmakes : ∀ c, makes c ≠ .passthrough) :
    (do return makes (← newClass sc raw isNamed kind (.rule r) span) : Build RuleRole) d ≠
      (.passthrough, d') := by
  intro h
  obtain ⟨c, d₁, -, hrole⟩ := bind_eq.mp h
  exact hmakes c (pure_eq.mp hrole).1

theorem Build.assignRole_suits (h : assignRole sc r rule d = (role, d')) :
    RuleRole.Suits rule role := by
  rintro rfl
  cases hcore : rule.body.core with
  | alternation info branches =>
    exfalso
    unfold assignRole at h
    dsimp only at h
    -- whatever the markers say, a class is made for the alternatives
    cases hclass : rule.markerValue? .classOf with
    | some name =>
      simp only [hclass] at h
      cases hmarker : rule.marker? .typeOf with
      | some marker =>
        simp only [hmarker] at h
        obtain ⟨_, d₁, -, h⟩ := bind_eq.mp h
        split at h
        · exact ne_passthrough_of_makes (by simp) h
        · exact ne_passthrough_of_makes (by simp) h
      | none =>
        simp only [hmarker] at h
        split at h
        · exact ne_passthrough_of_makes (by simp) h
        · exact ne_passthrough_of_makes (by simp) h
    | none =>
      simp only [hclass, hcore] at h
      split at h
      · exact ne_passthrough_of_makes (by simp) h
      · exact ne_passthrough_of_makes (by simp) h
  | _ => rfl

/-- One role after another is added for the rules in order. -/
theorem Build.assignRoles_suit {roles roles' : Array RuleRole} {rules : List Rule}
    (h : assignRoles sc roles rules d = (roles', d')) :
    ∃ more : List RuleRole, roles' = roles ++ more.toArray ∧
      List.Forall₂ RuleRole.Suits rules more := by
  induction rules generalizing roles d with
  | nil =>
    rw [assignRoles] at h
    obtain ⟨rfl, rfl⟩ := pure_eq.mp h
    exact ⟨[], by simp, .nil⟩
  | cons rule rest ih =>
    rw [assignRoles] at h
    obtain ⟨role, d₁, hrole, hrest⟩ := bind_eq.mp h
    obtain ⟨more, rfl, hall⟩ := ih hrest
    exact ⟨role :: more, by simp, .cons (assignRole_suits hrole) hall⟩

end

theorem DraftedModel.role_eq {drafted : DraftedModel} {grammar : Grammar} {found : RuleModel}
    (h : (drafted.model grammar).rule? r = some found) :
    found.role = drafted.roles.getD r .passthrough := by
  rw [rule?_model] at h
  obtain ⟨rule, -, rfl⟩ := Option.map_eq_some_iff.mp h
  rfl

/-- In an accepted grammar, a rule that passes on the value of its body is no alternation. -/
theorem GenerationOptions.isAlternation_of_passthrough {o : GenerationOptions}
    {source : List Char} {m : GrammarModel} (h : (o.frontEnd source).result = .ok m)
    {entry : RuleModel × Rule} (hentry : entry ∈ m.rules.toList.zip m.grammar.rules.toList)
    (hrole : entry.1.role = .passthrough) : entry.2.body.core.isAlternation = false := by
  obtain ⟨tokens, -, grammar, hgrammar, hmodel⟩ := frontEnd_eq_ok.mp h
  obtain ⟨-, herrors, rfl⟩ := Grammar.buildModel_eq_ok hmodel
  obtain ⟨assigned, analyzed, hanalyzed⟩ :=
    Grammar.exists_analyzed (TokenStream.isParsed_of_parse hgrammar) herrors
  obtain ⟨roles, hroles, hall⟩ := assignRoles_suit hanalyzed.assign
  obtain ⟨hlength, hsuits⟩ := List.forall₂_iff_get.mp hall
  obtain ⟨i, hi⟩ := List.mem_iff_getElem?.mp hentry
  obtain ⟨hrule, hsource⟩ := List.getElem?_zip_eq_some.mp hi
  rw [Array.getElem?_toList] at hrule
  obtain ⟨hlt, hget⟩ := List.getElem?_eq_some_iff.mp hsource
  have hlt' : i < roles.length := Nat.lt_of_lt_of_eq hlt hlength
  have hsuit : RuleRole.Suits entry.2 roles[i] := hget ▸ hsuits i hlt hlt'
  refine hsuit ?_
  have hgiven := DraftedModel.role_eq hrule
  rw [hroles, Array.empty_append, Array.getD_eq_getD_getElem?, List.getElem?_toArray,
    List.getElem?_eq_getElem hlt', Option.getD_some] at hgiven
  rw [← hgiven, hrole]

end AnnotatedGrammar
