import AnnotatedGrammar.Proofs.Analysis.Checks

/-!
# Names of fields that are taken

A field that the grammar names is called accordingly or is not made at all. It is reported that its
name is taken just where the class has another field of that name already, whether the grammar named
that one or not: fields are named one after the other, and a field that is named by the grammar does
not displace one that is not. Fields that are not named by the grammar take a name that is free, so
that for them no name is ever reported to be taken.
-/

namespace AnnotatedGrammar

namespace Draft

/-- If the error says that a field name is taken, it is. -/
def Explains (d : Draft) (e : SemanticError) : Prop :=
  ∀ raw other name, e.value = .nameCollision .fieldName raw other name → d.Taken raw other name

/-- Fields are named as they should be, and every field name that is reported to be taken is. -/
structure NamesFields (d d' : Draft) : Prop where
  keeps : d.KeepsFields d'
  errors : ∃ found, d'.errors.toList = d.errors.toList ++ found ∧ ∀ e ∈ found, d'.Explains e

variable {d d' d'' : Draft}

theorem Taken.keeps {raw other name : String} (h : d.Taken raw other name)
    (hkeeps : d.KeepsFields d') : d'.Taken raw other name := by
  obtain ⟨c, sourceName, hfield, hne, hother⟩ := h.exists_field
  exact ⟨h.wanted, c, sourceName, hkeeps.hasField hfield, hne, hother⟩

theorem Explains.keeps {e : SemanticError} (h : d.Explains e) (hkeeps : d.KeepsFields d') :
    d'.Explains e :=
  fun raw other name hvalue => (h raw other name hvalue).keeps hkeeps

theorem explains_of_isPlain {e : SemanticError} (h : e.value.isPlain = true) : d.Explains e := by
  intro raw other name hvalue
  rw [hvalue] at h
  cases h

namespace NamesFields

theorem of_keeps (h : d.KeepsFields d') (herrors : d'.errors = d.errors) : d.NamesFields d' where
  keeps := h
  errors := ⟨[], by rw [herrors, List.append_nil], by simp⟩

theorem of_noted {what : SemanticFault} {span : Span} (h : d.Explains ⟨what, span⟩) :
    d.NamesFields (d.noted what span) where
  keeps := .of_same rfl rfl
  errors := ⟨[⟨what, span⟩], by simp [noted],
    List.forall_mem_singleton.mpr (h.keeps (.of_same rfl rfl))⟩

theorem trans (h : d.NamesFields d') (h' : d'.NamesFields d'') : d.NamesFields d'' where
  keeps := h.keeps.trans h'.keeps
  errors := by
    obtain ⟨found, heq, hfound⟩ := h.errors
    obtain ⟨found', heq', hfound'⟩ := h'.errors
    refine ⟨found ++ found', by rw [heq', heq, List.append_assoc], ?_⟩
    exact List.forall_mem_append.mpr ⟨fun e he => (hfound e he).keeps h'.keeps, hfound'⟩

end NamesFields
end Draft

namespace Build

/-- All steps name fields as they should be named. -/
theorem namingPassage : NamingPassage Draft.NamesFields where
  refl _ := .of_keeps (.of_same rfl rfl) rfl
  trans := .trans
  fault _ _ _ hplain := .of_noted (Draft.explains_of_isPlain hplain)
  change _ _ herrors hkeeps := .of_keeps hkeeps herrors
  collision d raw other name span htaken := by
    refine .of_noted fun raw' other' name' hvalue => ?_
    cases hvalue
    exact htaken

/-- A field that the grammar does not name never finds its name taken. -/
theorem derivedField_plain {c : ClassId} {subject : String} {element : ElementType}
    {cardinality : Cardinality} {branch : Nat} {span : Span} :
    Leads (fun d d' => ∃ found, d'.errors.toList = d.errors.toList ++ found ∧
      SemanticError.Plain found) (derivedField c subject element cardinality branch span) := by
  refine Passage.derivedField ⟨fun d => ⟨[], by simp⟩, ?_, fun d what span hplain => ?_,
    fun d d' herrors _ => ⟨[], by simp [herrors]⟩⟩
  · rintro d d' d'' ⟨found, heq, hfound⟩ ⟨found', heq', hfound'⟩
    refine ⟨found ++ found', by rw [heq', heq, List.append_assoc], ?_⟩
    exact SemanticError.plain_append.mpr ⟨hfound, hfound'⟩
  · exact ⟨[⟨what, span⟩], by simp [Draft.noted], by simpa using hplain⟩

end Build

namespace Grammar

open Build

variable (grammar : Grammar) (preferences : ModelPreferences) (overrides : Overrides)

theorem draft_namesFields : (grammar.firstDraft preferences overrides).NamesFields
    (grammar.draft preferences overrides).draft := by
  obtain ⟨assigned, analyzed, keyed, claimed, h⟩ := grammar.exists_stages preferences overrides
  have hrecursive (d : Draft) (name : String) (span : Span) :
      d.NamesFields (d.noted (.recursiveValue name) span) :=
    .of_noted fun _ _ _ hvalue => nomatch hvalue
  have hassigned := namingPassage.assignRoles _ _ _ h.assign
  have hanalyzed := namingPassage.analyzeRules hrecursive _ _ _ _ _ h.analyze
  have hkeyed := namingPassage.of_forM (fun _ => namingPassage.applyKey) _ _ _ _ h.key
  have hclaimed := namingPassage.of_forM namingPassage.checkTypeClaim _ _ _ _ h.claim
  have hchecked := namingPassage.checkCycles _ _ _ h.cycles
  exact (((hassigned.trans hanalyzed).trans hkeyed).trans hclaimed).trans hchecked

variable {grammar preferences overrides}

/-- A field that the grammar names is called accordingly. -/
theorem draft_isGiven : ∀ names ∈ (grammar.draft preferences overrides).draft.fieldNames,
    Draft.IsGiven names := by
  obtain ⟨added, heq, hgiven⟩ := (grammar.draft_namesFields preferences overrides).keeps.names
  have hnone : (grammar.firstDraft preferences overrides).fieldNames = [] := by
    simp [firstDraft, Draft.empty, Draft.fieldNames]
  rw [heq, hnone]
  exact hgiven

/-- Whenever a field name is reported to be taken, it is. -/
theorem draft_explains {e : SemanticError}
    (he : e ∈ (grammar.draft preferences overrides).draft.errors.toList) :
    (grammar.draft preferences overrides).draft.Explains e := by
  have hnames := grammar.draft_namesFields preferences overrides
  obtain ⟨found, heq, hfound⟩ := hnames.errors
  rw [heq] at he
  rcases List.mem_append.mp he with he | he
  · exact Draft.explains_of_isPlain (grammar.firstDraft_plain preferences overrides e he)
  · exact hfound e he

/-- A grammar is rejected because the name of a field is taken only if there is a field of that name
in a class, which the grammar names differently or not at all. -/
theorem taken_of_buildModel {errors : List SemanticError} {raw other name : String} {span : Span}
    (h : (grammar.buildModel preferences overrides).result = .error errors)
    (he : ⟨.nameCollision .fieldName raw other name, span⟩ ∈ errors) :
    (grammar.draft preferences overrides).draft.Taken raw other name :=
  draft_explains (mem_draft_of_buildModel h he rfl) raw other name rfl

/-- In a model, every field that the grammar names is called accordingly. -/
theorem buildModel_fieldName {m : GrammarModel}
    (h : (grammar.buildModel preferences overrides).result = .ok m) {fld : FieldModel}
    (hfld : fld ∈ m.fields) {raw : String} (hraw : fld.sourceName = some raw) :
    Naming.fieldName raw = some fld.name := by
  obtain ⟨-, -, rfl⟩ := buildModel_eq_ok h
  obtain ⟨field, hfield, rfl⟩ := Array.mem_map.mp hfld
  have hmem := List.mem_map_of_mem (f := FieldDraft.names) (Array.mem_toList_iff.mpr hfield)
  exact draft_isGiven _ hmem raw hraw

end Grammar
end AnnotatedGrammar
