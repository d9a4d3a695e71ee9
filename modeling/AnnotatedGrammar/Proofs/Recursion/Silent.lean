import AnnotatedGrammar.Proofs.Analysis.Passage

/-!
# Steps that find no recursive value

That a rule needs its own value is found in one place, where the value of a rule is asked for. All
other steps of the analysis may find errors, but never that one.
-/

namespace AnnotatedGrammar

/-- The fault says that a rule needs its own value. -/
def SemanticFault.isRecursion : SemanticFault → Bool
  | recursiveValue _ => true
  | _ => false

theorem SemanticFault.isRecursion_of_isPlain {what : SemanticFault} (h : what.isPlain = true) :
    what.isRecursion = false := by
  cases what with
  | recursiveValue name => cases h
  | _ => rfl

/-- The reports that a rule needs its own value, in order. -/
def SemanticError.recursions (errors : List SemanticError) : List SemanticError :=
  errors.filter (·.value.isRecursion)

/-- The reports of a draft that a rule needs its own value, in order. -/
def Draft.recursions (d : Draft) : List SemanticError := SemanticError.recursions d.errors.toList

theorem Draft.recursions_noted (d : Draft) {what : SemanticFault} {span : Span}
    (hwhat : what.isRecursion = false) : (d.noted what span).recursions = d.recursions := by
  simp [recursions, SemanticError.recursions, noted, hwhat]

namespace Build

/-- The basic steps never find that a rule needs its own value. -/
theorem silent : NamingPassage fun d d' => d'.recursions = d.recursions where
  refl _ := rfl
  trans h h' := h'.trans h
  fault d _ _ hwhat := d.recursions_noted (SemanticFault.isRecursion_of_isPlain hwhat)
  collision d _ _ _ _ _ := d.recursions_noted rfl
  change d d' herrors _ := by rw [Draft.recursions, herrors, Draft.recursions]

theorem Creates.recursions_eq {sc : Scope} {kind : ClassKind} {origin : ClassOrigin} {c : ClassId}
    {d d' : Draft} (h : Creates sc kind origin c d d') : d'.recursions = d.recursions := by
  obtain ⟨raw, isNamed, span, h⟩ := h
  exact silent.newClass _ _ _ h

end Build
end AnnotatedGrammar
