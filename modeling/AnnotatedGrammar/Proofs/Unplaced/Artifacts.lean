import AnnotatedGrammar.Artifact.Write
import AnnotatedGrammar.Proofs.Unplaced.Lowered

/-!
# Artifacts without places

The artifacts hold no places, and no place has a part in what they hold.
-/

namespace AnnotatedGrammar

namespace GrammarModel

variable (m : GrammarModel) (symbols : SymbolTable)

@[simp] theorem elementType_unplaced :
    (m.unplaced symbols).elementType = m.elementType := by
  funext element
  cases element with
  | primitive p => rfl
  | «instance» c => rw [elementType, className_unplaced, elementType]

@[simp] theorem valueType_unplaced : (m.unplaced symbols).valueType = m.valueType := by
  funext v
  rw [valueType, elementType_unplaced, valueType]

@[simp] theorem fieldType_unplaced : (m.unplaced symbols).fieldType = m.fieldType := by
  funext f
  rw [fieldType, valueType_unplaced, fieldType]

@[simp] theorem contentType?_unplaced : (m.unplaced symbols).contentType? = m.contentType? := by
  funext content
  cases content <;> simp only [contentType?, valueType_unplaced, className_unplaced]

end GrammarModel

/-! ## The order of the classes -/

namespace DeclarationOrder

variable (m : GrammarModel) (symbols : SymbolTable)

@[simp] theorem fieldClasses_unplaced : fieldClasses (m.unplaced symbols) = fieldClasses m := by
  funext c
  rw [fieldClasses, GrammarModel.fieldsOf_unplaced, fieldClasses]

@[simp] theorem wanted_unplaced (c : ClassId) : wanted (m.unplaced symbols) c = wanted m c := by
  rw [wanted, fieldClasses_unplaced, GrammarModel.class?_unplaced, wanted, Option.bind_map]
  rfl

theorem visit_unplaced (depth : Nat) (c : ClassId) (v : Visit) :
    visit (m.unplaced symbols) depth c v = visit m depth c v := by
  induction depth generalizing c v with
  | zero => rfl
  | succ depth ih => simp only [visit, wanted_unplaced, ih]

theorem missing_unplaced (defined announced : Array Bool) (forward classes : List ClassId) :
    missing (m.unplaced symbols) defined announced forward classes =
      missing m defined announced forward classes := by
  induction classes generalizing defined announced forward with
  | nil => rfl
  | cons c rest ih => simp only [missing, fieldClasses_unplaced, ih]

@[simp] theorem ofModel_unplaced : ofModel (m.unplaced symbols) = ofModel m := by
  have hsize : (m.unplaced symbols).classes.size = m.classes.size := Array.size_map
  simp only [ofModel, hsize, visit_unplaced, missing_unplaced]

end DeclarationOrder

/-! ## Classes -/

theorem ClassDeclaration.ofClass_unplaced (m : GrammarModel) (symbols : SymbolTable)
    (c : ClassModel) : ofClass (m.unplaced symbols) c.unplaced = ofClass m c := by
  have hname : (m.unplaced symbols).className = m.className := funext (m.className_unplaced symbols)
  have hfield : (m.unplaced symbols).field? = m.field? := rfl
  simp only [ofClass, hname, hfield, GrammarModel.fieldType_unplaced,
    GrammarModel.fieldsOf_unplaced, ClassModel.unplaced]

theorem ClassDefinition.ofClass_unplaced (m : GrammarModel) (symbols : SymbolTable)
    (c : ClassModel) : ofClass (m.unplaced symbols) c.unplaced = ofClass m c := by
  have hfield : (m.unplaced symbols).field? = m.field? := rfl
  simp only [ofClass, hfield, GrammarModel.fieldType_unplaced, GrammarModel.fieldsOf_unplaced,
    ClassModel.unplaced]
  rfl

namespace ArtifactSource

/-- What the artifacts are made from, without places. -/
def unplaced (s : ArtifactSource) (symbols : SymbolTable) : ArtifactSource :=
  { s with
    model := s.model.unplaced symbols
    productions := s.productions.unplaced }

variable (s : ArtifactSource) (symbols : SymbolTable)

theorem classes_unplaced (order : List ClassId) :
    order.filterMap (s.unplaced symbols).model.class? =
      (order.filterMap s.model.class?).map ClassModel.unplaced := by
  rw [List.map_filterMap]
  exact List.filterMap_congr fun c _ => s.model.class?_unplaced symbols c

theorem declarationLayout_unplaced :
    (s.unplaced symbols).declarationLayout = s.declarationLayout := by
  have hname : (s.unplaced symbols).model.className = s.model.className :=
    funext (s.model.className_unplaced symbols)
  have horder : DeclarationOrder.ofModel (s.unplaced symbols).model =
      DeclarationOrder.ofModel s.model := DeclarationOrder.ofModel_unplaced _ _
  have hclass : ClassDeclaration.ofClass (s.unplaced symbols).model ∘ ClassModel.unplaced =
      ClassDeclaration.ofClass s.model :=
    funext (ClassDeclaration.ofClass_unplaced s.model symbols)
  have hdeclarations : (s.unplaced symbols).declarations = s.declarations := by
    simp only [declarations, horder, hname, classes_unplaced, List.map_map, hclass]
  rw [declarationLayout, hdeclarations, declarationLayout]
  rfl

theorem definitionLayout_unplaced :
    (s.unplaced symbols).definitionLayout = s.definitionLayout := by
  have horder : DeclarationOrder.ofModel (s.unplaced symbols).model =
      DeclarationOrder.ofModel s.model := DeclarationOrder.ofModel_unplaced _ _
  have hclass : ClassDefinition.ofClass (s.unplaced symbols).model ∘ ClassModel.unplaced =
      ClassDefinition.ofClass s.model := funext (ClassDefinition.ofClass_unplaced s.model symbols)
  have hdefinitions : (s.unplaced symbols).definitions = s.definitions := by
    simp only [definitions, horder, classes_unplaced, List.mapM_map, hclass]
  rw [definitionLayout, hdefinitions, definitionLayout]
  rfl

/-! ## The parser grammar -/

theorem leftType_unplaced (p : Production) : (s.unplaced symbols).leftType p = s.leftType p := by
  have htype : (s.unplaced symbols).model.contentType? = s.model.contentType? :=
    s.model.contentType?_unplaced symbols
  rw [leftType, htype, leftType]
  rfl

theorem statements_unplaced (p : Production) :
    (s.unplaced symbols).statements p = s.statements p := by
  have htype : (s.unplaced symbols).model.contentType? = s.model.contentType? :=
    s.model.contentType?_unplaced symbols
  have hname (c : ClassId) : (s.unplaced symbols).model.className c = s.model.className c :=
    s.model.className_unplaced symbols c
  have hvariant (c : ClassId) (index : Nat) :
      (((s.unplaced symbols).model.class? c).bind fun model => model.variants[index]?) =
        (s.model.class? c).bind fun model => model.variants[index]? := by
    rw [show (s.unplaced symbols).model.class? c = (s.model.class? c).map ClassModel.unplaced from
      s.model.class?_unplaced symbols c, Option.bind_map]
    rfl
  unfold statements
  cases p.action with
  | choose c index payload =>
    simp only [hname, hvariant]
    rfl
  | forward position =>
    simp only [htype, leftType_unplaced]
    rfl
  | absent | emptyList => simp only [leftType_unplaced]
  | construct c steps =>
    simp only [hname]
    rfl
  | nothing | prepend item list | singleton item | accept position => rfl

theorem ruleBlocks_unplaced : (s.unplaced symbols).ruleBlocks = s.ruleBlocks := by
  have halternative : (s.unplaced symbols).blockAlternative = s.blockAlternative := by
    funext p
    rw [blockAlternative, statements_unplaced, blockAlternative]
    rfl
  have hblock : (s.unplaced symbols).ruleBlock = s.ruleBlock := by
    funext n
    rw [ruleBlock, halternative, ruleBlock]
    rfl
  rw [ruleBlocks, hblock, ruleBlocks]
  rfl

theorem grammarLayout_unplaced : (s.unplaced symbols).grammarLayout = s.grammarLayout := by
  have htype : (s.unplaced symbols).model.contentType? = s.model.contentType? :=
    s.model.contentType?_unplaced symbols
  have hresult : (s.unplaced symbols).resultLayout = s.resultLayout := by
    rw [resultLayout, htype, resultLayout]
    rfl
  have htypes : (s.unplaced symbols).nonterminalTypes = s.nonterminalTypes := by
    rw [nonterminalTypes, htype, nonterminalTypes]
    rfl
  have hsymbols : (s.unplaced symbols).symbolLayout = s.symbolLayout := by
    rw [symbolLayout, htypes, symbolLayout]
    rfl
  rw [grammarLayout, ruleBlocks_unplaced, hresult, hsymbols, grammarLayout]
  rfl

/-! ## All artifacts -/

theorem layout_unplaced (kind : ArtifactKind) :
    (s.unplaced symbols).layout kind = s.layout kind := by
  cases kind with
  | classDeclarations => rw [layout, declarationLayout_unplaced, layout]
  | classDefinitions => rw [layout, definitionLayout_unplaced, layout]
  | parserGrammar => rw [layout, grammarLayout_unplaced, layout]
  | scanner => rfl

/-- What comes of each artifact is the same with and without places. -/
theorem attempts_unplaced : (s.unplaced symbols).attempts = s.attempts := by
  have hwrite : (s.unplaced symbols).write = s.write := by
    funext kind
    rw [write, layout_unplaced, write]
    rfl
  rw [attempts, hwrite, attempts]

end ArtifactSource

end AnnotatedGrammar
