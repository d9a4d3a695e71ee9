import Mathlib.Data.List.Nodup
import AnnotatedGrammar.Proofs.Analysis.RuleSteps
import AnnotatedGrammar.Proofs.Generation

/-!
# Names do not clash

In a model no two classes share a name, no two fields of a class and no two variants of a class.
All of these are names of the generated language that mean nothing there yet, and fields are never
called like a class or like a member that every class has.
-/

namespace AnnotatedGrammar

namespace GrammarModel

/-- A name that may stand in a generated file. -/
def IsUsable (name : String) : Prop :=
  Naming.isIdentifier name = true ∧ Naming.isReserved name = false

/-- Every name may stand in a generated file, and is taken once where it stands. -/
structure NamesDistinct (m : GrammarModel) : Prop where
  classes_nodup : (m.classes.toList.map (·.name)).Nodup
  fields_nodup : ∀ c, ((m.fieldsOf c).map (·.name)).Nodup
  tags_nodup : ∀ cls ∈ m.classes, (cls.variants.map (·.tag)).Nodup
  class_name : ∀ cls ∈ m.classes, IsUsable cls.name
  field_name : ∀ fld ∈ m.fields, IsUsable fld.name ∧ fld.name ∉ Naming.memberWords
  tag : ∀ cls ∈ m.classes, ∀ v ∈ cls.variants, IsUsable v.tag
  field_ne_class : ∀ fld ∈ m.fields, ∀ cls ∈ m.classes, fld.name ≠ cls.name

end GrammarModel

/-! ## Tables -/

section

variable {t : Tables}

theorem Tables.ClassesNamed.nodup (h : t.ClassesNamed) : (t.classes.toList.map (·.name)).Nodup := by
  rw [List.nodup_iff_injective_getElem]
  rintro ⟨i, hi⟩ ⟨j, hj⟩ heq
  rw [List.length_map, Array.length_toList] at hi hj
  simp only [List.getElem_map, Array.getElem_toList] at heq
  exact Fin.ext (h.inj i j _ _ (Array.getElem?_eq_getElem hi) (Array.getElem?_eq_getElem hj) heq)

/-- Fields of the same class are told apart by their names. -/
theorem Tables.FieldsNamed.nodup (h : t.FieldsNamed) (hlinked : t.FieldsLinked) {c : ClassId}
    {cls : ClassModel} (hcls : t.classes[c]? = some cls) :
    ((cls.fields.filterMap (t.fields[·]?)).map (·.name)).Nodup := by
  rw [List.Nodup, List.pairwise_map, List.pairwise_filterMap]
  refine (hlinked.nodup c cls hcls).imp_of_mem
    fun hf hf' hne fld hfld fld' hfld' heq => hne ?_
  exact h.inj c cls hcls _ hf _ hf' fld fld' hfld hfld' heq

end

namespace Grammar

variable {grammar : Grammar} {preferences : ModelPreferences} {overrides : Overrides}

/-- The names in the model of a parsed grammar do not clash. -/
theorem buildModel_namesDistinct {m : GrammarModel} (hparsed : grammar.IsParsed)
    (h : (grammar.buildModel preferences overrides).result = .ok m) : m.NamesDistinct := by
  obtain ⟨-, herrors, rfl⟩ := buildModel_eq_ok h
  obtain ⟨-, hlinked, ⟨hclasses, hfields, hvariants⟩, -⟩ := draft_finished hparsed herrors
  have hclassName {cls : ClassModel}
      (hcls : cls ∈ ((grammar.draft preferences overrides).model grammar).classes) :
      Naming.IsClassName cls.name := by
    obtain ⟨c, hc⟩ := Array.mem_iff_getElem?.mp hcls
    exact hclasses.name c cls hc
  have hfieldName {fld : FieldModel}
      (hfld : fld ∈ ((grammar.draft preferences overrides).model grammar).fields) :
      Naming.IsFieldName fld.name := by
    obtain ⟨f, hf⟩ := Array.mem_iff_getElem?.mp hfld
    exact hfields.name f fld hf
  have htags {cls : ClassModel}
      (hcls : cls ∈ ((grammar.draft preferences overrides).model grammar).classes) :
      Tables.TagsNamed cls := by
    obtain ⟨c, hc⟩ := Array.mem_iff_getElem?.mp hcls
    exact hvariants c cls hc
  refine ⟨hclasses.nodup, fun c => ?_, fun cls hcls => (htags hcls).nodup,
    fun cls hcls => ⟨(hclassName hcls).identifier, (hclassName hcls).free⟩, fun fld hfld => ?_,
    fun cls hcls v hv => ⟨((htags hcls).name v hv).identifier, ((htags hcls).name v hv).free⟩,
    fun fld hfld cls hcls => (hfieldName hfld).ne (hclassName hcls)⟩
  · unfold GrammarModel.fieldsOf
    split
    · rename_i cls hcls
      exact hfields.nodup hlinked.fields hcls
    · exact List.nodup_nil
  · have hname := hfieldName hfld
    refine ⟨⟨hname.identifier, hname.free⟩, fun hmem => ?_⟩
    exact Bool.false_ne_true (hname.noMember.symm.trans (List.contains_iff_mem.mpr hmem))

/-- The namespace of the model of a parsed grammar consists of names. -/
theorem buildModel_isNamespace {m : GrammarModel} (hparsed : grammar.IsParsed)
    (h : (grammar.buildModel preferences overrides).result = .ok m) :
    Settings.isNamespace m.namespaceName = true := by
  obtain ⟨-, herrors, rfl⟩ := buildModel_eq_ok h
  have hfirst := firstDraft_errors_eq hparsed herrors
  simp only [firstDraft, Draft.empty, List.toArray_eq_iff, List.append_eq_nil_iff] at hfirst
  exact Settings.isNamespace_namespaceName hfirst.1.2

end Grammar

namespace GenerationOptions

/-- Whenever the front end builds a model, the names in it do not clash. -/
theorem frontEnd_namesDistinct {o : GenerationOptions} {source : List Char} {m : GrammarModel}
    (h : (o.frontEnd source).result = .ok m) : m.NamesDistinct := by
  obtain ⟨tokens, -, grammar, hgrammar, hmodel⟩ := frontEnd_eq_ok.mp h
  exact Grammar.buildModel_namesDistinct (TokenStream.isParsed_of_parse hgrammar) hmodel

/-- A field that is to be called like a keyword, and a class whose name is taken. -/
theorem frontEnd_namesDistinct_displaced : ∃ (o : GenerationOptions) (m : GrammarModel),
    (o.frontEnd "S=\"u\"|T;@class(S)T=\"t\"@field(class)T?@field(key);".toList).result = .ok m ∧
      m.NamesDistinct := by
  have hok : (frontEnd ⟨default, "sample", false, default⟩
      "S=\"u\"|T;@class(S)T=\"t\"@field(class)T?@field(key);".toList).result.isOk = true := by
    decide +kernel
  obtain ⟨m, hm⟩ := Outcome.exists_of_isOk hok
  exact ⟨_, m, hm, frontEnd_namesDistinct hm⟩

end GenerationOptions

end AnnotatedGrammar
