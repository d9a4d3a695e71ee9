import AnnotatedGrammar.Proofs.Artifact.Header
import AnnotatedGrammar.Proofs.Artifact.RuleText
import AnnotatedGrammar.Proofs.Artifact.ScannerText
import AnnotatedGrammar.Proofs.Artifact.SourceFile
import AnnotatedGrammar.Proofs.Artifact.Statements

/-!
# The artifacts fit together

The four artifacts of a run use each other's names: the parser grammar makes instances of the
classes of the header and stores values in their members, the source file initializes and merges
members, and the scanner returns the tokens that the parser grammar declares. Whatever the text of
one of them names is declared in the text of the one that should declare it.

The texts are read as they are, apart from the notice at their top: it repeats the name of the
grammar's file, in which anything may stand.
-/

namespace AnnotatedGrammar

open Layout ArtifactText

/-! ## What it means -/

/-- The alternatives of all rules: their symbols, and the lines of their actions. -/
def ArtifactText.bodies (grammar : List (List Char)) : List (List (List Char) × List (List Char)) :=
  (rules grammar).flatMap fun rule => alternatives rule.2

/-- How comments are written in a file. -/
def ArtifactKind.commentStyle : ArtifactKind → CommentStyle
  | .scanner => .block
  | .classDeclarations | .classDefinitions | .parserGrammar => .line

/-- The code of an artifact, line by line: what stands behind the notice. -/
def ArtifactSource.code (s : ArtifactSource) (artifacts : List Artifact) (kind : ArtifactKind) :
    List (List Char) :=
  match artifacts.find? (·.kind = kind) with
  | some a => codeLines (s.front kind.commentStyle) a.text
  | none => []

/-- What the code of one of the four artifacts names is declared where it should be. -/
structure ArtifactsFit (code : ArtifactKind → List (List Char)) (namespaceName : String)
    (catalog : TokenCatalog) : Prop where
  /-- Instances are made of classes that the header defines once and that are not abstract. -/
  made : ∀ body ∈ bodies (code .parserGrammar), ∀ line ∈ body.2, ∀ name ∈ madeClass? line,
    IsDefinedAs (code .classDeclarations) name (isConcrete · = true)
  /-- A member is assigned to behind the one statement that makes the instance, and is declared in
  the class of which it makes one. -/
  stored : ∀ body ∈ bodies (code .parserGrammar), ∀ before line after,
    body.2 = before ++ line :: after → ∀ member ∈ storedMember? line,
      ∃ name, before.filterMap madeClass? = [name] ∧
        IsDefinedAs (code .classDeclarations) name (member ∈ declaredMembers ·)
  /-- A tag that the parser grammar uses is declared in the class it belongs to. -/
  chosen : ∀ body ∈ bodies (code .parserGrammar), ∀ line ∈ body.2, ∀ choice ∈ chosenTag? line,
    IsDefinedAs (code .classDeclarations) choice.1 (choice.2 ∈ declaredTags ·)
  /-- A constructor initializes the declared members, to a declared tag if there is one. -/
  constructed : ∀ definition ∈ (code .classDefinitions).filterMap constructor?,
    IsDefinedAs (code .classDeclarations) definition.1 fun body =>
      initialized definition.2 = declaredMembers body ∧
        ∀ tag ∈ initialTag? definition.2, tag ∈ declaredTags body
  /-- Every line that merges instances merges a declared member. -/
  merged : ∀ definition ∈ merges (code .classDefinitions),
    IsDefinedAs (code .classDeclarations) definition.1 fun body => ∀ line ∈ definition.2,
      line = "    \x7d".toList ∨ ∃ member ∈ declaredMembers body, MergesMember member line
  /-- The tags that have names are those that are declared. -/
  named : ∀ definition ∈ tagNames (code .classDefinitions),
    IsDefinedAs (code .classDeclarations) definition.1 fun body =>
      definition.2.filterMap caseTag? = declaredTags body
  /-- A symbol of a rule body is a declared token or has one rule. -/
  symbols : ∀ body ∈ bodies (code .parserGrammar), ∀ symbol ∈ body.1,
    symbol ∈ (code .parserGrammar).filterMap declaredToken? ∨
      ((rules (code .parserGrammar)).map (·.1)).count symbol = 1
  /-- The declared tokens are those of the catalog, in its order. -/
  tokens : (code .parserGrammar).filterMap declaredToken? = catalog.entries.map (·.name.toList)
  /-- The scanner returns the tokens of the catalog in its order, and the end of the input. -/
  returned : (scannerRules (code .scanner)).filterMap (returnedToken? namespaceName) =
    catalog.entries.map (·.name.toList) ++ ["YYEOF".toList]

/-- The class of which an action makes an instance. -/
def Action.madeClass? : Action → Option ClassId
  | .construct c _ | .choose c _ _ => some c
  | _ => none

/-- Nothing of a model and its productions is missing from the code of the artifacts. -/
structure ArtifactsCover (code : ArtifactKind → List (List Char)) (m : GrammarModel)
    (set : ProductionSet) : Prop where
  classes : ((definedClasses (code .classDeclarations)).map (·.1)).Perm
    (m.classes.toList.map (·.name.toList))
  constructors : ((code .classDefinitions).filterMap constructor?).map (·.1) =
    (definedClasses (code .classDeclarations)).map (·.1)
  rules : (rules (code .parserGrammar)).map (·.1) = set.nonterminals.toList.map (·.name.toList)
  /-- Every production has an alternative with a symbol for each term, and makes its instance. -/
  bodies : (bodies (code .parserGrammar)).map (fun body =>
      (body.1.length, body.2.filterMap madeClass?)) =
    set.nonterminals.toList.flatMap fun n => (set.productionsOf n.id).map fun p =>
      (p.body.length, (p.action.madeClass?.map fun c => (m.className c).toList).toList)

/-! ## Names -/

namespace GrammarModel

/-- The names in a model can be told apart from what stands around them. -/
structure IsNamed (m : GrammarModel) : Prop where
  space : IsType m.namespaceName.toList
  classes : ∀ cls ∈ m.classes, IsWord cls.name.toList
  fields : ∀ fld ∈ m.fields, IsWord fld.name.toList
  tags : ∀ cls ∈ m.classes, ∀ v ∈ cls.variants, IsWord v.tag.toList

/-- The parts of a namespace are names. -/
theorem isType_of_namespaceParts {p rest : List Char}
    (h : ∀ name ∈ Settings.namespaceParts p rest, IsWord name) :
    IsType (p.reverse ++ rest) := by
  have hcolon : isTypeChar ':' = true := by decide
  induction p, rest using Settings.namespaceParts.induct with
  | case1 p =>
    rw [List.append_nil]
    exact (h _ (by simp [Settings.namespaceParts])).isType
  | case2 p rest ih =>
    rw [Settings.namespaceParts, List.forall_mem_cons] at h
    refine h.1.isType.append ?_
    rw [IsType, List.all_cons, List.all_cons, hcolon]
    exact ih h.2
  | case3 p c rest hne ih =>
    rw [Settings.namespaceParts] at h
    · have htype := ih h
      rwa [List.reverse_cons, List.append_assoc] at htype
    · exact hne

theorem NamesDistinct.isNamed {m : GrammarModel} (h : m.NamesDistinct)
    (hspace : Settings.isNamespace m.namespaceName = true) : m.IsNamed where
  space := by
    have hparts := List.all_eq_true.mp hspace
    have htype := isType_of_namespaceParts (p := []) fun name hname => by
      have hword := isWord_toList (Bool.and_eq_true_iff.mp (hparts name hname)).1
      rwa [String.toList_ofList] at hword
    exact htype
  classes cls hcls := isWord_toList (h.class_name cls hcls).1
  fields fld hfld := isWord_toList (h.field_name fld hfld).1.1
  tags cls hcls v hv := isWord_toList (h.tag cls hcls v hv).1

namespace IsNamed

variable {m : GrammarModel}

theorem className (h : m.IsNamed) (c : ClassId) : IsType (m.className c).toList := by
  unfold GrammarModel.className
  split
  · next cls hcls => exact (h.classes cls (Array.mem_of_getElem? hcls)).isType
  · rfl

theorem sharedPointer (h : m.IsNamed) (c : ClassId) :
    IsType (sharedPointer (m.className c)).toList := by
  have htemplate : IsType "std::shared_ptr<".toList ∧ IsType ">".toList := by decide
  unfold AnnotatedGrammar.sharedPointer
  rw [String.toList_append, String.toList_append]
  exact (htemplate.1.append (h.className c)).append htemplate.2

theorem valueType (h : m.IsNamed) (v : Value) : IsType (m.valueType v).toList := by
  have htemplates : IsType "std::optional<".toList ∧ IsType "std::vector<".toList ∧
      IsType ">".toList := by
    decide
  have hprimitive (p : Primitive) : IsType p.cppType.toList := by cases p <;> decide
  have helement : IsType (m.elementType v.element).toList := by
    cases v.element with
    | primitive p => exact hprimitive p
    | «instance» c => exact h.sharedPointer c
  unfold GrammarModel.valueType
  dsimp only
  split
  · exact helement
  · exact helement
  · rw [String.toList_append, String.toList_append]
    exact (htemplates.1.append helement).append htemplates.2.2
  · rw [String.toList_append, String.toList_append]
    exact (htemplates.2.1.append helement).append htemplates.2.2

theorem contentType (h : m.IsNamed) (content : Content) :
    ∀ type ∈ m.contentType? content, IsType type.toList := by
  intro type htype
  cases content with
  | nothing => cases htype
  | value v => exact Option.some.inj htype ▸ h.valueType v
  | fragment c many => exact Option.some.inj htype ▸ h.sharedPointer c

theorem fieldsOf (h : m.IsNamed) (c : ClassId) : ∀ f ∈ m.fieldsOf c, IsWord f.name.toList := by
  unfold GrammarModel.fieldsOf
  split
  · intro f hf
    obtain ⟨id, -, hid⟩ := List.mem_filterMap.mp hf
    exact h.fields f (Array.mem_of_getElem? hid)
  · exact List.forall_mem_nil _

end IsNamed

end GrammarModel

namespace ArtifactSource

variable {s : ArtifactSource}

theorem isNamed_declarations (h : s.model.IsNamed) : ∀ d ∈ s.declarations.2, d.IsNamed := by
  intro d hd
  obtain ⟨c, cls, hcls, rfl⟩ := mem_declarations hd
  have hmem : cls ∈ s.model.classes := Array.mem_of_getElem? hcls
  refine ⟨h.classes cls hmem, fun base hbase => ?_, List.forall_mem_map.mpr (h.tags cls hmem),
    fun type htype => ?_, List.forall_mem_map.mpr fun f hf => ⟨h.valueType _, h.fieldsOf _ f hf⟩⟩
  · obtain ⟨b, -, rfl⟩ := Option.map_eq_some_iff.mp hbase
    exact h.className b
  · obtain ⟨f, -, rfl⟩ := Option.map_eq_some_iff.mp htype
    exact h.valueType _

/-- A definition is that of a class of the model. -/
theorem mem_definitions {classes : List ClassDefinition} (hclasses : s.definitions = .ok classes)
    {d : ClassDefinition} (hd : d ∈ classes) :
    ∃ c cls, s.model.class? c = some cls ∧ (cls.kind = .tagged → cls.variants ≠ []) ∧
      d = ⟨cls.name, cls.kind, if cls.kind = .tagged then cls.variants.map (·.tag) else [],
        s.model.fieldsOf cls.id,
        (cls.key.bind s.model.field?).map fun f => (s.model.fieldType f, f.name)⟩ := by
  obtain ⟨cls, hmem, hcls⟩ := exists_of_mapM_eq_ok hclasses d hd
  obtain ⟨c, -, hc⟩ := List.mem_filterMap.mp hmem
  refine ⟨c, cls, hc, ?_⟩
  unfold ClassDefinition.ofClass at hcls
  split at hcls
  · cases hcls
  · next hvariants =>
    exact ⟨fun hkind hnil => hvariants ⟨hkind, hnil⟩, (Except.ok.inj hcls).symm⟩

theorem isNamed_definitions (h : s.model.IsNamed) {classes : List ClassDefinition}
    (hclasses : s.definitions = .ok classes) : ∀ d ∈ classes, d.IsNamed := by
  intro d hd
  obtain ⟨c, cls, hcls, -, rfl⟩ := mem_definitions hclasses hd
  have hmem : cls ∈ s.model.classes := Array.mem_of_getElem? hcls
  refine ⟨h.classes cls hmem, fun tag htag => ?_, h.fieldsOf cls.id, fun key hkey => ?_⟩
  · dsimp only at htag
    split at htag
    · obtain ⟨v, hv, rfl⟩ := List.mem_map.mp htag
      exact h.tags cls hmem v hv
    · cases htag
  · obtain ⟨f, hf, rfl⟩ := Option.map_eq_some_iff.mp hkey
    obtain ⟨id, -, hid⟩ := Option.bind_eq_some_iff.mp hf
    exact ⟨h.valueType _, h.fields f (Array.mem_of_getElem? hid)⟩

/-- The names in statements that use what is declared. -/
theorem Sound.isNamed (hnamed : s.model.IsNamed) {statements : List Statement}
    (h : s.Sound statements) : ∀ st ∈ statements, st.IsNamed := by
  rcases h with hnone | ⟨c, cls, rest, hcls, -, rfl, hrest, hallowed⟩
  · intro st hst
    obtain ⟨hmakes, huses⟩ := hnone st hst
    cases st with
    | makeNode name => exact absurd rfl (hmakes name)
    | setTag | setMember | appendMember => exact absurd trivial huses
    | _ => trivial
  · have hmem : cls ∈ s.model.classes := Array.mem_of_getElem? hcls
    have hmember : ∀ member ∈ (ClassDeclaration.ofClass s.model cls).members.map (·.2),
        IsWord member.toList := by
      simpa [ClassDeclaration.ofClass] using hnamed.fieldsOf cls.id
    refine List.forall_mem_cons.mpr ⟨hnamed.classes cls hmem, fun st hst => ?_⟩
    have hst' := hallowed st hst
    cases st with
    | makeNode name => exact absurd hst (hrest name)
    | setTag className tag =>
      obtain ⟨rfl, -, htag⟩ := hst'
      obtain ⟨v, hv, rfl⟩ := List.mem_map.mp htag
      exact ⟨hnamed.classes cls hmem, hnamed.tags cls hmem v hv⟩
    | setMember member value | appendMember member value => exact hmember member hst'
    | _ => trivial

/-- The names in the rule blocks of a production set whose productions fit its model. -/
theorem isNamed_ruleBlocks {strict : Prop} (hnamed : s.model.IsNamed)
    (hmodel : s.model.WellFormed)
    (hnonterminals : ∀ n ∈ s.productions.nonterminals, IsWord n.name.toList)
    (htokens : ∀ e ∈ s.catalog.entries, IsWord e.name.toList)
    (hfits : ∀ p ∈ s.productions.productions, p.Fits strict s.model s.productions.nonterminals)
    (hbelow : ∀ p ∈ s.productions.productions, ∀ t ∈ p.body,
      t.Below s.productions.nonterminals.size)
    {blocks : List RuleBlock} (hblocks : s.ruleBlocks = .ok blocks) : ∀ b ∈ blocks, b.IsNamed := by
  intro b hb
  obtain ⟨n, hn, hblock⟩ := exists_of_mapM_eq_ok hblocks b hb
  obtain ⟨hname, halternatives⟩ := ruleBlock_eq_ok hblock
  refine ⟨hname ▸ hnonterminals n (Array.mem_toList_iff.mp hn), fun a ha => ?_⟩
  obtain ⟨p, hp, hsymbols, hstatements⟩ := halternatives a ha
  refine ⟨fun symbol hsymbol => ?_,
    (statements_sound hmodel (hfits p hp) hstatements).isNamed hnamed⟩
  obtain ⟨t, ht, hsymbol⟩ := exists_of_mapM_eq_ok hsymbols symbol hsymbol
  rcases symbolName_mem (hbelow p hp t ht) hsymbol with htoken | hnonterminal
  · obtain ⟨e, he, rfl⟩ := List.mem_map.mp htoken
    exact htokens e he
  · obtain ⟨n', hn', rfl⟩ := List.mem_map.mp hnonterminal
    exact hnonterminals n' (Array.mem_toList_iff.mp hn')

end ArtifactSource

/-! ## Classes -/

theorem filter_fst_eq_singleton {α β : Type} {key : α → List Char} {value : α → β} {xs : List α}
    (hnodup : (xs.map key).Nodup) {x : α} (hx : x ∈ xs) :
    ((xs.map fun y => (key y, value y)).filter (·.1 = key x)) = [(key x, value x)] := by
  induction xs with
  | nil => cases hx
  | cons y more ih =>
    rw [List.map_cons, List.nodup_cons] at hnodup
    rw [List.map_cons]
    rcases List.mem_cons.mp hx with rfl | hmore
    · have hnone : ((more.map fun y => (key y, value y)).filter (·.1 = key x)) = [] := by
        rw [List.filter_eq_nil_iff, List.forall_mem_map]
        intro y hy heq
        exact hnodup.1 (List.mem_map.mpr ⟨y, hy, of_decide_eq_true heq⟩)
      rw [List.filter_cons_of_pos (by simp), hnone]
    · have hne : key y ≠ key x := fun heq => hnodup.1 (heq ▸ List.mem_map_of_mem hmore)
      rw [List.filter_cons_of_neg (by simpa using hne), ih hnodup.2 hmore]

namespace ArtifactSource

variable {s : ArtifactSource}

theorem mem_declarations_ofClass {c : ClassId} {cls : ClassModel}
    (hcls : s.model.class? c = some cls) :
    ClassDeclaration.ofClass s.model cls ∈ s.declarations.2 := by
  have hperm := DeclarationOrder.filterMap_class?_perm s.model
  exact List.mem_map_of_mem (hperm.mem_iff.mpr
    (Array.mem_toList_iff.mpr (Array.mem_of_getElem? hcls)))

/-- The header defines every class of the model once, as it is declared. -/
theorem isDefinedAs_ofClass (hnames : s.model.NamesDistinct) (hnamed : s.model.IsNamed)
    {c : ClassId} {cls : ClassModel} (hcls : s.model.class? c = some cls)
    {p : List (List Char) → Prop} (hp : p (ClassDeclaration.ofClass s.model cls).body) :
    IsDefinedAs (linesFrom 0 s.headerItems) cls.name.toList p := by
  have hnodup : (s.declarations.2.map (·.name.toList)).Nodup := by
    have hmap := map_name_declarations_perm.nodup_iff.mpr hnames.classes_nodup
    have hlist := hmap.map fun _ _ => String.toList_injective
    rwa [List.map_map] at hlist
  refine ⟨_, ?_, hp⟩
  rw [definedClasses_headerItems (isNamed_declarations hnamed)]
  exact filter_fst_eq_singleton hnodup (mem_declarations_ofClass hcls)

/-! ## Actions -/

/-- Lines that say nothing of an instance. -/
def SaysNothing (line : List Char) : Prop :=
  madeClass? line = none ∧ storedMember? line = none ∧ chosenTag? line = none

theorem saysNothing_braces :
    SaysNothing "        \x7b".toList ∧ SaysNothing "        \x7d".toList := by
  unfold SaysNothing
  decide

/-- An action says nothing of an instance, or makes one in its first statement, of a class that the
header defines, and stores only what is declared there. -/
def UsesDeclared (header action : List (List Char)) : Prop :=
  (∀ line ∈ action, SaysNothing line) ∨
    ∃ opening first rest name, action = opening :: first :: rest ∧ SaysNothing opening ∧
      (madeClass? first = some name ∧ storedMember? first = none ∧ chosenTag? first = none) ∧
      IsDefinedAs header name (isConcrete · = true) ∧
      ∀ line ∈ rest, madeClass? line = none ∧
        (∀ member ∈ storedMember? line, IsDefinedAs header name (member ∈ declaredMembers ·)) ∧
        ∀ choice ∈ chosenTag? line, IsDefinedAs header choice.1 (choice.2 ∈ declaredTags ·)

namespace UsesDeclared

variable {header action : List (List Char)}

theorem made (h : UsesDeclared header action) : ∀ line ∈ action, ∀ name ∈ madeClass? line,
    IsDefinedAs header name (isConcrete · = true) := by
  intro line hline name hname
  rcases h with hnone | ⟨opening, first, rest, made, rfl, hopening, hfirst, hdefined, hrest⟩
  · rw [(hnone line hline).1] at hname
    cases hname
  · rcases List.mem_cons.mp hline with rfl | hline
    · rw [hopening.1] at hname
      cases hname
    rcases List.mem_cons.mp hline with rfl | hline
    · rw [hfirst.1] at hname
      exact Option.some.inj hname ▸ hdefined
    · rw [(hrest line hline).1] at hname
      cases hname

theorem chosen (h : UsesDeclared header action) : ∀ line ∈ action, ∀ choice ∈ chosenTag? line,
    IsDefinedAs header choice.1 (choice.2 ∈ declaredTags ·) := by
  intro line hline choice hchoice
  rcases h with hnone | ⟨opening, first, rest, made, rfl, hopening, hfirst, -, hrest⟩
  · rw [(hnone line hline).2.2] at hchoice
    cases hchoice
  · rcases List.mem_cons.mp hline with rfl | hline
    · rw [hopening.2.2] at hchoice
      cases hchoice
    rcases List.mem_cons.mp hline with rfl | hline
    · rw [hfirst.2.2] at hchoice
      cases hchoice
    · exact (hrest line hline).2.2 choice hchoice

theorem stored (h : UsesDeclared header action) : ∀ before line after,
    action = before ++ line :: after → ∀ member ∈ storedMember? line,
      ∃ name, before.filterMap madeClass? = [name] ∧
        IsDefinedAs header name (member ∈ declaredMembers ·) := by
  intro before line after hsplit member hmember
  rcases h with hnone | ⟨opening, first, rest, made, rfl, hopening, hfirst, -, hrest⟩
  · have hline : line ∈ action := hsplit ▸ List.mem_append_right _ List.mem_cons_self
    rw [(hnone line hline).2.1] at hmember
    cases hmember
  cases before with
  | nil =>
    obtain ⟨rfl, -⟩ := List.cons.inj hsplit
    rw [hopening.2.1] at hmember
    cases hmember
  | cons opening' before =>
    cases before with
    | nil =>
      simp only [List.cons_append, List.nil_append, List.cons.injEq] at hsplit
      obtain ⟨-, rfl, -⟩ := hsplit
      rw [hfirst.2.1] at hmember
      cases hmember
    | cons first' before =>
      simp only [List.cons_append, List.cons.injEq] at hsplit
      obtain ⟨rfl, rfl, rfl⟩ := hsplit
      have hbefore : before.filterMap madeClass? = [] := List.filterMap_eq_nil_iff.mpr
        fun line hline => (hrest line (List.mem_append_left _ hline)).1
      refine ⟨made, ?_, (hrest line (by simp)).2.1 member hmember⟩
      rw [List.filterMap_cons_none hopening.1, List.filterMap_cons_some hfirst.1, hbefore]

end UsesDeclared

/-- An artifact without its notice. -/
def items (s : ArtifactSource) (classes : List ClassDefinition) (blocks : List RuleBlock) :
    ArtifactKind → List Item
  | .classDeclarations => s.headerItems
  | .classDefinitions => s.sourceItems classes
  | .parserGrammar => s.grammarItems blocks
  | .scanner => s.scannerItems

/-- What is known of the model and the productions that artifacts are made from. -/
structure Settled (strict : Prop) (s : ArtifactSource) : Prop where
  model : s.model.WellFormed
  names : s.model.NamesDistinct
  space : Settings.isNamespace s.model.namespaceName = true
  clear : s.productions.SymbolsClear
  catalog_eq : s.catalog = .ofProductions s.productions
  fits : ∀ p ∈ s.productions.productions, p.Fits strict s.model s.productions.nonterminals
  below : ∀ p ∈ s.productions.productions, ∀ t ∈ p.body,
    t.Below s.productions.nonterminals.size

namespace Settled

variable {strict : Prop} {classes : List ClassDefinition} {blocks : List RuleBlock}

theorem named (h : s.Settled strict) : s.model.IsNamed := h.names.isNamed h.space

theorem nonterminals (h : s.Settled strict) :
    ∀ n ∈ s.productions.nonterminals, IsWord n.name.toList :=
  fun n hn => isWord_toList (h.clear.nonterminals n hn)

theorem tokens (h : s.Settled strict) : ∀ e ∈ s.catalog.entries, IsWord e.name.toList :=
  fun e he => isWord_toList (h.clear.tokens e (h.catalog_eq ▸ he))

theorem blocksNamed (h : s.Settled strict) (hblocks : s.ruleBlocks = .ok blocks) :
    ∀ b ∈ blocks, b.IsNamed :=
  isNamed_ruleBlocks h.named h.model h.nonterminals h.tokens h.fits h.below hblocks

/-- The alternatives of the parser grammar are those of its rule blocks. -/
theorem bodies_grammarItems (h : s.Settled strict) (hblocks : s.ruleBlocks = .ok blocks) :
    bodies (linesFrom 0 (s.grammarItems blocks)) = blocks.flatMap fun b =>
      b.alternatives.map fun a => (a.symbols.map String.toList, a.actionLines) := by
  have hnamed := h.blocksNamed hblocks
  rw [bodies, rules_grammarItems hnamed h.named.space, List.flatMap_map]
  exact List.flatMap_congr fun b hb => RuleBlock.alternatives_bodyLines (hnamed b hb)

/-- An alternative comes from a production. -/
theorem exists_of_mem_bodies (h : s.Settled strict) (hblocks : s.ruleBlocks = .ok blocks)
    {body : List (List Char) × List (List Char)}
    (hbody : body ∈ bodies (linesFrom 0 (s.grammarItems blocks))) :
    ∃ a : BlockAlternative, a.IsNamed ∧ s.Sound a.statements ∧
      (∃ p ∈ s.productions.productions, p.body.mapM s.symbolName = .ok a.symbols) ∧
        body = (a.symbols.map String.toList, a.actionLines) := by
  rw [h.bodies_grammarItems hblocks] at hbody
  obtain ⟨b, hb, hbody⟩ := List.mem_flatMap.mp hbody
  obtain ⟨a, ha, rfl⟩ := List.mem_map.mp hbody
  obtain ⟨n, -, hblock⟩ := exists_of_mapM_eq_ok hblocks b hb
  obtain ⟨p, hp, hsymbols, hstatements⟩ := (ruleBlock_eq_ok hblock).2 a ha
  exact ⟨a, (h.blocksNamed hblocks b hb).alternatives a ha,
    statements_sound h.model (h.fits p hp) hstatements, ⟨p, hp, hsymbols⟩, rfl⟩

/-- A statement that is allowed stores what the class declares. -/
theorem read_of_isAllowedBy (h : s.Settled strict) {c : ClassId} {cls : ClassModel}
    (hcls : s.model.class? c = some cls) {st : Statement} (hnamed : st.IsNamed)
    (hmakes : ∀ name, st ≠ .makeNode name)
    (hallowed : st.IsAllowedBy (.ofClass s.model cls)) :
    madeClass? st.line = none ∧
      (∀ member ∈ storedMember? st.line,
        IsDefinedAs (linesFrom 0 s.headerItems) cls.name.toList (member ∈ declaredMembers ·)) ∧
      ∀ choice ∈ chosenTag? st.line,
        IsDefinedAs (linesFrom 0 s.headerItems) choice.1 (choice.2 ∈ declaredTags ·) := by
  have hd := isNamed_declarations h.named _ (mem_declarations_ofClass hcls)
  have hmember : ∀ member ∈ (ClassDeclaration.ofClass s.model cls).members.map (·.2),
      IsDefinedAs (linesFrom 0 s.headerItems) cls.name.toList
        (member.toList ∈ declaredMembers ·) := by
    intro member hmember
    obtain ⟨entry, hentry, rfl⟩ := List.mem_map.mp hmember
    apply isDefinedAs_ofClass h.names h.named hcls
    rw [ClassDeclaration.declaredMembers_body hd]
    exact List.mem_append_right _ (List.mem_map.mpr ⟨entry, hentry, rfl⟩)
  rw [Statement.madeClass?_line hnamed, Statement.storedMember?_line hnamed,
    Statement.chosenTag?_line hnamed]
  cases st with
  | makeNode name => exact absurd rfl (hmakes name)
  | setTag className tag =>
    obtain ⟨rfl, hkind, htag⟩ := hallowed
    have htagged : (ClassDeclaration.ofClass s.model cls).isTagged = true := beq_iff_eq.mpr hkind
    refine ⟨rfl, fun member hmember => ?_, fun choice hchoice => ?_⟩
    · obtain rfl := Option.some.inj hmember
      apply isDefinedAs_ofClass h.names h.named hcls
      rw [ClassDeclaration.declaredMembers_body hd, if_pos htagged]
      exact List.mem_append_left _ (List.mem_singleton_self _)
    · obtain rfl := Option.some.inj hchoice
      apply isDefinedAs_ofClass h.names h.named hcls
      rw [ClassDeclaration.declaredTags_body hd, if_pos htagged]
      exact List.mem_map_of_mem htag
  | setMember member value | appendMember member value =>
    refine ⟨rfl, fun stored hstored => ?_, nofun⟩
    obtain rfl := Option.some.inj hstored
    exact hmember member hallowed
  | _ => exact ⟨rfl, nofun, nofun⟩

/-- Statements that have nothing to do with an instance say nothing of one. -/
theorem saysNothing_line {st : Statement} (hnamed : st.IsNamed)
    (hmakes : ∀ name, st ≠ .makeNode name) (huses : ¬st.UsesNode) : SaysNothing st.line := by
  rw [SaysNothing, Statement.madeClass?_line hnamed, Statement.storedMember?_line hnamed,
    Statement.chosenTag?_line hnamed]
  cases st with
  | makeNode name => exact absurd rfl (hmakes name)
  | setTag | setMember | appendMember => exact absurd trivial huses
  | _ => exact ⟨rfl, rfl, rfl⟩

theorem usesDeclared (h : s.Settled strict) {a : BlockAlternative} (hnamed : a.IsNamed)
    (hsound : s.Sound a.statements) : UsesDeclared (linesFrom 0 s.headerItems) a.actionLines := by
  unfold BlockAlternative.actionLines
  rcases hsound with hnone | ⟨c, cls, rest, hcls, hkind, hstatements, hrest, hallowed⟩
  · refine .inl ?_
    split
    · exact List.forall_mem_nil _
    · refine List.forall_mem_cons.mpr ⟨saysNothing_braces.1, List.forall_mem_append.mpr
        ⟨List.forall_mem_map.mpr fun st hst => ?_,
          List.forall_mem_singleton.mpr saysNothing_braces.2⟩⟩
      exact saysNothing_line (hnamed.statements st hst) (hnone st hst).1 (hnone st hst).2
  · have hstatementsNamed := hstatements ▸ hnamed.statements
    obtain ⟨hfirst, hrestNamed⟩ := List.forall_mem_cons.mp hstatementsNamed
    have hd := isNamed_declarations h.named _ (mem_declarations_ofClass hcls)
    rw [if_neg (hstatements ▸ List.cons_ne_nil _ _), hstatements, List.map_cons, List.cons_append]
    refine .inr ⟨_, _, _, cls.name.toList, rfl, saysNothing_braces.1, ⟨?_, ?_, ?_⟩, ?_,
      List.forall_mem_append.mpr ⟨List.forall_mem_map.mpr fun st hst => ?_,
        List.forall_mem_singleton.mpr ?_⟩⟩
    · exact Statement.madeClass?_line hfirst
    · exact Statement.storedMember?_line hfirst
    · exact Statement.chosenTag?_line hfirst
    · apply isDefinedAs_ofClass h.names h.named hcls
      rw [ClassDeclaration.isConcrete_body hd]
      exact decide_eq_true hkind
    · exact h.read_of_isAllowedBy hcls (hrestNamed st hst) (fun name heq => hrest name (heq ▸ hst))
        (hallowed st hst)
    · obtain ⟨hmade, hstored, hchosen⟩ := saysNothing_braces.2
      rw [hmade, hstored, hchosen]
      exact ⟨rfl, nofun, nofun⟩

theorem symbols (h : s.Settled strict) (hblocks : s.ruleBlocks = .ok blocks) :
    ∀ body ∈ bodies (linesFrom 0 (s.grammarItems blocks)), ∀ symbol ∈ body.1,
      symbol ∈ (linesFrom 0 (s.grammarItems blocks)).filterMap declaredToken? ∨
        ((rules (linesFrom 0 (s.grammarItems blocks))).map (·.1)).count symbol = 1 := by
  have hnamed := h.blocksNamed hblocks
  have hnames : blocks.map (·.name) = s.productions.nonterminals.toList.map (·.name) :=
    map_eq_of_mapM_eq_ok (fun n b hn => (ruleBlock_eq_ok hn).1) hblocks
  intro body hbody symbol hsymbol
  obtain ⟨a, -, -, ⟨p, hp, hsymbols⟩, rfl⟩ := h.exists_of_mem_bodies hblocks hbody
  obtain ⟨name, hname, rfl⟩ := List.mem_map.mp hsymbol
  obtain ⟨t, ht, hterm⟩ := exists_of_mapM_eq_ok hsymbols name hname
  rw [filterMap_declaredToken?_grammarItems hnamed h.tokens h.named.space,
    rules_grammarItems hnamed h.named.space, List.map_map]
  rcases symbolName_mem (h.below p hp t ht) hterm with htoken | hnonterminal
  · obtain ⟨e, he, rfl⟩ := List.mem_map.mp htoken
    exact .inl (List.mem_map.mpr ⟨e, he, rfl⟩)
  · refine .inr ?_
    have hnodup : (blocks.map (·.name)).Nodup := by
      rw [hnames]
      exact (List.nodup_append.mp h.clear.distinct).1
    have hlist := hnodup.map fun _ _ => String.toList_injective
    rw [List.map_map] at hlist
    refine List.count_eq_one_of_mem hlist ?_
    rw [← hnames] at hnonterminal
    obtain ⟨b, hb, rfl⟩ := List.mem_map.mp hnonterminal
    exact List.mem_map.mpr ⟨b, hb, rfl⟩

/-- What the definition of a class says of its members and tags. -/
theorem definition_fits (h : s.Settled strict) (hclasses : s.definitions = .ok classes)
    {d : ClassDefinition} (hd : d ∈ classes) :
    IsDefinedAs (linesFrom 0 s.headerItems) d.name.toList fun body =>
      declaredMembers body =
          (if d.tags = [] then [] else ["tag".toList]) ++ d.fields.map (·.name.toList) ∧
        declaredTags body = d.tags.map String.toList := by
  obtain ⟨c, cls, hcls, hvariants, rfl⟩ := mem_definitions hclasses hd
  have hdeclaration := isNamed_declarations h.named _ (mem_declarations_ofClass hcls)
  have htags : (if cls.kind = .tagged then cls.variants.map (·.tag) else []) = [] ↔
      ¬cls.kind = .tagged := by
    split
    · next hkind => simpa [hkind] using hvariants hkind
    · next hkind => simp [hkind]
  have htagged : (ClassDeclaration.ofClass s.model cls).isTagged = true ↔ cls.kind = .tagged :=
    beq_iff_eq
  apply isDefinedAs_ofClass h.names h.named hcls
  rw [ClassDeclaration.declaredMembers_body hdeclaration,
    ClassDeclaration.declaredTags_body hdeclaration]
  dsimp only
  by_cases hkind : cls.kind = .tagged
  · rw [if_pos (htagged.mpr hkind), if_pos (htagged.mpr hkind),
      if_neg (mt htags.mp (not_not_intro hkind)),
      if_pos hkind]
    simp [ClassDeclaration.ofClass]
  · rw [if_neg (mt htagged.mp hkind), if_neg (mt htagged.mp hkind), if_pos (htags.mpr hkind),
      if_neg hkind]
    simp [ClassDeclaration.ofClass]

theorem artifactsFit (h : s.Settled strict) (hclasses : s.definitions = .ok classes)
    (hblocks : s.ruleBlocks = .ok blocks) :
    ArtifactsFit (fun kind => linesFrom 0 (s.items classes blocks kind))
        s.model.namespaceName s.catalog := by
  have hnamed := h.blocksNamed hblocks
  have hdefinitions := isNamed_definitions h.named hclasses
  have huses : ∀ body ∈ bodies (linesFrom 0 (s.grammarItems blocks)),
      UsesDeclared (linesFrom 0 s.headerItems) body.2 := by
    intro body hbody
    obtain ⟨a, ha, hsound, -, rfl⟩ := h.exists_of_mem_bodies hblocks hbody
    exact h.usesDeclared ha hsound
  constructor
  case made => exact fun body hbody => (huses body hbody).made
  case stored => exact fun body hbody => (huses body hbody).stored
  case chosen => exact fun body hbody => (huses body hbody).chosen
  case constructed =>
    dsimp only [items]
    rw [filterMap_constructor?_sourceItems hdefinitions]
    refine List.forall_mem_map.mpr fun d hd => ?_
    obtain ⟨body, hbody, hmembers, htags⟩ := h.definition_fits hclasses hd
    refine ⟨body, hbody, ?_, fun tag htag => ?_⟩
    · rw [ClassDefinition.initialized_constructorRest (hdefinitions d hd), hmembers]
    · rw [ClassDefinition.initialTag?_constructorRest (hdefinitions d hd)] at htag
      obtain ⟨name, hname, rfl⟩ := Option.map_eq_some_iff.mp htag
      rw [htags]
      exact List.mem_map_of_mem (List.mem_of_head? hname)
  case merged =>
    dsimp only [items]
    rw [merges_sourceItems hdefinitions]
    intro definition hmem
    obtain ⟨d, hd, hmem⟩ := List.mem_flatMap.mp hmem
    split at hmem
    · cases hmem
    obtain rfl := List.mem_singleton.mp hmem
    obtain ⟨body, hbody, hmembers, -⟩ := h.definition_fits hclasses hd
    refine ⟨body, hbody, fun line hline => ?_⟩
    obtain ⟨f, hf, hline⟩ := List.mem_flatMap.mp hline
    refine (ClassDefinition.mergesMember_of_mem_mergeLines hline).imp_right fun hmerges =>
      ⟨_, ?_, hmerges⟩
    rw [hmembers]
    exact List.mem_append_right _ (List.mem_map.mpr ⟨f, (List.mem_filter.mp hf).1, rfl⟩)
  case named =>
    dsimp only [items]
    rw [tagNames_sourceItems hdefinitions h.named.space]
    intro definition hmem
    obtain ⟨d, hd, hmem⟩ := List.mem_flatMap.mp hmem
    split at hmem
    · obtain rfl := List.mem_singleton.mp hmem
      obtain ⟨body, hbody, -, htags⟩ := h.definition_fits hclasses hd
      exact ⟨body, hbody, (ClassDefinition.caseTags_tagNameLines (hdefinitions d hd)).trans
        htags.symm⟩
    · cases hmem
  case symbols => exact h.symbols hblocks
  case tokens => exact filterMap_declaredToken?_grammarItems hnamed h.tokens h.named.space
  case returned => exact filterMap_returnedToken?_scannerItems h.tokens h.named.space

/-- The classes of which the statements of an action make instances. -/
theorem filterMap_made?_statements {p : Production} {statements : List Statement}
    (h : s.statements p = .ok statements) :
    statements.filterMap Statement.made? = (p.action.madeClass?.map s.model.className).toList := by
  unfold ArtifactSource.statements at h
  cases haction : p.action with
  | construct c steps =>
    simp only [haction] at h
    obtain rfl := Except.ok.inj h
    have hsteps : (steps.map s.model.stepStatement).filterMap Statement.made? = [] := by
      rw [List.filterMap_eq_nil_iff, List.forall_mem_map]
      intro step _
      have hne := fun name => makeNode_ne_stepStatement s.model name step
      cases hstep : s.model.stepStatement step with
      | makeNode name => exact absurd hstep (hne name)
      | _ => rfl
    rw [List.filterMap_append, List.filterMap_append, hsteps]
    rfl
  | choose c index payload =>
    simp only [haction] at h
    split at h
    · cases h
    · next variant _ =>
      obtain rfl := Except.ok.inj h
      cases variant.payload <;> cases payload <;> rfl
  | forward position =>
    simp only [haction] at h
    obtain ⟨type, -, h⟩ := except_bind_eq_ok h
    obtain rfl := Except.ok.inj h
    split <;> rfl
  | absent | emptyList =>
    simp only [haction] at h
    obtain ⟨type, -, h⟩ := except_bind_eq_ok h
    obtain rfl := Except.ok.inj h
    rfl
  | nothing | prepend | singleton | accept =>
    simp only [haction] at h
    obtain rfl := Except.ok.inj h
    rfl

/-- The instances an action makes are read off its lines. -/
theorem filterMap_madeClass?_actionLines {a : BlockAlternative} (h : a.IsNamed) :
    a.actionLines.filterMap ArtifactText.madeClass? =
      (a.statements.filterMap Statement.made?).map String.toList := by
  obtain ⟨⟨hopening, -⟩, hclosing, -⟩ := saysNothing_braces
  unfold BlockAlternative.actionLines
  split
  · next hempty => rw [hempty, List.filterMap_nil, List.filterMap_nil, List.map_nil]
  · rw [List.filterMap_cons_none hopening, List.filterMap_append,
      List.filterMap_cons_none hclosing, List.filterMap_nil, List.append_nil, List.filterMap_map,
      List.map_filterMap]
    exact List.filterMap_congr fun st hst => Statement.madeClass?_line (h.statements st hst)

theorem artifactsCover (h : s.Settled strict) (hclasses : s.definitions = .ok classes)
    (hblocks : s.ruleBlocks = .ok blocks) :
    ArtifactsCover (fun kind => linesFrom 0 (s.items classes blocks kind)) s.model
      s.productions := by
  have hnamed := h.blocksNamed hblocks
  have hheader := definedClasses_headerItems (isNamed_declarations h.named)
  let said (a : BlockAlternative) : Nat × List (List Char) :=
    (a.symbols.length, (a.statements.filterMap Statement.made?).map String.toList)
  constructor
  case classes =>
    dsimp only [items]
    rw [hheader, List.map_map]
    have hperm := (map_name_declarations_perm (s := s)).map String.toList
    rwa [List.map_map, List.map_map] at hperm
  case constructors =>
    dsimp only [items]
    rw [hheader, filterMap_constructor?_sourceItems (isNamed_definitions h.named hclasses),
      List.map_map, List.map_map]
    have hnames : classes.map (·.name.toList) =
        ((DeclarationOrder.ofModel s.model).classes.filterMap s.model.class?).map
          (·.name.toList) := by
      refine map_eq_of_mapM_eq_ok (fun cls d hd => ?_) hclasses
      unfold ClassDefinition.ofClass at hd
      split at hd
      · cases hd
      · exact Except.ok.inj hd ▸ rfl
    refine hnames.trans ?_
    rw [declarations, List.map_map]
    rfl
  case rules =>
    dsimp only [items]
    rw [rules_grammarItems hnamed h.named.space, List.map_map]
    exact map_eq_of_mapM_eq_ok (fun n b hn => congrArg String.toList (ruleBlock_eq_ok hn).1) hblocks
  case bodies =>
    dsimp only [items]
    rw [h.bodies_grammarItems hblocks, List.map_flatMap, List.flatMap_def, List.flatMap_def]
    refine congrArg List.flatten ((List.map_congr_left fun b hb => ?_).trans
      (map_eq_of_mapM_eq_ok (k := fun b : RuleBlock => b.alternatives.map said)
        (fun n b hn => ?_) hblocks))
    · rw [List.map_map]
      refine List.map_congr_left fun a ha => ?_
      rw [Function.comp_apply, filterMap_madeClass?_actionLines ((hnamed b hb).alternatives a ha),
        List.length_map]
    · refine map_eq_of_mapM_eq_ok (fun p a ha => ?_) (ruleBlock_parts hn).2
      obtain ⟨hsymbols, hstatements⟩ := blockAlternative_parts ha
      have hlength := congrArg List.length
        (map_eq_of_mapM_eq_ok (g := fun _ => ()) (k := fun _ => ()) (fun _ _ _ => rfl) hsymbols)
      rw [List.length_map, List.length_map] at hlength
      dsimp only [said]
      rw [hlength, filterMap_made?_statements hstatements]
      cases p.action.madeClass? <;> rfl

end Settled

/-! ## From the items to the texts -/

theorem layout_eq {classes : List ClassDefinition} {blocks : List RuleBlock}
    (hclasses : s.definitions = .ok classes) (hblocks : s.ruleBlocks = .ok blocks)
    (kind : ArtifactKind) :
    s.layout kind = .ok (s.opening kind.commentStyle ++ s.items classes blocks kind) := by
  cases kind with
  | classDeclarations => exact congrArg Except.ok s.declarationLayout_eq
  | classDefinitions => exact definitionLayout_eq hclasses
  | parserGrammar => exact grammarLayout_eq hblocks
  | scanner => exact congrArg Except.ok s.scannerLayout_eq

theorem linesFrom_items_ne_nil (classes : List ClassDefinition) (blocks : List RuleBlock)
    (kind : ArtifactKind) : linesFrom 0 (s.items classes blocks kind) ≠ [] := by
  cases kind <;> exact linesFrom_line_ne_nil _ _ _

theorem Settled.isPlain_items {strict : Prop} {classes : List ClassDefinition}
    {blocks : List RuleBlock} (h : s.Settled strict) (hclasses : s.definitions = .ok classes)
    (hblocks : s.ruleBlocks = .ok blocks) (kind : ArtifactKind) :
    ∀ item ∈ s.items classes blocks kind, item.IsPlain := by
  obtain ⟨n, hn, -⟩ := h.clear.start
  have hstart : (s.productions.nonterminal s.productions.start).name = n.name := by
    rw [ProductionSet.nonterminal, Array.getD_eq_getD_getElem?, hn]
    rfl
  cases kind with
  | classDeclarations =>
    exact isPlain_headerItems (isNamed_declarations h.named)
      (List.forall_mem_map.mpr fun c _ => h.named.className c) h.named.space
  | classDefinitions =>
    exact isPlain_sourceItems (isNamed_definitions h.named hclasses) h.named.space
  | parserGrammar =>
    exact isPlain_grammarItems (h.blocksNamed hblocks) h.tokens h.named.contentType
      h.nonterminals (hstart ▸ (h.nonterminals n (Array.mem_of_getElem? hn)).isType) h.named.space
  | scanner => exact isPlain_scannerItems h.tokens h.named.space

/-- The artifacts of a run are those of all kinds; each begins with its notice, and behind it stand
the lines of its items. -/
theorem Settled.code_eq {strict : Prop} {classes : List ClassDefinition}
    {blocks : List RuleBlock} (h : s.Settled strict) (hclasses : s.definitions = .ok classes)
    (hblocks : s.ruleBlocks = .ok blocks) {artifacts : List Artifact}
    (hartifacts : s.writeAll = .ok artifacts) :
    artifacts.map (·.kind) = ArtifactKind.all ∧
      (∀ a ∈ artifacts, s.front a.kind.commentStyle <+: a.text.toList) ∧
      s.code artifacts = fun kind => linesFrom 0 (s.items classes blocks kind) := by
  let written (kind : ArtifactKind) : Artifact := ⟨kind, s.fileName kind,
    render (s.opening kind.commentStyle ++ s.items classes blocks kind)⟩
  have hwrite (kind : ArtifactKind) : s.write kind = .ok (written kind) := by
    rw [write, layout_eq hclasses hblocks]
    rfl
  have htext (kind : ArtifactKind) := codeLines_render_opening (s := s) kind.commentStyle
    (h.isPlain_items hclasses hblocks kind) (linesFrom_items_ne_nil classes blocks kind)
  obtain rfl : ArtifactKind.all.map written = artifacts := by
    apply Except.ok.inj
    rw [← hartifacts, writeAll, attempts, List.map_congr_left fun kind _ => hwrite kind]
    rfl
  refine ⟨rfl, List.forall_mem_map.mpr fun kind _ => (htext kind).1, funext fun kind => ?_⟩
  rw [← (htext kind).2]
  cases kind <;> rfl

end ArtifactSource

namespace GenerationOptions

variable {o : GenerationOptions} {source : List Char}

/-- What a run that succeeds went through. -/
theorem generate_eq_ok {g : Generated} (h : (o.generate source).result = .ok g) :
    ∃ m set, (o.frontEnd source).result = .ok m ∧ (o.lower m).result = .ok set ∧
      (o.artifactSource m set).writeAll = .ok g.artifacts := by
  rw [generate_result, Outcome.bind_result_eq_ok] at h
  obtain ⟨m, hm, h⟩ := h
  rw [backEnd, Outcome.bind_result_eq_ok] at h
  obtain ⟨set, hset, h⟩ := h
  refine ⟨m, set, hm, hset, ?_⟩
  dsimp only at h
  split at h
  · cases h
  · simp only [Outcome.bind_result_eq_ok] at h
    obtain ⟨_, -, artifacts, hartifacts, h⟩ := h
    obtain rfl := Except.ok.inj h
    exact Outcome.ofStage_result_eq_ok.mp hartifacts

/-- If warnings do not count as errors, a run succeeds with whatever the front end accepts. -/
theorem exists_generate {m : GrammarModel} (hm : (o.frontEnd source).result = .ok m)
    (hwarnings : o.warningsAsErrors = false) : ∃ g, (o.generate source).result = .ok g := by
  have hsettled := frontEnd_settled hm
  obtain ⟨set, hset⟩ := exists_lower hm
  obtain ⟨hfits, -, hproductive⟩ := GrammarModel.lower_fits (frontEnd_numbered hm)
    hsettled.owned hsettled.rules (Outcome.ofStage_result_eq_ok.mp hset)
  have hbackEnd := @backEnd_result o source m set hset
    ((o.artifactSource m set).write_succeeds hsettled.tags rfl hfits hproductive)
  rw [if_neg (by simp [hwarnings])] at hbackEnd
  obtain ⟨g, hg⟩ := hbackEnd
  exact ⟨g, by rw [generate_result, Outcome.bind_result, hm]; exact hg⟩

/-- The four artifacts of every run that succeeds fit together. -/
theorem generate_artifactsFit {g : Generated} (h : (o.generate source).result = .ok g) :
    ∃ m set, (o.frontEnd source).result = .ok m ∧ (o.lower m).result = .ok set ∧
      let s := o.artifactSource m set
      g.artifacts.map (·.kind) = ArtifactKind.all ∧
        (∀ a ∈ g.artifacts, s.front a.kind.commentStyle <+: a.text.toList) ∧
        ArtifactsFit (s.code g.artifacts) m.namespaceName (.ofProductions set) ∧
        ArtifactsCover (s.code g.artifacts) m set := by
  obtain ⟨m, set, hm, hset, hartifacts⟩ := generate_eq_ok h
  have hsettled := frontEnd_settled hm
  obtain ⟨tokens, -, grammar, hgrammar, hmodel⟩ := frontEnd_eq_ok.mp hm
  have hparsed := TokenStream.isParsed_of_parse hgrammar
  have hlowered := Outcome.ofStage_result_eq_ok.mp hset
  obtain ⟨hfits, hbelow, hproductive⟩ := GrammarModel.lower_fits (frontEnd_numbered hm)
    hsettled.owned hsettled.rules hlowered
  obtain ⟨classes, hclasses⟩ :=
    ArtifactSource.definitions_succeed (s := o.artifactSource m set) hsettled.tags
  obtain ⟨blocks, hblocks⟩ :=
    ArtifactSource.ruleBlocks_succeed (s := o.artifactSource m set) rfl hfits hproductive
  have hknown : (o.artifactSource m set).Settled _ :=
    { model := Grammar.buildModel_wellFormed hparsed hmodel
      names := Grammar.buildModel_namesDistinct hparsed hmodel
      space := Grammar.buildModel_isNamespace hparsed hmodel
      clear := (frontEnd_rulesNamed hm).symbolsClear hlowered
      catalog_eq := rfl
      fits := hfits
      below := hbelow }
  obtain ⟨hkinds, hfronts, hcode⟩ := hknown.code_eq hclasses hblocks hartifacts
  refine ⟨m, set, hm, hset, hkinds, hfronts, ?_, ?_⟩
  · rw [hcode]
    exact hknown.artifactsFit hclasses hblocks
  · rw [hcode]
    exact hknown.artifactsCover hclasses hblocks

/-- A class with a list of tagged values and a field that is stored directly. -/
theorem generate_artifactsFit_class_and_union : ∃ (o : GenerationOptions) (g : Generated),
    (o.generate "@class(C)S=\"s\"@field(name) T+;T=\"a\"|<number>;".toList).result = .ok g ∧
      ∃ m set, (o.frontEnd
          "@class(C)S=\"s\"@field(name) T+;T=\"a\"|<number>;".toList).result = .ok m ∧
        (o.lower m).result = .ok set ∧
        let s := o.artifactSource m set
        g.artifacts.map (·.kind) = ArtifactKind.all ∧
          (∀ a ∈ g.artifacts, s.front a.kind.commentStyle <+: a.text.toList) ∧
          ArtifactsFit (s.code g.artifacts) m.namespaceName (.ofProductions set) ∧
          ArtifactsCover (s.code g.artifacts) m set := by
  let o : GenerationOptions := ⟨default, "sample", false, default⟩
  have hok : (o.frontEnd
      "@class(C)S=\"s\"@field(name) T+;T=\"a\"|<number>;".toList).result.isOk = true := by
    decide +kernel
  obtain ⟨m, hm⟩ := Outcome.exists_of_isOk hok
  obtain ⟨g, hg⟩ := exists_generate hm rfl
  exact ⟨o, g, hg, generate_artifactsFit hg⟩

end GenerationOptions

end AnnotatedGrammar
