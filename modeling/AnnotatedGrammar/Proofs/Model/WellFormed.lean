import AnnotatedGrammar.Proofs.Analysis.Bases
import AnnotatedGrammar.Proofs.Analysis.RuleSteps
import AnnotatedGrammar.Proofs.Generation

/-!
# Models are well formed

In a model, classes, fields and rules refer to each other by index, and expressions are referred to
by number. Every such reference leads somewhere, fields and variants stand where they belong, and
no rule shares its class with another one.
-/

namespace AnnotatedGrammar

namespace GrammarModel

/-- An expression occurs in a rule body. -/
def Occurs (m : GrammarModel) (e : Expr) : Prop := ∃ rule ∈ m.grammar.rules, e ∈ rule.body.preorder

/-- A number is that of an expression in a rule body. -/
def HasNode (m : GrammarModel) (id : NodeId) : Prop := ∃ e, m.Occurs e ∧ e.id = id

/-- The class of a type, if it is one, is in the model. -/
def Knows (m : GrammarModel) : ElementType → Prop
  | .primitive _ => True
  | .instance c => c < m.classes.size

/-- What a class was made for is in the grammar. -/
def HasOrigin (m : GrammarModel) : ClassOrigin → Prop
  | .rule r => r < m.rules.size
  | .node id | .synthesized id => m.HasNode id

/-- The base of a class, if there is a class and it has one. -/
def base? (m : GrammarModel) (c : ClassId) : Option ClassId := (m.class? c).bind (·.base)

theorem hasBase_iff {m : GrammarModel} {c b : ClassId} : m.HasBase c b ↔ m.base? c = some b := by
  rw [HasBase, base?, Option.bind_eq_some_iff]

/-- A rule refers to classes that are there. -/
structure RuleFits (m : GrammarModel) (r : RuleId) (rule : RuleModel) : Prop where
  id_eq : rule.id = r
  role : ∀ c, rule.role.class? = some c → c < m.classes.size
  value : ∀ v, rule.value = some v → m.Knows v.element

/-- A class refers to what is there, and has what its kind allows. -/
structure ClassFits (m : GrammarModel) (c : ClassId) (cls : ClassModel) : Prop where
  id_eq : cls.id = c
  base : ∀ b, cls.base = some b → ∃ base, m.class? b = some base ∧ base.kind = .abstract
  fields : ∀ f ∈ cls.fields, f < m.fields.size
  variants : ∀ v ∈ cls.variants, m.HasNode v.node ∧ ∀ f, v.payload = some f → f ∈ cls.fields
  /-- A key always holds one value. -/
  key : ∀ f, cls.key = some f →
    f ∈ cls.fields ∧ ∃ fld, m.field? f = some fld ∧ fld.cardinality = .scalar
  origin : m.HasOrigin cls.origin
  bare : cls.kind = .abstract → cls.fields = [] ∧ cls.variants = [] ∧ cls.key = none
  untagged : cls.kind ≠ .tagged → cls.variants = []
  /-- Variants stand for the branches of an alternation, in the same order. -/
  branches : cls.kind = .tagged → ∃ info branches, m.Occurs (.alternation info branches) ∧
    cls.variants.map (·.node) = branches.map (·.id)
  /-- Every field is the payload of one variant, and may be absent. -/
  payloads : cls.kind = .tagged → ∀ f ∈ cls.fields,
    cls.variants.countP (fun v => v.payload == some f) = 1 ∧
      ∃ fld, m.field? f = some fld ∧ (fld.cardinality = .optional ∨ fld.cardinality = .list)

/-- A field belongs to its owner alone, and is filled by an expression at least. -/
structure FieldFits (m : GrammarModel) (f : FieldId) (fld : FieldModel) : Prop where
  id_eq : fld.id = f
  owner : fld.owner < m.classes.size
  listed : ∀ c cls, m.class? c = some cls → cls.fields.count f = if fld.owner = c then 1 else 0
  element : m.Knows fld.element
  filled : fld.nodes ≠ []
  nodes : ∀ id ∈ fld.nodes, m.HasNode id

/-- What is known about expressions refers to what is there. -/
structure NodesFit (m : GrammarModel) : Prop where
  /-- The numbers in use are those below the number of expressions. -/
  numbered : ∀ id, m.HasNode id ↔ id < m.grammar.nodeCount
  values : ∀ id v, m.nodeValues.get? id = some v →
    m.HasNode id ∧ ∀ w, v = some w → m.Knows w.element
  fields : ∀ id f, m.nodeFields.get? id = some f →
    m.HasNode id ∧ ∃ fld, m.field? f = some fld ∧ id ∈ fld.nodes
  classes : ∀ id c, m.nodeClasses.get? id = some c → m.HasNode id ∧ c < m.classes.size
  paths : ∀ id path, m.nodePaths.get? id = some path → m.HasNode id

/-- Every reference leads somewhere, and everything stands where it belongs. -/
structure WellFormed (m : GrammarModel) : Prop where
  rules_size : m.rules.size = m.grammar.rules.size
  start_lt : m.start < m.rules.size
  symbols : ∀ name r, m.symbols.resolve? name = some (.rule r) → r < m.rules.size
  references : ∀ info name, m.Occurs (.reference info name) → (m.symbols.resolve? name).isSome
  rules : ∀ (r : RuleId) rule, m.rule? r = some rule → m.RuleFits r rule
  classes : ∀ (c : ClassId) cls, m.class? c = some cls → m.ClassFits c cls
  fields : ∀ (f : FieldId) fld, m.field? f = some fld → m.FieldFits f fld
  nodes : m.NodesFit
  /-- Whoever follows bases comes to a class without one. -/
  bases_end : ∀ c, ∃ n, (fun c => c.bind m.base?)^[n] (some c) = none
  roles_inj : ∀ (r r' : RuleId) rule rule' c, m.rule? r = some rule → m.rule? r' = some rule' →
    rule.role.class? = some c → rule'.role.class? = some c → r = r'

end GrammarModel

/-! ## The numbers of expressions -/

namespace Expr

/-- There is a place for every expression. -/
theorem map_fst_paths : (∀ (path : String) (e : Expr), (e.paths path).map (·.1) = e.ids) ∧
    ∀ (step : String) (number : Nat) (es : List Expr),
      (pathsOfAll step number es).map (·.1) = idsAll es := by
  apply paths.mutual_induct
  case case1 | case2 =>
    intros
    rfl
  case case3 | case4 =>
    intro path info items ih
    rw [paths, ids_eq, List.map_cons, ih]
    rfl
  case case5 | case7 =>
    intro path info body ih
    rw [paths, ids_eq, List.map_cons, ih]
    simp [id, Expr.info]
  case case6 =>
    intro path info body kind ih
    rw [paths, ids_eq, List.map_cons, ih]
    simp [id, Expr.info]
  case case8 =>
    intros
    rfl
  case case9 =>
    intro step number e rest ih ihrest
    rw [pathsOfAll, List.map_append, ih, ihrest, idsAll_cons]

end Expr

namespace Grammar

variable {grammar : Grammar} {preferences : ModelPreferences} {overrides : Overrides}

/-- A recorded place is that of an expression in a rule body. -/
theorem mem_paths {id : NodeId} {path : String} (h : grammar.paths.get? id = some path) :
    (id, path) ∈ grammar.rules.toList.flatMap fun rule => rule.body.paths "" := by
  have hinserted (entries : List (NodeId × String)) (table : NodeTable String)
      (hget : (entries.foldl (fun table entry => table.insert entry.1 entry.2) table).get? id =
        some path) : (id, path) ∈ entries ∨ table.get? id = some path := by
    induction entries generalizing table with
    | nil => exact .inr hget
    | cons entry rest ih =>
      rcases ih _ hget with hmem | hmem
      · exact .inl (List.mem_cons_of_mem _ hmem)
      · rw [NodeTable.get?_insert] at hmem
        split at hmem
        · rename_i heq
          obtain rfl := Option.some.inj hmem
          exact .inl (heq ▸ List.mem_cons_self)
        · exact .inr hmem
  rcases hinserted _ _ h with hmem | hnone
  · exact hmem
  · rw [NodeTable.get?_empty] at hnone
    cases hnone

/-- Whatever has a place occurs in a rule body. -/
theorem mem_ids_of_paths {id : NodeId} {path : String} (h : grammar.paths.get? id = some path) :
    id ∈ grammar.rules.toList.flatMap fun rule => rule.body.ids := by
  have hmem := List.mem_map_of_mem (f := (·.1)) (mem_paths h)
  rw [List.map_flatMap] at hmem
  simpa only [Expr.map_fst_paths.1] using hmem

theorem hasNode_iff {m : GrammarModel} {id : NodeId} :
    m.HasNode id ↔ id ∈ m.grammar.rules.toList.flatMap fun rule => rule.body.ids := by
  simp only [GrammarModel.HasNode, GrammarModel.Occurs, Expr.ids, List.mem_flatMap, List.mem_map,
    Array.mem_toList_iff]
  constructor
  · rintro ⟨e, ⟨rule, hrule, he⟩, rfl⟩
    exact ⟨rule, hrule, e, he, rfl⟩
  · rintro ⟨rule, hrule, e, he, rfl⟩
    exact ⟨e, ⟨rule, hrule, he⟩, rfl⟩

/-! ## The parts of a model -/

theorem model_knows {element : ElementType}
    (h : (grammar.draft preferences overrides).draft.tables.Knows element) :
    ((grammar.draft preferences overrides).model grammar).Knows element := by
  cases element with
  | primitive => trivial
  | «instance» c => exact h

variable (hfinished : (grammar.draft preferences overrides).draft.tables.Finished
  (grammar.scope preferences overrides))

include hfinished

theorem model_classFits
    (htags : ((grammar.draft preferences overrides).model grammar).TagsHaveVariants)
    (hrules : ((grammar.draft preferences overrides).model grammar).rules.size = grammar.rules.size)
    {c : ClassId} {cls : ClassModel}
    (hcls : ((grammar.draft preferences overrides).model grammar).class? c = some cls) :
    ((grammar.draft preferences overrides).model grammar).ClassFits c cls := by
  have hrange := hfinished.inRange.classes c cls hcls
  have hsuits := hfinished.linked.suits c cls hcls
  have hkeyed := hfinished.keyed c cls hcls
  have hbare (hkind : cls.kind = .abstract) : cls.variants = [] :=
    hsuits.untagged (by rw [hkind]; simp)
  refine ⟨hrange.id_eq, fun b hb => hrange.base b hb, hrange.fields, fun v hv => ⟨hrange.nodes v hv,
    fun f hf => ?_⟩, hkeyed, ?_, fun hkind => ⟨hsuits.bare hkind, hbare hkind, ?_⟩, hsuits.untagged,
    fun hkind => ?_, fun hkind f hf => ?_⟩
  · by_cases hkind : cls.kind = .tagged
    · rw [hsuits.payloads hkind]
      exact List.mem_filterMap.mpr ⟨v, hv, hf⟩
    · rw [hsuits.untagged hkind] at hv
      cases hv
  · have horigin := hrange.origin
    cases horigin' : cls.origin with
    | rule r =>
      rw [horigin'] at horigin
      change r < _
      rw [hrules]
      exact horigin
    | node | synthesized =>
      rw [horigin'] at horigin
      exact horigin
  · by_contra hkey
    obtain ⟨f, hf⟩ := Option.ne_none_iff_exists'.mp hkey
    have hmem := (hkeyed f hf).1
    rw [hsuits.bare hkind] at hmem
    cases hmem
  · rcases hfinished.linked.branches c cls hcls with hnone | hbranches
    · exact absurd hnone (htags c cls hcls hkind)
    · exact hbranches
  · obtain ⟨fld, hfld, howner⟩ := hfinished.linked.fields.owned c cls hcls f hf
    have hcardinality := hfinished.linked.payloads.cardinality f fld hfld
      (howner ▸ ⟨cls, hcls, hkind⟩)
    refine ⟨?_, fld, hfld, ?_⟩
    · have hcount := List.count_eq_one_of_mem (hfinished.linked.fields.nodup c cls hcls) hf
      rwa [hsuits.payloads hkind, List.count_filterMap] at hcount
    · cases hscalar : fld.cardinality with
      | scalar => exact absurd hscalar hcardinality
      | optional => exact .inl rfl
      | list => exact .inr rfl

theorem model_fieldFits {f : FieldId} {fld : FieldModel}
    (hfld : ((grammar.draft preferences overrides).model grammar).field? f = some fld) :
    ((grammar.draft preferences overrides).model grammar).FieldFits f fld := by
  have hrange := hfinished.inRange.fields f fld hfld
  refine ⟨hrange.id_eq, hrange.owner, fun c cls hcls => ?_, model_knows hrange.element,
    hfinished.linked.fields.filled f fld hfld, hrange.nodes⟩
  split
  · rename_i howner
    obtain ⟨cls', hcls', hmem⟩ := hfinished.linked.fields.listed f fld hfld
    rw [howner] at hcls'
    obtain rfl := Option.some.inj (hcls'.symm.trans hcls)
    exact List.count_eq_one_of_mem (hfinished.linked.fields.nodup c cls' hcls) hmem
  · rename_i howner
    refine List.count_eq_zero.mpr fun hmem => howner ?_
    obtain ⟨fld', hfld', howner'⟩ := hfinished.linked.fields.owned c cls hcls f hmem
    rwa [Option.some.inj (hfld'.symm.trans hfld)] at howner'

theorem model_nodesFit (hparsed : grammar.IsParsed) :
    ((grammar.draft preferences overrides).model grammar).NodesFit where
  numbered id := by
    rw [hasNode_iff]
    change id ∈ grammar.rules.toList.flatMap _ ↔ _
    rw [hparsed.numbered, List.mem_range]
    rfl
  values id v hv := by
    obtain ⟨hnode, hholds⟩ := hfinished.inRange.values id v hv
    exact ⟨hnode, fun w hw => model_knows (hholds w hw)⟩
  fields id f hf :=
    ⟨(hfinished.inRange.nodeFields id f hf).1, hfinished.linked.fields.recorded id f hf⟩
  classes := hfinished.inRange.nodeClasses
  paths id path hpath := hasNode_iff.mpr (mem_ids_of_paths hpath)

/-- Whoever follows the bases of a model comes to a class without one. -/
theorem model_bases_end (hacyclic : (grammar.draft preferences overrides).draft.Acyclic)
    (c : ClassId) : ∃ n,
      (fun c => c.bind ((grammar.draft preferences overrides).model grammar).base?)^[n] (some c) =
        none := by
  have hbase (c : ClassId) : ((grammar.draft preferences overrides).model grammar).base? c =
      ((grammar.draft preferences overrides).draft.classAt c).base := by
    unfold GrammarModel.base?
    by_cases hc : c < (grammar.draft preferences overrides).draft.classes.size
    · rw [DraftedModel.class?_model grammar hc]
      rfl
    · have hnone : (grammar.draft preferences overrides).draft.classes[c]? = none :=
        Array.getElem?_eq_none (Nat.not_lt.mp hc)
      rw [GrammarModel.class?, DraftedModel.model, Array.getElem?_map, Draft.classAt,
        Array.getD_eq_getD_getElem?, hnone]
      rfl
  have hfollow : (fun c => c.bind ((grammar.draft preferences overrides).model grammar).base?) =
      (grammar.draft preferences overrides).draft.follow := by
    funext c
    cases c with
    | none => rfl
    | some c => exact hbase c
  rw [hfollow]
  refine hacyclic.follow_ends (fun c b hb => ?_) c
  rw [← hbase] at hb
  obtain ⟨cls, hcls, hb⟩ := Option.bind_eq_some_iff.mp hb
  rw [← Draft.size_tables_classes]
  exact ((hfinished.inRange.classes c cls hcls).base b hb).lt

omit hfinished

theorem model_rule? {r : RuleId} {rule : RuleModel}
    (hrule : ((grammar.draft preferences overrides).model grammar).rule? r = some rule) :
    rule.role = (grammar.draft preferences overrides).roles.getD r .passthrough := by
  rw [DraftedModel.rule?_model] at hrule
  obtain ⟨_, -, rfl⟩ := Option.map_eq_some_iff.mp hrule
  rfl

include hfinished

theorem model_ruleFits {assigned analyzed : Draft}
    (hanalyzed : grammar.Analyzed preferences overrides assigned analyzed) {r : RuleId}
    {rule : RuleModel}
    (hrule : ((grammar.draft preferences overrides).model grammar).rule? r = some rule) :
    ((grammar.draft preferences overrides).model grammar).RuleFits r rule := by
  have hlt (c : ClassId) (hclass : ((grammar.draft preferences overrides).roles.getD r
      .passthrough).class? = some c) :
      c < ((grammar.draft preferences overrides).model grammar).classes.size := by
    have hframe := (hanalyzed.settles default).frame
    change c < (grammar.draft preferences overrides).draft.tables.classes.size
    rw [Draft.size_tables_classes, hanalyzed.concludes.classes_size]
    exact Nat.lt_of_lt_of_le (hanalyzed.ready.fits.class_lt r c hclass).2 hframe.classes_le
  rw [DraftedModel.rule?_model] at hrule
  obtain ⟨_, -, rfl⟩ := Option.map_eq_some_iff.mp hrule
  refine ⟨rfl, hlt, fun v hv => ?_⟩
  dsimp only at hv
  split at hv
  · rename_i c hclass
    rw [← Option.some.inj hv]
    exact hlt c hclass
  · split at hv
    · rename_i value hdone
      subst hv
      have hprogress : (grammar.draft preferences overrides).draft.progress[r]? =
          some (.done (some v)) := by
        rw [Array.getD_eq_getD_getElem?] at hdone
        cases hget : (grammar.draft preferences overrides).draft.progress[r]? with
        | none =>
          rw [hget] at hdone
          cases hdone
        | some p =>
          rw [hget] at hdone
          exact congrArg some hdone
      exact model_knows (hfinished.inRange.progress r _ hprogress v rfl)
    · cases hv

omit hfinished

/-- The model of a parsed grammar is well formed. -/
theorem buildModel_wellFormed {m : GrammarModel} (hparsed : grammar.IsParsed)
    (h : (grammar.buildModel preferences overrides).result = .ok m) : m.WellFormed := by
  have hnumbered := buildModel_numbered h
  obtain ⟨-, herrors, rfl⟩ := buildModel_eq_ok h
  obtain ⟨assigned, analyzed, hanalyzed⟩ := exists_analyzed hparsed herrors
  have hfinished := draft_finished hparsed herrors
  refine ⟨hnumbered.rules_size, hnumbered.start_lt, hnumbered.names,
    fun info name ⟨rule, hrule, hmem⟩ => ?_, fun r rule => model_ruleFits hfinished hanalyzed,
    fun c cls => model_classFits hfinished (hanalyzed.tags hparsed) hnumbered.rules_size,
    fun f fld => model_fieldFits hfinished, model_nodesFit hfinished hparsed,
    model_bases_end hfinished (draft_acyclic herrors), fun r r' rule rule' c hr hr' hc hc' => ?_⟩
  · exact (hanalyzed.regular hparsed (Array.mem_toList_iff.mpr hrule) _ hmem).resolves info name rfl
  · rw [model_rule? hr] at hc
    rw [model_rule? hr'] at hc'
    exact hanalyzed.ready.fits.class_inj r r' c hc hc'

end Grammar

namespace GenerationOptions

/-- Whenever the front end builds a model, the model is well formed. -/
theorem frontEnd_wellFormed {o : GenerationOptions} {source : List Char} {m : GrammarModel}
    (h : (o.frontEnd source).result = .ok m) : m.WellFormed := by
  obtain ⟨tokens, -, grammar, hgrammar, hmodel⟩ := frontEnd_eq_ok.mp h
  exact Grammar.buildModel_wellFormed (TokenStream.isParsed_of_parse hgrammar) hmodel

/-- A class with a key and a base, the base and a tagged class. -/
theorem frontEnd_wellFormed_base_and_tags : ∃ (o : GenerationOptions) (m : GrammarModel),
    (o.frontEnd
      "@class(A)@key(k)A=\"x\"@field(k)U;@class(B)B=A|A;U=\"u\"|\"v\";".toList).result = .ok m ∧
      m.WellFormed := by
  have hok : (frontEnd ⟨default, "sample", false, default⟩
      "@class(A)@key(k)A=\"x\"@field(k)U;@class(B)B=A|A;U=\"u\"|\"v\";".toList).result.isOk =
        true := by
    decide +kernel
  obtain ⟨m, hm⟩ := Outcome.exists_of_isOk hok
  exact ⟨_, m, hm, frontEnd_wellFormed hm⟩

end GenerationOptions

end AnnotatedGrammar
