import AnnotatedGrammar.Proofs.Artifact.Order
import AnnotatedGrammar.Proofs.Lowering.Symbols
import AnnotatedGrammar.Proofs.Model.DistinctNames

/-!
# What the actions of the parser grammar use

An action that speaks of an instance makes it first, of a class that is declared and not abstract,
and then stores only what instances of this class have a member or a tag for. The symbols of a body
are tokens of the catalog and nonterminals of the production set.
-/

namespace AnnotatedGrammar

/-! ## What is allowed -/

/-- What a statement does with a new instance is possible for instances of a declared class. -/
def Statement.IsAllowedBy (d : ClassDeclaration) : Statement → Prop
  | .setTag className tag => className = d.name ∧ d.kind = .tagged ∧ tag ∈ d.tags
  | .setMember member _ | .appendMember member _ => member ∈ d.members.map (·.2)
  | _ => True

/-- The statement speaks of the new instance. -/
def Statement.UsesNode : Statement → Prop
  | .setTag .. | .setMember .. | .appendMember .. | .mergeFragment _ | .yieldNode => True
  | _ => False

/-! ## Lists that are checked -/

theorem forall₂_of_mapM_eq_ok {α β : Type} {f : α → Checked β} {xs : List α} {ys : List β}
    (h : xs.mapM f = .ok ys) : List.Forall₂ (fun x y => f x = .ok y) xs ys := by
  induction xs generalizing ys with
  | nil =>
    obtain rfl := Except.ok.inj h
    exact .nil
  | cons x rest ih =>
    rw [List.mapM_cons] at h
    obtain ⟨y, hy, h⟩ := except_bind_eq_ok h
    obtain ⟨ys, hys, h⟩ := except_bind_eq_ok h
    obtain rfl := Except.ok.inj h
    exact .cons hy (ih hys)

theorem exists_of_mapM_eq_ok {α β : Type} {f : α → Checked β} {xs : List α} {ys : List β}
    (h : xs.mapM f = .ok ys) : ∀ y ∈ ys, ∃ x ∈ xs, f x = .ok y := by
  have hall := forall₂_of_mapM_eq_ok h
  clear h
  induction hall with
  | nil => exact List.forall_mem_nil _
  | cons hxy _ ih =>
    refine List.forall_mem_cons.mpr ⟨⟨_, List.mem_cons_self, hxy⟩, fun y hy => ?_⟩
    obtain ⟨x, hx, hfound⟩ := ih y hy
    exact ⟨x, List.mem_cons_of_mem _ hx, hfound⟩

theorem exists_mem_of_mapM_eq_ok {α β : Type} {f : α → Checked β} {xs : List α} {ys : List β}
    (h : xs.mapM f = .ok ys) {x : α} (hx : x ∈ xs) : ∃ y ∈ ys, f x = .ok y := by
  have hall := forall₂_of_mapM_eq_ok h
  clear h
  induction hall with
  | nil => cases hx
  | cons hxy _ ih =>
    rcases List.mem_cons.mp hx with rfl | hx
    · exact ⟨_, List.mem_cons_self, hxy⟩
    · obtain ⟨y, hy, hfound⟩ := ih hx
      exact ⟨y, List.mem_cons_of_mem _ hy, hfound⟩

theorem map_eq_of_mapM_eq_ok {α β γ : Type} {f : α → Checked β} {g : α → γ} {k : β → γ}
    (hf : ∀ x y, f x = .ok y → k y = g x) {xs : List α} {ys : List β}
    (h : xs.mapM f = .ok ys) : ys.map k = xs.map g := by
  have hall := forall₂_of_mapM_eq_ok h
  clear h
  induction hall with
  | nil => rfl
  | cons hxy _ ih => rw [List.map_cons, List.map_cons, hf _ _ hxy, ih]

/-! ## Classes -/

namespace ArtifactSource

variable {s : ArtifactSource}

/-- The declared classes are those of the model. -/
theorem mem_declarations {d : ClassDeclaration} (h : d ∈ s.declarations.2) :
    ∃ c cls, s.model.class? c = some cls ∧ d = .ofClass s.model cls := by
  obtain ⟨cls, hcls, rfl⟩ := List.mem_map.mp h
  obtain ⟨c, -, hc⟩ := List.mem_filterMap.mp hcls
  exact ⟨c, cls, hc, rfl⟩

theorem map_name_declarations_perm :
    (s.declarations.2.map (·.name)).Perm (s.model.classes.toList.map (·.name)) := by
  have hperm := (DeclarationOrder.filterMap_class?_perm s.model).map (·.name)
  simpa [declarations, ClassDeclaration.ofClass, Function.comp_def] using hperm

theorem member_mem (hmodel : s.model.WellFormed) {c : ClassId} {cls : ClassModel}
    (hcls : s.model.class? c = some cls) {f : FieldId} {fld : FieldModel} (hf : f ∈ cls.fields)
    (hfld : s.model.field? f = some fld) :
    fld.name ∈ (ClassDeclaration.ofClass s.model cls).members.map (·.2) := by
  have hid := (hmodel.classes c cls hcls).id_eq
  have hfields : s.model.fieldsOf cls.id = cls.fields.filterMap s.model.field? := by
    rw [GrammarModel.fieldsOf, hid, hcls]
  have hmem : fld ∈ s.model.fieldsOf cls.id := by
    rw [hfields]
    exact List.mem_filterMap.mpr ⟨f, hf, hfld⟩
  simp only [ClassDeclaration.ofClass, List.map_map]
  exact List.mem_map_of_mem (f := fun f => f.name) hmem

/-- A field belongs to the fields of its owner. -/
theorem mem_fields_of_owner (hmodel : s.model.WellFormed) {f : FieldId} {fld : FieldModel}
    (hfld : s.model.field? f = some fld) {cls : ClassModel}
    (hcls : s.model.class? fld.owner = some cls) : f ∈ cls.fields := by
  have hcount := (hmodel.fields f fld hfld).listed fld.owner cls hcls
  rw [if_pos rfl] at hcount
  exact List.count_pos_iff.mp (hcount ▸ Nat.one_pos)

theorem fieldName_eq {m : GrammarModel} {f : FieldId} {fld : FieldModel}
    (h : m.field? f = some fld) : m.fieldName f = fld.name := by
  rw [GrammarModel.fieldName, h]

/-! ## Statements -/

/-- A list of statements has nothing to do with an instance, or makes one of a class first and then
uses it as its declaration allows. -/
def Sound (s : ArtifactSource) (statements : List Statement) : Prop :=
  (∀ statement ∈ statements, (∀ name, statement ≠ .makeNode name) ∧ ¬ statement.UsesNode) ∨
    ∃ c cls rest, s.model.class? c = some cls ∧ cls.kind ≠ .abstract ∧
      statements = .makeNode cls.name :: rest ∧ (∀ name, .makeNode name ∉ rest) ∧
        ∀ statement ∈ rest, statement.IsAllowedBy (.ofClass s.model cls)

theorem stepStatement_isAllowedBy {strict : Prop} {nonterminals : Array Nonterminal}
    {body : List Term} (hmodel : s.model.WellFormed) {c : ClassId} {cls : ClassModel}
    (hcls : s.model.class? c = some cls) {step : Step}
    (h : step.Fits strict s.model nonterminals c body) :
    (s.model.stepStatement step).IsAllowedBy (.ofClass s.model cls) := by
  cases step with
  | merge position many => trivial
  | assign field source mode =>
    obtain ⟨fld, hfld, rfl, -⟩ := h
    have hmember := member_mem hmodel hcls (mem_fields_of_owner hmodel hfld hcls) hfld
    rw [← fieldName_eq hfld] at hmember
    cases mode <;> exact hmember

theorem makeNode_ne_stepStatement (m : GrammarModel) (name : String) (step : Step) :
    m.stepStatement step ≠ .makeNode name := by
  unfold GrammarModel.stepStatement
  cases step with
  | merge => simp
  | assign field source mode => cases mode <;> simp

theorem className_eq {m : GrammarModel} {c : ClassId} {cls : ClassModel}
    (h : m.class? c = some cls) : m.className c = cls.name := by
  rw [GrammarModel.className, h]

/-- The statements of a production that fits use what is declared. -/
theorem statements_sound {strict : Prop} {p : Production} {statements : List Statement}
    (hmodel : s.model.WellFormed) (hfits : p.Fits strict s.model s.productions.nonterminals)
    (h : s.statements p = .ok statements) : s.Sound statements := by
  unfold Production.Fits at hfits
  unfold ArtifactSource.statements at h
  cases haction : p.action with
  | construct c steps =>
    simp only [haction] at hfits h
    obtain rfl := Except.ok.inj h
    obtain ⟨⟨cls, hcls, hkind⟩, hsteps⟩ := hfits
    refine .inr ⟨c, cls, steps.map s.model.stepStatement ++ [.yieldNode], hcls, by simp [hkind], ?_,
      fun name hmem => ?_, ?_⟩
    · rw [className_eq hcls]
      rfl
    · rcases List.mem_append.mp hmem with hmem | hmem
      · obtain ⟨step, -, heq⟩ := List.mem_map.mp hmem
        exact makeNode_ne_stepStatement _ name step heq
      · simp at hmem
    · refine List.forall_mem_append.mpr ⟨List.forall_mem_map.mpr fun step hstep => ?_,
        List.forall_mem_singleton.mpr trivial⟩
      exact stepStatement_isAllowedBy hmodel hcls (hsteps step hstep)
  | choose c index payload =>
    simp only [haction] at hfits h
    obtain ⟨cls, variant, hcls, hvariant, -⟩ := hfits
    have hmem := List.mem_of_getElem? hvariant
    have hclass := hmodel.classes c cls hcls
    have hkind : cls.kind = .tagged := by
      by_contra hkind
      rw [hclass.untagged hkind] at hmem
      cases hmem
    simp only [hcls, Option.bind_some, hvariant] at h
    obtain rfl := Except.ok.inj h
    rw [className_eq hcls]
    refine .inr ⟨c, cls, _, hcls, by simp [hkind], rfl, fun name => ?_, ?_⟩
    · cases variant.payload <;> cases payload <;> simp
    · have htag : (Statement.setTag cls.name variant.tag).IsAllowedBy (.ofClass s.model cls) :=
        ⟨rfl, hkind, List.mem_map_of_mem (f := (·.tag)) hmem⟩
      have hstored : ∀ f, variant.payload = some f →
          s.model.fieldName f ∈ (ClassDeclaration.ofClass s.model cls).members.map (·.2) := by
        intro f hf
        have hfield := (hclass.variants variant hmem).2 f hf
        obtain ⟨fld, hfld⟩ : ∃ fld, s.model.field? f = some fld :=
          ⟨_, Array.getElem?_eq_getElem (hclass.fields f hfield)⟩
        rw [fieldName_eq hfld]
        exact member_mem hmodel hcls hfield hfld
      cases hpayload : variant.payload with
      | none => simpa using ⟨htag, trivial⟩
      | some f =>
        cases payload with
        | none => simpa using ⟨htag, trivial⟩
        | some position => simpa using ⟨htag, hstored f hpayload, trivial⟩
  | nothing | prepend item list | singleton item | accept i =>
    simp only [haction] at h
    obtain rfl := Except.ok.inj h
    exact .inl (by simp [Statement.UsesNode])
  | forward i =>
    simp only [haction] at h
    obtain ⟨target, -, h⟩ := except_bind_eq_ok h
    obtain rfl := Except.ok.inj h
    exact .inl (by split <;> simp [Statement.UsesNode])
  | absent | emptyList =>
    simp only [haction] at h
    obtain ⟨target, -, h⟩ := except_bind_eq_ok h
    obtain rfl := Except.ok.inj h
    exact .inl (by simp [Statement.UsesNode])

/-! ## Rule blocks -/

theorem ruleBlock_parts {n : Nonterminal} {b : RuleBlock} (h : s.ruleBlock n = .ok b) :
    b.name = n.name ∧
      (s.productions.productionsOf n.id).mapM s.blockAlternative = .ok b.alternatives := by
  unfold ruleBlock at h
  split at h
  · cases h
  · obtain ⟨alternatives, halternatives, h⟩ := except_bind_eq_ok h
    obtain rfl := Except.ok.inj h
    exact ⟨rfl, halternatives⟩

theorem blockAlternative_parts {p : Production} {a : BlockAlternative}
    (h : s.blockAlternative p = .ok a) :
    p.body.mapM s.symbolName = .ok a.symbols ∧ s.statements p = .ok a.statements := by
  obtain ⟨symbols, hsymbols, h⟩ := except_bind_eq_ok h
  obtain ⟨statements, hstatements, h⟩ := except_bind_eq_ok h
  obtain rfl := Except.ok.inj h
  exact ⟨hsymbols, hstatements⟩

/-- A rule block of a nonterminal: its alternatives are those of productions. -/
theorem ruleBlock_eq_ok {n : Nonterminal} {b : RuleBlock} (h : s.ruleBlock n = .ok b) :
    b.name = n.name ∧ ∀ a ∈ b.alternatives, ∃ p ∈ s.productions.productions,
      p.body.mapM s.symbolName = .ok a.symbols ∧ s.statements p = .ok a.statements := by
  obtain ⟨hname, halternatives⟩ := ruleBlock_parts h
  refine ⟨hname, fun a ha => ?_⟩
  obtain ⟨p, hp, halternative⟩ := exists_of_mapM_eq_ok halternatives a ha
  exact ⟨p, Array.mem_toList_iff.mp (List.mem_filter.mp hp).1, blockAlternative_parts halternative⟩

theorem symbolName_mem {t : Term} {symbol : String} (ht : t.Below s.productions.nonterminals.size)
    (h : s.symbolName t = .ok symbol) : symbol ∈ s.catalog.entries.map (·.name) ∨
      symbol ∈ s.productions.nonterminals.toList.map (·.name) := by
  cases t with
  | nonterminal n =>
    obtain rfl := Except.ok.inj h
    refine .inr (List.mem_map_of_mem (f := fun n : Nonterminal => n.name) ?_)
    rw [ProductionSet.nonterminal, Array.getD_eq_getD_getElem?, Array.getElem?_eq_getElem ht]
    exact Array.mem_toList_iff.mpr (Array.getElem_mem ht)
  | terminal t =>
    simp only [symbolName, TokenCatalog.lookup] at h
    cases hfound : s.catalog.find? t with
    | none =>
      rw [hfound] at h
      cases h
    | some e =>
      rw [hfound] at h
      obtain rfl := Except.ok.inj h
      exact .inl (List.mem_map_of_mem (f := (·.name)) (List.mem_of_find?_eq_some hfound))

end ArtifactSource

end AnnotatedGrammar
