import AnnotatedGrammar.Proofs.Artifact.Checked
import AnnotatedGrammar.Proofs.Lowering.BaseNames
import AnnotatedGrammar.Proofs.Model.WellFormed

/-!
# What the writers look up is there

The writers look up nonterminals, classes, fields and variants by index and terms by position, and
where nothing is found they go on with a default. With the productions of a model that the front end
builds this does not happen: every index and every position in them leads to what is there, and so
does every index in the model.
-/

namespace AnnotatedGrammar

/-! ## What it means -/

/-- The class of what a nonterminal carries, if it has one, is in the model. -/
def GrammarModel.KnowsContent (m : GrammarModel) : Content → Prop
  | .nothing => True
  | .value v => m.Knows v.element
  | .fragment c _ => c < m.classes.size

/-- A step fills a field that its class has, from a position in a body of some length. -/
def Step.InRange (m : GrammarModel) (c : ClassId) (length : Nat) : Step → Prop
  | .assign field source _ =>
    (∃ fld, m.field? field = some fld ∧ fld.owner = c) ∧
      match source with
      | .position i => i < length
      | .lexeme _ => True
  | .merge position _ => position < length

/-- An action reads positions in a body of some length, and makes instances of classes that are
there. -/
def Action.InRange (m : GrammarModel) (length : Nat) : Action → Prop
  | .nothing | .absent | .emptyList => True
  | .forward i | .accept i | .singleton i => i < length
  | .prepend item list => item < length ∧ list < length
  | .construct c steps => c < m.classes.size ∧ ∀ step ∈ steps, step.InRange m c length
  | .choose c index payload =>
    ∃ cls variant, m.class? c = some cls ∧ cls.variants[index]? = some variant ∧
      payload.isSome = variant.payload.isSome ∧ (∀ i ∈ payload, i < length) ∧
        ∀ f ∈ variant.payload, f < m.fields.size

/-- Whatever the nonterminals and productions of a set refer to is there. -/
structure ProductionSet.InRange (set : ProductionSet) (m : GrammarModel) : Prop where
  start : ∃ n, set.nonterminals[set.start]? = some n ∧ n.origin = .accept
  ids : ∀ (i : NonterminalId) n, set.nonterminals[i]? = some n → n.id = i
  contents : ∀ n ∈ set.nonterminals, m.KnowsContent n.content
  lhs : ∀ p ∈ set.productions, p.lhs < set.nonterminals.size
  nonterminals : ∀ p ∈ set.productions, ∀ n, .nonterminal n ∈ p.body → n < set.nonterminals.size
  terminals : ∀ p ∈ set.productions, ∀ t, .terminal t ∈ p.body →
    ∃ e, (TokenCatalog.ofProductions set).lookup (.terminal t) = .ok e
  actions : ∀ p ∈ set.productions, p.action.InRange m p.body.length

/-! ## Contents -/

namespace GrammarModel

variable {m : GrammarModel}

/-- The class of a value, if it has one, is in the model. -/
def KnowsValue (m : GrammarModel) (v? : Option Value) : Prop := ∀ v ∈ v?, m.Knows v.element

theorem knowsContent_ofValue? {v? : Option Value} (h : m.KnowsValue v?) :
    m.KnowsContent (.ofValue? v?) := by
  cases v? with
  | none => trivial
  | some v => exact h v rfl

theorem KnowsValue.map {v? : Option Value} {f : Value → Value} (h : m.KnowsValue v?)
    (hf : ∀ v, (f v).element = v.element) : m.KnowsValue (v?.map f) := by
  intro w hw
  obtain ⟨v, hv, rfl⟩ := Option.map_eq_some_iff.mp hw
  rw [hf]
  exact h v hv

namespace WellFormed

variable (hm : m.WellFormed)

include hm

theorem knows_nodeClass (id : NodeId) :
    m.KnowsValue ((m.nodeClasses.get? id).map Value.ofClass) := by
  intro v hv
  obtain ⟨c, hc, rfl⟩ := Option.map_eq_some_iff.mp hv
  exact (hm.nodes.classes id c hc).2

/-- The values that expressions have, as the model recorded them or from their shape, are known. -/
theorem knows_values :
    (∀ e, m.KnowsValue (m.valueOf? e)) ∧ (∀ e, m.KnowsValue (m.shapeValue? e)) ∧
      ∀ es, ∀ v ∈ m.valuesOf es, m.Knows v.element := by
  have hnone : m.KnowsValue none := fun v hv => by cases hv
  have hprimitive (p : Primitive) : m.KnowsValue (some (Value.ofPrimitive p)) := by
    rintro v ⟨⟩
    trivial
  apply valueOf?.mutual_induct m
  case case1 =>
    intro e recorded hrecorded
    rw [valueOf?, hrecorded]
    exact (hm.nodes.values e.id recorded hrecorded).2
  case case2 =>
    intro e hrecorded hskip
    simp only [valueOf?, hrecorded, hskip, if_true]
    exact hnone
  case case3 =>
    intro e hrecorded hskip hclass
    simp only [valueOf?, hrecorded, if_neg hskip, hclass, if_true]
    exact hm.knows_nodeClass e.id
  case case4 =>
    intro e hrecorded hskip hclass hshape
    simp only [valueOf?, hrecorded, if_neg hskip, if_neg hclass]
    exact hshape
  case case5 =>
    intro info text hfield
    rw [shapeValue?, if_pos hfield]
    exact hprimitive _
  case case6 =>
    intro info text hfield
    rw [shapeValue?, if_neg hfield]
    exact hnone
  case case7 =>
    intro info p
    rw [shapeValue?]
    exact hprimitive _
  case case8 =>
    intro info name p hbuiltin
    simp only [shapeValue?, hbuiltin]
    exact hprimitive _
  case case9 =>
    intro info name r hrule
    simp only [shapeValue?, hrule]
    intro v hv
    obtain ⟨rule, hr, hvalue⟩ := Option.bind_eq_some_iff.mp hv
    exact (hm.rules r rule hr).value v hvalue
  case case10 =>
    intro info name hunknown
    simp only [shapeValue?, hunknown]
    exact hnone
  case case11 =>
    intro info body hbody
    rw [shapeValue?]
    exact hbody
  case case12 =>
    intro info items v hone hitems
    simp only [shapeValue?, hone]
    rintro _ ⟨⟩
    exact hitems v (hone ▸ List.mem_singleton.mpr rfl)
  case case13 =>
    intro info items hother hitems
    rw [shapeValue?]
    split
    · exact absurd ‹_› (hother _)
    · exact hnone
  case case14 =>
    intro info branches
    rw [shapeValue?]
    exact hm.knows_nodeClass info.id
  case case15 =>
    intro info body hbody
    rw [shapeValue?]
    exact hbody.map fun _ => rfl
  case case16 =>
    intro info body kind hbody
    rw [shapeValue?]
    exact hbody.map fun _ => rfl
  case case17 =>
    rw [valuesOf]
    exact List.forall_mem_nil _
  case case18 =>
    intro e rest he hrest
    rw [valuesOf, List.forall_mem_append]
    exact ⟨fun v hv => he v (Option.mem_toList.mp hv), hrest⟩

/-- Whatever a nonterminal made for an expression may carry is known. -/
theorem knowsContent_of_mayCarry {e : Expr} {content : Content} (h : m.MayCarry e content) :
    m.KnowsContent content := by
  cases h with
  | nothing => trivial
  | value => exact knowsContent_ofValue? (hm.knows_values.1 e)
  | shape => exact knowsContent_ofValue? (hm.knows_values.2.1 e)
  | built hclass => exact (hm.nodes.classes e.id _ hclass).2
  | filled hfills many =>
    obtain ⟨x, -, hx⟩ := List.any_eq_true.mp hfills
    split at hx
    · next fld hfld =>
      obtain ⟨f, -, hf⟩ := Option.bind_eq_some_iff.mp hfld
      exact beq_iff_eq.mp hx ▸ (hm.fields f fld hf).owner
    · cases hx

end WellFormed

end GrammarModel

namespace Lowering

variable {m : GrammarModel} {preferences : LoweringPreferences} {d : ProductionDraft}
  {accept : NonterminalId}

/-- What the nonterminals of a lowered model carry is known: those of rules carry the values of
their rules, the others what they may. -/
theorem lowerModel_knowsContent (hnumbered : m.Numbered) (hm : m.WellFormed)
    (h : lowerModel m preferences default = .ok accept d) :
    ∀ n ∈ d.nonterminals, m.KnowsContent n.content := by
  obtain ⟨d₁, d₂, name, hrules, hsize, hextends, hpush⟩ := lowerModel_extends hnumbered h
  have hbefore (i : NonterminalId) (n : Nonterminal) (hn : d₂.nonterminals[i]? = some n) :
      m.KnowsContent n.content := by
    by_cases hlt : i < d₁.nonterminals.size
    · have hrule : m.rules[i]? = some m.rules[i] := Array.getElem?_eq_getElem (hsize ▸ hlt)
      obtain ⟨other, hother⟩ := hrules.getElem?_eq (by rwa [Array.getElem?_toList])
      rw [hextends.keeps_nonterminal i hlt, hother] at hn
      obtain rfl := Option.some.inj hn
      exact GrammarModel.knowsContent_ofValue? (hm.rules i _ hrule).value
    · obtain ⟨rule, -, e, kind, -, hcarries, -⟩ :=
        hextends.synthesized i (Nat.not_lt.mp hlt) n hn
      exact hm.knowsContent_of_mayCarry hcarries
  intro n hn
  rw [hpush, Array.mem_push] at hn
  rcases hn with hmem | rfl
  · obtain ⟨i, hi⟩ := Array.mem_iff_getElem?.mp hmem
    exact hbefore i n hi
  · have hstart : m.start < d₂.nonterminals.size :=
      Nat.lt_of_lt_of_le (hsize ▸ hm.start_lt) hextends.toGrows.size_le
    have hknown := hbefore m.start _ (Array.getElem?_eq_getElem hstart)
    rw [Array.getD_eq_getD_getElem?, Array.getElem?_eq_getElem hstart]
    exact hknown

end Lowering

/-! ## Actions -/

namespace Term

variable {nonterminals : Array Nonterminal} {body : List Term} {position : Nat}

theorem CarriesAt.lt {content : Content} (h : CarriesAt nonterminals body position content) :
    position < body.length := by
  obtain ⟨t, ht, -⟩ := h
  exact (List.getElem?_eq_some_iff.mp ht).1

theorem FlowsAt.lt {strict : Prop} {m : GrammarModel} {target : Content}
    (h : FlowsAt strict m nonterminals body position target) : position < body.length := by
  obtain ⟨v, w, hcarries, -⟩ := h
  exact hcarries.lt

end Term

section

variable {strict : Prop} {m : GrammarModel} {nonterminals : Array Nonterminal} {p : Production}

theorem Step.Fits.inRange {c : ClassId} {body : List Term} {step : Step}
    (h : step.Fits strict m nonterminals c body) : step.InRange m c body.length := by
  cases step with
  | merge position many => exact Term.CarriesAt.lt h
  | assign field source mode =>
    obtain ⟨fld, hfld, howner, hsource⟩ := h
    refine ⟨⟨fld, hfld, howner⟩, ?_⟩
    cases source with
    | lexeme text => trivial
    | position i =>
      obtain ⟨v, hcarries, -⟩ := hsource
      exact hcarries.lt

/-- A production that fits refers to what is there. -/
theorem Production.Fits.inRange (hm : m.WellFormed) (h : p.Fits strict m nonterminals) :
    p.action.InRange m p.body.length := by
  unfold Production.Fits at h
  cases haction : p.action with
  | nothing | absent | emptyList => trivial
  | forward i | accept i =>
    simp only [haction] at h
    exact h.lt
  | singleton item =>
    simp only [haction] at h
    exact h.2.lt
  | prepend item list =>
    simp only [haction] at h
    exact ⟨h.2.1.lt, h.2.2.lt⟩
  | construct c steps =>
    simp only [haction] at h
    obtain ⟨⟨cls, hcls, -⟩, hsteps⟩ := h
    exact ⟨(Array.getElem?_eq_some_iff.mp hcls).1, fun step hstep => (hsteps step hstep).inRange⟩
  | choose c index payload =>
    simp only [haction] at h
    obtain ⟨cls, variant, hcls, hvariant, hfits⟩ := h
    have hfield (f : FieldId) (hf : variant.payload = some f) : f < m.fields.size :=
      (hm.classes c cls hcls).fields f
        (((hm.classes c cls hcls).variants variant (List.mem_of_getElem? hvariant)).2 f hf)
    refine ⟨cls, variant, hcls, hvariant, ?_, ?_, hfield⟩
    · unfold Variant.Fits at hfits
      cases hpayload : variant.payload <;> cases payload <;> simp_all
    · rintro i rfl
      unfold Variant.Fits at hfits
      cases hpayload : variant.payload with
      | none => simp [hpayload] at hfits
      | some f =>
        simp only [hpayload] at hfits
        obtain ⟨fld, -, hflows⟩ := hfits
        exact hflows.lt

end

/-! ## Whole runs -/

namespace GrammarModel

variable {strict : Prop} {m : GrammarModel} {preferences : LoweringPreferences}
  {set : ProductionSet}

/-- What a well-formed model with settled rules is lowered to refers to what is there. -/
theorem WellFormed.lower_inRange (hm : m.WellFormed) (hnumbered : m.Numbered)
    (howned : m.FieldsOwned)
    (hsettled : ∀ entry ∈ m.rules.toList.zip m.grammar.rules.toList,
      Settled.Rule strict m entry.1 entry.2.body ∧ entry.2.body.Regular strict m)
    (h : (m.lower preferences).result = .ok set) : set.InRange m := by
  obtain ⟨-, hcovered⟩ := lower_covered hnumbered howned hsettled h
  obtain ⟨hfits, hbelow, -⟩ := lower_fits hnumbered howned hsettled h
  obtain ⟨accept, d, hlower, rfl, -⟩ := lower_eq_ok h
  constructor
  · obtain ⟨-, d₂, name, -, -, -, hpush⟩ := Lowering.lowerModel_extends hnumbered hlower
    have hlast : d.nonterminals[d₂.nonterminals.size]? =
        some ⟨accept, name, (d₂.nonterminals.getD m.start default).content, .accept⟩ := by
      rw [hpush, Array.getElem?_push_size]
    have hid := hcovered.id_eq _ _ hlast
    exact ⟨_, hid ▸ hlast, rfl⟩
  · exact hcovered.id_eq
  · exact Lowering.lowerModel_knowsContent hnumbered hm hlower
  · exact hcovered.lhs_lt
  · exact fun p hp n hn => hbelow p hp _ hn
  · exact fun p hp t ht =>
      TokenCatalog.lookup_succeeds (ProductionSet.mem_terminals.mpr ⟨p, hp, ht⟩)
  · exact fun p hp => (hfits p hp).inRange hm

end GrammarModel

/-- Whatever the front end accepts is lowered to productions in which every index and position is in
range, from a model in which every index is. -/
theorem GenerationOptions.lower_inRange {o : GenerationOptions} {source : List Char}
    {m : GrammarModel} {set : ProductionSet} (hm : (o.frontEnd source).result = .ok m)
    (hset : (o.lower m).result = .ok set) : m.WellFormed ∧ set.InRange m := by
  have hsettled := frontEnd_settled hm
  obtain ⟨tokens, -, grammar, hgrammar, hmodel⟩ := frontEnd_eq_ok.mp hm
  have hformed := Grammar.buildModel_wellFormed (TokenStream.isParsed_of_parse hgrammar) hmodel
  exact ⟨hformed, hformed.lower_inRange (frontEnd_numbered hm) hsettled.owned hsettled.rules
    (Outcome.ofStage_result_eq_ok.mp hset)⟩

end AnnotatedGrammar
