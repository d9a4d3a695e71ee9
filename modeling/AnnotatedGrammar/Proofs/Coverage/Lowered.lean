import AnnotatedGrammar.Proofs.Analysis.Agreement
import AnnotatedGrammar.Proofs.Analysis.Elements
import AnnotatedGrammar.Proofs.Coverage.Places
import AnnotatedGrammar.Proofs.Coverage.Ran

/-!
# Whatever is reached is lowered

The lowering goes where the analysis went. A site that is reached was lowered on the way to the
finished draft: an element became a term, what carries a class got productions that build it, and
what stands inside the content of a class was put into such a production.
-/

namespace AnnotatedGrammar

open Lowering ProductionDraft

namespace Expr

/-! ## Collapsing one expression -/

/-- What collapsing quantifiers does with an expression: it ends there, or goes on inside. -/
inductive Absorbs (quantifier : Quantifier) (carrier : Option Expr) (e : Expr) : Prop
  | ends (h : e.absorb quantifier carrier = ⟨e, quantifier, carrier, []⟩)
  | through (body : Expr) (inner : Quantifier) (hbody : e.children = [body])
      (halternation : e.isAlternation = false) (hunmarked : e.isUnmarked = true)
      (hatom : (e.absorb quantifier carrier).atom = (body.absorb inner carrier).atom)
      (hcarrier : (e.absorb quantifier carrier).carrier = (body.absorb inner carrier).carrier)
      (hoperand : e.operand = body.operand)
      (hunit : e.IsUnit → (optional default e).isSimpleChain = true)
  | carries (body : Expr) (inner : Quantifier) (hbody : e.children = [body])
      (halternation : e.isAlternation = false) (hcarries : e.carriesOnlyFieldMarkers = true)
      (hatom : (e.absorb quantifier carrier).atom = (body.absorb inner (some e)).atom)
      (hcarrier : (e.absorb quantifier carrier).carrier = (body.absorb inner (some e)).carrier)
      (hquantified : e.quantifiedAtom = body.operand)

theorem absorbs (quantifier : Quantifier) (carrier : Option Expr) (e : Expr) :
    e.Absorbs quantifier carrier := by
  have hends (e : Expr) (hunmarked : ¬e.isUnmarked = true)
      (hcarries : ¬(carrier = none ∧ e.carriesOnlyFieldMarkers = true)) :
      e.Absorbs quantifier carrier := by
    refine .ends (absorb_of_marked quantifier carrier ?_ (by simpa using hunmarked))
    cases carrier <;> simp_all [isTransparent]
  cases e with
  | terminal | reference | sequence | alternation =>
    exact .ends (by rw [absorb] <;> simp)
  | group info body =>
    by_cases hunmarked : info.markers.isEmpty = true
    · have habsorb := @absorb_group quantifier carrier info body hunmarked
      exact .through body quantifier rfl rfl hunmarked (congrArg Collapsed.atom habsorb)
        (congrArg Collapsed.carrier habsorb) (by rw [operand, if_pos hunmarked])
        fun hunit => by cases hunit
    · exact .ends (by rw [absorb, if_neg (by exact hunmarked)])
  | optional info body =>
    by_cases hunmarked : info.markers.isEmpty = true
    · have hoperand : (optional info body).operand = body.operand := by
        rw [operand, if_pos hunmarked]
      have hatom : (optional default (optional info body)).quantifiedAtom =
          (optional info body).quantifiedAtom := hoperand
      refine .through body (quantifier.combine .optional) rfl rfl hunmarked ?_ ?_ hoperand
        fun hunit => (isSimpleChain_congr hatom).trans hunit <;>
        rw [absorb_optional quantifier carrier hunmarked]
    · by_cases hcarries : carrier = none ∧ (optional info body).carriesOnlyFieldMarkers = true
      · obtain ⟨rfl, hcarries⟩ := hcarries
        refine .carries body (quantifier.combine .optional) rfl rfl hcarries ?_ ?_ rfl <;>
          rw [absorb_optional_carrier quantifier hunmarked hcarries]
      · exact hends _ hunmarked hcarries
  | repeated info body kind =>
    by_cases hunmarked : info.markers.isEmpty = true
    · have hoperand : (repeated info body kind).operand = body.operand := by
        rw [operand, if_pos hunmarked]
      have hatom : (optional default (repeated info body kind)).quantifiedAtom =
          (repeated info body kind).quantifiedAtom := hoperand
      refine .through body (quantifier.combine (.ofRepetition kind)) rfl rfl
        hunmarked ?_ ?_ hoperand
        fun hunit => (isSimpleChain_congr hatom).trans hunit <;>
        rw [absorb_repeated quantifier carrier hunmarked]
    · by_cases hcarries : carrier = none ∧ (repeated info body kind).carriesOnlyFieldMarkers = true
      · obtain ⟨rfl, hcarries⟩ := hcarries
        refine .carries body (quantifier.combine (.ofRepetition kind)) rfl rfl
          hcarries ?_ ?_ rfl <;>
          rw [absorb_repeated_carrier quantifier hunmarked hcarries]
      · exact hends _ hunmarked hcarries

/-- With a carrier, collapsing ends at the operand. -/
theorem absorb_carrier (quantifier : Quantifier) (carrier e : Expr) :
    (e.absorb quantifier (some carrier)).carrier = some carrier ∧
      (e.absorb quantifier (some carrier)).atom = e.operand := by
  fun_induction operand e generalizing quantifier with
  | case1 info body hunmarked ih =>
    rw [absorb_optional quantifier _ hunmarked]
    exact ih _
  | case3 info body kind hunmarked ih =>
    rw [absorb_repeated quantifier _ hunmarked]
    exact ih _
  | case5 info body hunmarked ih =>
    rw [absorb_group quantifier _ hunmarked]
    exact ih _
  | case2 info body hunmarked =>
    have hmarked : (optional info body).isUnmarked = false := eq_false_of_ne_true hunmarked
    rw [absorb_of_marked quantifier _ (by simpa [isTransparent] using hmarked) hmarked]
    exact ⟨rfl, rfl⟩
  | case4 info body kind hunmarked =>
    have hmarked : (repeated info body kind).isUnmarked = false := eq_false_of_ne_true hunmarked
    rw [absorb_of_marked quantifier _ (by simpa [isTransparent] using hmarked) hmarked]
    exact ⟨rfl, rfl⟩
  | case6 info body hunmarked =>
    rw [absorb, if_neg (by exact hunmarked)]
    exact ⟨rfl, rfl⟩
  | case7 e hoptional hrepeated hgroup =>
    rw [absorb]
    · exact ⟨rfl, rfl⟩
    · exact hoptional
    · exact hrepeated
    · exact hgroup

/-- A name, perhaps in parentheses that do not count. -/
theorem name_cases {e : Expr} {info : NodeInfo} {name : String}
    (hcore : e.core = reference info name) : e = reference info name ∨
      ∃ info' body, e = group info' body ∧ ¬(group info' body).keepsGroup = true ∧
        body.core = reference info name := by
  cases e with
  | group info' body =>
    by_cases hkeeps : (group info' body).keepsGroup = true
    · rw [core, stripGroups, if_pos hkeeps] at hcore
      cases hcore
    · refine .inr ⟨info', body, rfl, hkeeps, ?_⟩
      rw [core, stripGroups, if_neg hkeeps] at hcore
      exact hcore
  | _ => exact .inl hcore

end Expr

section

variable (m : GrammarModel) (D : ProductionDraft)

/-- The lowering took an expression for one element. -/
inductive LoweredElement (e : Expr) : Prop
  | term {sc : LoweringScope} {kind : SynthesizedKind} {t : Term} (hmodel : sc.model = m)
      (h : Ran D (elementTerm sc e kind) t)
  /-- It stood in a row, perhaps without a term of its own. -/
  | row {sc : LoweringScope} {terms : Array Term} {result : Array Term × Option Nat}
      (hmodel : sc.model = m) (h : Ran D (flatten sc e terms) result)
  /-- Quantifiers around it were collapsed with it. -/
  | atom {sc : LoweringScope} {quantifier : Quantifier} {carrier : Option Expr}
      {kind : SynthesizedKind} {t : Term} (hmodel : sc.model = m)
      (h : Ran D (elementTerm sc (e.absorb quantifier carrier).atom kind) t)
  /-- It is the body of a rule and carries a class. -/
  | bearer {sc : LoweringScope} {lhs : NonterminalId} {c : ClassId} (hmodel : sc.model = m)
      (hmarker : e.hasMarker .classOf = true) (hclass : m.nodeClasses.get? e.id = some c)
      (hwhole : D.IsWhole lhs) (h : Ran D (bearerProductions sc lhs c e) ())
  /-- It is a name in parentheses, of which nothing is to be made. -/
  | name {info : NodeInfo} {name : String} (hmarker : ¬e.core.hasMarker .classOf = true)
      (hcore : e.core = .reference info name)

/-- The lowering took the parts of an expression for elements, or made productions of its
alternatives. -/
structure LoweredShape (e : Expr) : Prop where
  parts : e.isAlternation = false → ∀ x ∈ e.children, LoweredElement m D x
  alternatives : ∀ info branches, e = .alternation info branches → ∀ c,
    m.nodeClasses.get? info.id = some c → ∃ sc lhs, sc.model = m ∧ D.IsWhole lhs ∧
      Ran D (alternativeProductions sc lhs c e) ()

/-- The lowering put an expression into a production for an expression around it, which builds an
instance. -/
inductive LoweredContent (c : ClassId) : Expr → Bool → Prop
  | run {sc : LoweringScope} {e whole : Expr} {isBearer outer : Bool} {a a' : Assembly}
      (hmodel : sc.model = m) (hwhole : m.Occurs whole) (hbuilds : D.Builds c whole a')
      (hplace : e.parts isBearer <+: (whole.parts outer).drop a.body.size)
      (h : Ran D (construct sc c e isBearer a) a') : LoweredContent c e isBearer
  /-- Quantifiers around it were collapsed with it. -/
  | operand {sc : LoweringScope} {e : Expr} {quantifier : Quantifier} {a : Assembly}
      (hmodel : sc.model = m) (hwhole : m.Occurs (e.absorb quantifier none).atom)
      (hbuilds : D.Builds c (e.absorb quantifier none).atom a)
      (hsimple : ¬(Expr.optional default e).isSimpleChain = true)
      (h : Ran D (fragmentOperand sc c (e.absorb quantifier none)) a) : LoweredContent c e false

/-- The lowering put an expression into such a production as one value, or what its field markers
speak of. -/
inductive LoweredValue (c : ClassId) (e : Expr) (isBearer : Bool) : Prop
  | intro {sc : LoweringScope} {whole x : Expr} {t : Term} {a a' : Assembly}
      (hmodel : sc.model = m) (hwhole : m.Occurs whole) (hbuilds : D.Builds c whole a')
      (hassigns : Assigns sc c e x t a a') (hputs : whole.PutsAt e x a.body.size)
      (hstands : t.StandsFor m D.nonterminals x) (hown : isBearer = false → LoweredElement m D e)
      (hcarried : isBearer = true → LoweredShape m D e)

/-- The lowering went through a site. -/
def Lowered : Site → Prop
  | .element e => LoweredElement m D e
  | .shape e => LoweredShape m D e
  | .branches branches => ∃ sc lhs, sc.model = m ∧ D.IsWhole lhs ∧
      Ran D (baseProductions sc lhs branches) ()
  | .choice c branches => ∃ sc lhs cls, sc.model = m ∧ m.class? c = some cls ∧
      cls.variants.length = branches.length ∧
      Ran D (variantProductions sc lhs c 0 branches cls.variants) ()
  | .bearer e c => ∃ sc lhs, sc.model = m ∧ D.IsWhole lhs ∧ Ran D (bearerProductions sc lhs c e) ()
  | .body c content isBearer => ∃ sc lhs, sc.model = m ∧ D.IsWhole lhs ∧
      Ran D (classProductions sc lhs c content isBearer) ()
  | .sole c branch => ∃ sc lhs a, sc.model = m ∧ D.IsWhole lhs ∧
      Ran D (construct sc c branch false .empty) a ∧
      ⟨lhs, a.terms, a.construct c, some branch.id⟩ ∈ D.productions
  | .content c e isBearer => LoweredContent m D c e isBearer

end

namespace Lowering

variable {D : ProductionDraft} {sc : LoweringScope} {e x : Expr} {c : ClassId}
  {branches items : List Expr} {lhs : NonterminalId} {u : Unit}

/-! ## What runs consist of -/

/-- A class that an element carries gets productions of its own. -/
theorem Ran.bearer {kind : SynthesizedKind} {t : Term} (h : Ran D (elementTerm sc e kind) t)
    (hskip : ¬e.hasMarker .skip = true) (hmarker : e.hasMarker .classOf = true)
    (hclass : sc.model.nodeClasses.get? e.id = some c) :
    ∃ lhs, D.IsWhole lhs ∧ Ran D (bearerProductions sc lhs c e) () := by
  obtain ⟨-, -, -, -, -, -, -, -, -, -, -, -, -, -, -, hbearer, -⟩ := @valued_extends sc
  have hproduces (c : ClassId) (n : NonterminalId) :
      Returning n (do bearerProductions sc n c e; return .nonterminal n) :=
    .bind (.of_extending (hbearer n c e)) fun _ => .pure
  rw [elementTerm, if_neg hskip, if_pos hmarker] at h
  obtain ⟨c', hc, h⟩ := h.bind fun c => .bind .synthesize
    fun n => (hproduces c n).growing
  obtain rfl := Option.some.inj (hc.class_eq.symm.trans hclass)
  obtain ⟨n, hn, h⟩ := h.bind fun n => (hproduces c' n).growing
  obtain ⟨_, h, -⟩ := h.bind fun _ => .pure
  exact ⟨n, hn.synthesized.2 (fun _ _ h => by cases h), h⟩

theorem Ran.atom {body : Expr} {quantifier : Quantifier} {value : Option Value} {t : Term}
    (h : Ran D (quantifiedTerm sc e quantifier body value) t) :
    ∃ item, Ran D (elementTerm sc (body.absorb quantifier none).atom .item) item := by
  obtain ⟨helement, -⟩ := @valued_extends sc
  rw [quantifiedTerm] at h
  replace h := h.afterWarning
  cases value with
  | none | some =>
    obtain ⟨n, -, h⟩ := h.bind fun n => .bind (.of_extending (helement _ _)) fun item =>
      .bind .forM_produce fun _ => .pure
    obtain ⟨item, hitem, -⟩ := h.bind fun item => .bind .forM_produce fun _ => .pure
    exact ⟨item, hitem⟩

/-- Each element of a row was flattened. -/
theorem Ran.flattened {before result : Array Term × Option Nat}
    (h : Ran D (flattenAll sc items before) result) (hx : x ∈ items) :
    ∃ terms result, Ran D (flatten sc x terms) result := by
  obtain ⟨-, -, -, -, -, hall, -⟩ := @valued_extends sc
  induction items generalizing before with
  | nil => cases hx
  | cons first rest ih =>
    rw [flattenAll] at h
    obtain ⟨row, hfirst, h⟩ := h.bind (by
      rintro ⟨terms, position⟩
      cases before.2 <;> cases position <;>
        first
        | exact .of_extending (hall _ _)
        | exact fun _ _ _ hrun => (fail_ne_ok.mp hrun).elim)
    rcases List.mem_cons.mp hx with rfl | hx
    · exact ⟨_, row, hfirst⟩
    · obtain ⟨terms, position⟩ := row
      rcases before with ⟨terms₀, _ | i⟩ <;> rcases position with _ | j
      · exact ih h hx
      · exact ih h hx
      · exact ih h hx
      · obtain ⟨d, d', hrun, -⟩ := h
        exact (fail_ne_ok.mp hrun).elim

/-- The shape of an element was lowered part by part. -/
theorem Ran.shape {value : Option Value} {kind : SynthesizedKind} {t : Term}
    (h : Ran D (shapeTerm sc e value kind) t) : LoweredShape sc.model D e := by
  obtain ⟨-, -, -, -, -, hall, -, halternatives, -⟩ := @valued_extends sc
  cases e with
  | terminal | reference => exact ⟨(fun _ _ hx => by cases hx), fun _ _ h => by cases h⟩
  | group info body =>
    rw [shapeTerm] at h
    exact ⟨fun _ => List.forall_mem_singleton.mpr (.term rfl h), fun _ _ h => by cases h⟩
  | optional info body =>
    rw [shapeTerm] at h
    obtain ⟨item, hitem⟩ := h.atom
    exact ⟨fun _ => List.forall_mem_singleton.mpr (.atom rfl hitem), fun _ _ h => by cases h⟩
  | repeated info body k =>
    rw [shapeTerm] at h
    obtain ⟨item, hitem⟩ := h.atom
    exact ⟨fun _ => List.forall_mem_singleton.mpr (.atom rfl hitem), fun _ _ h => by cases h⟩
  | sequence info items =>
    rw [shapeTerm] at h
    obtain ⟨n, -, h⟩ := h.bind fun n => .bind (.of_extending (hall items _)) (by
      rintro ⟨terms, position⟩
      exact .bind .forwarding fun _ => .bind .produce fun _ => .pure)
    obtain ⟨row, h, -⟩ := h.bind (by
      rintro ⟨terms, position⟩
      exact .bind .forwarding fun _ => .bind .produce fun _ => .pure)
    refine ⟨fun _ x hx => ?_, fun _ _ h => by cases h⟩
    obtain ⟨terms, result, hflat⟩ := h.flattened hx
    exact .row rfl hflat
  | alternation info branches =>
    refine ⟨(fun h => by cases h), ?_⟩
    rintro _ _ ⟨⟩ c hclass
    rw [shapeTerm, hclass] at h
    have hproduces (n : NonterminalId) : Returning n (do
        alternativeProductions sc n c (.alternation info branches)
        return .nonterminal n) :=
      .bind (.of_extending (halternatives n c _)) fun _ => .pure
    obtain ⟨n, hn, h⟩ := h.bind fun n => (hproduces n).growing
    obtain ⟨_, h, -⟩ := h.bind fun _ => .pure
    exact ⟨sc, n, rfl, hn.synthesized.2 (Content.isWhole_ofValue? _), h⟩

/-! ## Assemblies -/

theorem constructElement_adds {isBearer : Bool} {a a' : Assembly} {d d' : ProductionDraft}
    (h : constructElement sc c e isBearer a d = .ok a' d') : a.Adds 1 a' := by
  rw [constructElement] at h
  split at h <;>
  · obtain ⟨t, d₁, -, hassign⟩ := bind_eq_ok.mp h
    exact (assign_assigns hassign).adds

theorem constructQuantified_adds {quantifier : Quantifier} {body : Expr} {a a' : Assembly}
    {d d' : ProductionDraft} (h : constructQuantified sc c e quantifier body a d = .ok a' d') :
    a.Adds 1 a' := by
  rw [constructQuantified] at h
  split at h
  · obtain ⟨⟨t, many⟩, d₁, -, h⟩ := bind_eq_ok.mp h
    rw [← (pure_eq_ok.mp h).1]
    exact a.adds_pushFragment t many
  · obtain ⟨t, d₁, -, h⟩ := bind_eq_ok.mp h
    rw [← (pure_eq_ok.mp h).1]
    exact a.adds_push t

mutual

/-- What was put together stays in front, and each part gets one term. -/
theorem construct_adds : ∀ (e : Expr) {isBearer : Bool} {a a' : Assembly}
    {d d' : ProductionDraft}, construct sc c e isBearer a d = .ok a' d' →
      a.Adds (e.parts isBearer).length a' := by
  intro e isBearer a a' d d' h
  rw [construct.eq_def] at h
  split at h
  · rename_i hskip
    obtain ⟨t, d₁, -, h⟩ := bind_eq_ok.mp h
    rw [← (pure_eq_ok.mp h).1, Expr.parts_of_standsAlone (Expr.standsAlone_of_skip hskip)]
    exact a.adds_push t
  split at h
  · rename_i hfield
    obtain ⟨t, d₁, -, h⟩ := bind_eq_ok.mp h
    rw [Expr.parts_of_standsAlone (Expr.standsAlone_of_field hfield)]
    exact (assign_assigns h).adds
  rename_i hkept hfield
  have hparts := Expr.standsAlone_eq_false hkept hfield
  cases e with
  | sequence info items =>
    rw [Expr.parts_sequence hparts]
    exact constructAll_adds items h
  | group info body =>
    rw [Expr.parts_group hparts]
    exact construct_adds body h
  | optional info body =>
    have hsingle : (Expr.optional info body).parts isBearer = [.optional info body] :=
      Expr.parts_of_single nofun nofun
    rw [hsingle]
    dsimp only at h
    split at h
    · exact constructElement_adds h
    · exact constructQuantified_adds h
  | repeated info body kind =>
    have hsingle : (Expr.repeated info body kind).parts isBearer = [.repeated info body kind] :=
      Expr.parts_of_single nofun nofun
    rw [hsingle]
    dsimp only at h
    split at h
    · exact constructElement_adds h
    · exact constructQuantified_adds h
  | terminal | reference | alternation =>
    rw [Expr.parts_of_single]
    · exact constructElement_adds h
    all_goals nofun

/-- What was put together stays in front, and each part gets one term. -/
theorem constructAll_adds : ∀ (items : List Expr) {a a' : Assembly} {d d' : ProductionDraft},
    constructAll sc c items a d = .ok a' d' → a.Adds (Expr.partsAll items).length a' := by
  intro items a a' d d' h
  cases items with
  | nil =>
    rw [constructAll] at h
    rw [(pure_eq_ok.mp h).1]
    exact .refl a'
  | cons first rest =>
    rw [constructAll] at h
    obtain ⟨a₁, d₁, hfirst, hrest⟩ := bind_eq_ok.mp h
    rw [Expr.partsAll, List.length_append]
    exact (construct_adds first hfirst).trans (constructAll_adds rest hrest)

end

/-- Each part of a class was put into the assembly, at its place among all parts. -/
theorem Ran.constructed {a a' : Assembly} {all : List Expr}
    (h : Ran D (constructAll sc c items a) a') (hx : x ∈ items)
    (hplace : Expr.partsAll items <+: all.drop a.body.size) :
    ∃ a₁ a₂, Ran D (construct sc c x false a₁) a₂ ∧ a₂.Begins a' ∧
      x.parts false <+: all.drop a₁.body.size := by
  obtain ⟨-, -, -, -, -, -, -, -, -, -, -, -, -, -, hall, -⟩ := @valued_extends sc
  induction items generalizing a with
  | nil => cases hx
  | cons first rest ih =>
    rw [constructAll] at h
    obtain ⟨a₁, hfirst, hrest⟩ := h.bind fun a => .of_extending (hall c rest a)
    rw [Expr.partsAll] at hplace
    rcases List.mem_cons.mp hx with rfl | hx
    · obtain ⟨d, d', hrun, -⟩ := hrest
      exact ⟨a, a₁, hfirst, (constructAll_adds rest hrun).toBegins,
        (List.prefix_append _ _).trans hplace⟩
    · obtain ⟨d, d', hrun, -⟩ := hfirst
      refine ih hrest hx ?_
      obtain ⟨back, hback⟩ := hplace
      rw [(construct_adds first hrun).size_eq, ← List.drop_drop, ← hback, List.append_assoc,
        List.drop_left]
      exact List.prefix_append _ _

/-- The operand of a fragment stands in a production of the fragment. -/
theorem Ran.operand {quantifier : Quantifier} {body : Expr} {a a' : Assembly}
    (h : Ran D (constructQuantified sc c e quantifier body a) a')
    (hfills : sc.model.fillsFieldsOf e c = true) :
    ∃ a₁, Ran D (fragmentOperand sc c (body.absorb quantifier none)) a₁ ∧
      D.Builds c (body.absorb quantifier none).atom a₁ := by
  rw [constructQuantified, if_pos hfills] at h
  obtain ⟨result, ⟨d, d', hrun, hgrows⟩, -⟩ := h.bind (by
    rintro ⟨t, many⟩
    exact .pure)
  obtain ⟨n, d₁, d₂, a₁, d₃, -, -, -, hoperand, hproduces⟩ := fragmentTerm_eq_ok hrun
  refine ⟨a₁, ⟨d₂, d₃, hoperand, hproduces.grows.trans hgrows⟩, hgrows.builds ?_⟩
  have hmem (p : Production)
      (hp : p ∈ fragmentProductions n c e (body.absorb quantifier none) a₁) :
      p ∈ d'.productions := hproduces.mem_iff.mpr (.inr hp)
  unfold fragmentProductions at hmem
  split at hmem
  · exact .of_mem (hmem _ List.mem_cons_self)
  · exact (Builds.of_mem (hmem _ List.mem_cons_self)).of_begins (a₁.adds_pushFragment _ _).toBegins
  · exact (Builds.of_mem (hmem _ List.mem_cons_self)).of_begins (a₁.adds_pushFragment _ _).toBegins

end Lowering

section

variable {m : GrammarModel} {D : ProductionDraft} {sc : LoweringScope} {e x : Expr} {c : ClassId}
  {branches : List Expr} {lhs : NonterminalId}

/-! ## Elements -/

/-- An element in a row either becomes a term, or dissolves into its parts. -/
theorem Lowering.Ran.inRow {terms : Array Term} {result : Array Term × Option Nat}
    (h : Ran D (flatten sc e terms) result) :
    (∃ kind t, Ran D (elementTerm sc e kind) t) ∨
      e.isUnmarked = true ∧ LoweredShape sc.model D e := by
  have helement {e : Expr} (h : Ran D (flatElement sc e terms) result) :
      ∃ kind t, Ran D (elementTerm sc e kind) t := by
    rw [flatElement] at h
    obtain ⟨t, ht, -⟩ := h.bind fun t => .pure
    exact ⟨_, t, ht⟩
  cases e with
  | group info body =>
    rw [flatten] at h
    split at h
    · refine .inr ⟨by assumption, fun _ => List.forall_mem_singleton.mpr (.row rfl h),
        fun _ _ h => by cases h⟩
    · exact .inl (helement h)
  | sequence info items =>
    rw [flatten] at h
    split at h
    · refine .inr ⟨by assumption, fun _ x hx => ?_, fun _ _ h => by cases h⟩
      obtain ⟨terms, result, hflat⟩ := h.flattened hx
      exact .row rfl hflat
    · exact .inl (helement h)
  | terminal | reference | alternation | optional | repeated =>
    rw [flatten] at h
    · exact .inl (helement h)
    all_goals simp

theorem LoweredElement.shape (h : LoweredElement m D e) (hskip : ¬e.hasMarker .skip = true)
    (hmarker : ¬e.hasMarker .classOf = true) : LoweredShape m D e := by
  have helement {sc : LoweringScope} {kind : SynthesizedKind} {t : Term}
      (h : Ran D (elementTerm sc e kind) t) : LoweredShape sc.model D e := by
    rw [elementTerm, if_neg hskip, if_neg hmarker] at h
    exact h.shape
  have hpart {body : Expr} (hbody : e.children = [body]) (halternation : e.isAlternation = false)
      (h : LoweredElement m D body) : LoweredShape m D e := by
    refine ⟨fun _ => hbody ▸ List.forall_mem_singleton.mpr h, ?_⟩
    rintro info branches rfl
    cases halternation
  cases h with
  | term hmodel h => exact hmodel ▸ helement h
  | row hmodel h =>
    obtain rfl := hmodel
    obtain ⟨kind, t, h⟩ | ⟨-, h⟩ := h.inRow
    · exact helement h
    · exact h
  | bearer _ hmarker' => exact absurd hmarker' hmarker
  | @atom sc quantifier carrier kind t hmodel h =>
    rcases e.absorbs quantifier carrier with
      habsorb | ⟨body, inner, hbody, halternation, -, hatom⟩ |
      ⟨body, inner, hbody, halternation, -, hatom⟩
    · rw [habsorb] at h
      exact hmodel ▸ helement h
    all_goals
      rw [hatom] at h
      exact hpart hbody halternation (.atom hmodel h)
  | name hclass hcore =>
    rcases Expr.name_cases hcore with rfl | ⟨info, body, rfl, hkeeps, hbody⟩
    · exact ⟨(fun _ _ hx => by cases hx), fun _ _ h => by cases h⟩
    · refine hpart rfl rfl (.name ?_ hbody)
      rwa [hcore, ← hbody] at hclass

theorem LoweredElement.bearer_lowered (h : LoweredElement m D e)
    (hskip : ¬e.hasMarker .skip = true) (hmarker : e.hasMarker .classOf = true)
    (hclass : m.nodeClasses.get? e.id = some c) : Lowered m D (.bearer e c) := by
  have helement {sc : LoweringScope} {kind : SynthesizedKind} {t : Term} (hmodel : sc.model = m)
      (h : Ran D (elementTerm sc e kind) t) : Lowered m D (.bearer e c) := by
    obtain ⟨lhs, hwhole, hran⟩ := h.bearer hskip hmarker (hmodel ▸ hclass)
    exact ⟨sc, lhs, hmodel, hwhole, hran⟩
  cases h with
  | term hmodel h => exact helement hmodel h
  | row hmodel h =>
    obtain ⟨kind, t, h⟩ | ⟨hunmarked, -⟩ := h.inRow
    · exact helement hmodel h
    · simp [Expr.hasMarker_of_isUnmarked hunmarked] at hmarker
  | @bearer sc lhs c' hmodel _ hclass' hwhole h =>
    obtain rfl := Option.some.inj (hclass'.symm.trans hclass)
    exact ⟨sc, lhs, hmodel, hwhole, h⟩
  | @atom sc quantifier carrier kind t hmodel h =>
    rcases e.absorbs quantifier carrier with habsorb | ⟨body, inner, hbody, -, hunmarked, -⟩ |
      ⟨body, inner, hbody, -, hcarries, -⟩
    · rw [habsorb] at h
      exact helement hmodel h
    · simp [Expr.hasMarker_of_isUnmarked hunmarked] at hmarker
    · have hnone : e.hasMarker .classOf = false :=
        Expr.hasMarker_of_carriesOnlyFieldMarkers hcarries (by decide)
      simp [hnone] at hmarker
  | name hmarker' hcore =>
    rcases Expr.name_cases hcore with rfl | ⟨info, body, rfl, hkeeps, -⟩
    · exact absurd hmarker (hcore ▸ hmarker')
    · exact absurd hmarker (Expr.not_hasMarker_of_not_keepsGroup hkeeps).2.1

/-! ## Parts of classes -/

theorem LoweredContent.part {isBearer : Bool} (h : LoweredContent m D c e isBearer)
    (hoccurs : ∀ x ∈ e.preorder, m.Occurs x) (hcomposed : e.IsComposed isBearer)
    (hfills : m.fillsFieldsOf e c = true) (hx : x ∈ e.children) :
    LoweredContent m D c x false := by
  have hatom (quantifier : Quantifier) : m.Occurs (x.absorb quantifier none).atom := by
    apply hoccurs
    apply Expr.preorder_subset_of_child hx
    exact Expr.preorder_absorb_subset quantifier none x (Expr.self_mem_preorder _)
  have hrun {sc : LoweringScope} {whole : Expr} {a a' : Assembly} {isBearer outer : Bool}
      (hmodel : sc.model = m) (hwhole : m.Occurs whole) (hbuilds : D.Builds c whole a')
      (hplace : e.parts isBearer <+: (whole.parts outer).drop a.body.size)
      (hcomposed : e.IsComposed isBearer) (hran : Ran D (construct sc c e isBearer a) a') :
      LoweredContent m D c x false := by
    obtain rfl := hmodel
    rw [construct.eq_def, if_neg hcomposed.kept, if_neg hcomposed.noField] at hran
    have hparts := Expr.standsAlone_eq_false hcomposed.kept hcomposed.noField
    cases e with
    | terminal | reference | alternation => exact (hcomposed.noUnit trivial).elim
    | sequence info items =>
      rw [Expr.parts_sequence hparts] at hplace
      obtain ⟨a₁, a₂, hpart, hbegins, hplace⟩ := hran.constructed hx hplace
      exact .run rfl hwhole (hbuilds.of_begins hbegins) hplace hpart
    | group info body =>
      obtain rfl := List.mem_singleton.mp hx
      rw [Expr.parts_group hparts] at hplace
      exact .run rfl hwhole hbuilds hplace hran
    | optional | repeated =>
      have hsimple : ¬Expr.isSimpleChain _ = true := hcomposed.noUnit
      obtain rfl := List.mem_singleton.mp hx
      dsimp only at hran
      rw [if_neg hsimple] at hran
      obtain ⟨a₁, hoperand, hbuilds⟩ := hran.operand hfills
      exact .operand rfl (hatom _) hbuilds hsimple hoperand
  cases h with
  | run hmodel hwhole hbuilds hplace h => exact hrun hmodel hwhole hbuilds hplace hcomposed h
  | @operand sc _ quantifier a hmodel hwhole hbuilds hsimple h =>
    rcases e.absorbs quantifier none with habsorb |
      ⟨body, inner, hbody, -, hunmarked, hsame', hcarrier, hoperand, -⟩ |
      ⟨body, inner, hbody, -, hcarries, -⟩
    · rw [habsorb] at h hbuilds hwhole
      exact hrun hmodel hwhole hbuilds (List.prefix_rfl) hcomposed h
    · rw [hbody] at hx
      obtain rfl := List.mem_singleton.mp hx
      have hsame : (Expr.optional default e).quantifiedAtom =
          (Expr.optional default x).quantifiedAtom := hoperand
      rw [Expr.isSimpleChain_congr hsame] at hsimple
      have hinner : Ran D (fragmentOperand sc c (x.absorb inner none)) a := by
        unfold fragmentOperand at h ⊢
        rw [hsame', hcarrier] at h
        exact h
      rw [hsame'] at hbuilds hwhole
      exact .operand hmodel hwhole hbuilds hsimple hinner
    · have hfield := Expr.isFieldElement_of_carriesOnlyFieldMarkers hcarries
      exact absurd hfield hcomposed.noField

/-- An element that stands for one value is put into the production with the step that fills its
field. -/
theorem Lowering.Ran.value {whole : Expr} {isBearer outer : Bool} {a a' : Assembly}
    (h : Ran D (construct sc c e isBearer a) a') (hwhole : sc.model.Occurs whole)
    (hbuilds : D.Builds c whole a')
    (hplace : e.parts isBearer <+: (whole.parts outer).drop a.body.size)
    (hvalue : e.IsValue isBearer) : LoweredValue sc.model D c e isBearer := by
  have hputs : whole.PutsAt e e a.body.size := by
    obtain ⟨rest, hrest⟩ := hplace
    apply Expr.PutsAt.part
    rw [← List.head?_drop, ← hrest, hvalue.parts_eq]
    exact List.head?_cons
  rw [construct.eq_def, if_neg hvalue.kept] at h
  by_cases hfield : (!isBearer && e.isFieldElement) = true
  · rw [if_pos hfield] at h
    obtain ⟨t, ht, d, d', hassign, -⟩ := h.bind fun t => .assign
    refine .intro rfl hwhole hbuilds (assign_assigns hassign) hputs (elementTerm_standsFor ht)
      (fun _ => .term rfl ht) ?_
    rintro rfl
    cases hfield
  · have hunit := hvalue.single.resolve_left hfield
    have helement : Ran D (constructElement sc c e isBearer a) a' := by
      rw [if_neg hfield] at h
      cases e with
      | sequence | group => exact hunit.elim
      | optional info body =>
        have hsimple : (Expr.optional info body).isSimpleChain = true := hunit
        dsimp only at h
        rwa [if_pos hsimple] at h
      | repeated info body kind =>
        have hsimple : (Expr.repeated info body kind).isSimpleChain = true := hunit
        dsimp only at h
        rwa [if_pos hsimple] at h
      | terminal | reference | alternation => exact h
    rw [constructElement] at helement
    cases isBearer with
    | false =>
      obtain ⟨t, ht, d, d', hassign, -⟩ := helement.bind fun t => .assign
      exact .intro rfl hwhole hbuilds (assign_assigns hassign) hputs (elementTerm_standsFor ht)
        (fun _ => .term rfl ht) fun h => by cases h
    | true =>
      obtain ⟨t, ht, d, d', hassign, -⟩ := helement.bind fun t => .assign
      exact .intro rfl hwhole hbuilds (assign_assigns hassign) hputs (shapeTerm_standsFor ht)
        (fun h => by cases h) fun _ => ht.shape

theorem LoweredContent.value {isBearer : Bool} (h : LoweredContent m D c e isBearer)
    (hvalue : e.IsValue isBearer) : LoweredValue m D c e isBearer := by
  cases h with
  | run hmodel hwhole hbuilds hplace h =>
    obtain rfl := hmodel
    exact h.value hwhole hbuilds hplace hvalue
  | @operand sc _ quantifier a hmodel hwhole hbuilds hsimple h =>
    obtain rfl := hmodel
    rcases e.absorbs quantifier none with habsorb |
      ⟨body, inner, hbody, -, hunmarked, hatom, hcarrier, -, hunit⟩ |
      ⟨body, inner, hbody, -, hcarries, hatom, hcarrier, hquantified⟩
    · rw [habsorb] at h hbuilds hwhole
      exact Ran.value h hwhole hbuilds List.prefix_rfl hvalue
    · -- collapsing went on inside, but the expression would yield one value for each match
      refine absurd (hunit (hvalue.single.resolve_left fun hfield => ?_)) hsimple
      simp [Expr.isFieldElement, Expr.hasMarker_of_isUnmarked hunmarked] at hfield
    · obtain ⟨hsome, hoperand⟩ := Expr.absorb_carrier inner e body
      have hterm : Ran D (do
          let t ← elementTerm sc (e.absorb quantifier none).atom .group
          assign sc c e (e.absorb quantifier none).atom t .empty) a := by
        unfold fragmentOperand at h
        rw [hcarrier, hsome] at h
        exact h
      obtain ⟨t, ht, d, d', hassign, -⟩ := hterm.bind fun t => .assign
      have hputs := Expr.PutsAt.operand hcarries (hatom.trans (hoperand.trans hquantified.symm))
      exact .intro rfl hwhole hbuilds (assign_assigns hassign) hputs (elementTerm_standsFor ht)
        (fun _ => .atom rfl ht) fun h => by cases h

/-! ## Alternatives -/

/-- Each alternative of the content of a class has a production. -/
theorem Lowering.Ran.branched {u : Unit} (h : Ran D (constructBranches sc lhs c branches) u)
    (hx : x ∈ branches) : ∃ a, Ran D (construct sc c x false .empty) a ∧
      ⟨lhs, a.terms, a.construct c, some x.id⟩ ∈ D.productions := by
  obtain ⟨-, -, -, -, -, -, -, -, -, -, -, -, -, -, -, -, -, hall⟩ := @valued_extends sc
  induction branches with
  | nil => cases hx
  | cons first rest ih =>
    rw [constructBranches] at h
    obtain ⟨a, hfirst, h⟩ := h.bind fun a =>
      .bind .produce fun _ => .of_extending (hall lhs c rest)
    obtain ⟨_, hproduce, hrest⟩ := h.bind fun _ => .of_extending (hall lhs c rest)
    rcases List.mem_cons.mp hx with rfl | hx
    · exact ⟨a, hfirst, hproduce.produced⟩
    · exact ih hrest hx

/-- Each alternative under a base has productions. -/
theorem Lowering.Ran.based {u : Unit} (h : Ran D (baseProductions sc lhs branches) u)
    (hx : x ∈ branches) :
    (x.core.hasMarker .classOf = true → ∀ c, sc.model.nodeClasses.get? x.core.id = some c →
      Ran D (bearerProductions sc lhs c x.core) ()) ∧
      (¬x.core.hasMarker .classOf = true → ∀ c, sc.model.nodeClasses.get? x.id = some c →
        ∃ a, Ran D (construct sc c x false .empty) a ∧
          ⟨lhs, a.terms, a.construct c, some x.id⟩ ∈ D.productions) := by
  obtain ⟨helement, -, -, -, -, -, -, -, -, hbase, hconstruct, -, -, -, -, hbearer, -⟩ :=
    @valued_extends sc
  induction branches with
  | nil => cases hx
  | cons first rest ih =>
    have hgrows : Growing (baseProductions sc lhs rest) := .of_extending (hbase lhs rest)
    rw [baseProductions] at h
    split at h
    · rename_i hmarker
      obtain ⟨c, hclass, h⟩ := h.bind fun c =>
        .bind (.of_extending (hbearer lhs c first.core)) fun _ => hgrows
      obtain ⟨_, hfirst, hrest⟩ := h.bind fun _ => hgrows
      rcases List.mem_cons.mp hx with rfl | hx
      · refine ⟨fun _ c' hclass' => ?_, fun hmarker' => absurd hmarker hmarker'⟩
        obtain rfl := Option.some.inj (hclass.class_eq.symm.trans hclass')
        exact hfirst
      · exact ih hrest hx
    · rename_i hmarker
      split at h
      · rename_i c hclass
        obtain ⟨a, hfirst, h⟩ := h.bind fun a => .bind .produce fun _ => hgrows
        obtain ⟨_, hproduce, hrest⟩ := h.bind fun _ => hgrows
        rcases List.mem_cons.mp hx with rfl | hx
        · refine ⟨fun hmarker' => absurd hmarker' hmarker, fun _ c' hclass' => ?_⟩
          obtain rfl := Option.some.inj (hclass.symm.trans hclass')
          exact ⟨a, hfirst, hproduce.produced⟩
        · exact ih hrest hx
      · rename_i hclass
        obtain ⟨t, -, h⟩ := h.bind fun t => .bind .produce fun _ => hgrows
        obtain ⟨_, -, hrest⟩ := h.bind fun _ => hgrows
        rcases List.mem_cons.mp hx with rfl | hx
        · exact ⟨fun hmarker' => absurd hmarker' hmarker,
            fun _ c hclass' => by rw [hclass] at hclass'; cases hclass'⟩
        · exact ih hrest hx

/-- Each variant is chosen by a production for its alternative. -/
theorem Lowering.Ran.chosen {cls : ClassModel} {index : Nat} {variants : List Variant} {u : Unit}
    (h : Ran D (variantProductions sc lhs c index branches variants) u)
    (hcls : sc.model.class? c = some cls) (hvariants : cls.variants.drop index = variants)
    {i : Nat} {variant : Variant} (hx : branches[i]? = some x)
    (hvariant : variants[i]? = some variant) :
    (∃ terms result, Ran D (flatten sc x terms) result) ∧
      ∃ p ∈ D.productions, ∃ payload, p.action = .choose c (index + i) payload ∧
        payload.isSome = variant.payload.isSome := by
  obtain ⟨-, -, -, -, -, -, -, -, hall, -⟩ := @valued_extends sc
  induction branches generalizing index variants i with
  | nil => simp at hx
  | cons first rest ih =>
    cases variants with
    | nil => simp at hvariant
    | cons head later =>
      have hlater : cls.variants.drop (index + 1) = later := by
        rw [← List.drop_drop, hvariants, List.drop_one, List.tail_cons]
      have hgrows : Growing (variantProductions sc lhs c (index + 1) rest later) :=
        .of_extending (hall lhs c (index + 1) rest later ⟨cls, hcls, hlater⟩)
      rw [variantProductions_cons] at h
      split at h
      · obtain ⟨d, d', hrun, -⟩ := h
        exact (fail_ne_ok.mp hrun).elim
      obtain ⟨result, hflat, h⟩ := h.bind fun result =>
        .bind (.of_same fun _ _ _ h => variantPayload_eq_ok h) fun _ =>
          .bind .produce fun _ => hgrows
      obtain ⟨payload, ⟨d, d', hpayload, -⟩, h⟩ := h.bind fun _ => .bind .produce fun _ => hgrows
      obtain ⟨_, hproduce, hrest⟩ := h.bind fun _ => hgrows
      cases i with
      | zero =>
        obtain rfl : first = x := by simpa using hx
        obtain rfl : head = variant := by simpa using hvariant
        exact ⟨⟨_, _, hflat⟩, _, hproduce.produced, payload, rfl, variantPayload_isSome hpayload⟩
      | succ i =>
        have hback := ih hrest hlater (by simpa using hx) (by simpa using hvariant)
        rwa [Nat.add_assoc, Nat.add_comm 1 i] at hback

theorem lowered_alternatives {info : NodeInfo} (hmodel : sc.model = m) (hwhole : D.IsWhole lhs)
    (h : Ran D (alternativeProductions sc lhs c (.alternation info branches)) ()) :
    (Settled.HasKind m c .abstract → Lowered m D (.branches branches)) ∧
      (Settled.HasKind m c .tagged → Lowered m D (.choice c branches)) := by
  obtain rfl := hmodel
  refine ⟨fun hkind => ?_, fun hkind => ?_⟩
  · rw [alternativeProductions_abstract hkind] at h
    exact ⟨sc, lhs, rfl, hwhole, h⟩
  · obtain ⟨cls, hcls, hkind⟩ := hkind
    by_cases hlength : cls.variants.length = branches.length
    · rw [alternativeProductions_tagged hcls hkind hlength] at h
      exact ⟨sc, lhs, cls, rfl, hcls, hlength, h⟩
    · obtain ⟨d, d', hrun, -⟩ := h
      obtain ⟨_, _, _, _, _, _, variants, _, _, _⟩ := cls
      obtain rfl := hkind
      rw [alternativeProductions] at hrun
      simp only [hcls] at hrun
      rw [if_neg hlength] at hrun
      exact (fail_ne_ok.mp hrun).elim

/-! ## All sites -/

/-- The lowering went through all rules. -/
structure LowersRules (m : GrammarModel) (D : ProductionDraft) : Prop where
  isWhole : ∀ {rule source}, m.HasRule rule source → D.IsWhole rule.id
  ran : ∀ {rule source}, m.HasRule rule source →
    ∃ sc, sc.model = m ∧ sc.rule = rule ∧ Ran D (ruleProductions sc source.body) ()

/-- The body of a rule that stands for its content is lowered as an element. -/
theorem Lowering.Ran.passthrough (h : Ran D (ruleProductions sc e) ())
    (hrole : sc.rule.role = .passthrough) (hwhole : D.IsWhole sc.rule.id) :
    LoweredElement sc.model D e := by
  obtain ⟨-, -, -, -, -, -, -, -, -, -, -, -, -, -, -, hbearer, -⟩ := @valued_extends sc
  unfold ruleProductions at h
  rw [hrole] at h
  dsimp only at h
  split at h
  · rename_i hmarker
    obtain ⟨c, hclass, h⟩ := h.bind fun c => .of_extending (hbearer sc.rule.id c e)
    exact .bearer rfl (Bool.and_eq_true_iff.mp hmarker).1 hclass.class_eq hwhole h
  · obtain ⟨result, hflat, -⟩ := h.bind (by
      rintro ⟨terms, position⟩
      exact .bind .forwarding fun _ => .produce)
    exact .row rfl hflat

/-- Whatever the analysis reached was lowered. -/
theorem GrammarModel.Reached.lowered (hrules : LowersRules m D) {site : Site}
    (h : m.Reached site) : Lowered m D site := by
  induction h with
  | builds hrule hrole =>
    obtain ⟨sc, rfl, rfl, hran⟩ := hrules.ran hrule
    unfold ruleProductions at hran
    rw [hrole] at hran
    exact ⟨sc, sc.rule.id, rfl, hrules.isWhole hrule, hran⟩
  | polymorphic hrule hrole hkind hcore =>
    obtain ⟨sc, rfl, rfl, hran⟩ := hrules.ran hrule
    unfold ruleProductions at hran
    rw [hrole, hcore] at hran
    exact (lowered_alternatives rfl (hrules.isWhole hrule) hran).1 hkind
  | tagged hrule hrole hkind hcore =>
    obtain ⟨sc, rfl, rfl, hran⟩ := hrules.ran hrule
    unfold ruleProductions at hran
    rw [hrole, hcore] at hran
    exact (lowered_alternatives rfl (hrules.isWhole hrule) hran).2 hkind
  | passthrough hrule hrole =>
    obtain ⟨sc, rfl, rfl, hran⟩ := hrules.ran hrule
    exact hran.passthrough hrole (hrules.isWhole hrule)
  | bearing _ hskip hmarker hclass ih => exact ih.bearer_lowered hskip hmarker hclass
  | shaped _ hskip hmarker ih => exact ih.shape hskip hmarker
  | child _ halternation hx ih => exact ih.parts halternation _ hx
  | base _ hclass hkind ih =>
    obtain ⟨sc, lhs, hmodel, hwhole, hran⟩ := ih.alternatives _ _ rfl _ hclass
    exact (lowered_alternatives hmodel hwhole hran).1 hkind
  | choice _ hclass hkind ih =>
    obtain ⟨sc, lhs, hmodel, hwhole, hran⟩ := ih.alternatives _ _ rfl _ hclass
    exact (lowered_alternatives hmodel hwhole hran).2 hkind
  | branch _ hx ih =>
    obtain ⟨sc, lhs, cls, rfl, hcls, hlength, hran⟩ := ih
    obtain ⟨i, hi, rfl⟩ := List.mem_iff_getElem.mp hx
    obtain ⟨⟨terms, result, hflat⟩, -⟩ := hran.chosen hcls rfl (List.getElem?_eq_getElem hi)
      (List.getElem?_eq_getElem (hlength.symm ▸ hi))
    exact .row rfl hflat
  | derived _ hx hmarker hclass ih =>
    obtain ⟨sc, lhs, rfl, hwhole, hran⟩ := ih
    exact ⟨sc, lhs, rfl, hwhole, (hran.based hx).1 hmarker _ hclass⟩
  | referring _ _ hmarker hcore => exact .name hmarker hcore
  | synthesized _ hx hmarker hclass ih =>
    obtain ⟨sc, lhs, rfl, hwhole, hran⟩ := ih
    obtain ⟨a, hconstruct, hproduction⟩ := (hran.based hx).2 hmarker _ hclass
    exact ⟨sc, lhs, a, rfl, hwhole, hconstruct, hproduction⟩
  | sole hsole ih =>
    obtain ⟨sc, lhs, a, hmodel, -, hconstruct, hproduction⟩ := ih
    exact .run hmodel (hsole.inside.occurs List.mem_cons_self) (.of_mem hproduction)
      List.prefix_rfl hconstruct
  | abstract _ hkind hcore ih =>
    obtain ⟨sc, lhs, rfl, hwhole, hran⟩ := ih
    obtain ⟨cls, hcls, habstract⟩ := hkind
    rw [bearerProductions_eq, if_pos (by rw [hcls, Option.map_some, habstract]), hcore] at hran
    exact (lowered_alternatives rfl hwhole hran).1 ⟨cls, hcls, habstract⟩
  | concrete _ hkind ih =>
    obtain ⟨sc, lhs, rfl, hwhole, hran⟩ := ih
    obtain ⟨cls, hcls, hconcrete⟩ := hkind
    rw [bearerProductions_eq, if_neg (by rw [hcls, Option.map_some, hconcrete]; nofun)] at hran
    exact ⟨sc, lhs, rfl, hwhole, hran⟩
  | single hbody halternatives ih =>
    obtain ⟨sc, lhs, rfl, hwhole, hran⟩ := ih
    rw [classProductions_none sc lhs _ _ halternatives] at hran
    obtain ⟨a, hconstruct, hproduce⟩ := hran.bind fun _ => .produce
    exact .run rfl (hbody.inside.occurs List.mem_cons_self) (.of_mem hproduce.produced)
      List.prefix_rfl hconstruct
  | several hbody halternatives hx ih =>
    obtain ⟨sc, lhs, rfl, hwhole, hran⟩ := ih
    rw [classProductions_some sc lhs _ _ halternatives] at hran
    obtain ⟨a, hconstruct, hproduction⟩ := hran.branched hx
    have hbranch := hbody.several halternatives hx
    exact .run rfl (hbranch.inside.occurs List.mem_cons_self) (.of_mem hproduction)
      List.prefix_rfl hconstruct
  | part hcontent hcomposed hfills hx ih =>
    obtain ⟨rule, hrule, hinside⟩ := hcontent.inside
    exact ih.part (fun x hx => ⟨rule, hrule, hinside _ List.mem_cons_self hx⟩) hcomposed hfills hx
  | own _ hvalue ih =>
    obtain ⟨-, -, -, -, -, -, hown, -⟩ := LoweredContent.value ih hvalue
    exact hown rfl
  | carried _ hvalue ih =>
    obtain ⟨-, -, -, -, -, -, -, hcarried⟩ := LoweredContent.value ih hvalue
    exact hcarried rfl

end

end AnnotatedGrammar
