import AnnotatedGrammar.Config.Preferences
import AnnotatedGrammar.Production.Draft

/-!
# Lowering rules to productions

Each rule has one nonterminal, with the index of the rule. Quantifiers, alternatives inside a rule,
and sequences that count as one element get nonterminals of their own; everything else becomes part
of the body it stands in. Which expression builds which class and fills which field was settled by
the model; the actions follow it.
-/

namespace AnnotatedGrammar

namespace GrammarModel

mutual

/-- The value of an expression as one element, as the model has it or else from its markers and
shape. -/
def valueOf? (m : GrammarModel) (e : Expr) : Option Value :=
  match m.nodeValues.get? e.id with
  | some recorded => recorded
  | none =>
    if e.hasMarker .skip then none
    else if e.hasMarker .classOf then (m.nodeClasses.get? e.id).map Value.ofClass
    else m.shapeValue? e
termination_by 2 * e.weight + 1

/-- The value of an expression from its shape alone. -/
def shapeValue? (m : GrammarModel) (e : Expr) : Option Value :=
  match e with
  | .terminal info (.literal text) =>
    if (Expr.terminal info (.literal text)).hasMarker .field then some (Value.ofPrimitive .keyword)
    else none
  | .terminal _ (.pattern p) => some (Value.ofPrimitive (Primitive.ofPattern p))
  | .reference _ name =>
    match m.symbols.resolve? name with
    | some (.builtin p) => some (Value.ofPrimitive (Primitive.ofPattern p))
    | some (.rule id) => (m.rule? id).bind (·.value)
    | none => none
  | .group _ body => m.valueOf? body
  | .sequence _ items =>
    match m.valuesOf items with
    | [v] => some v
    | _ => none
  | .alternation info _ => (m.nodeClasses.get? info.id).map Value.ofClass
  | .optional _ body => (m.valueOf? body).map fun v => v.wrapped .optional
  | .repeated _ body _ => (m.valueOf? body).map fun v => v.wrapped .list
termination_by 2 * e.weight
decreasing_by all_goals simp only [Expr.weight]; omega

/-- The values that several expressions have. -/
def valuesOf (m : GrammarModel) : List Expr → List Value
  | [] => []
  | e :: rest => (m.valueOf? e).toList ++ m.valuesOf rest
termination_by es => 2 * Expr.weightAll es
decreasing_by all_goals simp only [Expr.weightAll]; omega

end

end GrammarModel

namespace Lowering

/-! Every function below calls the others on smaller expressions, or on the same expression with a
smaller rank. -/

mutual

/-- A term that matches an expression without its value. -/
def plainTerm (sc : LoweringScope) (e : Expr) : Lowering Term := do
  match e with
  | .terminal _ t => return .terminal t
  | .reference info name => leafTerm sc (.reference info name) name
  | .group _ body => plainTerm sc body
  | .sequence info items =>
    let n ← synthesize sc (.sequence info items) .group .nothing
    produce n (← plainTermsAll sc items) .nothing info.id
    return .nonterminal n
  | .alternation info branches =>
    let n ← synthesize sc (.alternation info branches) .alternation .nothing
    plainBranches sc n branches
    return .nonterminal n
  | .optional info body => plainQuantified sc (.optional info body) .optional body
  | .repeated info body kind =>
    plainQuantified sc (.repeated info body kind) (.ofRepetition kind) body
termination_by 16 * e.weight + 1
decreasing_by all_goals (try simp only [Expr.weight]); omega

/-- Terms that match an expression without its value, with sequences inlined. -/
def plainTerms (sc : LoweringScope) (e : Expr) : Lowering (List Term) := do
  match e with
  | .sequence _ items => plainTermsAll sc items
  | .group _ body => plainTerms sc body
  | other => return [← plainTerm sc other]
termination_by 16 * e.weight + 2
decreasing_by all_goals (try simp only [Expr.weight]); omega

/-- Terms that match several expressions in a row. -/
def plainTermsAll (sc : LoweringScope) : List Expr → Lowering (List Term)
  | [] => return []
  | e :: rest => do
    let terms ← plainTerms sc e
    return terms ++ (← plainTermsAll sc rest)
termination_by es => 16 * Expr.weightAll es
decreasing_by all_goals simp only [Expr.weightAll]; omega

/-- One production without a value for each branch. -/
def plainBranches (sc : LoweringScope) (lhs : NonterminalId) : List Expr → Lowering Unit
  | [] => return ()
  | branch :: rest => do
    produce lhs (← plainTerms sc branch) .nothing branch.id
    plainBranches sc lhs rest
termination_by branches => 16 * Expr.weightAll branches
decreasing_by all_goals simp only [Expr.weightAll]; omega

/-- A nonterminal for a quantifier whose operand `body` needs no value. -/
def plainQuantified (sc : LoweringScope) (e : Expr) (quantifier : Quantifier) (body : Expr) :
    Lowering Term := do
  let found := body.absorb quantifier none
  warnNested sc e found.absorbed
  let kind := if found.quantifier.isList then SynthesizedKind.list else .optional
  let n ← synthesize sc e kind .nothing
  let item ← plainTerms sc found.atom
  (plainAlternatives found.quantifier item (.nonterminal n)).forM fun body =>
    produce n body .nothing e.id
  return .nonterminal n
termination_by 16 * body.weight + 3
decreasing_by
  have := Expr.weight_absorb_le quantifier none body
  omega

/-- A term that carries the value of an expression as one element. A sequence gets a nonterminal of
the given kind. -/
def elementTerm (sc : LoweringScope) (e : Expr) (kind : SynthesizedKind) : Lowering Term := do
  if e.hasMarker .skip then plainTerm sc e
  else if e.hasMarker .classOf then
    let c ← bearerClass sc e
    let n ← synthesize sc e .group (.value (Value.ofClass c))
    bearerProductions sc n c e
    return .nonterminal n
  else shapeTerm sc e (sc.model.valueOf? e) kind
termination_by 16 * e.weight + 6

/-- A term for the shape of an expression; new nonterminals carry `value`. -/
def shapeTerm (sc : LoweringScope) (e : Expr) (value : Option Value) (kind : SynthesizedKind) :
    Lowering Term := do
  match e with
  | .terminal _ t => return .terminal t
  | .reference info name => leafTerm sc (.reference info name) name
  | .group _ body => elementTerm sc body .group
  | .sequence info items =>
    let n ← synthesize sc (.sequence info items) kind (.ofValue? value)
    let (terms, position) ← flattenAll sc items (#[], none)
    let action ← forwarding value position (.sequence info items)
    produce n terms.toList action info.id
    return .nonterminal n
  | .alternation info branches =>
    let n ← synthesize sc (.alternation info branches) .alternation (.ofValue? value)
    match sc.model.nodeClasses.get? info.id with
    | some c => alternativeProductions sc n c (.alternation info branches)
    | none =>
      if value.isSome then fail .alternationWithoutClass info.span
      else flatBranches sc n branches
    return .nonterminal n
  | .optional info body => quantifiedTerm sc (.optional info body) .optional body value
  | .repeated info body k =>
    quantifiedTerm sc (.repeated info body k) (.ofRepetition k) body value
termination_by 16 * e.weight + 1
decreasing_by all_goals (try simp only [Expr.weight]); omega

/-- A nonterminal for a quantifier with operand `body`; it carries `value`. -/
def quantifiedTerm (sc : LoweringScope) (e : Expr) (quantifier : Quantifier) (body : Expr)
    (value : Option Value) : Lowering Term := do
  let found := body.absorb quantifier none
  warnNested sc e found.absorbed
  let kind := if found.quantifier.isList then SynthesizedKind.list else .optional
  let n ← synthesize sc e kind (.ofValue? value)
  let item ← elementTerm sc found.atom .item
  match value with
  | some v =>
    (valuedAlternatives found.quantifier v item (.nonterminal n)).forM fun alternative =>
      produce n alternative.1 alternative.2 e.id
  | none =>
    (plainAlternatives found.quantifier [item] (.nonterminal n)).forM fun body =>
      produce n body .nothing e.id
  return .nonterminal n
termination_by 16 * body.weight + 7
decreasing_by
  have := Expr.weight_absorb_le quantifier none body
  omega

/-- Adds the terms of an expression to those of the elements before it, inlined where possible. The
result also tells at which position the one value lies. -/
def flatten (sc : LoweringScope) (e : Expr) (terms : Array Term) :
    Lowering (Array Term × Option Nat) := do
  match e with
  | .group info body =>
    if (Expr.group info body).isUnmarked then flatten sc body terms
    else flatElement sc (.group info body) terms
  | .sequence info items =>
    if (Expr.sequence info items).isUnmarked then flattenAll sc items (terms, none)
    else flatElement sc (.sequence info items) terms
  | other => flatElement sc other terms
termination_by 16 * e.weight + 8
decreasing_by all_goals (try simp only [Expr.weight]); omega

/-- Adds the one term of an expression to those of the elements before it. -/
def flatElement (sc : LoweringScope) (e : Expr) (terms : Array Term) :
    Lowering (Array Term × Option Nat) := do
  let position := if (sc.model.valueOf? e).isSome then some terms.size else none
  let term ← elementTerm sc e .group
  return (terms.push term, position)
termination_by 16 * e.weight + 7

/-- Adds the terms of several expressions in a row to those of the elements before them, of which
at most one may have a value. -/
def flattenAll (sc : LoweringScope) (items : List Expr) (before : Array Term × Option Nat) :
    Lowering (Array Term × Option Nat) := do
  match items with
  | [] => return before
  | e :: rest =>
    let (terms, position) ← flatten sc e before.1
    match before.2, position with
    | some _, some _ => fail .twoValues e.span
    | found, position => flattenAll sc rest (terms, found <|> position)
termination_by 16 * Expr.weightAll items
decreasing_by all_goals simp only [Expr.weightAll]; omega

/-- One production without a value for each branch, whose elements keep their values. -/
def flatBranches (sc : LoweringScope) (lhs : NonterminalId) : List Expr → Lowering Unit
  | [] => return ()
  | branch :: rest => do
    let (terms, _) ← flatten sc branch #[]
    produce lhs terms.toList .nothing branch.id
    flatBranches sc lhs rest
termination_by branches => 16 * Expr.weightAll branches
decreasing_by all_goals simp only [Expr.weightAll]; omega

/-- The productions of an expression that carries `@class`. -/
def bearerProductions (sc : LoweringScope) (lhs : NonterminalId) (c : ClassId) (bearer : Expr) :
    Lowering Unit :=
  match _h : bearer.classContent with
  | (content, isBearer) =>
    if ((sc.model.class? c).map (·.kind)) = some .abstract then
      alternativeProductions sc lhs c content.core
    else classProductions sc lhs c content isBearer
termination_by 16 * bearer.weight + 5
decreasing_by
  all_goals
    have hcontent := bearer.weight_classContent
    have hcore := content.weight_core_le
    simp only [_h] at hcontent
    cases isBearer <;> simp_all <;> omega

/-- One production for each alternative of a class body; each builds an instance. -/
def classProductions (sc : LoweringScope) (lhs : NonterminalId) (c : ClassId) (content : Expr)
    (isBearer : Bool) : Lowering Unit := do
  match _h : content.classAlternatives? with
  | some branches => constructBranches sc lhs c branches
  | none =>
    let a ← construct sc c content isBearer .empty
    produce lhs a.terms (a.construct c) content.id
termination_by 16 * content.weight + (if isBearer then 4 else 10)
decreasing_by
  · have := content.weight_classAlternatives _h
    split <;> omega
  · cases isBearer <;> simp

/-- One production for each alternative; each builds an instance. -/
def constructBranches (sc : LoweringScope) (lhs : NonterminalId) (c : ClassId) :
    List Expr → Lowering Unit
  | [] => return ()
  | branch :: rest => do
    let a ← construct sc c branch false .empty
    produce lhs a.terms (a.construct c) branch.id
    constructBranches sc lhs c rest
termination_by branches => 16 * Expr.weightAll branches
decreasing_by all_goals simp only [Expr.weightAll, if_false]; omega

/-- The productions of alternatives that a base or a tagged class stands for. -/
def alternativeProductions (sc : LoweringScope) (lhs : NonterminalId) (c : ClassId) (e : Expr) :
    Lowering Unit :=
  match e with
  | .alternation info branches =>
    match sc.model.class? c with
    | some ⟨_, _, _, .abstract, _, _, _, _, _, _⟩ => baseProductions sc lhs branches
    | some ⟨_, name, _, .tagged, _, _, variants, _, _, _⟩ =>
      if variants.length = branches.length then
        variantProductions sc lhs c 0 branches variants
      else fail (.variantCount name variants.length branches.length) none
    | some ⟨_, name, _, .concrete, _, _, _, _, _, _⟩ => fail (.concreteAlternation name) info.span
    | none => throw (.unknownClass c)
  | other => fail (.notAnAlternation (sc.model.className c)) other.span
termination_by 16 * e.weight
decreasing_by all_goals simp only [Expr.weight]; omega

/-- The productions of the alternatives under a base. -/
def baseProductions (sc : LoweringScope) (lhs : NonterminalId) : List Expr → Lowering Unit
  | [] => return ()
  | branch :: rest => do
    if branch.core.hasMarker .classOf then
      let c ← bearerClass sc branch.core
      bearerProductions sc lhs c branch.core
    else
      match sc.model.nodeClasses.get? branch.id with
      | some derived =>
        let a ← construct sc derived branch false .empty
        produce lhs a.terms (a.construct derived) branch.id
      | none =>
        let term ← elementTerm sc branch .group
        produce lhs [term] (.forward 0) branch.id
    baseProductions sc lhs rest
termination_by branches => 16 * Expr.weightAll branches
decreasing_by
  all_goals
    have := branch.weight_core_le
    simp only [Expr.weightAll, if_false]; omega

/-- The productions of the variants of a tagged class, numbered from `index`. -/
def variantProductions (sc : LoweringScope) (lhs : NonterminalId) (c : ClassId) (index : Nat)
    (branches : List Expr) (variants : List Variant) : Lowering Unit := do
  match branches, variants with
  | branch :: rest, variant :: later =>
    if variant.node ≠ branch.id then fail (.variantOrder variant.tag) branch.span
    else
      let (terms, position) ← flatten sc branch #[]
      let payload ←
        match variant.payload, position with
        | none, _ => pure none
        | some _, some position => pure (some position)
        | some _, none => fail (.payloadWithoutValue variant.tag) branch.span
      produce lhs terms.toList (.choose c index payload) branch.id
      variantProductions sc lhs c (index + 1) rest later
  | _, _ => return ()
termination_by 16 * Expr.weightAll branches
decreasing_by all_goals simp only [Expr.weightAll]; omega

/-- Adds the terms of an expression to an instance being built, with the steps that fill its
fields. `isBearer` tells whether the expression carries the `@class` of the instance. -/
def construct (sc : LoweringScope) (c : ClassId) (e : Expr) (isBearer : Bool) (a : Assembly) :
    Lowering Assembly := do
  if !isBearer && e.hasMarker .skip then return a.push (← plainTerm sc e)
  else if !isBearer && e.isFieldElement then
    let term ← elementTerm sc e .group
    assign sc c e e term a
  else
    match e with
    | .sequence _ items => constructAll sc c items a
    | .group _ body => construct sc c body false a
    | .optional info body =>
      if (Expr.optional info body).isSimpleChain then
        constructElement sc c (.optional info body) isBearer a
      else constructQuantified sc c (.optional info body) .optional body a
    | .repeated info body kind =>
      if (Expr.repeated info body kind).isSimpleChain then
        constructElement sc c (.repeated info body kind) isBearer a
      else constructQuantified sc c (.repeated info body kind) (.ofRepetition kind) body a
    | other => constructElement sc c other isBearer a
termination_by 16 * e.weight + (if isBearer then 3 else 9)
decreasing_by
  all_goals
    try simp only [Expr.weight]
    cases isBearer <;> simp_all <;> omega

/-- Adds the one term of an expression to an instance being built. -/
def constructElement (sc : LoweringScope) (c : ClassId) (e : Expr) (isBearer : Bool)
    (a : Assembly) : Lowering Assembly := do
  let term ←
    if isBearer then shapeTerm sc e (sc.model.shapeValue? e) .group else elementTerm sc e .group
  assign sc c e e term a
termination_by 16 * e.weight + (if isBearer then 2 else 8)
decreasing_by all_goals cases isBearer <;> simp_all

/-- Adds the terms of several expressions in a row to an instance being built. -/
def constructAll (sc : LoweringScope) (c : ClassId) (items : List Expr) (a : Assembly) :
    Lowering Assembly := do
  match items with
  | [] => return a
  | e :: rest =>
    let a ← construct sc c e false a
    constructAll sc c rest a
termination_by 16 * Expr.weightAll items
decreasing_by all_goals simp only [Expr.weightAll, if_false]; omega

/-- Adds a quantified part, of which each match may fill several fields, to an instance being
built. -/
def constructQuantified (sc : LoweringScope) (c : ClassId) (e : Expr) (quantifier : Quantifier)
    (body : Expr) (a : Assembly) : Lowering Assembly := do
  if sc.model.fillsFieldsOf e c then
    let (term, many) ← fragmentTerm sc c e quantifier body
    return a.pushFragment term many
  else return a.push (← plainQuantified sc e quantifier body)
termination_by 16 * body.weight + 11

/-- A nonterminal for a quantified part of a class body. It carries an instance filled from the
matches of the part. -/
def fragmentTerm (sc : LoweringScope) (c : ClassId) (e : Expr) (quantifier : Quantifier)
    (body : Expr) : Lowering (Term × Bool) := do
  let found := body.absorb quantifier none
  warnNested sc e found.absorbed
  let many := found.quantifier.isList
  let n ← synthesize sc e (if many then .list else .optional) (.fragment c many)
  let a ←
    match found.carrier with
    | some carrier => do
      let term ← elementTerm sc found.atom .group
      assign sc c carrier found.atom term .empty
    | none => construct sc c found.atom false .empty
  if many then
    let recursive := a.pushFragment (.nonterminal n) true
    produce n recursive.terms (recursive.construct c) found.atom.id
    if found.quantifier = .oneOrMore then
      produce n a.terms (a.construct c) found.atom.id
    else produce n [] (.construct c []) e.id
  else
    produce n a.terms (a.construct c) found.atom.id
    produce n [] .absent e.id
  return (.nonterminal n, many)
termination_by 16 * body.weight + 10
decreasing_by
  · have := Expr.weight_absorb_le quantifier none body
    omega
  · have := Expr.weight_absorb_le quantifier none body
    simp only [if_false]
    omega

end

/-- The productions of a rule. -/
def ruleProductions (sc : LoweringScope) (body : Expr) : Lowering Unit := do
  let lhs := sc.rule.id
  match sc.rule.role with
  | .builds c => classProductions sc lhs c body false
  | .polymorphic c | .tagged c => alternativeProductions sc lhs c body.core
  | .passthrough =>
    if body.hasMarker .classOf && !body.hasMarker .skip then
      let c ← bearerClass sc body
      bearerProductions sc lhs c body
    else
      let (terms, position) ← flatten sc body #[]
      let action ← forwarding sc.rule.value position body
      produce lhs terms.toList action body.id

/-- The name of the nonterminal of whole texts. -/
def acceptName : String := "accept_"

/-- Declares the nonterminals of the rules; each gets the index of its rule. -/
def declareRules (m : GrammarModel) : Lowering Unit :=
  m.rules.toList.forM fun rule => do
    discard (declare rule.symbol (.ofValue? rule.value) (.rule rule.id))

/-- The productions of all rules. -/
def lowerRules (m : GrammarModel) (preferences : LoweringPreferences) : Lowering Unit :=
  (m.rules.toList.zip m.grammar.rules.toList).forM fun (rule, source) => do
    let owner := ((← get).nonterminals.getD rule.id default).name
    ruleProductions ⟨m, rule, owner, preferences.synthesizedRules⟩ source.body

/-- The nonterminal of whole texts with its one production. -/
def declareAccept (m : GrammarModel) : Lowering NonterminalId := do
  let content := ((← get).nonterminals.getD m.start default).content
  let accept ← declare acceptName content .accept
  produce accept [.nonterminal m.start] (if content.hasValue then .accept 0 else .nothing) none
  return accept

/-- The nonterminals and productions of a model; the result is the nonterminal of whole texts. -/
def lowerModel (m : GrammarModel) (preferences : LoweringPreferences) : Lowering NonterminalId := do
  declareRules m
  lowerRules m preferences
  declareAccept m

end Lowering

/-- The finished production set of a draft. -/
def ProductionDraft.finish (d : ProductionDraft) (start : NonterminalId) : ProductionSet where
  nonterminals := d.nonterminals
  productions := (d.productions.toList.mergeSort fun p q => p.lhs ≤ q.lhs).toArray
  start := start
  warnings := d.warnings.toList

end AnnotatedGrammar
