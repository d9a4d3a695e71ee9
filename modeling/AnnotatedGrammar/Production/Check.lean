import AnnotatedGrammar.Production.Lower

/-!
# Checking a production set

Every action is held against the terms it reads, the content its nonterminal should have, and the
classes and fields of the model. What passes the check can be written out.
-/

namespace AnnotatedGrammar

/-- Either success or an internal fault. -/
abbrev Checked := Except InternalFault

namespace ProductionSet

/-- What a production reads at a position of its body. -/
def readAt (set : ProductionSet) (p : Production) (position : Nat) : Checked Content :=
  match (p.body[position]?).map set.contentOf with
  | some (.value v) => .ok (.value v)
  | some (.fragment c many) => .ok (.fragment c many)
  | some .nothing | none =>
    .error (.invariant .lowering (.readsNothing (set.nonterminal p.lhs).name position) none)

/-- Checks that a production reads a value at a position. -/
def checkRead (set : ProductionSet) (p : Production) (position : Nat) : Checked Unit := do
  discard (set.readAt p position)

/-- Whether a nonterminal's content may be absent. -/
def isOptionalContent : Content → Bool
  | .value v => v.cardinality == .optional
  | .fragment _ many => !many
  | .nothing => false

/-- Whether a nonterminal's content is a list of values. -/
def isListContent : Content → Bool
  | .value v => v.cardinality == .list
  | _ => false

/-- Refuses a production. -/
def refuse {α : Type} (finding : Finding) : Checked α :=
  .error (.invariant .lowering finding none)

/-- The class of an index, or a fault. -/
def checkClass (m : GrammarModel) (c : ClassId) : Checked ClassModel :=
  match m.class? c with
  | some model => .ok model
  | none => .error (.unknownClass c)

/-- Checks one step that fills an instance of a class. -/
def checkStep (set : ProductionSet) (m : GrammarModel) (p : Production) (c : ClassId) :
    Step → Checked Unit
  | .assign field source _ => do
    let name := (set.nonterminal p.lhs).name
    match m.field? field with
    | some f => if f.owner ≠ c then refuse (.foreignField name f.name)
    | none => refuse (.foreignField name "")
    match source with
    | .position position => set.checkRead p position
    | .lexeme _ => return ()
  | .merge position _ => do
    match ← set.readAt p position with
    | .fragment found _ =>
      if found ≠ c then refuse (.mergesOther (set.nonterminal p.lhs).name)
    | _ => refuse (.mergesOther (set.nonterminal p.lhs).name)

/-- Checks the action of a production. -/
def checkProduction (set : ProductionSet) (m : GrammarModel) (p : Production) : Checked Unit := do
  let lhs := set.nonterminal p.lhs
  match p.action with
  | .nothing => if lhs.content.hasValue then refuse (.nothingForValue lhs.name)
  | .forward position | .accept position | .singleton position => set.checkRead p position
  | .absent => if !isOptionalContent lhs.content then refuse (.absentForRequired lhs.name)
  | .emptyList => if !isListContent lhs.content then refuse (.emptyListForOther lhs.name)
  | .prepend item list =>
    set.checkRead p item
    set.checkRead p list
  | .construct c steps =>
    discard (checkClass m c)
    steps.forM (set.checkStep m p c)
  | .choose c index payload =>
    let model ← checkClass m c
    match model.variants[index]? with
    | none => refuse (.unknownVariant lhs.name index)
    | some variant =>
      match variant.payload, payload with
      | some _, some position => set.checkRead p position
      | none, none => return ()
      | _, _ => refuse (.payloadMismatch lhs.name variant.tag)

/-- Checks every action. -/
def check (set : ProductionSet) (m : GrammarModel) : Checked Unit :=
  set.productions.toList.forM (set.checkProduction m)

end ProductionSet

namespace NestedQuantifiers

/-- The message shown to users. -/
def message (w : NestedQuantifiers) : String :=
  "in rule `" ++ w.ruleName ++ "`, `" ++ w.outer.symbol ++ "` around `" ++ w.inner.symbol ++
    "` collapses to `" ++ w.result.symbol ++ "`"

/-- The advice shown to users. -/
def help (w : NestedQuantifiers) : String := "write a single `" ++ w.result.symbol ++ "` instead"

end NestedQuantifiers

/-- The outcome of lowering a model, with what the log is told. -/
structure LoweringOutcome where
  result : Checked ProductionSet
  entries : List Log.Entry

namespace GrammarModel

/-- What the log is told about a finished production set. -/
def loweringEntries (set : ProductionSet) : List Log.Entry :=
  (set.warnings.map fun w =>
    Log.Entry.warning Code.nestedOperatorCollapsed w.message (some w.span)) ++
  [Log.Entry.success Code.desugared "Desugaring complete"
    [("nonterminals", toString set.nonterminals.size),
      ("synthesized", toString set.synthesized.length),
      ("productions", toString set.productions.size),
      ("warnings", toString set.warnings.length)]]

/-- The production set of a model, checked. -/
def lower (m : GrammarModel) (preferences : LoweringPreferences) : LoweringOutcome :=
  match Lowering.lowerModel m preferences default with
  | .error fault d => ⟨.error fault, d.entries.toList⟩
  | .ok start d =>
    let set := d.finish start
    match set.check m with
    | .error fault => ⟨.error fault, d.entries.toList⟩
    | .ok () => ⟨.ok set, d.entries.toList ++ loweringEntries set⟩

end GrammarModel
end AnnotatedGrammar
