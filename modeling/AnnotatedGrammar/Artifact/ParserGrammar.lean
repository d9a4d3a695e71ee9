import AnnotatedGrammar.Artifact.Basic

/-!
# The parser grammar

Every production becomes one alternative of a rule block, and its action becomes a list of
statements that build instances. Positions in a body count from zero here and from one in the
file.
-/

namespace AnnotatedGrammar

/-- A value that a statement stores. -/
inductive Operand
  /-- The value of the term at a position, moved away. -/
  | slot (position : Nat)
  | text (lexeme : String)
deriving DecidableEq, Repr, Inhabited

/-- One statement of a semantic action. -/
inductive Statement
  /-- Makes a new instance of a class. -/
  | makeNode (className : String)
  | setTag (className tag : String)
  | setMember (member : String) (value : Operand)
  | appendMember (member : String) (value : Operand)
  /-- Merges the fragment at a position, if there is one, into the new instance. -/
  | mergeFragment (position : Nat)
  /-- The new instance is the value of the nonterminal. -/
  | yieldNode
  | yieldSlot (position : Nat)
  | yieldNothing
  | appendSlot (position : Nat)
  | prependSlot (position : Nat)
  /-- The value at a position is the result of the parser. -/
  | finish (position : Nat)
deriving DecidableEq, Repr, Inhabited

/-- The name of the value at a position. -/
def slotName (position : Nat) : String := "$" ++ toString (position + 1)

/-- The value at a position, moved away. -/
def movedSlot (position : Nat) : String := "std::move(" ++ slotName position ++ ")"

/-- The operand as text. -/
def Operand.display : Operand → String
  | slot position => movedSlot position
  | text lexeme => "std::string(" ++ cppString lexeme ++ ")"

/-- The statement as text. -/
def Statement.display : Statement → String
  | makeNode c => "auto node = std::make_shared<" ++ c ++ ">();"
  | setTag c tag => "node->tag = " ++ c ++ "::Tag::" ++ tag ++ ";"
  | setMember member value => "node->" ++ member ++ " = " ++ value.display ++ ";"
  | appendMember member value => "detail::append(node->" ++ member ++ ", " ++ value.display ++ ");"
  | mergeFragment position =>
    "if (" ++ slotName position ++ ") node->merge_from(*" ++ slotName position ++ ");"
  | yieldNode => "$$ = node;"
  | yieldSlot position => "$$ = " ++ movedSlot position ++ ";"
  | yieldNothing => "$$ = \x7b\x7d;"
  | appendSlot position => "detail::append($$, " ++ movedSlot position ++ ");"
  | prependSlot position => "detail::prepend($$, " ++ movedSlot position ++ ");"
  | finish position => "result = " ++ movedSlot position ++ ";"

/-- One alternative of a rule block. -/
structure BlockAlternative where
  /-- Names of tokens and nonterminals. -/
  symbols : List String
  statements : List Statement
deriving DecidableEq, Repr, Inhabited

/-- The alternatives of one nonterminal. -/
structure RuleBlock where
  name : String
  alternatives : List BlockAlternative
deriving DecidableEq, Repr, Inhabited

namespace GrammarModel

/-- The type of what a nonterminal or term carries, if it carries anything. -/
def contentType? (m : GrammarModel) : Content → Option String
  | .nothing => none
  | .value v => some (m.valueType v)
  | .fragment c _ => some (sharedPointer (m.className c))

/-- The name of a field. -/
def fieldName (m : GrammarModel) (f : FieldId) : String :=
  match m.field? f with
  | some field => field.name
  | none => ""

/-- The statement of one step that fills an instance. -/
def stepStatement (m : GrammarModel) : Step → Statement
  | .assign field source mode =>
    let value :=
      match source with
      | .position i => Operand.slot i
      | .lexeme text => Operand.text text
    match mode with
    | .set => .setMember (m.fieldName field) value
    | .append | .extend => .appendMember (m.fieldName field) value
  | .merge position _ => .mergeFragment position

end GrammarModel

namespace ArtifactSource

/-- The type of a production's nonterminal, or a fault if it has none. -/
def leftType (s : ArtifactSource) (p : Production) : Checked String :=
  let lhs := s.productions.nonterminal p.lhs
  match s.model.contentType? lhs.content with
  | some type => .ok type
  | none => .error (.untypedNonterminal lhs.name)

/-- The statements of a production's action. A list that receives a value of another type takes up
its items one by one. -/
def statements (s : ArtifactSource) (p : Production) : Checked (List Statement) :=
  match p.action with
  | .nothing => .ok []
  | .forward position => do
    let target ← s.leftType p
    let source :=
      (p.body[position]?).bind fun term => s.model.contentType? (s.productions.contentOf term)
    let isList := ProductionSet.isListContent (s.productions.nonterminal p.lhs).content
    return if isList && source != some target then [.appendSlot position]
      else [.yieldSlot position]
  | .absent | .emptyList => do
    discard (s.leftType p)
    return [.yieldNothing]
  | .prepend item list => .ok [.yieldSlot list, .prependSlot item]
  | .singleton item => .ok [.appendSlot item]
  | .construct c steps =>
    .ok ([.makeNode (s.model.className c)] ++ steps.map s.model.stepStatement ++ [.yieldNode])
  | .choose c index payload =>
    match (s.model.class? c).bind fun model => model.variants[index]? with
    | none => .error (.unknownClass c)
    | some variant =>
      let name := s.model.className c
      let stored :=
        match variant.payload, payload with
        | some field, some position =>
          [Statement.setMember (s.model.fieldName field) (.slot position)]
        | _, _ => []
      .ok ([.makeNode name, .setTag name variant.tag] ++ stored ++ [.yieldNode])
  | .accept position => .ok [.finish position]

/-- The name of a term in the file. -/
def symbolName (s : ArtifactSource) : Term → Checked String
  | .nonterminal n => .ok (s.productions.nonterminal n).name
  | .terminal t => (·.name) <$> s.catalog.lookup (.terminal t)

/-- The alternative of a production. -/
def blockAlternative (s : ArtifactSource) (p : Production) : Checked BlockAlternative := do
  let symbols ← p.body.mapM s.symbolName
  return ⟨symbols, ← s.statements p⟩

/-- The rule block of a nonterminal; one without productions has none. -/
def ruleBlock (s : ArtifactSource) (n : Nonterminal) : Checked RuleBlock :=
  match s.productions.productionsOf n.id with
  | [] => .error (.invariant .parserGrammar (.withoutProductions n.name) none)
  | productions => do return ⟨n.name, ← productions.mapM s.blockAlternative⟩

/-- All rule blocks, in the order of their nonterminals. -/
def ruleBlocks (s : ArtifactSource) : Checked (List RuleBlock) :=
  s.productions.nonterminals.toList.mapM s.ruleBlock

/-- Type and name of every nonterminal that carries something. The nonterminal of whole texts
carries nothing in the file: it stores the result. -/
def nonterminalTypes (s : ArtifactSource) : List (String × String) :=
  s.productions.nonterminals.toList.filterMap fun n =>
    if n.origin = .accept then none
    else (s.model.contentType? n.content).map fun type => (type, n.name)

end ArtifactSource

/-- The line that declares a token. -/
def TokenEntry.declaration (e : TokenEntry) : String :=
  match e.value? with
  | some p => "%token <" ++ p.cppType ++ "> " ++ e.name ++ " " ++ cppString e.describe
  | none => "%token " ++ e.name ++ " " ++ cppString e.describe

/-- An alternative behind its mark, a colon or a bar. -/
def BlockAlternative.layout (mark : String) (a : BlockAlternative) : List Layout.Item :=
  let symbols := if a.symbols.isEmpty then "%empty" else " ".intercalate a.symbols
  [.line (mark ++ " " ++ symbols)] ++
  if a.statements.isEmpty then []
  else
    [.indent, .opening ""] ++ a.statements.map (fun s => .line s.display) ++
    [.closing "", .dedent]

/-- A rule block. -/
def RuleBlock.layout (b : RuleBlock) : List Layout.Item :=
  [.line b.name, .indent] ++
  (match b.alternatives with
    | [] => []
    | first :: rest => first.layout ":" ++ rest.flatMap (BlockAlternative.layout "|")) ++
  [.line ";", .dedent, .blank]

namespace ArtifactSource

/-- The settings of the parser generator. -/
def settingsLayout (s : ArtifactSource) : List Layout.Item :=
  [.line "%require \"3.6\"",
    .line "%language \"c++\"",
    .line ("%defines " ++ cppString s.parserHeader),
    .line ("%define api.namespace \x7b" ++ s.model.namespaceName ++ "\x7d"),
    .line "%define api.parser.class \x7bparser\x7d",
    .line "%define api.value.type variant",
    .line "%define api.token.constructor",
    .line "%define parse.error verbose",
    .blank]

/-- The code that goes into the generated parser as it is. -/
def codeLayout (s : ArtifactSource) : List Layout.Item :=
  [.line "%code requires \x7b",
    .line "#include <memory>",
    .line "#include <string>",
    includeLine (s.fileName .classDeclarations),
    .line "\x7d",
    .blank,
    .line "%code \x7b",
    .line "#include <iostream>",
    .line (s.model.namespaceName ++ "::parser::symbol_type yylex();"),
    .line "\x7d",
    .blank]

/-- The parameter through which the parser returns its result. -/
def resultLayout (s : ArtifactSource) : List Layout.Item :=
  let accept := s.productions.nonterminal s.productions.start
  match s.model.contentType? accept.content with
  | some type => [.line ("%parse-param \x7b" ++ type ++ "& result\x7d"), .blank]
  | none => []

/-- The declarations of tokens, types and start symbol. -/
def symbolLayout (s : ArtifactSource) : List Layout.Item :=
  s.catalog.entries.map (fun e => .line e.declaration) ++ [.blank] ++
  s.nonterminalTypes.map (fun entry => .line ("%type <" ++ entry.1 ++ "> " ++ entry.2)) ++
  [.blank, .line ("%start " ++ (s.productions.nonterminal s.productions.start).name), .blank,
    .line "%%", .blank]

/-- The function that reports a syntax error. -/
def reportLayout (s : ArtifactSource) : List Layout.Item :=
  [.line "%%", .blank,
    .opening ("void " ++ s.model.namespaceName ++ "::parser::error(const std::string& message)"),
    .line "std::cerr << message << '\\n';",
    .closing ""]

/-- The parser grammar of a production set. -/
def grammarLayout (s : ArtifactSource) : Checked (List Layout.Item) := do
  let blocks ← s.ruleBlocks
  return s.opening .line ++ s.settingsLayout ++ s.codeLayout ++ s.resultLayout ++
    s.symbolLayout ++ blocks.flatMap RuleBlock.layout ++ s.reportLayout

end ArtifactSource
end AnnotatedGrammar
