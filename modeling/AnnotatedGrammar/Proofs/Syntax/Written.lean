import Mathlib.Data.List.Chain
import AnnotatedGrammar.Limits
import AnnotatedGrammar.Syntax.Tree

/-!
# The written form of a grammar

What the notation admits, as data: a written grammar says which tokens stand where, and nothing can
be written down here that the notation does not know. Its tokens are the text it stands for, and its
tree is what the text means.

Parentheses are the only recursion. Everything inside them is a type parameter, so a body whose
parentheses nest less than `n + 1` deep is made of the bodies that nest less than `n` deep.
-/

namespace AnnotatedGrammar.Written

/-- From the first to the last of some tokens. -/
def stretch (tokens : List (Located Token)) : Span :=
  match tokens.head?, tokens.getLast? with
  | some first, some last => first.span.merge last.span
  | _, _ => Span.placeholder

/-- Where the first of some tokens stands. -/
def startOf (tokens : List (Located Token)) : Span :=
  match tokens.head? with
  | some first => first.span
  | none => Span.placeholder

theorem stretch_concat {ts : List (Located Token)} (hne : ts ≠ []) (last : Located Token) :
    stretch (ts ++ [last]) = (startOf ts).merge last.span := by
  obtain ⟨first, more, rfl⟩ := List.exists_cons_of_ne_nil hne
  rw [stretch, List.getLast?_concat]
  rfl

theorem startOf_append {ts : List (Located Token)} (hne : ts ≠ []) (more : List (Located Token)) :
    startOf (ts ++ more) = startOf ts := by
  obtain ⟨first, rest, rfl⟩ := List.exists_cons_of_ne_nil hne
  rfl

/-- A name or a literal: the value of a marker or of a directive. -/
inductive Word
  | name (text : String)
  | literal (text : String)

/-- What a word says. -/
def Word.text : Word → String
  | name text | literal text => text

/-- The token of a word. -/
def Word.token : Word → Token
  | name text => .identifier text
  | literal text => .literal text

/-- A value in parentheses. -/
structure Argument where
  opening : Span
  word : Located Word
  closing : Span

/-- The tokens of a value in parentheses. -/
def Argument.tokens (a : Argument) : List (Located Token) :=
  [⟨.leftParen, a.opening⟩, ⟨a.word.value.token, a.word.span⟩, ⟨.rightParen, a.closing⟩]

/-- A marker: its sign, its name and its value, if it has one. -/
structure Mark where
  sign : Span
  key : Located String
  argument : Option Argument

namespace Mark

/-- The tokens of a marker. -/
def tokens (m : Mark) : List (Located Token) :=
  ⟨.atSign, m.sign⟩ :: ⟨.identifier m.key.value, m.key.span⟩ ::
    match m.argument with
    | none => []
    | some a => a.tokens

/-- The marker that is meant. -/
def marker (m : Mark) : Marker :=
  ⟨m.key.value, m.argument.map fun a => a.word.value.text, stretch m.tokens⟩

/-- The tokens of several markers. -/
def allTokens (marks : List Mark) : List (Located Token) := marks.flatMap tokens

theorem allTokens_cons (m : Mark) (marks : List Mark) :
    Mark.allTokens (m :: marks) = m.tokens ++ Mark.allTokens marks := List.flatMap_cons

/-- Whether the last of some markers has no value. Were a parenthesis next, it would be read as the
beginning of one. -/
def EndBare (marks : List Mark) : Prop := ∃ m, marks.getLast? = some m ∧ m.argument = none

end Mark

/-- The operators that stand behind an element. -/
inductive Operator
  | optional
  | repeated (kind : Repetition)

namespace Operator

/-- The token of an operator. -/
def token : Operator → Token
  | optional => .question
  | repeated .zeroOrMore => .star
  | repeated .oneOrMore => .plus

/-- The expression with the operator behind it. -/
def apply (op : Operator) (info : NodeInfo) (e : Expr) : Expr :=
  match op with
  | optional => .optional info e
  | repeated kind => .repeated info e kind

/-- The expression with several operators behind it, the first one innermost; `start` is where the
text begins. -/
def applyAll (start : Span) (e : Expr) (ops : List (Located Operator)) : Expr :=
  ops.foldl (fun e op => op.value.apply ⟨0, [], start.merge op.span⟩ e) e

/-- The tokens of several operators. -/
def allTokens (ops : List (Located Operator)) : List (Located Token) :=
  ops.map fun op => ⟨op.value.token, op.span⟩

end Operator

/-- Something written that stands for one expression. -/
class Phrase (α : Type) where
  /-- The text. -/
  tokens : α → List (Located Token)
  /-- The expression it stands for. -/
  expr : α → Expr
  /-- The markers, in the order of the text. -/
  marks : α → List Mark
  /-- No parenthesis follows a marker without a value directly. -/
  IsClear : α → Prop

/-- An element without its operators and markers; `α` is what parentheses may enclose. -/
inductive Primary (α : Type)
  | reference (name : Located String)
  | terminal (t : Located Terminal)
  | group (opening : Span) (body : α) (closing : Span)

/-- An element: its operators and markers stand behind it. -/
structure Element (α : Type) where
  core : Primary α
  operators : List (Located Operator)
  behind : List Mark

/-- A sequence of at least one element. Only in front of the first element can there be markers:
those between two elements belong to the former. -/
structure Sequence (α : Type) where
  opening : List Mark
  first : Element α
  others : List (Element α)

/-- Alternatives, with a bar in front of all but the first. -/
structure Alternation (α : Type) where
  first : Sequence α
  others : List (Span × Sequence α)

/-- The token of a terminal. -/
def terminalToken : Terminal → Token
  | .literal text => .literal text
  | .pattern p => .pattern p

variable {α : Type}

section Phrases

variable [Phrase α]

namespace Primary

/-- Whether it begins with a parenthesis. -/
def IsGroup : Primary α → Prop
  | group _ _ _ => True
  | _ => False

/-- Its text. -/
def tokens : Primary α → List (Located Token)
  | reference name => [⟨.identifier name.value, name.span⟩]
  | terminal t => [⟨terminalToken t.value, t.span⟩]
  | group opening body closing =>
    ⟨.leftParen, opening⟩ :: (Phrase.tokens body ++ [⟨.rightParen, closing⟩])

/-- The expression it stands for. Parentheses are always kept. -/
def expr : Primary α → Expr
  | reference name => .reference ⟨0, [], name.span⟩ name.value
  | terminal t => .terminal ⟨0, [], t.span⟩ t.value
  | group opening body closing => .group ⟨0, [], opening.merge closing⟩ (Phrase.expr body)

/-- Its markers. -/
def marks : Primary α → List Mark
  | group _ body _ => Phrase.marks body
  | _ => []

theorem stretch_tokens (opening closing : Span) (x : α) :
    stretch (Primary.group opening x closing).tokens = opening.merge closing := by
  rw [Primary.tokens, ← List.cons_append, stretch_concat (List.cons_ne_nil _ _)]
  rfl

/-- What it encloses is clear. -/
def IsClear : Primary α → Prop
  | group _ body _ => Phrase.IsClear body
  | _ => True

end Primary

namespace Element

/-- Its text. -/
def tokens (e : Element α) : List (Located Token) :=
  e.core.tokens ++ (Operator.allTokens e.operators ++ Mark.allTokens e.behind)

/-- The expression it stands for, if its text begins at a place. The markers behind the operators
belong to the whole. -/
def expr (e : Element α) (start : Span) : Expr :=
  (Operator.applyAll start e.core.expr e.operators).withMarkersAfter (e.behind.map Mark.marker)

/-- Its markers. -/
def marks (e : Element α) : List Mark := e.core.marks ++ e.behind

end Element

/-- Whether a group behind some markers would be taken for their value. -/
def Clashes (marks : List Mark) (next : Element α) : Prop :=
  Mark.EndBare marks ∧ next.core.IsGroup

/-- Whether a marker in front of a sequence belongs to the sequence and not to its first element. -/
def DescribesSequence (m : Marker) : Prop :=
  m.key = MarkerKey.classOf.word ∨ m.key = MarkerKey.typeOf.word

instance : DecidablePred DescribesSequence := fun m =>
  inferInstanceAs (Decidable (m.key = _ ∨ m.key = _))

namespace Sequence

/-- Its elements. -/
def elements (s : Sequence α) : List (Element α) := s.first :: s.others

/-- Its text. -/
def tokens (s : Sequence α) : List (Located Token) :=
  Mark.allTokens s.opening ++ s.elements.flatMap Element.tokens

/-- The expression it stands for. A single element stands for itself; otherwise the markers in front
are shared out between the sequence and its first element. -/
def expr (s : Sequence α) : Expr :=
  let opening := s.opening.map Mark.marker
  match s.others with
  | [] => (s.first.expr (startOf s.tokens)).withMarkersBefore opening
  | others =>
    let hoisted := opening.filter fun m => DescribesSequence m
    let own := opening.filter fun m => ¬DescribesSequence m
    .sequence ⟨0, hoisted, stretch s.tokens⟩
      ((s.first.expr (startOf s.tokens)).withMarkersBefore own ::
        others.map fun e => e.expr (startOf e.tokens))

/-- Its markers. -/
def marks (s : Sequence α) : List Mark := s.opening ++ s.elements.flatMap Element.marks

/-- No group follows a marker without a value, and what its groups enclose is clear. -/
structure IsClear (s : Sequence α) : Prop where
  opening : ¬Clashes s.opening s.first
  between : s.elements.IsChain fun e next => ¬Clashes e.behind next
  inside : ∀ e ∈ s.elements, e.core.IsClear

end Sequence

/-- The text of the alternatives behind the first one. -/
def branchTokens (branches : List (Span × Sequence α)) : List (Located Token) :=
  branches.flatMap fun branch => ⟨.pipe, branch.1⟩ :: branch.2.tokens

namespace Alternation

/-- Its alternatives. -/
def branches (a : Alternation α) : List (Sequence α) := a.first :: a.others.map Prod.snd

instance instPhrase : Phrase (Alternation α) where
  tokens a := a.first.tokens ++ branchTokens a.others
  expr a :=
    match a.others with
    | [] => a.first.expr
    | _ =>
      .alternation ⟨0, [], stretch (a.first.tokens ++ branchTokens a.others)⟩
        (a.branches.map Sequence.expr)
  marks a := a.branches.flatMap Sequence.marks
  IsClear a := ∀ s ∈ a.branches, s.IsClear

end Alternation

end Phrases

/-- What can be written with parentheses nesting less than a number of levels deep. -/
def Body : Nat → Type
  | 0 => Empty
  | depth + 1 => Alternation (Body depth)

/-- Bodies are phrases, whatever the depth of their parentheses. -/
instance Body.instPhrase : (depth : Nat) → Phrase (Body depth)
  | 0 => ⟨Empty.elim, Empty.elim, Empty.elim, Empty.elim⟩
  | depth + 1 =>
    have := Body.instPhrase depth
    inferInstanceAs (Phrase (Alternation (Body depth)))

/-! ## Tokens of bodies -/

/-- A token that can stand in a rule, in front of its semicolon. -/
def IsInner (token : Located Token) : Prop :=
  token.value ≠ .semicolon ∧ token.value ≠ .endOfInput

theorem isInner_mark (m : Mark) : ∀ token ∈ m.tokens, IsInner token := by
  obtain ⟨sign, key, _ | ⟨opening, ⟨_ | _, span⟩, closing⟩⟩ := m <;>
    simp [Mark.tokens, Argument.tokens, Word.token, IsInner]

theorem isInner_allMarks (marks : List Mark) : ∀ token ∈ Mark.allTokens marks, IsInner token := by
  intro token htoken
  obtain ⟨m, -, hm⟩ := List.mem_flatMap.mp htoken
  exact isInner_mark m token hm

theorem isInner_operators (ops : List (Located Operator)) :
    ∀ token ∈ Operator.allTokens ops, IsInner token := by
  intro token htoken
  obtain ⟨⟨_ | _ | _, span⟩, -, rfl⟩ := List.mem_map.mp htoken <;>
    simp [Operator.token, IsInner]

/-- The tokens of a phrase can stand in a rule, in front of its semicolon. -/
class InnerPhrase (α : Type) [Phrase α] : Prop where
  isInner : ∀ x : α, ∀ token ∈ Phrase.tokens x, IsInner token

section

variable [Phrase α] [InnerPhrase α]

theorem Primary.isInner (c : Primary α) : ∀ token ∈ c.tokens, IsInner token := by
  rcases c with ⟨name⟩ | ⟨⟨_ | _, span⟩⟩ | ⟨opening, x, closing⟩
  · simp [tokens, IsInner]
  · simp [tokens, terminalToken, IsInner]
  · simp [tokens, terminalToken, IsInner]
  · have hbody := InnerPhrase.isInner x
    intro token htoken
    simp only [tokens, List.mem_cons, List.mem_append, List.not_mem_nil, or_false] at htoken
    rcases htoken with rfl | hmem | rfl
    · simp [IsInner]
    · exact hbody token hmem
    · simp [IsInner]

theorem Element.isInner (e : Element α) : ∀ token ∈ e.tokens, IsInner token := by
  intro token htoken
  simp only [tokens, List.mem_append] at htoken
  rcases htoken with hcore | hops | hmarks
  · exact e.core.isInner token hcore
  · exact isInner_operators _ token hops
  · exact isInner_allMarks _ token hmarks

theorem Element.isInner_all (es : List (Element α)) :
    ∀ token ∈ es.flatMap Element.tokens, IsInner token := by
  intro token htoken
  obtain ⟨e, -, he⟩ := List.mem_flatMap.mp htoken
  exact e.isInner token he

theorem Sequence.isInner (s : Sequence α) : ∀ token ∈ s.tokens, IsInner token := by
  intro token htoken
  rcases List.mem_append.mp htoken with hopening | helements
  · exact isInner_allMarks _ token hopening
  · exact Element.isInner_all _ token helements

theorem isInner_branches (branches : List (Span × Sequence α)) :
    ∀ token ∈ branchTokens branches, IsInner token := by
  intro token htoken
  obtain ⟨branch, -, hmem⟩ := List.mem_flatMap.mp htoken
  rcases List.mem_cons.mp hmem with rfl | hmem
  · simp [IsInner]
  · exact branch.2.isInner token hmem

instance Alternation.instInnerPhrase : InnerPhrase (Alternation α) where
  isInner a token htoken := by
    rcases List.mem_append.mp htoken with hfirst | hothers
    · exact a.first.isInner token hfirst
    · exact isInner_branches _ token hothers

end

instance Body.instInnerPhrase : (depth : Nat) → InnerPhrase (Body depth)
  | 0 => ⟨fun x => x.elim⟩
  | depth + 1 =>
    have := Body.instInnerPhrase depth
    inferInstanceAs (InnerPhrase (Alternation (Body depth)))

/-- An element begins with a token that can begin one, with a parenthesis just if it is a group. -/
theorem Primary.exists_tokens_eq [Phrase α] (c : Primary α) :
    ∃ token more, c.tokens = token :: more ∧ token.value.startsElement = true ∧
      token.value ≠ .atSign ∧ (token.value = .leftParen ↔ c.IsGroup) := by
  rcases c with ⟨name⟩ | ⟨⟨_ | _, span⟩⟩ | ⟨opening, x, closing⟩ <;>
    exact ⟨_, _, rfl, rfl, by simp [terminalToken], by simp [terminalToken, Primary.IsGroup]⟩

/-! ## Rules and directives -/

/-- A rule. -/
structure Rule where
  before : List Mark
  name : Located String
  behind : List Mark
  equals : Span
  body : Body Limits.nestingDepth
  semicolon : Span

namespace Rule

/-- Its text. -/
def tokens (r : Rule) : List (Located Token) :=
  Mark.allTokens r.before ++ ⟨.identifier r.name.value, r.name.span⟩ ::
    (Mark.allTokens r.behind ++ ⟨.equals, r.equals⟩ ::
      (Phrase.tokens r.body ++ [⟨.semicolon, r.semicolon⟩]))

/-- Its text without the semicolon. -/
def openTokens (r : Rule) : List (Located Token) :=
  Mark.allTokens r.before ++ ⟨.identifier r.name.value, r.name.span⟩ ::
    (Mark.allTokens r.behind ++ ⟨.equals, r.equals⟩ :: Phrase.tokens r.body)

theorem tokens_eq (r : Rule) : r.tokens = r.openTokens ++ [⟨.semicolon, r.semicolon⟩] := by
  simp [tokens, openTokens]

theorem isInner (r : Rule) : ∀ token ∈ r.openTokens, IsInner token := by
  intro token htoken
  simp only [openTokens, List.mem_append, List.mem_cons] at htoken
  rcases htoken with hmem | rfl | hmem | rfl | hmem
  · exact isInner_allMarks _ token hmem
  · simp [IsInner]
  · exact isInner_allMarks _ token hmem
  · simp [IsInner]
  · exact InnerPhrase.isInner r.body token hmem

/-- The rule that is meant. -/
def rule (r : Rule) : AnnotatedGrammar.Rule :=
  ⟨r.name.value, r.name.span, (r.before ++ r.behind).map Mark.marker, Phrase.expr r.body,
    stretch r.tokens⟩

/-- Its markers. -/
def marks (r : Rule) : List Mark := r.before ++ r.behind ++ Phrase.marks r.body

end Rule

/-- A directive. -/
structure Directive where
  percent : Span
  name : Located String
  value : Located Word
  semicolon : Span

namespace Directive

/-- Its text. -/
def tokens (d : Directive) : List (Located Token) :=
  [⟨.percent, d.percent⟩, ⟨.identifier d.name.value, d.name.span⟩,
    ⟨d.value.value.token, d.value.span⟩, ⟨.semicolon, d.semicolon⟩]

/-- The directive that is meant. -/
def directive (d : Directive) : AnnotatedGrammar.Directive :=
  ⟨d.name.value, d.value.value.text, stretch d.tokens⟩

end Directive

/-- A directive or a rule. -/
inductive Item
  | directive (d : Directive)
  | rule (r : Rule)

namespace Item

/-- Its text. -/
def tokens : Item → List (Located Token)
  | directive d => d.tokens
  | rule r => r.tokens

/-- The directive, if it is one. -/
def directive? : Item → Option AnnotatedGrammar.Directive
  | directive d => some d.directive
  | rule _ => none

/-- The rule, if it is one. -/
def rule? : Item → Option AnnotatedGrammar.Rule
  | directive _ => none
  | rule r => some r.rule

/-- Its markers. -/
def marks : Item → List Mark
  | directive _ => []
  | rule r => r.marks

/-- The body of a rule is clear. -/
def IsClear : Item → Prop
  | directive _ => True
  | rule r => Phrase.IsClear r.body

end Item

/-- A whole grammar. -/
abbrev Text := List Item

namespace Text

/-- The text itself. -/
def tokens (text : Text) : List (Located Token) := text.flatMap Item.tokens

/-- The grammar that is meant. -/
def grammar (text : Text) : Grammar :=
  Grammar.ofParts (text.filterMap Item.directive?) (text.filterMap Item.rule?)

/-- All markers, in the order of the text. -/
def marks (text : Text) : List Mark := text.flatMap Item.marks

/-- A grammar has at least one rule, and no parenthesis follows a marker without a value
directly. -/
structure IsGrammar (text : Text) : Prop where
  hasRule : ∃ r, .rule r ∈ text
  clear : ∀ i ∈ text, i.IsClear

end Text

end AnnotatedGrammar.Written
