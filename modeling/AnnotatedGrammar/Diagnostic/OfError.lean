import AnnotatedGrammar.Diagnostic.Basic
import AnnotatedGrammar.Model.Fault
import AnnotatedGrammar.Production.Check
import AnnotatedGrammar.Syntax.Fault
import AnnotatedGrammar.Token.Scan

/-!
# Diagnostics of errors and warnings

Everything found wrong or doubtful is shown with its code, its message, its place and the advice
that belongs to it.
-/

namespace AnnotatedGrammar.Diagnostic

/-- The diagnostic of a lexical error. -/
def ofLexicalError (e : LexicalError) : Diagnostic :=
  error .lexical e.value.code e.value.message (some e.span) e.value.help?

/-- The diagnostic of a syntax error. -/
def ofSyntaxError (e : SyntaxError) : Diagnostic :=
  error .syntactic e.value.code e.value.message (some e.span) e.value.help?

/-- The diagnostic of a semantic error. -/
def ofSemanticError (e : SemanticError) : Diagnostic :=
  error .semantic e.value.code e.value.message (some e.span) e.value.help?

/-- The diagnostic of an internal fault. -/
def ofInternalFault (f : InternalFault) : Diagnostic :=
  error .codegen f.code f.message f.span? (some InternalFault.help)

/-- The diagnostic of quantifiers around each other, a warning. -/
def ofNestedQuantifiers (w : NestedQuantifiers) : Diagnostic :=
  ⟨.desugar, .warning, Code.nestedOperatorCollapsed, w.message, some w.span, some w.help⟩

end AnnotatedGrammar.Diagnostic
