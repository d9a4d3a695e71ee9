import AnnotatedGrammar.Artifact.Basic

/-!
# The scanner

One rule for each entry of the token catalog, in the same order, between a rule that passes over
blanks and a rule that refuses any other character. Of the rules that match, the scanner takes one
with the longest match, and of these the first.
-/

namespace AnnotatedGrammar

/-- The texts that a rule of the scanner matches. -/
inductive ScannerPattern
  | blanks
  /-- Exactly this text. -/
  | literal (text : String)
  | identifier
  /-- A number, with or without a sign. -/
  | number (signed : Bool)
  | quotedString
  | reference
  | anyCharacter
  | endOfInput
deriving DecidableEq, Repr, Inhabited

/-- The pattern as the scanner generator reads it. -/
def ScannerPattern.display : ScannerPattern → String
  | blanks => "[ \\t\\r\\n]+"
  | literal text => cppString text
  | identifier => "[A-Za-z_][A-Za-z0-9_]*"
  | number false => "([0-9]+(\\.[0-9]*)?|\\.[0-9]+)([eE][-+]?[0-9]+)?"
  | number true => "[-+]?([0-9]+(\\.[0-9]*)?|\\.[0-9]+)([eE][-+]?[0-9]+)?"
  | quotedString => "'([^'\\n]|'')*'|\\\"([^\\\"\\\\\\n]|\\\\.)*\\\""
  | reference => "#[0-9]+"
  | anyCharacter => "."
  | endOfInput => "<<EOF>>"

/-- What the scanner does with a match. -/
inductive ScannerAction
  | skip
  /-- Returns a token, with the value computed by the given expression. -/
  | token (name : String) (value : Option String)
  | refuse
  | finish
deriving DecidableEq, Repr, Inhabited

/-- The action as text, for a parser in the given namespace. -/
def ScannerAction.display (namespaceName : String) : ScannerAction → String
  | skip => "\x7b \x7d"
  | token name value =>
    "\x7b return " ++ namespaceName ++ "::parser::make_" ++ name ++ "(" ++ value.getD "" ++
      "); \x7d"
  | refuse =>
    "\x7b throw " ++ namespaceName ++
      "::parser::syntax_error(\"unexpected character: \" + std::string(yytext)); \x7d"
  | finish => "\x7b return " ++ namespaceName ++ "::parser::make_YYEOF(); \x7d"

/-- A rule of the scanner. -/
structure ScannerRule where
  pattern : ScannerPattern
  action : ScannerAction
deriving DecidableEq, Repr, Inhabited

/-- The rule on one line. -/
def ScannerRule.display (namespaceName : String) (r : ScannerRule) : String :=
  r.pattern.display ++ "    " ++ r.action.display namespaceName

namespace ScannerRule

/-- How the value of a token comes from its text: quotes and the mark of a reference are dropped. -/
def valueExpression : Pattern → String
  | .identifier => "std::string(yytext)"
  | .number => "std::strtod(yytext, nullptr)"
  | .quotedString => "std::string(yytext + 1, yyleng - 2)"
  | .instanceReference => "std::strtoll(yytext + 1, nullptr, 10)"

/-- What a pattern of the grammar matches. -/
def patternOf (signed : Bool) : Pattern → ScannerPattern
  | .identifier => .identifier
  | .number => .number signed
  | .quotedString => .quotedString
  | .instanceReference => .reference

/-- The rule of a catalog entry. -/
def ofEntry (signed : Bool) (e : TokenEntry) : ScannerRule :=
  match e.terminal with
  | .literal text => ⟨.literal text, .token e.name none⟩
  | .pattern p => ⟨patternOf signed p, .token e.name (some (valueExpression p))⟩

/-- Whether a literal begins with the sign of a number. -/
def beginsWithSign (text : String) : Bool :=
  match text.toList with
  | c :: _ => c == '-' || c == '+'
  | [] => false

/-- All rules of the scanner. Numbers have signs unless a literal begins with one. -/
def ofCatalog (catalog : TokenCatalog) : List ScannerRule :=
  let signed := !(catalog.entries.filterMap TokenEntry.lexeme?).any beginsWithSign
  [⟨.blanks, .skip⟩] ++ catalog.entries.map (ofEntry signed) ++
  [⟨.anyCharacter, .refuse⟩, ⟨.endOfInput, .finish⟩]

end ScannerRule

namespace ArtifactSource

/-- The scanner of a token catalog. -/
def scannerLayout (s : ArtifactSource) : List Layout.Item :=
  s.opening .block ++
  [.line "%\x7b",
    .line "#include <cstdlib>",
    .line "#include <string>",
    includeLine s.parserHeader,
    .blank,
    .line ("#define YY_DECL " ++ s.model.namespaceName ++ "::parser::symbol_type yylex()"),
    .line "%\x7d",
    .blank,
    .line "%option noyywrap nounput noinput batch never-interactive",
    .blank,
    .line "%%",
    .blank] ++
  (ScannerRule.ofCatalog s.catalog).map (fun r => .line (r.display s.model.namespaceName)) ++
  [.blank, .line "%%"]

end ArtifactSource
end AnnotatedGrammar
