/-!
# Fixed limits

The bounds every run is held to. They keep the work on one grammar file finite and small; a file
that exceeds one of them is answered with a diagnostic that names the bound.
-/

namespace AnnotatedGrammar.Limits

/-- Where the bounds are laid down. -/
def provenance : String := "Generated from config/development.toml"

/-- Largest grammar file that is read, in bytes. -/
def fileSize : Nat := 16777216

/-- Longest identifier, in characters. -/
def identifierLength : Nat := 255

/-- Longest decoded literal, in characters. -/
def literalLength : Nat := 1024

/-- Longest comment, in characters between its delimiters. -/
def commentLength : Nat := 65536

/-- Most tokens in one file, blanks and comments included. -/
def tokenCount : Nat := 1000000

/-- Deepest nesting of parentheses in a rule body. -/
def nestingDepth : Nat := 128

/-- Most syntax errors that are collected before parsing gives up. -/
def syntaxErrors : Nat := 256

/-- Most rules in one grammar. -/
def rules : Nat := 20000

/-- Most classes in one model. -/
def classes : Nat := 20000

/-- Most fields in one class. -/
def fieldsPerClass : Nat := 1024

/-- Most semantic errors that are collected. -/
def semanticErrors : Nat := 256

/-- Longest logged message, in bytes; a longer one is cut. -/
def messageBytes : Nat := 4096

/-- Most context entries attached to one logged event. -/
def contextEntries : Nat := 32

end AnnotatedGrammar.Limits
