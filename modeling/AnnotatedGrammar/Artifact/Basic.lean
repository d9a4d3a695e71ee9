import AnnotatedGrammar.Artifact.Cpp
import AnnotatedGrammar.Artifact.Layout
import AnnotatedGrammar.TokenCatalog

/-!
# Artifacts

A run generates four files: the declarations of the model's classes, their definitions, the parser
grammar that builds instances, and the scanner that feeds the parser.
-/

namespace AnnotatedGrammar

/-- The files a run generates. -/
inductive ArtifactKind
  | classDeclarations
  | classDefinitions
  | parserGrammar
  | scanner
deriving DecidableEq, Repr, Inhabited

namespace ArtifactKind

/-- All kinds, in the order in which the files are generated. -/
def all : List ArtifactKind := [classDeclarations, classDefinitions, parserGrammar, scanner]

/-- The file as messages speak of it. -/
def label : ArtifactKind → String
  | classDeclarations => "class declaration"
  | classDefinitions => "class implementation"
  | parserGrammar => "parser grammar"
  | scanner => "scanner"

/-- The name of the file, for a grammar of the given name. -/
def fileName (baseName : String) : ArtifactKind → String
  | classDeclarations => baseName ++ "_model.hpp"
  | classDefinitions => baseName ++ "_model.cpp"
  | parserGrammar => baseName ++ "_parser.yy"
  | scanner => baseName ++ "_scanner.ll"

end ArtifactKind

/-- A generated file. -/
structure Artifact where
  kind : ArtifactKind
  fileName : String
  text : String
deriving DecidableEq, Repr, Inhabited

/-- Everything that the artifacts are made from. -/
structure ArtifactSource where
  model : GrammarModel
  productions : ProductionSet
  catalog : TokenCatalog
  /-- What the names of the files begin with. -/
  baseName : String
  /-- Begin every file with a notice that it was generated. -/
  banner : Bool

namespace ArtifactSource

/-- The name of one of the files. -/
def fileName (s : ArtifactSource) (kind : ArtifactKind) : String := kind.fileName s.baseName

/-- The header that the parser generator makes from the parser grammar. -/
def parserHeader (s : ArtifactSource) : String := s.baseName ++ "_parser.hpp"

/-- The notice at the top of a file, if there is to be one. -/
def opening (s : ArtifactSource) (style : CommentStyle) : List Layout.Item :=
  if s.banner then [.banner style s.baseName] else []

end ArtifactSource

/-- A line that includes a file. -/
def includeLine (fileName : String) : Layout.Item := .line ("#include " ++ cppString fileName)

/-- The line that begins the namespace of the generated classes. -/
def namespaceOpening (name : String) : Layout.Item := .line ("namespace " ++ name ++ " \x7b")

/-- The line that ends the namespace of the generated classes. -/
def namespaceClosing (name : String) : Layout.Item := .line ("\x7d  // namespace " ++ name)

end AnnotatedGrammar
