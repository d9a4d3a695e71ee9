import AnnotatedGrammar.CommandLine.Machine
import AnnotatedGrammar.Main
import AnnotatedGrammar.Proofs.Language.Preservation
import AnnotatedGrammar.Proofs.Analysis.Agreement
import AnnotatedGrammar.Proofs.Analysis.Fields
import AnnotatedGrammar.Proofs.Analysis.Finish
import AnnotatedGrammar.Proofs.Analysis.Footprint
import AnnotatedGrammar.Proofs.Analysis.Settling
import AnnotatedGrammar.Proofs.Artifact.Attempts
import AnnotatedGrammar.Proofs.Lowering.Complete
import AnnotatedGrammar.Proofs.Analysis.Elements
import AnnotatedGrammar.Proofs.Analysis.Outcome
import AnnotatedGrammar.Proofs.Analysis.Contents
import AnnotatedGrammar.Proofs.Analysis.Rules
import AnnotatedGrammar.Proofs.Analysis.Bodies
import AnnotatedGrammar.Proofs.Analysis.Stages
import AnnotatedGrammar.Proofs.Analysis.Conclusion
import AnnotatedGrammar.Proofs.Generation
import AnnotatedGrammar.Proofs.Syntax.Recognition
import AnnotatedGrammar.Proofs.Analysis.Steps
import AnnotatedGrammar.Proofs.Analysis.WalkSteps
import AnnotatedGrammar.Proofs.Model.WellFormed
import AnnotatedGrammar.Proofs.Model.DistinctNames
import AnnotatedGrammar.Proofs.Token.LineBreaks
import AnnotatedGrammar.Proofs.Syntax.Segments
import AnnotatedGrammar.Proofs.Lowering.Symbols
import AnnotatedGrammar.Proofs.Artifact.Header
import AnnotatedGrammar.Proofs.Artifact.RuleText
import AnnotatedGrammar.Proofs.Artifact.ScannerText
import AnnotatedGrammar.Proofs.Artifact.SourceFile
import AnnotatedGrammar.Proofs.Artifact.Statements
import AnnotatedGrammar.Proofs.Artifact.Consistent
import AnnotatedGrammar.Proofs.Artifact.DeclaresFirst
import AnnotatedGrammar.Proofs.Log.Messages
import AnnotatedGrammar.Proofs.Log.Reports
import AnnotatedGrammar.Proofs.Unplaced.Generation
import AnnotatedGrammar.Proofs.Coverage.Complete
import AnnotatedGrammar.Proofs.Language.Collapse
import AnnotatedGrammar.Proofs.Token.Index
import AnnotatedGrammar.Proofs.Syntax.Unclosed
import AnnotatedGrammar.Proofs.Recursion.Reported
import AnnotatedGrammar.Proofs.Lowering.Flat
import AnnotatedGrammar.Proofs.Artifact.Checked
import AnnotatedGrammar.Proofs.Artifact.InRange
import AnnotatedGrammar.Proofs.Syntax.Placement
import AnnotatedGrammar.Proofs.Analysis.Collisions
import AnnotatedGrammar.Proofs.Analysis.Inheritance
import AnnotatedGrammar.Proofs.Source.Positions
import AnnotatedGrammar.Proofs.Syntax.Spans
import AnnotatedGrammar.Proofs.Syntax.Nesting
import AnnotatedGrammar.Proofs.Source.Excerpt
import AnnotatedGrammar.Proofs.Token.Literals
import AnnotatedGrammar.Proofs.Artifact.Quoting
import AnnotatedGrammar.Proofs.Syntax.Progress
import AnnotatedGrammar.Proofs.Lowering.BaseNames
import AnnotatedGrammar.Proofs.Model.StableNames
import AnnotatedGrammar.Proofs.Token.Metrics
import AnnotatedGrammar.Proofs.Artifact.Layout
