import RubySyntax.Main
import RubySyntax.NodeEquality
import RubySyntax.Proofs.BlockCommentEnds
import RubySyntax.Proofs.ChainReduction
import RubySyntax.Proofs.CommentOwners
import RubySyntax.Proofs.CommentPreservation
import RubySyntax.Proofs.CommentedPrograms
import RubySyntax.Proofs.SourceConservation
import RubySyntax.Proofs.NameReading
import RubySyntax.Proofs.PhraseReading
import RubySyntax.Proofs.ErrorReports
import RubySyntax.Proofs.GrammarTotality
import RubySyntax.Proofs.ShapeReading
import RubySyntax.Proofs.SeamRules
import RubySyntax.Proofs.ArgumentComposition
import RubySyntax.Proofs.BodyComposition
import RubySyntax.Proofs.StatementConcatenation
import RubySyntax.Proofs.JsonReading
import RubySyntax.Proofs.JsonTrees
import RubySyntax.Proofs.LeadingLineBreak
import RubySyntax.Proofs.LineContinuations
import RubySyntax.Proofs.LineEndingPrograms
import RubySyntax.Proofs.ExcerptLines
import RubySyntax.Proofs.NumeralExtent
import RubySyntax.Proofs.ReservedWords
import RubySyntax.Proofs.YamlTrees
import RubySyntax.Proofs.LongestSpelling
import RubySyntax.Proofs.ParserSessions
import RubySyntax.Proofs.LineLayout
import RubySyntax.Proofs.PrintReading
import RubySyntax.Proofs.TreeComparison
