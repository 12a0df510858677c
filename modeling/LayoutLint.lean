import LayoutLint.Main
import LayoutLint.Proofs.Text.LineTable
import LayoutLint.Proofs.Text.Position
import LayoutLint.Proofs.Separator.Bucket
import LayoutLint.Proofs.Rules.SignatureBlank
import LayoutLint.Proofs.Rules.Comments
import LayoutLint.Proofs.Guarded.Basic
import LayoutLint.Proofs.Guarded.ClosingBrace
import LayoutLint.Proofs.Guarded.Separator
import LayoutLint.Proofs.Guarded.Rules
import LayoutLint.Proofs.Path.Order
import LayoutLint.Proofs.Path.Relative
import LayoutLint.Proofs.FileTree.Proper
import LayoutLint.Proofs.Discovery.Walk
import LayoutLint.Proofs.Discovery.Rewrite
import LayoutLint.Proofs.Linter.Report
import LayoutLint.Proofs.Linter.Failures
import LayoutLint.Proofs.Linter.Order
import LayoutLint.Proofs.Linter.Configuration
import LayoutLint.Proofs.Command.Gate
import LayoutLint.Proofs.Rules.Locations
import LayoutLint.Proofs.Outline.Moved
import LayoutLint.Proofs.Separator.Moved
import LayoutLint.Proofs.Text.LineEndings
import LayoutLint.Proofs.Rules.LineEndings
import LayoutLint.Proofs.Source.Lexemes
import LayoutLint.Proofs.Source.Pieces
import LayoutLint.Proofs.Source.Shape
import LayoutLint.Proofs.Source.Layout
import LayoutLint.Proofs.Outline.Visits
import LayoutLint.Proofs.Outline.Braces
import LayoutLint.Proofs.Outline.WellFormed
import LayoutLint.Proofs.Outline.Bodies
import LayoutLint.Proofs.Outline.TypeNames
import LayoutLint.Proofs.Separator.Clusters
import LayoutLint.Proofs.Unrepeated
import LayoutLint.Proofs.Separator.Unrepeated
import LayoutLint.Proofs.Rules.SharedLines
import LayoutLint.Proofs.Rules.Unrepeated
import LayoutLint.Proofs.Rules.Reordered
import LayoutLint.Proofs.Text.Between
import LayoutLint.Proofs.Rules.ExemptDefers
import LayoutLint.Proofs.Rules.FollowingLines
import LayoutLint.Proofs.Separator.SlashRuns
import LayoutLint.Proofs.Separator.Partition
import LayoutLint.Proofs.Separator.Widths
import LayoutLint.Proofs.Separator.Spacing
import LayoutLint.Proofs.Text.BlankRuns
import LayoutLint.Proofs.Separator.Neighbours
import LayoutLint.Proofs.Separator.EmptySections
import LayoutLint.Proofs.Separator.Extremes
import LayoutLint.Proofs.Separator.Mixtures
import LayoutLint.Proofs.Separator.Constructors
import LayoutLint.Proofs.Rules.Continuations
import LayoutLint.Proofs.Exclusion.Folders
import LayoutLint.Proofs.Rules.CrowdedLines
import LayoutLint.Proofs.Rules.FirstLines
import LayoutLint.Proofs.Source.Blocks
import LayoutLint.Proofs.Text.Shown
import LayoutLint.Proofs.Source.Visible
import LayoutLint.Proofs.Outline.Openings
import LayoutLint.Proofs.Rules.LinesBelow
import LayoutLint.Proofs.Config.Defaults
import LayoutLint.Proofs.Exclusion.NamedFolders
import LayoutLint.Proofs.Exclusion.OpenEnds
import LayoutLint.Proofs.Path.RoundTrip
import LayoutLint.Proofs.Command.Sources
import LayoutLint.Proofs.Text.LongestRuns
import LayoutLint.Proofs.Rules.CommentScanner
import LayoutLint.Proofs.Outline.Traversal
import LayoutLint.Proofs.Report.RoundTrip
import LayoutLint.Proofs.Source.Insertion
import LayoutLint.Proofs.Outline.Shifted
import LayoutLint.Proofs.Outline.TypeGaps
import LayoutLint.Proofs.Outline.InsertedComment
