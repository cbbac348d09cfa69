import NestedCss.Text.Basic
import NestedCss.Text.Blank
import NestedCss.Text.Alphanumeric
import NestedCss.Location
import NestedCss.Error
import NestedCss.Glyph
import NestedCss.Segment
import NestedCss.Scanner
import NestedCss.MediaQuery
import NestedCss.Node
import NestedCss.Table
import NestedCss.Sheet
import NestedCss.RuleTree.Basic
import NestedCss.RuleTree.Scope
import NestedCss.RuleTree.Selector
import NestedCss.RuleTree.Flatten
import NestedCss.RuleTree.Reachable
import NestedCss.Traced
import NestedCss.Elaboration
import NestedCss.Reader
import NestedCss.Compile
import NestedCss.Notice
import NestedCss.Host.Binary64
import NestedCss.Host.Value
import NestedCss.Sha256
import NestedCss.Keyframes.Compact
import NestedCss.Keyframes.Registry
import NestedCss.Template
import NestedCss.Frames
import NestedCss.OnePass
import NestedCss.Node.Printer
import NestedCss.Proofs.Selector
import NestedCss.Proofs.Ancestry
import NestedCss.Proofs.Rendering
import NestedCss.Proofs.Steps
import NestedCss.Proofs.Growth
import NestedCss.Proofs.TreeView
import NestedCss.Proofs.Agreement
import NestedCss.Proofs.Lexing
import NestedCss.Proofs.Scanning
import NestedCss.Proofs.CommentTexts
import NestedCss.Proofs.BlockBodies
import NestedCss.Proofs.Reading
import NestedCss.Proofs.Calls
import NestedCss.Proofs.Relocation
import NestedCss.Proofs.Scopes
import NestedCss.Proofs.Transfer
import NestedCss.Proofs.Pieces
import NestedCss.Proofs.Headings
import NestedCss.Proofs.MediaQueries
import NestedCss.Proofs.Flattening
import NestedCss.Proofs.Inlining
import NestedCss.Proofs.Printing
import NestedCss.Proofs.NormalSheets
import NestedCss.Proofs.Continuation
import NestedCss.Proofs.Isolation
import NestedCss.Proofs.StrictInclusion
import NestedCss.Proofs.Linkage
import NestedCss.Proofs.ChainLengths
import NestedCss.Proofs.Placements
import NestedCss.Proofs.Positions
import NestedCss.Proofs.Locations
import NestedCss.Proofs.Turns
import NestedCss.Proofs.Definitions
import NestedCss.Proofs.Recursion
import NestedCss.Proofs.References
import NestedCss.Proofs.TidyText
import NestedCss.Proofs.TidyEdits
import NestedCss.Proofs.OrderlySources
import NestedCss.Proofs.LegibleSheets
import NestedCss.Proofs.Correspondence
import NestedCss.Proofs.Places
import NestedCss.Proofs.Exchanges
import NestedCss.Proofs.Layout
import NestedCss.Proofs.Registrations
import NestedCss.Proofs.Mentions
import NestedCss.Proofs.CommentRemoval
import NestedCss.Proofs.CommentResidue
import NestedCss.Proofs.TreeHistories
import NestedCss.Proofs.Slices
import NestedCss.Proofs.Verdicts
import NestedCss.Proofs.Bookkeeping
import NestedCss.Proofs.NestedBodies
import NestedCss.Proofs.NestingLimit
import NestedCss.Proofs.Composition
import NestedCss.Proofs.FullSelectors
import NestedCss.Proofs.Opacity
import NestedCss.Proofs.ParameterLists
import NestedCss.Proofs.QueryOffsets
import NestedCss.Proofs.Gaps
import NestedCss.Proofs.Minification
import NestedCss.Proofs.QueryWords
import NestedCss.Proofs.Addresses
import NestedCss.Proofs.Omissions
import NestedCss.Proofs.ValuelessDeclarations
import NestedCss.Proofs.UnusedMixins
