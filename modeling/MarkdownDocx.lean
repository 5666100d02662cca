import MarkdownDocx.Command.Run
import MarkdownDocx.Conversion
import MarkdownDocx.Docx.Package
import MarkdownDocx.Main
import MarkdownDocx.Recorded
import MarkdownDocx.Proofs.Xml.RoundTrip
import MarkdownDocx.Proofs.Math.Normal
import MarkdownDocx.Proofs.Math.Reread
import MarkdownDocx.Proofs.Math.RoundTrip
import MarkdownDocx.Proofs.Layout.Formula
import MarkdownDocx.Proofs.Layout.Leaves
import MarkdownDocx.Proofs.Math.Escaping
import MarkdownDocx.Proofs.Math.Repaired
import MarkdownDocx.Proofs.Text.Trim
import MarkdownDocx.Proofs.Xml.Legal
import MarkdownDocx.Proofs.Math.Shape
import MarkdownDocx.Proofs.Latex.Accepted
import MarkdownDocx.Proofs.Markdown.Gaps
import MarkdownDocx.Proofs.Markdown.Lines
import MarkdownDocx.Proofs.Markdown.Emphasis
import MarkdownDocx.Proofs.Markdown.Passages
import MarkdownDocx.Proofs.Markdown.Prepared
import MarkdownDocx.Proofs.Layout.Places
import MarkdownDocx.Proofs.Layout.QuoteDepth
import MarkdownDocx.Proofs.Files.Changes
import MarkdownDocx.Proofs.Command.Job
import MarkdownDocx.Proofs.Command.FilesLeft
import MarkdownDocx.Proofs.Files.StyleFile
import MarkdownDocx.Proofs.Command.Status
import MarkdownDocx.Proofs.Command.Agreement
import MarkdownDocx.Proofs.Style.OutOfRange
import MarkdownDocx.Proofs.Files.RegularFile
import MarkdownDocx.Proofs.Markdown.TokenTexts
import MarkdownDocx.Proofs.Docx.Equation
import MarkdownDocx.Proofs.Docx.Body
import MarkdownDocx.Proofs.Number.Rounding
import MarkdownDocx.Proofs.Number.Shortest
import MarkdownDocx.Proofs.Json.Numerals
import MarkdownDocx.Proofs.Json.RoundTrip
import MarkdownDocx.Proofs.Files.Restored
import MarkdownDocx.Proofs.Layout.Addresses
import MarkdownDocx.Proofs.Layout.Markers
import MarkdownDocx.Proofs.Layout.NestedLists
import MarkdownDocx.Proofs.Markdown.BareLines
import MarkdownDocx.Proofs.Markdown.FencePairs
import MarkdownDocx.Proofs.Markdown.ControlSequences
import MarkdownDocx.Proofs.Latex.Nesting
import MarkdownDocx.Proofs.Layout.Formatting
import MarkdownDocx.Proofs.Text.ChineseGaps
import MarkdownDocx.Proofs.Text.Markers
import MarkdownDocx.Proofs.Text.Bullets
import MarkdownDocx.Proofs.Text.Content
import MarkdownDocx.Proofs.Text.Bare
import MarkdownDocx.Proofs.Text.FlatEmphasis
import MarkdownDocx.Proofs.Text.ClosedGaps
import MarkdownDocx.Proofs.Text.CleanTwice
import MarkdownDocx.Proofs.Math.Rescan
import MarkdownDocx.Proofs.Xml.Elements
import MarkdownDocx.Proofs.Math.Lookup
import MarkdownDocx.Proofs.Math.Settled
import MarkdownDocx.Proofs.Math.Insertion
import MarkdownDocx.Proofs.Math.Gathered
import MarkdownDocx.Proofs.Math.Conserved
import MarkdownDocx.Proofs.Layout.Drawn
import MarkdownDocx.Proofs.Layout.ListIndent
import MarkdownDocx.Proofs.Style.Fieldwise
import MarkdownDocx.Proofs.Style.Merging
import MarkdownDocx.Proofs.Style.SettingsFields
import MarkdownDocx.Proofs.Markdown.Wrapper
import MarkdownDocx.Proofs.Number.Overflow
import MarkdownDocx.Proofs.Json.Regular
import MarkdownDocx.Proofs.Style.Widthless
import MarkdownDocx.Proofs.Layout.BaseIndent
