import IssueMarkdown.Main
import IssueMarkdown.Proofs.Lines
import IssueMarkdown.Proofs.Layout
import IssueMarkdown.Proofs.Recognition
import IssueMarkdown.Proofs.Colour
import IssueMarkdown.Proofs.Link
import IssueMarkdown.Proofs.CodeSpan
import IssueMarkdown.Proofs.Quote
import IssueMarkdown.Proofs.Panel
import IssueMarkdown.Proofs.LineMarker
import IssueMarkdown.Proofs.Seam
import IssueMarkdown.Proofs.Settling
import IssueMarkdown.Proofs.Grammar
import IssueMarkdown.Proofs.Inline
import IssueMarkdown.Proofs.Callout
import IssueMarkdown.Proofs.Document
import IssueMarkdown.Proofs.Row
import IssueMarkdown.Proofs.AnyOrder
import IssueMarkdown.Proofs.LineEnding
import IssueMarkdown.Proofs.Agreement
import IssueMarkdown.Proofs.Outcome
import IssueMarkdown.Proofs.Printing
import IssueMarkdown.Proofs.RecordView
import IssueMarkdown.Proofs.Secrecy
import IssueMarkdown.Proofs.Commutation
import IssueMarkdown.Proofs.Rounding
import IssueMarkdown.Proofs.Literal
import IssueMarkdown.Proofs.Limit
import IssueMarkdown.Proofs.PrintedLimit
import IssueMarkdown.Proofs.Placement
import IssueMarkdown.Proofs.Address
import IssueMarkdown.Proofs.Authorization
import IssueMarkdown.Proofs.Site
import IssueMarkdown.Proofs.MemberOrder
import IssueMarkdown.Proofs.NormalForm
