import UmlMarkup.Editor
import UmlMarkup.FileTree
import UmlMarkup.Main
import UmlMarkup.Proofs.Document.Update
import UmlMarkup.Proofs.Scan.Coverage
import UmlMarkup.Proofs.Scan.Nesting
import UmlMarkup.Proofs.Registry.History
import UmlMarkup.Proofs.Scan.Surroundings
import UmlMarkup.Proofs.Scan.Ledger
import UmlMarkup.Proofs.Scan.Words
import UmlMarkup.Proofs.Sequence.Lines
import UmlMarkup.Proofs.Sequence.Blocks
import UmlMarkup.Proofs.Registry.Orphans
import UmlMarkup.Proofs.Scan.Boundaries
import UmlMarkup.Proofs.Scan.Interiors
import UmlMarkup.Proofs.Scan.Lookahead
import UmlMarkup.Proofs.Scan.LineBreak
import UmlMarkup.Proofs.Document.Resume
import UmlMarkup.Proofs.Html.Escaping
import UmlMarkup.Proofs.Html.Page
import UmlMarkup.Proofs.Editor.Session
import UmlMarkup.Proofs.Scan.Delimiters
import UmlMarkup.Proofs.Scan.LeadingComment
import UmlMarkup.Proofs.Sequence.BareEnd
import UmlMarkup.Proofs.Scan.NoteHeader
import UmlMarkup.Proofs.Class.Braces
import UmlMarkup.Proofs.Scan.AttachedNote
import UmlMarkup.Proofs.Scan.Trailing
import UmlMarkup.Proofs.Scan.Squeezing
import UmlMarkup.Proofs.Scan.GapWidth
import UmlMarkup.Proofs.Scan.Indentation
import UmlMarkup.Proofs.Sequence.Messages
import UmlMarkup.Proofs.Document.Footprint
import UmlMarkup.Proofs.Pattern.Meaning
import UmlMarkup.Proofs.Scan.TableOrder
import UmlMarkup.Proofs.Scan.ColorLiteral
import UmlMarkup.Proofs.Scan.Progress
