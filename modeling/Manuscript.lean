import Manuscript.Main
import Manuscript.Snapshot
import Manuscript.Proofs.Markup.Absent
import Manuscript.Proofs.Document.Assembly
import Manuscript.Proofs.Markup.Argument
import Manuscript.Proofs.Text.Search
import Manuscript.Proofs.Markup.Canonical
import Manuscript.Proofs.Markup.Offset.Checked
import Manuscript.Proofs.Markup.Offset.Scan
import Manuscript.Proofs.Markup.Offset.Lexer
import Manuscript.Proofs.Markup.Offset.Emission
import Manuscript.Proofs.Markup.Offset.Opening
import Manuscript.Proofs.Markup.Offset.Safe
import Manuscript.Proofs.Markup.Offset.Cache
import Manuscript.Proofs.Bibliography.Numbering
import Manuscript.Proofs.Bibliography.Indexed
import Manuscript.Proofs.Reference
import Manuscript.Document.Pool
import Manuscript.Proofs.Document.References
import Manuscript.Proofs.Snapshot
import Manuscript.Proofs.Heading.Allocation
import Manuscript.Proofs.Heading.Slug
import Manuscript.Proofs.Record.Section
import Manuscript.Proofs.Disk.Name
import Manuscript.Proofs.Finding
import Manuscript.Proofs.Paper.Load
import Manuscript.Proofs.Paper.Findings
import Manuscript.Proofs.Paper.Sections
import Manuscript.Proofs.Paper.Records
import Manuscript.Proofs.Contents
import Manuscript.Proofs.Contents.Indexed
import Manuscript.Proofs.Record.Field
import Manuscript.Proofs.Record.Entry
import Manuscript.Proofs.Record.Items
import Manuscript.Proofs.Record.Normal
import Manuscript.Proofs.Command.Check
import Manuscript.Proofs.Json
import Manuscript.Proofs.Diagnostic.Lossless
import Manuscript.Proofs.Heading.Derived
import Manuscript.Proofs.Heading.Repeated
import Manuscript.Proofs.Heading.Runs
import Manuscript.Proofs.Pattern.Basic
import Manuscript.Proofs.Paper.Slugs
import Manuscript.Proofs.Paper.Catalogued
import Manuscript.Proofs.Markup.Extent
import Manuscript.Proofs.Markup.Grammar
import Manuscript.Proofs.Markup.Lexeme
import Manuscript.Proofs.Markup.WellFormed
import Manuscript.Proofs.Markup.Dollar
import Manuscript.Proofs.Markup.Closing
import Manuscript.Proofs.Markup.Limit
import Manuscript.Proofs.Markup.KeyList
import Manuscript.Proofs.Pattern.Search
import Manuscript.Proofs.Heading.Command
import Manuscript.Proofs.Heading.Mark
import Manuscript.Proofs.Heading.Searched
import Manuscript.Proofs.Heading.Grammar
import Manuscript.Proofs.Bibliography.Opening
import Manuscript.Proofs.Bibliography.Searched
import Manuscript.Proofs.Document.Navigation
import Manuscript.Proofs.Heading.Identifier
import Manuscript.Proofs.Bibliography.Written
import Manuscript.Proofs.Heading.Level
import Manuscript.Proofs.Record.Kept
import Manuscript.Proofs.Document.Markers
import Manuscript.Proofs.Diagnostic.Edits
import Manuscript.Proofs.Heading.Candidate
import Manuscript.Proofs.Heading.Words
