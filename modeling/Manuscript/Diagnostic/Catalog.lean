import Manuscript.Diagnostic.Basic

/-! The catalogue of diagnostic codes. -/
namespace Manuscript

inductive Code
  | internal
  | contents
  | contentsEntry
  | duplicateSlug
  | derivedContents
  | sectionContent
  | sectionRecord
  | bibliography
  | bibliographyEntry
  | unresolvedCitation
  | unresolvedReference
  deriving DecidableEq, Repr

namespace Code

def all : List Code :=
  [internal, contents, contentsEntry, duplicateSlug, derivedContents, sectionContent,
    sectionRecord, bibliography, bibliographyEntry, unresolvedCitation, unresolvedReference]

def text : Code → String
  | internal => "P-0-1"
  | contents => "P-1-1"
  | contentsEntry => "P-1-2"
  | duplicateSlug => "P-1-3"
  | derivedContents => "P-1-4"
  | sectionContent => "P-2-1"
  | sectionRecord => "P-2-2"
  | bibliography => "P-3-1"
  | bibliographyEntry => "P-3-2"
  | unresolvedCitation => "P-4-1"
  | unresolvedReference => "P-4-2"

def subsystem : Code → String
  | internal => "internal"
  | contents | contentsEntry | duplicateSlug | derivedContents => "toc"
  | sectionContent | sectionRecord => "content"
  | bibliography | bibliographyEntry => "bibliography"
  | unresolvedCitation | unresolvedReference => "xref"

def title : Code → String
  | internal => "Internal Error"
  | contents => "Malformed Table of Contents"
  | contentsEntry => "Malformed TOC Entry"
  | duplicateSlug => "Duplicate TOC Slug"
  | derivedContents => "Derived Table of Contents"
  | sectionContent => "Malformed Section Content"
  | sectionRecord => "Malformed Section"
  | bibliography => "Malformed Bibliography"
  | bibliographyEntry => "Malformed Bibliography Entry"
  | unresolvedCitation => "Unresolved Citation"
  | unresolvedReference => "Unresolved Cross-Reference"

def template : Code → String
  | internal => "An internal error occurred in the paper pipeline"
  | contents => "The table of contents record is not a sequence of entries"
  | contentsEntry => "A table of contents entry is missing a required field"
  | duplicateSlug => "Two table of contents entries share the same slug"
  | derivedContents => "The table of contents was derived from section headings"
  | sectionContent => "A section file does not contain a sequence of sections"
  | sectionRecord => "A section record has an unexpected shape"
  | bibliography => "The bibliography record is not a sequence of entries"
  | bibliographyEntry => "A bibliography entry is missing its key"
  | unresolvedCitation => "A citation key does not match any bibliography entry"
  | unresolvedReference => "A cross-reference target does not match any TOC slug"

def docs (c : Code) : String := "https://hapd-paper.github.io/docs/errors/" ++ c.text

def since (_ : Code) : String := "0.1.0"

def ofText? (s : String) : Option Code := all.find? fun c => c.text == s

end Code

def Diagnostic.docs? (d : Diagnostic) : Option String :=
  (d.code.bind Code.ofText?).map Code.docs

end Manuscript
