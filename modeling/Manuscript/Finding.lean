import Manuscript.Diagnostic.Basic
import Manuscript.Json.Reader
import Manuscript.Record.Shape

/-! What can be found wrong while a paper is loaded and checked. Each finding is a warning with a code
and a title, at a place in the content; nothing else turns findings into words. -/
namespace Manuscript

inductive RecordFile
  | sectionRecord
  | contents
  | bibliography
  deriving DecidableEq, Repr

inductive EntryFault
  | shape (fault : Record.ShapeError)
  | noSlug (text : String)

inductive Finding
  | contentsNotArray (found : Json.Kind)
  | contentsUnwrapped
  | contentsMissing (name file : String)
  | notJson (record : RecordFile) (path : String) (error : Json.SyntaxError) (file : String)
  | entrySkipped (index : Nat) (fault : EntryFault)
  | slugRepeated (slug : String)
  | contentsDerived (count : Nat) (file : String)
  | fileNotRecord (file : String) (found : Json.Kind)
  | recordSkipped (file : String) (fault : Record.ShapeError)
  | recordUnnamed (file : String)
  | itemDropped (file sectionId : String) (index : Nat) (found : Json.Kind)
  | contentNotText (file sectionId : String) (found : Json.Kind)
  | bibliographyNotArray (found : Json.Kind)
  | sourceSkipped (index : Nat)
  | bibliographyEmpty (file : String)
  | citationUnresolved (file sectionId key : String)
  | referenceUnresolved (file sectionId target : String)

def RecordFile.label : RecordFile → String × String
  | sectionRecord => ("P-2-2", "Malformed Section")
  | contents => ("P-1-1", "Malformed Table of Contents")
  | bibliography => ("P-3-1", "Malformed Bibliography")

def EntryFault.message : EntryFault → String
  | shape fault => fault.message
  | noSlug text => "No slug could be derived from `" ++ text ++ "`"

namespace Finding

/-- The code and the title that a finding is reported under. They are written out here, not taken from
the catalogue. -/
def label : Finding → String × String
  | contentsNotArray _ | contentsUnwrapped | contentsMissing _ _ =>
    ("P-1-1", "Malformed Table of Contents")
  | notJson record _ _ _ => record.label
  | entrySkipped _ _ => ("P-1-2", "Malformed TOC Entry")
  | slugRepeated _ => ("P-1-3", "Duplicate TOC Slug")
  | contentsDerived _ _ => ("P-1-4", "Derived Table of Contents")
  | fileNotRecord _ _ | recordSkipped _ _ | recordUnnamed _ => ("P-2-2", "Malformed Section")
  | itemDropped _ _ _ _ | contentNotText _ _ _ => ("P-2-1", "Malformed Section Content")
  | bibliographyNotArray _ | bibliographyEmpty _ => ("P-3-1", "Malformed Bibliography")
  | sourceSkipped _ => ("P-3-2", "Malformed Bibliography Entry")
  | citationUnresolved _ _ _ => ("P-4-1", "Unresolved Citation")
  | referenceUnresolved _ _ _ => ("P-4-2", "Unresolved Cross-Reference")

def problem : Finding → String
  | contentsNotArray _ | contentsUnwrapped => "The table of contents must be an array of entries"
  | contentsMissing name _ => "No table of contents record `" ++ name ++ "` was found"
  | notJson _ path _ _ => "`" ++ path ++ "` is not valid JSON"
  | entrySkipped index _ => "TOC entry " ++ Text.decimal (index + 1) ++ " was skipped"
  | slugRepeated slug => "Slug `" ++ slug ++ "` appears on more than one entry"
  | contentsDerived _ _ =>
    "No usable table of contents; one was derived from the section content"
  | fileNotRecord _ _ => "A content file must hold a section record or an array of them"
  | recordSkipped _ _ => "A section record was skipped"
  | recordUnnamed _ => "A section record has neither an `id` nor a usable `title`"
  | itemDropped _ _ index _ => "Content item " ++ Text.decimal (index + 1) ++ " must be a string"
  | contentNotText _ _ _ => "Section content must be a string or an array of strings"
  | bibliographyNotArray _ => "The bibliography must be an array of entries"
  | sourceSkipped index => "Bibliography entry " ++ Text.decimal (index + 1) ++ " was skipped"
  | bibliographyEmpty _ => "The bibliography record has no entries"
  | citationUnresolved _ _ key => "Citation key `" ++ key ++ "` is not in the bibliography"
  | referenceUnresolved _ _ target => "Target `" ++ target ++ "` is not a known heading slug"

def detail? : Finding → Option String
  | contentsNotArray found => some ("Found " ++ found.named)
  | contentsUnwrapped => some "Found an object without `paper.sections`"
  | contentsMissing _ _ => none
  | notJson _ _ error _ => some error.message
  | entrySkipped _ fault => some fault.message
  | slugRepeated slug => some ("Cross-references to `" ++ slug ++ "` resolve to the first entry")
  | contentsDerived count _ => some (Text.decimal count ++ " entries derived")
  | fileNotRecord _ found => some ("Found " ++ found.named)
  | recordSkipped _ fault => some fault.message
  | recordUnnamed _ => none
  | itemDropped _ _ _ found => some ("Found " ++ found.named ++ "; the item was dropped")
  | contentNotText _ _ found => some ("Found " ++ found.named)
  | bibliographyNotArray found => some ("Found " ++ found.named)
  | sourceSkipped _ => some "Entries need a non-empty string `key` and a string `text`"
  | bibliographyEmpty _ =>
    some "It is neither an array of entries nor text with `\\bibitem` commands"
  | citationUnresolved _ _ _ => none
  | referenceUnresolved _ _ _ => none

def hint? : Finding → Option String
  | contentsUnwrapped => some "Is the entry list nested under a different key?"
  | contentsMissing _ _ => some "Is `toc` in `_paper.yml` pointing at the right file?"
  | entrySkipped _ _ => some "Does every entry have `text` (or `title`) and `file`?"
  | recordSkipped _ _ => some "Is the record an object with `title`, `id` and `content`?"
  | citationUnresolved _ _ _ =>
    some "Is the key spelled the same way as its bibliography entry?"
  | referenceUnresolved _ _ _ => some "Did the heading get renamed?"
  | _ => none

def location : Finding → Location
  | contentsNotArray _ | contentsUnwrapped | slugRepeated _ => { file := "toc" }
  | contentsMissing _ file => { file }
  | notJson _ _ _ file => { file }
  | entrySkipped index _ => { file := "toc", block := some (.ofNat index) }
  | contentsDerived _ file => { file }
  | fileNotRecord file _ => { file }
  | recordSkipped file _ => { file }
  | recordUnnamed file => { file }
  | itemDropped file sectionId index _ => { file, sectionId, block := some (.ofNat index) }
  | contentNotText file sectionId _ => { file, sectionId }
  | bibliographyNotArray _ => { file := "bibliography" }
  | sourceSkipped index => { file := "bibliography", block := some (.ofNat index) }
  | bibliographyEmpty file => { file }
  | citationUnresolved file sectionId _ => { file, sectionId }
  | referenceUnresolved file sectionId _ => { file, sectionId }

def diagnostic (f : Finding) : Diagnostic := Diagnostic.build .warning f.label.2 <|
  [.code f.label.1, .problem (.markdown f.problem)] ++
    (f.detail?.map fun t => Diagnostic.Edit.detail (.markdown t)).toList ++
    (f.hint?.map fun t => Diagnostic.Edit.hint (.markdown t)).toList ++
    [.location f.location]

end Finding

/-- A value made from input that may be malformed. What could not be used was left out, and each
such loss that the loader notices is a finding. -/
structure Loaded (α : Type) where
  value : α
  findings : List Finding

namespace Loaded

def isDegraded (l : Loaded α) : Bool := !l.findings.isEmpty

def diagnostics (l : Loaded α) : List Diagnostic := l.findings.map Finding.diagnostic

end Loaded
end Manuscript
