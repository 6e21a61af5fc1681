import Manuscript.Contents
import Manuscript.Finding
import Manuscript.Heading.Slug
import Manuscript.Text.Blank

/-! The record of the table of contents: an array of entries, or an object whose `paper` has them
under `sections` beside the title, authors and date of the paper. -/
namespace Manuscript.Record

structure Meta where
  title : Option String
  authors : List String
  date : Option String
  deriving DecidableEq, Repr

def Meta.toJson (m : Meta) : Json := .object <|
  (m.title.map fun t => ("title", Json.string t)).toList ++
    (if m.authors.isEmpty then [] else [("authors", .array (m.authors.map .string))]) ++
    (m.date.map fun d => ("date", Json.string d)).toList

structure ContentsRecord where
  headings : List Heading
  paper : Option Meta
  deriving DecidableEq, Repr

structure Entry where
  text : String
  slug : Option String
  file : String
  level : Option Level
  deriving DecidableEq, Repr

structure Entry.Draft where
  text : Option String := none
  slug : Option (Option String) := none
  file : Option String := none
  level : Option (Option Level) := none

namespace Entry

/-- Reads one field of an entry written as an object; `title` and `id` are other names for `text`
and `slug`, and unknown fields are passed over. -/
def Draft.set (d : Draft) (field : String × Json) : Shaped Draft :=
  match field.1 with
  | "text" | "title" =>
    (once "text" d.text (asText field.2)).map fun text => { d with text }
  | "slug" | "id" =>
    (once "slug" d.slug (optional asText field.2)).map fun slug => { d with slug }
  | "file" => (once "file" d.file (asText field.2)).map fun file => { d with file }
  | "level" =>
    (once "level" d.level (optional asLevel field.2)).map fun level => { d with level }
  | _ => .ok d

def ofFields (fields : List (String × Json)) : Shaped Entry := do
  let d ← fields.foldlM Draft.set {}
  let text ← required "text" d.text
  let file ← required "file" d.file
  pure ⟨text, d.slug.getD none, file, d.level.getD none⟩

def ofItems (items : List Json) : Shaped Entry := do
  let (text, rest) ← nextOr (.error (.tooFew 0 .contentsEntry)) asText items
  let (slug, rest) ← nextOr (.ok none) (optional asText) rest
  let (file, rest) ← nextOr (.error (.tooFew 2 .contentsEntry)) asText rest
  let (level, rest) ← nextOr (.ok none) (optional asLevel) rest
  noMore items.length rest
  pure ⟨text, slug, file, level⟩

def ofJson : Json → Shaped Entry
  | .object fields => ofFields fields
  | .array items => ofItems items
  | v => .error (.wrongType v (.record .contentsEntry))

def slugOr (slug : Option String) (text : String) : String :=
  match slug with
  | some s => if Text.allBlank s.toList then Slug.slugify text else Text.strip s
  | none => Slug.slugify text

/-- The heading of an entry. A level that is missing or says nothing counts as one. -/
def heading (e : Entry) : Except EntryFault Heading :=
  let slug := slugOr e.slug e.text
  if slug.isEmpty then .error (.noSlug e.text)
  else .ok ⟨(e.level.bind Level.value?).getD 1, e.text, slug, e.file⟩

def read (v : Json) : Except EntryFault Heading :=
  match ofJson v with
  | .ok e => e.heading
  | .error fault => .error (.shape fault)

end Entry

def readEntries (index : Nat) : List Json → List Heading × List Finding
  | [] => ([], [])
  | v :: rest =>
    let (headings, findings) := readEntries (index + 1) rest
    match Entry.read v with
    | .ok h => (h :: headings, findings)
    | .error fault => (headings, .entrySkipped index fault :: findings)

def unwrap? (paper : Json) : Option (List Json × Meta) :=
  match (paper.field? "sections").bind Json.items? with
  | none => none
  | some items =>
    let authors := ((paper.field? "authors").bind Json.items?).getD []
    some (items, ⟨(paper.field? "title").bind Json.text?, authors.filterMap Json.text?,
      (paper.field? "date").bind Json.text?⟩)

def ofEntries (items : List Json) (paper : Option Meta) : Loaded ContentsRecord :=
  let (headings, findings) := readEntries 0 items
  ⟨⟨headings, paper⟩, findings ++ (Contents.duplicateSlugs headings).map .slugRepeated⟩

def loadContents : Json → Loaded ContentsRecord
  | .array items => ofEntries items none
  | .object fields =>
    match ((Json.object fields).field? "paper").bind unwrap? with
    | some (items, paper) => ofEntries items (some paper)
    | none => ⟨⟨[], none⟩, [.contentsUnwrapped]⟩
  | v => ⟨⟨[], none⟩, [.contentsNotArray v.kind]⟩

end Manuscript.Record
