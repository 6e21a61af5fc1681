import Manuscript.Markup.Lexer
import Manuscript.OrderedMap
import Manuscript.Reference

/-! Section blocks, and the document assembled from them: one section for each file, first the files
of the table of contents in its order, then the others. -/
namespace Manuscript

structure Block (β : Type) where
  sectionId : String
  sectionTitle : String
  level : String
  body : β
  deriving DecidableEq, Repr

namespace Block

def toJson (name : String) (encode : β → Json) (b : Block β) : Json := .object
  [("section_id", .string b.sectionId), ("section_title", .string b.sectionTitle),
    ("level", .string b.level), (name, encode b.body)]

def textJson (b : Block String) : Json := b.toJson "text" .string

def spansJson (b : Block (List Span)) : Json :=
  b.toJson "tokens" fun spans => .array (spans.map Span.toJson)

def resolve (i : Indices) (b : Block String) : Block (List Span) :=
  { b with body := (Markup.parse b.body).map i.resolve }

end Block

abbrev Content := OrderedMap String (List (Block String))

abbrev ResolvedContent := List (String × List (Block (List Span)))

def Content.resolve (i : Indices) (c : Content) : ResolvedContent :=
  c.entries.map fun e => (e.1, e.2.map (Block.resolve i))

structure Document.Section where
  file : String
  headings : List Heading
  blocks : List (Block (List Span))
  deriving DecidableEq, Repr

structure Document where
  sections : List Document.Section
  bibliography : List Bibliography.Entry
  deriving DecidableEq, Repr

namespace Document

def takeSections (groups : List (String × List Heading))
    (blocks : OrderedMap String (List (Block (List Span)))) :
    List Section × OrderedMap String (List (Block (List Span))) :=
  match groups with
  | [] => ([], blocks)
  | (file, headings) :: groups =>
    let (rest, left) := takeSections groups (blocks.erase file)
    (⟨file, headings, (blocks.get? file).getD []⟩ :: rest, left)

/-- Every file of the contents gets a section, without blocks if it has no content; content files
that the contents do not mention follow. -/
def assemble (content : ResolvedContent) (i : Indices) : Document :=
  let (listed, left) := takeSections i.contents.groups (OrderedMap.ofList content)
  ⟨listed ++ left.entries.map fun e => ⟨e.1, [], e.2⟩, i.bibliography.entries⟩

def build (content : Content) (i : Indices) : Document := assemble (content.resolve i) i

def files (d : Document) : List String := d.sections.map Section.file

def section? (d : Document) (file : String) : Option Section :=
  d.sections.find? fun s => s.file == file

/-- The blocks of a section id in a file, or those of the file's first id if there are none. -/
def findBlocks (d : Document) (file sectionId : String) : List (Block (List Span)) :=
  match d.section? file with
  | none => []
  | some s =>
    match s.blocks.filter fun b => b.sectionId == sectionId, s.blocks with
    | [], first :: _ => s.blocks.filter fun b => b.sectionId == first.sectionId
    | found, _ => found

structure Neighbors where
  previous : Option String
  next : Option String
  deriving DecidableEq, Repr

def neighborsIn (previous : Option String) (file : String) : List String → Option Neighbors
  | [] => none
  | f :: rest =>
    if f = file then some ⟨previous, rest.head?⟩ else neighborsIn (some f) file rest

def neighbors? (d : Document) (file : String) : Option Neighbors := neighborsIn none file d.files

inductive Missing
  | citation
  | reference
  deriving DecidableEq, Repr

structure Unresolved where
  file : String
  sectionId : String
  kind : Missing
  identifier : String
  deriving DecidableEq, Repr

def unresolvedSpan? (file sectionId : String) : Span → Option Unresolved
  | .missingCitation key => some ⟨file, sectionId, .citation, key⟩
  | .missingReference target => some ⟨file, sectionId, .reference, target⟩
  | _ => none

def unresolved (d : Document) : List Unresolved :=
  d.sections.flatMap fun s => s.blocks.flatMap fun b =>
    b.body.filterMap (unresolvedSpan? s.file b.sectionId)

def Missing.name : Missing → String
  | citation => "citation"
  | reference => "cross-ref"

def Unresolved.toJson (u : Unresolved) : Json := .object
  [("file", .string u.file), ("section_id", .string u.sectionId), ("kind", .string u.kind.name),
    ("identifier", .string u.identifier)]

def Section.toJson (s : Section) : Json := .object
  [("file", .string s.file), ("entries", .array (s.headings.map Heading.toJson)),
    ("blocks", .array (s.blocks.map Block.spansJson))]

def toJson (d : Document) : Json := .object
  [("sections", .array (d.sections.map Section.toJson)),
    ("bibliography", .array (d.bibliography.map Bibliography.Entry.toJson))]

end Document
end Manuscript
