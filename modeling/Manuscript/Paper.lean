import Manuscript.Document.Report
import Manuscript.Bibliography.Bibitem
import Manuscript.Heading.Derive
import Manuscript.Record.Bibliography
import Manuscript.Record.Contents
import Manuscript.Record.Section
import Manuscript.Settings

/-! A paper loaded from a content directory: its section files in the order of their names, the table
of contents and the bibliography. Only what cannot be read at all is an error; a record that is not
JSON, or has another shape, gives a finding. -/
namespace Manuscript

structure Paper where
  headings : List Heading
  /-- Whether the headings were made from the sections. -/
  derived : Bool
  about : Option Record.Meta
  sources : List Source
  content : Content
  deriving Inhabited

namespace Paper

def indices (p : Paper) : Indices := Indices.build p.headings p.sources

def document (p : Paper) : Document := Document.build p.content p.indices

structure Unreadable where
  path : String
  why : Fault
  deriving DecidableEq, Repr

/-! The files of a paper. -/

def contentsPath (folder : String) (s : Settings) : String := Path.join folder s.contents

def bibliographyPath (folder : String) (s : Settings) : String := Path.join folder s.bibliography

def bibitemPath (folder : String) (s : Settings) : String :=
  Path.join folder (s.bibliographySection ++ ".json")

def isRecord (folder : String) (s : Settings) (path : String) : Bool :=
  Path.same path (contentsPath folder s) || Path.same path (bibliographyPath folder s) ||
    Path.same path (bibitemPath folder s)

def isSection (folder : String) (s : Settings) (name : FileName) : Bool :=
  name.extension? == some (Text.toUtf8 "json") &&
    !name.text?.any fun text => isRecord folder s (Path.join folder text)

structure File where
  path : String
  stem : String
  bytes : List UInt8
  deriving DecidableEq, Repr

def readFile (d : Disk) (folder : String) (name : FileName) : Except Unreadable (Option File) :=
  let path := Path.join folder name.shown
  match d.entry folder name with
  | .file bytes => .ok (some ⟨path, name.stem, bytes⟩)
  | .closed why => .error ⟨path, why⟩
  | _ => .ok none

def sectionFiles (d : Disk) (folder : String) (s : Settings) : Except Unreadable (List File) :=
  match d.names folder with
  | .error why => .error ⟨folder, why⟩
  | .ok names => do
    let sorted := names.mergeSort fun a b => !decide (b.bytes < a.bytes)
    let read ← (sorted.filter (isSection folder s)).mapM (readFile d folder)
    pure (read.filterMap id)

/-! Sections. -/

def readSection (f : File) : Loaded (Option (String × List (Block String))) :=
  match Json.read f.bytes with
  | .error e => ⟨none, [.notJson .sectionRecord f.path e f.stem]⟩
  | .ok v =>
    let l := Record.loadSection f.stem v
    ⟨some (f.stem, l.value), l.findings⟩

def readSections (files : List File) : Loaded Content :=
  let read := files.map readSection
  ⟨OrderedMap.ofList (read.filterMap Loaded.value), read.flatMap Loaded.findings⟩

/-! Records. -/

def readRecord (d : Disk) (record : RecordFile) (path : String) :
    Except Unreadable (Loaded (Option Json)) :=
  match d.look path with
  | .nothing _ => .ok ⟨none, []⟩
  | .closed why => .error ⟨path, why⟩
  | .folder => .error ⟨path, .isFolder⟩
  | .file bytes =>
    match Json.read bytes with
    | .error e => .ok ⟨none, [.notJson record path e (Path.stem path)]⟩
    | .ok v => .ok ⟨some v, []⟩

/-- The table of contents as the record gives it. A missing record is a finding only if none is to be
derived. -/
def readContents (d : Disk) (folder : String) (s : Settings) :
    Except Unreadable (Loaded Record.ContentsRecord) := do
  let path := contentsPath folder s
  let ⟨record, findings⟩ ← readRecord d .contents path
  match record with
  | some v =>
    let l := Record.loadContents v
    pure ⟨l.value, findings ++ l.findings⟩
  | none =>
    let missing := !d.has path && !s.deriveContents
    pure ⟨⟨[], none⟩,
      findings ++ if missing then [.contentsMissing s.contents (Path.stem path)] else []⟩

def orDerived (folder : String) (s : Settings) (content : Content) (headings : List Heading) :
    Loaded (List Heading × Bool) :=
  if headings.isEmpty && s.deriveContents && !content.isEmpty then
    let derived := Heading.derive content
    ⟨(derived, true), [.contentsDerived derived.length (Path.stem (contentsPath folder s))]⟩
  else ⟨(headings, false), []⟩

def bibitems (s : Settings) (v : Json) : Loaded (List Source) :=
  let l := Record.loadSection s.bibliographySection v
  let sources := Bibliography.ofBibitems ("\n".intercalate (l.value.map Block.body))
  ⟨sources,
    l.findings ++ if sources.isEmpty then [.bibliographyEmpty s.bibliographySection] else []⟩

/-- The bibliography: the record if it is an array, else the text of the bibliography section. -/
def readSources (d : Disk) (folder : String) (s : Settings) :
    Except Unreadable (Loaded (List Source)) := do
  let path := bibliographyPath folder s
  let ⟨record, findings⟩ ← readRecord d .bibliography path
  match record with
  | some (.array items) =>
    let l := Record.loadBibliography (.array items)
    pure ⟨l.value, findings ++ l.findings⟩
  | _ =>
    let ⟨section?, more⟩ ←
      -- a record that is read once is reported once
      if Path.same (bibitemPath folder s) path then pure ⟨record, []⟩
      else readRecord d .bibliography (bibitemPath folder s)
    match section? with
    | none => pure ⟨[], findings ++ more⟩
    | some v =>
      let l := bibitems s v
      pure ⟨l.value, findings ++ more ++ l.findings⟩

def load (d : Disk) (folder : String) (s : Settings) : Except Unreadable (Loaded Paper) := do
  let content := readSections (← sectionFiles d folder s)
  let contents ← readContents d folder s
  let headings := orDerived folder s content.value contents.value.headings
  let sources ← readSources d folder s
  pure ⟨⟨headings.value.1, headings.value.2, contents.value.paper, sources.value, content.value⟩,
    content.findings ++ contents.findings ++ headings.findings ++ sources.findings⟩

end Paper
end Manuscript
