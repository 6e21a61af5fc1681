import Manuscript.Disk.Basic
import Manuscript.Text.Blank
import Manuscript.Yaml.Mapping

/-! The settings of a content directory, from the file `_paper.yml` in it. Every field is optional,
unknown and repeated ones are refused, and a missing file says nothing. -/
namespace Manuscript

structure Settings where
  /-- The file of the table of contents. -/
  contents : String := "toc.json"
  /-- The file of the bibliography. -/
  bibliography : String := "bibliography.json"
  /-- The section file, without extension, that lists the bibliography as text. -/
  bibliographySection : String := "bibliography"
  /-- Whether sections may be resolved side by side; the result is the same. -/
  parallel : Bool := true
  /-- Whether a missing table of contents is made from the sections. -/
  deriveContents : Bool := true
  deriving DecidableEq, Repr

namespace Settings

def file : String := "_paper.yml"

structure Draft where
  contents : Option String := none
  bibliography : Option String := none
  bibliographySection : Option String := none
  parallel : Option Bool := none
  deriveContents : Option Bool := none

def once (old : Option α) (new : Option α) : Option (Option α) :=
  match old, new with
  | none, some a => some (some a)
  | _, _ => none

def truth? (s : String) : Option Bool :=
  if s = "true" ∨ s = "True" ∨ s = "TRUE" then some true
  else if s = "false" ∨ s = "False" ∨ s = "FALSE" then some false
  else none

/-- The truth value of a plain scalar, or of lines that are tagged as one. -/
def bool? (s : Yaml.Scalar) : Option Bool :=
  if s.style = .plain ∨ s.style = .literal ∧ s.tag = some "tag:yaml.org,2002:bool" then
    truth? s.text
  else none

def Draft.set (d : Draft) (field : Yaml.Field) : Option Draft :=
  let value := field.2
  match field.1.text with
  | "toc" => (once d.contents (some value.text)).map fun contents => { d with contents }
  | "bibliography" =>
    (once d.bibliography (some value.text)).map fun bibliography => { d with bibliography }
  | "bibliography-file" =>
    (once d.bibliographySection (some value.text)).map fun bibliographySection =>
      { d with bibliographySection }
  | "parallel" => (once d.parallel (bool? value)).map fun parallel => { d with parallel }
  | "derive-toc" =>
    (once d.deriveContents (bool? value)).map fun deriveContents => { d with deriveContents }
  | _ => none

def ofDraft (d : Draft) : Settings :=
  let defaults : Settings := {}
  ⟨d.contents.getD defaults.contents, d.bibliography.getD defaults.bibliography,
    d.bibliographySection.getD defaults.bibliographySection, d.parallel.getD defaults.parallel,
    d.deriveContents.getD defaults.deriveContents⟩

def ofYaml? (text : String) : Option Settings :=
  if Text.allBlank text.toList then some {}
  else do ofDraft (← (← Yaml.fields? text).foldlM Draft.set {})

inductive LoadError
  | unreadable (path : String) (why : Fault)
  | notSettings
  deriving DecidableEq, Repr

def load (d : Disk) (folder : String) : Except LoadError Settings :=
  let path := Path.join folder file
  if d.has path then
    match d.readText path with
    | .error why => .error (.unreadable path why)
    | .ok text =>
      match ofYaml? text with
      | some s => .ok s
      | none => .error .notSettings
  else .ok {}

end Settings
end Manuscript
