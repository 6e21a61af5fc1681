import Manuscript.Bibliography.Basic
import Manuscript.Finding
import Manuscript.Text.Blank

/-! The bibliography record: an array of objects with a `key` that is not blank and a `text`. -/
namespace Manuscript.Record

def source? (v : Json) : Option Source :=
  match (v.field? "key").bind Json.text?, (v.field? "text").bind Json.text? with
  | some key, some text =>
    if Text.allBlank key.toList then none else some ⟨Text.strip key, Text.strip text⟩
  | _, _ => none

def readSources (index : Nat) : List Json → List Source × List Finding
  | [] => ([], [])
  | v :: rest =>
    let (sources, findings) := readSources (index + 1) rest
    match source? v with
    | some s => (s :: sources, findings)
    | none => (sources, .sourceSkipped index :: findings)

def loadBibliography : Json → Loaded (List Source)
  | .array items =>
    let (sources, findings) := readSources 0 items
    ⟨sources, findings⟩
  | v => ⟨[], [.bibliographyNotArray v.kind]⟩

end Manuscript.Record
