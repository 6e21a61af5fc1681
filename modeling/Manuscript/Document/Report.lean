import Manuscript.Document.Basic
import Manuscript.Finding

/-! One finding for each unresolved citation or reference of a document. -/
namespace Manuscript.Document

def Unresolved.finding (u : Unresolved) : Finding :=
  match u.kind with
  | .citation => .citationUnresolved u.file u.sectionId u.identifier
  | .reference => .referenceUnresolved u.file u.sectionId u.identifier

def findings (d : Document) : List Finding := d.unresolved.map Unresolved.finding

end Manuscript.Document
