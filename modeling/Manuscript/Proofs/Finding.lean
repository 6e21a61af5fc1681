import Manuscript.Diagnostic.Catalog
import Manuscript.Finding

/-! The diagnostics of findings: each is a warning with the code and title of its catalogue entry, a
problem and a place. The problem names the path of a file that is not JSON, and no other problem
reads like that. -/
namespace Manuscript

/-! The catalogue entries that labels are meant for. -/

def RecordFile.code : RecordFile → Code
  | sectionRecord => .sectionRecord
  | contents => .contents
  | bibliography => .bibliography

theorem RecordFile.label_eq (r : RecordFile) : r.label = (r.code.text, r.code.title) := by
  cases r <;> rfl

namespace Finding

def code : Finding → Code
  | contentsNotArray _ | contentsUnwrapped | contentsMissing _ _ => .contents
  | notJson record _ _ _ => record.code
  | entrySkipped _ _ => .contentsEntry
  | slugRepeated _ => .duplicateSlug
  | contentsDerived _ _ => .derivedContents
  | fileNotRecord _ _ | recordSkipped _ _ | recordUnnamed _ => .sectionRecord
  | itemDropped _ _ _ _ | contentNotText _ _ _ => .sectionContent
  | bibliographyNotArray _ | bibliographyEmpty _ => .bibliography
  | sourceSkipped _ => .bibliographyEntry
  | citationUnresolved _ _ _ => .unresolvedCitation
  | referenceUnresolved _ _ _ => .unresolvedReference

theorem label_eq (f : Finding) : f.label = (f.code.text, f.code.title) := by
  cases f with
  | notJson record => exact record.label_eq
  | _ => rfl

inductive Origin
  | bytes (record : RecordFile)
  | contents
  | sections
  | sources
  | folder
  | document
  deriving DecidableEq, Repr

def origin : Finding → Origin
  | notJson record _ _ _ => .bytes record
  | contentsNotArray _ | contentsUnwrapped | entrySkipped _ _ | slugRepeated _ => .contents
  | fileNotRecord _ _ | recordSkipped _ _ | recordUnnamed _ => .sections
  | itemDropped _ _ _ _ | contentNotText _ _ _ => .sections
  | bibliographyNotArray _ | sourceSkipped _ => .sources
  | contentsMissing _ _ | contentsDerived _ _ | bibliographyEmpty _ => .folder
  | citationUnresolved _ _ _ | referenceUnresolved _ _ _ => .document

def place (f : Finding) : Origin × String := (f.origin, f.location.file)

theorem diagnostic_eq (f : Finding) : f.diagnostic = {
    severity := .warning
    title := f.code.title
    code := some f.code.text
    problem := some (.markdown f.problem)
    details := (f.detail?.map fun t => ⟨.error, .markdown t⟩).toList
    hints := (f.hint?.map Message.markdown).toList
    location := some f.location } := by
  unfold diagnostic
  rw [label_eq]
  cases f.detail? <;> cases f.hint? <;> rfl

def tellsNotJson (path : String) : Finding → Bool
  | notJson .sectionRecord p _ _ => p == path
  | _ => false

theorem not_tellsNotJson {f : Finding} {path : String} (h : f.origin ≠ .bytes .sectionRecord) :
    f.tellsNotJson path = false := by
  cases f with
  | notJson record =>
    cases record with
    | sectionRecord => exact absurd rfl h
    | _ => rfl
  | _ => rfl

def notJsonProblem (path : String) : String := "`" ++ path ++ "` is not valid JSON"

variable {path path' text : String}

theorem notJsonProblem_inj : notJsonProblem path = notJsonProblem path' ↔ path = path' := by
  constructor
  · intro h
    apply String.toList_inj.mp
    simpa [notJsonProblem] using congrArg String.toList h
  · rintro rfl
    rfl

theorem ne_notJsonProblem (h : text.toList.head? ≠ some '`') : text ≠ notJsonProblem path := by
  rintro rfl
  simp [notJsonProblem] at h

theorem problem_notJson (record : RecordFile) (p : String) (e : Json.SyntaxError)
    (file : String) : problem (.notJson record p e file) = notJsonProblem p := by
  delta problem notJsonProblem
  rfl

theorem tellsNotJson_iff (path : String) (f : Finding) : f.tellsNotJson path = true ↔
    f.diagnostic.code = some "P-2-2" ∧
      f.diagnostic.problem = some (.markdown (notJsonProblem path)) := by
  rw [diagnostic_eq]
  cases f
  case notJson record p e file =>
    cases record <;> simp [tellsNotJson, code, RecordFile.code, Code.text, problem_notJson,
      notJsonProblem_inj]
  -- the other findings of the same code
  case fileNotRecord | recordSkipped | recordUnnamed =>
    refine iff_of_false Bool.false_ne_true ?_
    rintro ⟨-, h⟩
    refine ne_notJsonProblem ?_ (Message.markdown.inj (Option.some.inj h))
    delta problem
    simp
  all_goals simp [tellsNotJson, code, Code.text]

end Finding
end Manuscript
