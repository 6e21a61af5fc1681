import Manuscript.Diagnostic.Basic
import Manuscript.Json.Basic

/-! Diagnostics as text, as a JSON message that leaves unset parts out, and as a JSON record. -/
namespace Manuscript

def Severity.label : Severity → String
  | error => "Error"
  | warning => "Warning"
  | info => "Info"
  | note => "Note"

def Severity.name : Severity → String
  | error => "error"
  | warning => "warning"
  | info => "info"
  | note => "note"

def Detail.Kind.bullet : Detail.Kind → String
  | error => "✖"
  | info => "ℹ"
  | note => "•"

def Detail.Kind.name : Detail.Kind → String
  | error => "error"
  | info => "info"
  | note => "note"

/-- Blocks are counted from one where people read them. The number is a word again, so the one after
the greatest is zero. -/
def Location.text (l : Location) : String :=
  l.file ++ (match l.sectionId with
    | some s => "#" ++ s
    | none => "") ++ (match l.block with
    | some n => " (block " ++ Text.decimal (n + 1).toNat ++ ")"
    | none => "")

def Location.toJson (l : Location) : Json := Json.ofFields <|
  [("file", .string l.file)] ++ (l.sectionId.map fun s => ("section", Json.string s)).toList ++
    (l.block.map fun n => ("block", Json.ofNat n.toNat)).toList

def Message.toJson : Message → Json
  | plain t => Json.ofFields [("type", .string "plain"), ("content", .string t)]
  | markdown t => Json.ofFields [("type", .string "markdown"), ("content", .string t)]

def Message.record : Message → Json
  | plain t => .object [("Plain", .string t)]
  | markdown t => .object [("Markdown", .string t)]

def Detail.toJson (d : Detail) : Json :=
  Json.ofFields [("kind", .string d.kind.name), ("content", d.content.toJson)]

def Detail.record (d : Detail) : Json :=
  .object [("kind", .string d.kind.name), ("content", d.content.record)]

namespace Diagnostic

def header (d : Diagnostic) : String :=
  match d.code with
  | some code => d.severity.label ++ " [" ++ code ++ "]: " ++ d.title
  | none => d.severity.label ++ ": " ++ d.title

def lines (d : Diagnostic) : List String :=
  [d.header] ++ (d.location.map fun l => "  at " ++ l.text).toList ++
    (d.problem.map Message.text).toList ++
    d.details.map (fun i => i.kind.bullet ++ " " ++ i.content.text) ++
    d.hints.map (fun h => "? " ++ h.text)

def text (d : Diagnostic) : String := String.intercalate "\n" d.lines

def listField (name : String) : List Json → List (String × Json)
  | [] => []
  | items => [(name, .array items)]

def toJson (d : Diagnostic) : Json := Json.ofFields <|
  [("kind", .string d.severity.name), ("title", .string d.title)] ++
    (d.code.map fun c => ("code", Json.string c)).toList ++
    (d.problem.map fun m => ("problem", m.toJson)).toList ++
    listField "details" (d.details.map Detail.toJson) ++
    listField "hints" (d.hints.map Message.toJson) ++
    (d.location.map fun l => ("location", l.toJson)).toList

def record (d : Diagnostic) : Json := .object <|
  (d.code.map fun c => ("code", Json.string c)).toList ++
    [("title", .string d.title), ("kind", .string d.severity.name),
      ("problem", Json.ofOption Message.record d.problem),
      ("details", .array (d.details.map Detail.record)),
      ("hints", .array (d.hints.map Message.record))] ++
    (d.location.map fun l => ("location", l.toJson)).toList

end Diagnostic
end Manuscript
