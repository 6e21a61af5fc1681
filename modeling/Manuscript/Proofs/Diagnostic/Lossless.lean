import Manuscript.Diagnostic.Render
import Manuscript.Proofs.Json

/-! Diagnostics read back from their JSON. A part that is unset, or a list that is empty, is left out,
and a part that is there never looks like one that is left out, so each reader undoes its writer and
different diagnostics have different JSON. -/
namespace Manuscript

def Severity.ofName? : String → Option Severity
  | "error" => some error
  | "warning" => some warning
  | "info" => some info
  | "note" => some note
  | _ => none

def Detail.Kind.ofName? : String → Option Detail.Kind
  | "error" => some error
  | "info" => some info
  | "note" => some note
  | _ => none

def Message.ofJson? (v : Json) : Option Message := do
  let text ← (← v.field? "content").text?
  match ← (← v.field? "type").text? with
  | "plain" => some (.plain text)
  | "markdown" => some (.markdown text)
  | _ => none

def Detail.ofJson? (v : Json) : Option Detail := do
  let kind ← Detail.Kind.ofName? (← (← v.field? "kind").text?)
  let content ← Message.ofJson? (← v.field? "content")
  some ⟨kind, content⟩

def Location.ofJson? (v : Json) : Option Location := do
  let file ← (← v.field? "file").text?
  let sectionId ← (v.field? "section").mapM Json.text?
  let block ← (v.field? "block").mapM fun v => v.nat?.map UInt64.ofNat
  some ⟨file, sectionId, block⟩

def Diagnostic.listOf? (read : Json → Option α) : Option Json → Option (List α)
  | none => some []
  | some v => do (← v.items?).mapM read

def Diagnostic.ofJson? (v : Json) : Option Diagnostic := do
  let severity ← Severity.ofName? (← (← v.field? "kind").text?)
  let title ← (← v.field? "title").text?
  let code ← (v.field? "code").mapM Json.text?
  let problem ← (v.field? "problem").mapM Message.ofJson?
  let details ← listOf? Detail.ofJson? (v.field? "details")
  let hints ← listOf? Message.ofJson? (v.field? "hints")
  let location ← (v.field? "location").mapM Location.ofJson?
  some ⟨severity, title, code, problem, details, hints, location⟩

/-! Each reader undoes its writer, and so it does with parts that may be unset and with lists. -/

variable {α : Type} {encode : α → Json} {read : Json → Option α}

theorem mapM_map_of_undoes (h : ∀ a, read (encode a) = some a) (part : Option α) :
    (part.map encode).mapM read = some part := by
  cases part with
  | none => rfl
  | some a => simp [h]

@[simp] theorem Severity.ofName?_name (s : Severity) : ofName? s.name = some s := by
  cases s <;> rfl

@[simp] theorem Detail.Kind.ofName?_name (k : Detail.Kind) : ofName? k.name = some k := by
  cases k <;> rfl

theorem Message.ofJson?_toJson (m : Message) : ofJson? m.toJson = some m := by
  cases m <;> simp [ofJson?, toJson]

theorem Detail.ofJson?_toJson (d : Detail) : ofJson? d.toJson = some d := by
  simp [ofJson?, toJson, Message.ofJson?_toJson]

theorem Location.ofJson?_toJson (l : Location) : ofJson? l.toJson = some l := by
  have hblock : (l.block.map fun n => Json.ofNat n.toNat).mapM (fun v => v.nat?.map UInt64.ofNat) =
      some l.block := mapM_map_of_undoes (by simp) l.block
  simp [ofJson?, toJson, mapM_map_of_undoes Json.text?_string, hblock]

namespace Diagnostic

theorem listOf?_listField (h : ∀ a, read (encode a) = some a) (name : String) (items : List α) :
    listOf? read ((Json.ofFields (listField name (items.map encode))).field? name) =
      some items := by
  have hitems : (items.map encode).mapM read = some items := by
    induction items with
    | nil => rfl
    | cons a items ih => simp [h, ih]
  cases items with
  | nil => rfl
  | cons a items => simpa [listField, listOf?, Json.items?] using hitems

@[simp] theorem field?_listField_of_ne {name key : String} (h : key ≠ name) (items : List Json) :
    (Json.ofFields (listField key items)).field? name = none := by
  cases items <;> simp [listField, h]

theorem ofJson?_toJson (d : Diagnostic) : ofJson? d.toJson = some d := by
  have hkind : d.toJson.field? "kind" = some (.string d.severity.name) := by simp [toJson]
  have htitle : d.toJson.field? "title" = some (.string d.title) := by simp [toJson]
  have hcode : d.toJson.field? "code" = d.code.map .string := by simp [toJson]
  have hproblem : d.toJson.field? "problem" = d.problem.map Message.toJson := by simp [toJson]
  have hdetails : listOf? Detail.ofJson? (d.toJson.field? "details") = some d.details := by
    simp [toJson, listOf?_listField Detail.ofJson?_toJson]
  have hhints : listOf? Message.ofJson? (d.toJson.field? "hints") = some d.hints := by
    simp [toJson, listOf?_listField Message.ofJson?_toJson]
  have hlocation : d.toJson.field? "location" = d.location.map Location.toJson := by simp [toJson]
  simp [ofJson?, hkind, htitle, hcode, hproblem, hdetails, hhints, hlocation,
    mapM_map_of_undoes Json.text?_string, mapM_map_of_undoes Message.ofJson?_toJson,
    mapM_map_of_undoes Location.ofJson?_toJson]

/-- The JSON of a diagnostic has all of it: it can be read back, and no other diagnostic has the same. -/
theorem toJson_lossless : (∀ d : Diagnostic, ofJson? d.toJson = some d) ∧
    ∀ d d' : Diagnostic, d.toJson = d'.toJson ↔ d = d' := by
  refine ⟨ofJson?_toJson, fun d d' => ⟨fun h => ?_, congrArg toJson⟩⟩
  apply Option.some.inj
  rw [← ofJson?_toJson d, h, ofJson?_toJson]

end Diagnostic
end Manuscript
