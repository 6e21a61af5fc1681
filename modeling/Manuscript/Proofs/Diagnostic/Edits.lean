import Mathlib.Data.List.Induction
import Mathlib.Data.List.Perm.Subperm
import Manuscript.Diagnostic.Render

/-! The text of a diagnostic, line by line, from the edits that made it. Of the edits of a single field the
last one counts, of those of a list all count in their order, and edits of different fields may change
places. Main statement: if no line feed stands in the title or in a string of an edit, the text comes apart
at its line feeds into the lines that title and edits write. -/
namespace Manuscript.Diagnostic

inductive Field
  | code
  | problem
  | details
  | hints
  | location
  deriving DecidableEq, Repr

def IsLine (s : String) : Prop := '\n' ∉ s.toList

instance (s : String) : Decidable (IsLine s) := inferInstanceAs (Decidable ('\n' ∉ s.toList))

namespace Edit

def field : Edit → Field
  | .code _ => .code
  | .problem _ => .problem
  | .detail _ | .info _ | .note _ => .details
  | .hint _ => .hints
  | .location _ => .location

def strings : Edit → List String
  | .code text => [text]
  | .problem m | .detail m | .info m | .note m | .hint m => [m.text]
  | .location l => l.file :: l.sectionId.toList

def code? : Edit → Option String
  | .code text => some text
  | _ => none

def problem? : Edit → Option Message
  | .problem m => some m
  | _ => none

def detail? : Edit → Option Detail
  | .detail m => some ⟨.error, m⟩
  | .info m => some ⟨.info, m⟩
  | .note m => some ⟨.note, m⟩
  | _ => none

def hint? : Edit → Option Message
  | .hint m => some m
  | _ => none

def location? : Edit → Option Location
  | .location l => some l
  | _ => none

def bulletLine? : Edit → Option String
  | .detail m => some ("✖ " ++ m.text)
  | .info m => some ("ℹ " ++ m.text)
  | .note m => some ("• " ++ m.text)
  | _ => none

def hintLine? : Edit → Option String
  | .hint m => some ("? " ++ m.text)
  | _ => none

def addedLine? (e : Edit) : Option String := e.bulletLine?.or e.hintLine?

/-- What the last of the edits of a single field sets it to. -/
def last? {α : Type} (part : Edit → Option α) (edits : List Edit) : Option α :=
  (edits.filterMap part).getLast?

end Edit

def placeLine (number : UInt64 → Nat) (l : Location) : String :=
  "  at " ++ l.file ++ l.sectionId.elim "" ("#" ++ ·) ++
    l.block.elim "" fun n => " (block " ++ toString (number n) ++ ")"

def fromOne (n : UInt64) : Nat := n.toNat + 1

/-- The same number in a machine word, where the greatest block has the number zero. -/
def fromOneInWord (n : UInt64) : Nat := fromOne n % UInt64.size

def headerLine (severity : Severity) (code : Option String) (title : String) : String :=
  severity.label ++ code.elim "" (fun c => " [" ++ c ++ "]") ++ ": " ++ title

/-- The lines that a title and edits write, for a way to number blocks: those of single fields by the last
edit of the field, the others by every edit that adds one. -/
def writtenLines (number : UInt64 → Nat) (severity : Severity) (title : String) (edits : List Edit) :
    List String :=
  [headerLine severity (Edit.last? Edit.code? edits) title] ++
    ((Edit.last? Edit.location? edits).map (placeLine number)).toList ++
    ((Edit.last? Edit.problem? edits).map Message.text).toList ++
    edits.filterMap Edit.bulletLine? ++ edits.filterMap Edit.hintLine?

variable {severity : Severity} {title : String} {edits : List Edit} {α : Type}
variable {number : UInt64 → Nat} {l : Location}

@[simp] theorem Edit.last?_nil (part : Edit → Option α) : last? part [] = none := rfl

@[simp] theorem Edit.last?_concat (part : Edit → Option α) (edits : List Edit) (e : Edit) :
    last? part (edits ++ [e]) = (part e).or (last? part edits) := by
  cases h : part e <;> simp [last?, List.filterMap_append, h]

theorem Edit.exists_of_last? {part : Edit → Option α} {x : α} (h : last? part edits = some x) :
    ∃ e ∈ edits, part e = some x :=
  List.mem_filterMap.mp (List.mem_of_getLast? h)

/-! Diagnostics by their edits. -/

theorem build_concat (severity : Severity) (title : String) (edits : List Edit) (e : Edit) :
    build severity title (edits ++ [e]) = (build severity title edits).edit e :=
  List.foldl_append ..

theorem build_eq (severity : Severity) (title : String) (edits : List Edit) :
    build severity title edits =
      { severity, title
        code := Edit.last? Edit.code? edits
        problem := Edit.last? Edit.problem? edits
        details := edits.filterMap Edit.detail?
        hints := edits.filterMap Edit.hint?
        location := Edit.last? Edit.location? edits } := by
  induction edits using List.reverseRecOn with
  | nil => rfl
  | append_singleton edits e ih =>
    rw [build_concat, ih]
    cases e <;> simp [edit, addDetail, List.filterMap_append, Edit.code?, Edit.problem?,
      Edit.detail?, Edit.hint?, Edit.location?]

theorem edit_comm (d : Diagnostic) {a b : Edit} (h : a.field ≠ b.field) :
    (d.edit a).edit b = (d.edit b).edit a := by
  cases a <;> cases b <;> simp_all [Edit.field, edit, addDetail]

theorem header_eq (d : Diagnostic) : d.header = headerLine d.severity d.code d.title := by
  rw [header, headerLine]
  cases d.code <;> simp [String.append_assoc]

theorem at_text_eq (l : Location) : "  at " ++ l.text = placeLine fromOneInWord l := by
  rw [Location.text, placeLine]
  cases l.sectionId <;> cases l.block <;>
    simp [String.append_assoc, Text.decimal_eq_toString, fromOneInWord, fromOne]

theorem map_filterMap_part {part : Edit → Option α} {line : α → String}
    {line? : Edit → Option String} (h : ∀ e, (part e).map line = line? e) (edits : List Edit) :
    (edits.filterMap part).map line = edits.filterMap line? := by
  rw [List.map_filterMap, funext h]

theorem lines_build (severity : Severity) (title : String) (edits : List Edit) :
    (build severity title edits).lines = writtenLines fromOneInWord severity title edits := by
  have hbullets : (edits.filterMap Edit.detail?).map
      (fun i => i.kind.bullet ++ " " ++ i.content.text) = edits.filterMap Edit.bulletLine? :=
    map_filterMap_part (fun e => by cases e <;> rfl) edits
  have hhints : (edits.filterMap Edit.hint?).map (fun h => "? " ++ h.text) =
      edits.filterMap Edit.hintLine? :=
    map_filterMap_part (fun e => by cases e <;> rfl) edits
  rw [build_eq, lines, writtenLines, header_eq, hbullets, hhints]
  simp only [at_text_eq]

/-! Lines. -/

@[simp] theorem isLine_append {a b : String} : IsLine (a ++ b) ↔ IsLine a ∧ IsLine b := by
  simp [IsLine]

theorem isLine_label (severity : Severity) : IsLine severity.label := by
  cases severity <;> decide

theorem isLine_toString (n : Nat) : IsLine (toString n) := by
  rw [IsLine, ← Text.decimal_eq_toString, Text.decimal, String.toList_ofList]
  intro h
  exact absurd (List.all_eq_true.mp (Text.all_isDigit_digits n) _ h) (by decide)

theorem text_split (d : Diagnostic) (h : ∀ line ∈ d.lines, IsLine line) :
    (d.text.split '\n').toList.map String.Slice.copy = d.lines := by
  have hne : d.lines ≠ [] := by simp [lines]
  have hfeed : "\n" = String.singleton '\n' := rfl
  rw [text, hfeed, String.toList_split_intercalate h, if_neg hne]

theorem isLine_headerLine {code : Option String} (hcode : ∀ c ∈ code, IsLine c)
    (htitle : IsLine title) : IsLine (headerLine severity code title) := by
  have hlabel := isLine_label severity
  have hmarks : IsLine " [" ∧ IsLine "]" ∧ IsLine ": " ∧ IsLine "" := by decide
  cases code with
  | none => simp [headerLine, hlabel, hmarks, htitle]
  | some c => simp [headerLine, hlabel, hmarks, htitle, hcode c rfl]

theorem isLine_placeLine (h : ∀ s ∈ l.file :: l.sectionId.toList, IsLine s) :
    IsLine (placeLine number l) := by
  have hmarks : IsLine "  at " ∧ IsLine "#" ∧ IsLine " (block " ∧ IsLine ")" ∧ IsLine "" := by
    decide
  obtain ⟨hat, hhash, hopen, hclose, hempty⟩ := hmarks
  have hsection : IsLine (l.sectionId.elim "" ("#" ++ ·)) := by
    cases hid : l.sectionId with
    | none => exact hempty
    | some id => exact isLine_append.mpr ⟨hhash, h id (by simp [hid])⟩
  have hblock : IsLine (l.block.elim "" fun n => " (block " ++ toString (number n) ++ ")") := by
    cases l.block with
    | none => exact hempty
    | some n => exact isLine_append.mpr ⟨isLine_append.mpr ⟨hopen, isLine_toString _⟩, hclose⟩
  simp only [placeLine, isLine_append]
  exact ⟨⟨⟨hat, h _ List.mem_cons_self⟩, hsection⟩, hblock⟩

theorem isLine_of_bulletLine? {e : Edit} {line : String} (he : ∀ s ∈ e.strings, IsLine s)
    (h : e.bulletLine? = some line) : IsLine line := by
  have hmarks : IsLine "✖ " ∧ IsLine "ℹ " ∧ IsLine "• " := by decide
  cases e with
  | detail m | info m | note m =>
    cases h
    exact isLine_append.mpr ⟨by simp [hmarks], he _ List.mem_cons_self⟩
  | _ => cases h

theorem isLine_of_hintLine? {e : Edit} {line : String} (he : ∀ s ∈ e.strings, IsLine s)
    (h : e.hintLine? = some line) : IsLine line := by
  cases e with
  | hint m =>
    cases h
    exact isLine_append.mpr ⟨by decide, he _ List.mem_cons_self⟩
  | _ => cases h

theorem isLine_of_mem_writtenLines (htitle : IsLine title)
    (hedits : ∀ e ∈ edits, ∀ s ∈ e.strings, IsLine s) :
    ∀ line ∈ writtenLines number severity title edits, IsLine line := by
  intro line h
  simp only [writtenLines, List.mem_append, List.mem_singleton, Option.mem_toList,
    Option.map_eq_some_iff, List.mem_filterMap] at h
  rcases h with (((rfl | ⟨l, hl, rfl⟩) | ⟨m, hm, rfl⟩) | ⟨e, he, hline⟩) | ⟨e, he, hline⟩
  · refine isLine_headerLine (fun c hc => ?_) htitle
    obtain ⟨e, he, hpart⟩ := Edit.exists_of_last? hc
    cases e <;> cases hpart
    exact hedits _ he c List.mem_cons_self
  · obtain ⟨e, he, hpart⟩ := Edit.exists_of_last? hl
    cases e <;> cases hpart
    exact isLine_placeLine (hedits _ he)
  · obtain ⟨e, he, hpart⟩ := Edit.exists_of_last? hm
    cases e <;> cases hpart
    exact hedits _ he _ List.mem_cons_self
  · exact isLine_of_bulletLine? (hedits e he) hline
  · exact isLine_of_hintLine? (hedits e he) hline

theorem perm_addedLines (edits : List Edit) : (edits.filterMap Edit.addedLine?).Perm
    (edits.filterMap Edit.bulletLine? ++ edits.filterMap Edit.hintLine?) := by
  induction edits with
  | nil => exact .refl _
  | cons e edits ih =>
    cases e with
    | hint m =>
      -- its line goes behind all bullets, also those of later edits
      exact (ih.cons _).trans List.perm_middle.symm
    | detail m | info m | note m => exact ih.cons _
    | code text | problem m | location l => exact ih

/-! Numbers. Only the greatest block has another number in a word. -/

theorem fromOneInWord_eq_iff {n : UInt64} :
    fromOneInWord n = fromOne n ↔ fromOne n < UInt64.size :=
  Nat.mod_eq_iff_lt (by decide)

theorem placeLine_eq_iff (l : Location) : placeLine fromOneInWord l = placeLine fromOne l ↔
    ∀ n ∈ l.block, fromOne n < UInt64.size := by
  cases hblock : l.block with
  | none => simp [placeLine, hblock]
  | some n =>
    have hblocks : (∀ m ∈ some n, fromOne m < UInt64.size) ↔ fromOneInWord n = fromOne n := by
      rw [fromOneInWord_eq_iff]
      simp
    have hline : placeLine fromOneInWord l = placeLine fromOne l ↔
        Text.decimal (fromOneInWord n) = Text.decimal (fromOne n) := by
      simp [placeLine, hblock, Text.decimal_eq_toString]
    rw [hblocks, hline]
    exact ⟨Text.decimal_injective, congrArg Text.decimal⟩

/-- The line for the place is the second one, so nothing makes up for a number that is wrong. -/
theorem writtenLines_eq_iff (severity : Severity) (title : String) (edits : List Edit) :
    writtenLines fromOneInWord severity title edits = writtenLines fromOne severity title edits ↔
      ∀ l ∈ Edit.last? Edit.location? edits, ∀ n ∈ l.block, fromOne n < UInt64.size := by
  cases hlast : Edit.last? Edit.location? edits with
  | none => simp [writtenLines, hlast]
  | some l => simp [writtenLines, hlast, placeLine_eq_iff]

end Manuscript.Diagnostic
