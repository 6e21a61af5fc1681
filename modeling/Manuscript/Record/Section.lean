import Manuscript.Document.Basic
import Manuscript.Finding
import Manuscript.Heading.Slug

/-! Section records: a title, an id, a level, content and subsections. A content file holds one
record or an array of them; each text of a record's content becomes a block, and subsections follow
their parent. -/
namespace Manuscript.Record

inductive SectionContent
  | one (text : String)
  | many (items : List Json)
  | other (v : Json)

structure SectionRecord where
  title : String
  id : Option String
  level : Option Level
  content : Option SectionContent
  subsections : List Json

structure SectionRecord.Draft where
  title : Option String := none
  id : Option (Option String) := none
  level : Option (Option Level) := none
  content : Option (Option SectionContent) := none
  subsections : Option (List Json) := none

def asContent : Json → Shaped SectionContent
  | .string s => .ok (.one s)
  | .array items => .ok (.many items)
  | v => .ok (.other v)

namespace SectionRecord

def Draft.set (d : Draft) (field : String × Json) : Shaped Draft :=
  match field.1 with
  | "title" => (once "title" d.title (asText field.2)).map fun title => { d with title }
  | "id" => (once "id" d.id (optional asText field.2)).map fun id => { d with id }
  | "level" =>
    (once "level" d.level (optional asLevel field.2)).map fun level => { d with level }
  | "content" =>
    (once "content" d.content (optional asContent field.2)).map fun content => { d with content }
  | "subsections" =>
    (once "subsections" d.subsections (asList field.2)).map fun subsections =>
      { d with subsections }
  | _ => .ok d

def Draft.setAll (d : Draft) : List (String × Json) → Shaped Draft
  | [] => .ok d
  | field :: rest =>
    match d.set field with
    | .error fault => .error fault
    | .ok d => d.setAll rest

def Draft.finish (d : Draft) : SectionRecord :=
  ⟨d.title.getD "", d.id.getD none, d.level.getD none, d.content.getD none,
    d.subsections.getD []⟩

def ofItems (items : List Json) : Shaped SectionRecord := do
  let (title, rest) ← nextOr (.ok "") asText items
  let (id, rest) ← nextOr (.ok none) (optional asText) rest
  let (level, rest) ← nextOr (.ok none) (optional asLevel) rest
  let (content, rest) ← nextOr (.ok none) (optional asContent) rest
  let (subsections, rest) ← nextOr (.ok []) asList rest
  noMore items.length rest
  pure ⟨title, id, level, content, subsections⟩

def ofJson : Json → Shaped SectionRecord
  | .object fields => (Draft.setAll {} fields).map Draft.finish
  | .array items => ofItems items
  | v => .error (.wrongType v (.record .sectionRecord))

/-! The subsections of a record are part of it. -/

theorem sizeOf_asList {v : Json} {l : List Json} (h : asList v = .ok l) :
    sizeOf l < sizeOf v := by
  cases v <;> simp only [asList, Except.ok.injEq, reduceCtorEq] at h
  subst h
  simp

theorem Draft.subsections_set {d e : Draft} {field : String × Json} {l : List Json}
    (h : d.set field = .ok e) (hl : e.subsections = some l) :
    d.subsections = some l ∨ sizeOf l < sizeOf field.2 := by
  unfold set at h
  split at h
  case h_5 =>
    obtain ⟨s, hs, rfl⟩ := Json.exists_of_map_eq_ok h
    dsimp only at hl
    unfold once at hs
    split at hs
    · cases hs
    · obtain ⟨t, ht, rfl⟩ := Json.exists_of_map_eq_ok hs
      cases hl
      exact .inr (sizeOf_asList ht)
  case h_6 =>
    cases h
    exact .inl hl
  all_goals
    obtain ⟨s, _, rfl⟩ := Json.exists_of_map_eq_ok h
    exact .inl hl

theorem Draft.subsections_setAll {fields : List (String × Json)} {d e : Draft} {l : List Json}
    (h : d.setAll fields = .ok e) (hl : e.subsections = some l) :
    d.subsections = some l ∨ sizeOf l < sizeOf fields := by
  induction fields generalizing d with
  | nil =>
    cases h
    exact .inl hl
  | cons field rest ih =>
    unfold setAll at h
    split at h
    · cases h
    · rename_i d' hd
      obtain ⟨name, v⟩ := field
      rcases ih h with h' | h'
      · rcases subsections_set hd h' with h'' | h''
        · exact .inl h''
        · refine .inr ?_
          simp only [List.cons.sizeOf_spec, Prod.mk.sizeOf_spec]
          dsimp only at h''
          omega
      · refine .inr ?_
        simp only [List.cons.sizeOf_spec]
        omega

theorem sizeOf_nextOr {read : Json → Shaped α} {missing : Shaped α} {items rest : List Json}
    {a : α} (h : nextOr missing read items = .ok (a, rest)) : sizeOf rest ≤ sizeOf items := by
  cases items with
  | nil =>
    obtain ⟨b, _, hb⟩ := Json.exists_of_map_eq_ok h
    cases hb
    exact Nat.le_refl _
  | cons v items =>
    obtain ⟨b, _, hb⟩ := Json.exists_of_map_eq_ok h
    cases hb
    simp only [List.cons.sizeOf_spec]
    omega

theorem bind_eq_ok {e : Except ε α} {f : α → Except ε β} {b : β} (h : (e >>= f) = .ok b) :
    ∃ a, e = .ok a ∧ f a = .ok b := by
  cases e with
  | error => cases h
  | ok a => exact ⟨a, rfl, h⟩

theorem sizeOf_subsections_ofItems {items : List Json} {r : SectionRecord}
    (h : ofItems items = .ok r) : sizeOf r.subsections ≤ sizeOf items := by
  unfold ofItems at h
  obtain ⟨⟨title, i1⟩, h1, h⟩ := bind_eq_ok h
  obtain ⟨⟨id, i2⟩, h2, h⟩ := bind_eq_ok h
  obtain ⟨⟨level, i3⟩, h3, h⟩ := bind_eq_ok h
  obtain ⟨⟨content, i4⟩, h4, h⟩ := bind_eq_ok h
  obtain ⟨⟨subsections, i5⟩, h5, h⟩ := bind_eq_ok h
  obtain ⟨_, _, h⟩ := bind_eq_ok h
  cases h
  have := sizeOf_nextOr h1
  have := sizeOf_nextOr h2
  have := sizeOf_nextOr h3
  have := sizeOf_nextOr h4
  dsimp only
  cases i4 with
  | nil =>
    cases h5
    omega
  | cons v i4 =>
    obtain ⟨l, hl, he⟩ := Json.exists_of_map_eq_ok h5
    cases he
    have := sizeOf_asList hl
    simp only [List.cons.sizeOf_spec] at *
    omega

theorem sizeOf_subsections {v : Json} {r : SectionRecord} (h : ofJson v = .ok r) :
    sizeOf r.subsections < sizeOf v := by
  cases v with
  | object fields =>
    obtain ⟨d, hd, rfl⟩ := Json.exists_of_map_eq_ok h
    simp only [Draft.finish, Json.object.sizeOf_spec]
    cases hl : d.subsections with
    | none =>
      simp only [Option.getD_none, List.nil.sizeOf_spec]
      cases fields with
      | nil => decide
      | cons f rest =>
        rw [List.cons.sizeOf_spec]
        omega
    | some l =>
      rcases Draft.subsections_setAll hd hl with h' | h'
      · cases h'
      · simp only [Option.getD_some]
        omega
  | array items =>
    have := sizeOf_subsections_ofItems h
    simp only [Json.array.sizeOf_spec]
    omega
  | _ => cases h

def name (r : SectionRecord) : String :=
  match r.id with
  | some s => if Text.allBlank s.toList then Slug.slugify r.title else Text.strip s
  | none => Slug.slugify r.title

/-- The level as written, or the depth of nesting counted from one. -/
def levelAt (r : SectionRecord) (depth : Nat) : String :=
  match r.level with
  | some level => level.shown
  | none => Text.decimal (depth + 1)

end SectionRecord

def textItems (file sectionId : String) (index : Nat) : List Json → List String × List Finding
  | [] => ([], [])
  | v :: rest =>
    let (texts, findings) := textItems file sectionId (index + 1) rest
    match v with
    | .string s => (s :: texts, findings)
    | v => (texts, .itemDropped file sectionId index v.kind :: findings)

def contentTexts (file sectionId : String) :
    Option SectionContent → List String × List Finding
  | none => ([], [])
  | some (.one text) => ([text], [])
  | some (.many items) => textItems file sectionId 0 items
  | some (.other v) => ([], [.contentNotText file sectionId v.kind])

mutual

/-- The blocks of a record and of its subsections. A record that cannot be read, or that has no name,
is left out with all that is in it. -/
def readRecord (file : String) (depth : Nat) (v : Json) : List (Block String) × List Finding :=
  match _h : SectionRecord.ofJson v with
  | .error fault => ([], [.recordSkipped file fault])
  | .ok r =>
    if r.name.isEmpty then ([], [.recordUnnamed file])
    else
      let (texts, findings) := contentTexts file r.name r.content
      let (blocks, more) := readRecords file (depth + 1) r.subsections
      (texts.map (fun t => ⟨r.name, r.title, r.levelAt depth, t⟩) ++ blocks, findings ++ more)
termination_by sizeOf v
decreasing_by exact SectionRecord.sizeOf_subsections _h

def readRecords (file : String) (depth : Nat) :
    List Json → List (Block String) × List Finding
  | [] => ([], [])
  | v :: rest =>
    let (blocks, findings) := readRecord file depth v
    let (more, others) := readRecords file depth rest
    (blocks ++ more, findings ++ others)
termination_by l => sizeOf l

end

def loadSection (file : String) : Json → Loaded (List (Block String))
  | .object fields =>
    let (blocks, findings) := readRecord file 0 (.object fields)
    ⟨blocks, findings⟩
  | .array records =>
    let (blocks, findings) := readRecords file 0 records
    ⟨blocks, findings⟩
  | v => ⟨[], [.fileNotRecord file v.kind]⟩

end Manuscript.Record
