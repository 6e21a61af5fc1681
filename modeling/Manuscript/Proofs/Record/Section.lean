import Manuscript.Proofs.Heading.Slug
import Manuscript.Record.Section

/-! What a section file gives. Its records are walked from the top, each before its subsections and
these before what follows it, and a record that cannot be used is passed over with all that is in it.
Blocks and findings come from the records of the walk one by one, so the blocks stand in the order of
the walk and every loss on it is counted once. -/
namespace Manuscript.Record

def accepted? (v : Json) : Option SectionRecord :=
  match SectionRecord.ofJson v with
  | .ok r => if r.name = "" then none else some r
  | .error _ => none

inductive Visit
  | record (depth : Nat) (r : SectionRecord)
  | rejected (v : Json)

variable {v w : Json} {r : SectionRecord} {file : String} {depth : Nat}

theorem accepted?_eq_some_iff : accepted? v = some r ↔
    SectionRecord.ofJson v = .ok r ∧ r.name ≠ "" := by
  unfold accepted?
  cases SectionRecord.ofJson v with
  | error fault => simp
  | ok r' =>
    simp only [Except.ok.injEq]
    split
    · next hname =>
      constructor
      · intro h
        cases h
      · rintro ⟨rfl, h⟩
        exact absurd hname h
    · next hname =>
      constructor
      · intro h
        cases h
        exact ⟨rfl, hname⟩
      · rintro ⟨rfl, -⟩
        rfl

/-- The walk through values that lie side by side, at some depth. -/
def walk (depth : Nat) : List Json → List Visit
  | [] => []
  | v :: rest =>
    match _h : accepted? v with
    | some r => .record depth r :: (walk (depth + 1) r.subsections ++ walk depth rest)
    | none => .rejected v :: walk depth rest
termination_by l => sizeOf l
decreasing_by
  · have := SectionRecord.sizeOf_subsections (accepted?_eq_some_iff.mp _h).1
    simp only [List.cons.sizeOf_spec]
    omega
  · simp only [List.cons.sizeOf_spec]
    omega
  · simp only [List.cons.sizeOf_spec]
    omega

theorem walk_cons_of_accepted (h : accepted? v = some r) (rest : List Json) :
    walk depth (v :: rest) =
      .record depth r :: (walk (depth + 1) r.subsections ++ walk depth rest) := by
  rw [walk]
  split
  · next r' hr =>
    rw [h] at hr
    cases hr
    rfl
  · next hnone =>
    rw [h] at hnone
    cases hnone

def topRecords : Json → List Json
  | .array records => records
  | .object fields => [.object fields]
  | _ => []

/-! What a record of the walk gives. -/

def SectionContent.texts : SectionContent → List String
  | one text => [text]
  | many items => items.filterMap Json.text?
  | other _ => []

def SectionContent.dropped : SectionContent → List Json
  | many items => items.filter fun v => v.text?.isNone
  | one _ | other _ => []

def SectionContent.isOther : SectionContent → Bool
  | other _ => true
  | one _ | many _ => false

namespace Visit

def blocks : Visit → List (Block String)
  | record depth r =>
    (r.content.elim [] SectionContent.texts).map fun t => ⟨r.name, r.title, r.levelAt depth, t⟩
  | rejected _ => []

def isRejected : Visit → Bool
  | rejected _ => true
  | record _ _ => false

def dropped : Visit → List Json
  | record _ r => r.content.elim [] SectionContent.dropped
  | rejected _ => []

def isMisshapen : Visit → Bool
  | record _ r => r.content.elim false SectionContent.isOther
  | rejected _ => false

def findings (file : String) : Visit → List Finding
  | record _ r => (contentTexts file r.name r.content).2
  | rejected v =>
    match SectionRecord.ofJson v with
    | .error fault => [.recordSkipped file fault]
    | .ok _ => [.recordUnnamed file]

end Visit

theorem textItems_fst (file sectionId : String) (index : Nat) (items : List Json) :
    (textItems file sectionId index items).1 = items.filterMap Json.text? := by
  induction items generalizing index with
  | nil => rfl
  | cons v items ih => cases v <;> simp [textItems, List.filterMap_cons, Json.text?, ih]

theorem length_textItems_snd (file sectionId : String) (index : Nat) (items : List Json) :
    (textItems file sectionId index items).2.length =
      (items.filter fun v => v.text?.isNone).length := by
  induction items generalizing index with
  | nil => rfl
  | cons v items ih => cases v <;> simp [textItems, Json.text?, ih]

theorem contentTexts_fst (file sectionId : String) (content : Option SectionContent) :
    (contentTexts file sectionId content).1 = content.elim [] SectionContent.texts := by
  cases content with
  | none => rfl
  | some c =>
    cases c with
    | one text => rfl
    | many items => exact textItems_fst file sectionId 0 items
    | other v => rfl

theorem length_findings (file : String) (visit : Visit) : (visit.findings file).length =
    visit.isRejected.toNat + visit.dropped.length + visit.isMisshapen.toNat := by
  cases visit with
  | rejected v =>
    simp only [Visit.findings]
    split <;> rfl
  | record depth r =>
    obtain ⟨title, id, level, content, subsections⟩ := r
    cases content with
    | none => rfl
    | some c =>
      cases c with
      | one text => rfl
      | many items =>
        refine (length_textItems_snd file _ 0 items).trans ?_
        simp [Visit.isRejected, Visit.dropped, Visit.isMisshapen, SectionContent.dropped,
          SectionContent.isOther]
      | other v => rfl

theorem length_flatMap_findings (file : String) (visits : List Visit) :
    (visits.flatMap (Visit.findings file)).length =
      visits.countP Visit.isRejected + (visits.flatMap Visit.dropped).length +
        visits.countP Visit.isMisshapen := by
  induction visits with
  | nil => rfl
  | cons visit visits ih =>
    rw [List.flatMap_cons, List.length_append, length_findings, ih, List.flatMap_cons,
      List.length_append, List.countP_cons, List.countP_cons]
    cases visit.isRejected <;> cases visit.isMisshapen <;> simp <;> omega

/-! Reading follows the walk. -/

theorem readRecord_of_accepted (file : String) (depth : Nat) (h : accepted? v = some r) :
    readRecord file depth v =
      ((Visit.record depth r).blocks ++ (readRecords file (depth + 1) r.subsections).1,
        (Visit.record depth r).findings file ++
          (readRecords file (depth + 1) r.subsections).2) := by
  obtain ⟨hr, hname⟩ := accepted?_eq_some_iff.mp h
  rw [readRecord]
  split
  · next fault hfault =>
    rw [hr] at hfault
    cases hfault
  · next r' hr' =>
    rw [hr] at hr'
    cases hr'
    simp [hname, Visit.blocks, Visit.findings, contentTexts_fst]

theorem readRecord_of_rejected (file : String) (depth : Nat) (h : accepted? v = none) :
    readRecord file depth v = ([], (Visit.rejected v).findings file) := by
  rw [readRecord, Visit.findings]
  split
  · next fault hfault => simp [hfault]
  · next r hr =>
    have hname : r.name = "" := by
      by_contra hne
      rw [accepted?_eq_some_iff.mpr ⟨hr, hne⟩] at h
      cases h
    simp [hr, hname]

theorem readRecords_eq (file : String) (depth : Nat) (records : List Json) :
    readRecords file depth records =
      ((walk depth records).flatMap Visit.blocks,
        (walk depth records).flatMap (Visit.findings file)) := by
  fun_induction walk depth records with
  | case1 => simp [readRecords]
  | case2 depth v rest r h ihSubsections ihRest =>
    rw [readRecords, readRecord_of_accepted file depth h]
    simp [ihSubsections, ihRest]
  | case3 depth v rest h ihRest =>
    rw [readRecords, readRecord_of_rejected file depth h]
    simp [ihRest, Visit.blocks]

theorem readRecords_singleton (file : String) (depth : Nat) (v : Json) :
    readRecords file depth [v] = readRecord file depth v := by
  simp [readRecords]

theorem loadSection_eq (file : String) (v : Json) (h : v.kind = .object ∨ v.kind = .array) :
    loadSection file v = ⟨(walk 0 (topRecords v)).flatMap Visit.blocks,
      (walk 0 (topRecords v)).flatMap (Visit.findings file)⟩ := by
  cases v with
  | object fields =>
    simp only [loadSection, topRecords, ← readRecords_singleton, readRecords_eq]
  | array records => simp only [loadSection, topRecords, readRecords_eq]
  | _ => simp [Json.kind] at h

theorem value_loadSection (file : String) (v : Json) :
    (loadSection file v).value = (walk 0 (topRecords v)).flatMap Visit.blocks := by
  cases v with
  | object fields => rw [loadSection_eq file _ (.inl rfl)]
  | array records => rw [loadSection_eq file _ (.inr rfl)]
  | _ => simp [loadSection, topRecords, walk]

/-! Content that is neither text nor a list. -/

theorem kind_of_optional_asContent (h : optional asContent v = .ok (some (.other w))) :
    w.kind ∈ [.boolean, .number, .object] := by
  cases v <;>
    simp only [optional, asContent, Except.map, Except.ok.injEq, Option.some.injEq,
      SectionContent.other.injEq, reduceCtorEq] at h <;>
    simp [← h, Json.kind]

namespace SectionRecord

def Draft.Fits (d : Draft) : Prop :=
  ∀ w, d.content = some (some (.other w)) → w.kind ∈ [.boolean, .number, .object]

theorem Draft.fits_set {d e : Draft} {field : String × Json} (hd : d.Fits)
    (h : d.set field = .ok e) : e.Fits := by
  intro w hw
  unfold set at h
  split at h
  case h_4 =>
    obtain ⟨content, hcontent, rfl⟩ := Json.exists_of_map_eq_ok h
    obtain rfl : content = some (some (.other w)) := hw
    unfold once at hcontent
    split at hcontent
    · cases hcontent
    · obtain ⟨c, hc, he⟩ := Json.exists_of_map_eq_ok hcontent
      cases he
      exact kind_of_optional_asContent hc
  case h_6 =>
    cases h
    exact hd w hw
  all_goals
    obtain ⟨_, _, rfl⟩ := Json.exists_of_map_eq_ok h
    exact hd w hw

theorem Draft.fits_setAll {d e : Draft} {fields : List (String × Json)} (hd : d.Fits)
    (h : d.setAll fields = .ok e) : e.Fits := by
  induction fields generalizing d with
  | nil =>
    cases h
    exact hd
  | cons field rest ih =>
    unfold setAll at h
    split at h
    · cases h
    · next d' hd' => exact ih (Draft.fits_set hd hd') h

theorem kind_of_content_ofItems {items : List Json} (h : ofItems items = .ok r)
    (hc : r.content = some (.other w)) : w.kind ∈ [.boolean, .number, .object] := by
  unfold ofItems at h
  obtain ⟨⟨title, i1⟩, -, h⟩ := bind_eq_ok h
  obtain ⟨⟨id, i2⟩, -, h⟩ := bind_eq_ok h
  obtain ⟨⟨level, i3⟩, -, h⟩ := bind_eq_ok h
  obtain ⟨⟨content, i4⟩, hcontent, h⟩ := bind_eq_ok h
  obtain ⟨⟨subsections, i5⟩, -, h⟩ := bind_eq_ok h
  obtain ⟨_, -, h⟩ := bind_eq_ok h
  cases h
  obtain rfl : content = some (.other w) := hc
  cases i3 with
  | nil => cases hcontent
  | cons v i3 =>
    obtain ⟨c, hread, he⟩ := Json.exists_of_map_eq_ok hcontent
    cases he
    exact kind_of_optional_asContent hread

theorem kind_of_content (h : ofJson v = .ok r) (hc : r.content = some (.other w)) :
    w.kind ∈ [.boolean, .number, .object] := by
  cases v with
  | object fields =>
    obtain ⟨d, hd, rfl⟩ := Json.exists_of_map_eq_ok h
    have hfits : d.Fits := Draft.fits_setAll (by intro w hw; cases hw) hd
    simp only [Draft.finish] at hc
    cases hdc : d.content with
    | none => simp [hdc] at hc
    | some content => exact hfits w (by simpa [hdc] using hc)
  | array items => exact kind_of_content_ofItems h hc
  | _ => cases h

end SectionRecord

/-! Names of records. -/

theorem accepted_of_mem_walk {records : List Json} {d : Nat}
    (h : .record depth r ∈ walk d records) : ∃ v, accepted? v = some r := by
  fun_induction walk d records with
  | case1 => cases h
  | case2 d v rest r' hr ihSubsections ihRest =>
    rcases List.mem_cons.mp h with h | h
    · cases h
      exact ⟨v, hr⟩
    · rcases List.mem_append.mp h with h | h
      · exact ihSubsections h
      · exact ihRest h
  | case3 d v rest hv ihRest =>
    rcases List.mem_cons.mp h with h | h
    · cases h
    · exact ihRest h

theorem SectionRecord.strip_name (r : SectionRecord) : Text.strip r.name = r.name := by
  unfold name
  split
  · split
    · exact Slug.strip_slugify r.title
    · exact Text.strip_strip _
  · exact Slug.strip_slugify r.title

theorem sectionId_of_mem_blocks {b : Block String} {records : List Json}
    (h : b ∈ (walk depth records).flatMap Visit.blocks) :
    b.sectionId ≠ "" ∧ Text.strip b.sectionId = b.sectionId := by
  obtain ⟨visit, hvisit, hb⟩ := List.mem_flatMap.mp h
  cases visit with
  | rejected v => cases hb
  | record d r =>
    obtain ⟨v, hv⟩ := accepted_of_mem_walk hvisit
    obtain ⟨t, -, rfl⟩ := List.mem_map.mp hb
    exact ⟨(accepted?_eq_some_iff.mp hv).2, r.strip_name⟩

/-- The blocks of a section file are the texts of the records of the walk, each under the name, title
and level of its record. Every record that is rejected, every item that is no text and every content
that is neither text nor a list is reported once, and so is a file that holds no records. -/
theorem loadSection_preorder (file : String) (v : Json) :
    let l := loadSection file v
    let visits := walk 0 (topRecords v)
    l.value = visits.flatMap Visit.blocks ∧
      l.diagnostics.length =
        (if v.kind = .object ∨ v.kind = .array then
          visits.countP Visit.isRejected + (visits.flatMap Visit.dropped).length +
            visits.countP Visit.isMisshapen
        else 1) ∧
      (∀ depth r w, .record depth r ∈ visits → r.content = some (.other w) →
        w.kind ∈ [.boolean, .number, .object]) ∧
      ∀ b ∈ l.value, b.sectionId ≠ "" ∧ Text.strip b.sectionId = b.sectionId := by
  intro l visits
  have hother : ∀ depth r w, .record depth r ∈ visits → r.content = some (.other w) →
      w.kind ∈ [.boolean, .number, .object] := by
    intro depth r w hr hc
    obtain ⟨v, hv⟩ := accepted_of_mem_walk hr
    exact SectionRecord.kind_of_content (accepted?_eq_some_iff.mp hv).1 hc
  have hblocks : l.value = visits.flatMap Visit.blocks := by
    cases v with
    | object fields => exact congrArg Loaded.value (loadSection_eq file _ (.inl rfl))
    | array records => exact congrArg Loaded.value (loadSection_eq file _ (.inr rfl))
    | _ => simp [l, visits, loadSection, topRecords, walk]
  refine ⟨hblocks, ?_, hother, ?_⟩
  · rw [Loaded.diagnostics, List.length_map]
    split
    · next hkind =>
      have hfindings : l.findings = visits.flatMap (Visit.findings file) :=
        congrArg Loaded.findings (loadSection_eq file v hkind)
      rw [hfindings, length_flatMap_findings]
    · next hkind =>
      cases v with
      | object fields => exact absurd (.inl rfl) hkind
      | array records => exact absurd (.inr rfl) hkind
      | _ => rfl
  · intro b hb
    rw [hblocks] at hb
    exact sectionId_of_mem_blocks hb

theorem loadSection_preorder_nested :
    let child : Json := .object [("content", .array [.string "b", .null]), ("title", .string "B c")]
    let v : Json := .array
      [.object [("content", .string "a"), ("id", .string " top "),
          ("subsections", .array [child, .string "lost"])],
        .object [("content", .bool true), ("id", .string "d"), ("level", .string "h2")]]
    let l := loadSection "f" v
    l.value = [⟨"top", "", "1", "a"⟩, ⟨"b-c", "B c", "2", "b"⟩] ∧ l.diagnostics.length = 3 ∧
      ∀ b ∈ l.value, b.sectionId ≠ "" ∧ Text.strip b.sectionId = b.sectionId := by
  intro child v l
  obtain ⟨hvalue, hlength, -, hid⟩ := loadSection_preorder "f" v
  exact ⟨hvalue.trans (by decide +kernel), hlength.trans (by decide +kernel), hid⟩

end Manuscript.Record
