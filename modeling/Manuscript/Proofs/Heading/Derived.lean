import Manuscript.Heading.Derive
import Manuscript.Proofs.OrderedMap
import Manuscript.Proofs.Record.Section
import Manuscript.Proofs.Reference

/-! Headings of sections in a table of contents that was made from the content. They are the headings of
the first blocks of the runs, whatever is found in the texts between them; a record is known by its
blocks only, so one that has a text gives its id to a heading, and one that has none is not seen. -/
namespace Manuscript.Heading

open Record (Visit walk topRecords SectionContent)

variable {file : String} {current : Option String} {a : Slug.Allocator} {h : Heading}
variable {b : Block String} {blocks more : List (Block String)} {content : Content}

def ofRuns (file : String) (current : Option String) : List (Block String) → List Heading
  | [] => []
  | b :: blocks =>
    (if current = some b.sectionId then [] else [ofSection file b]) ++
      ofRuns file (some b.sectionId) blocks

def lastSection (current : Option String) (blocks : List (Block String)) : Option String :=
  (blocks.getLast?.map Block.sectionId).or current

theorem lastSection_cons : lastSection current (b :: blocks) =
    lastSection (some b.sectionId) blocks := by
  cases h : blocks.getLast? <;> simp [lastSection, List.getLast?_cons, h]

theorem ofRuns_append (file : String) (current : Option String)
    (blocks more : List (Block String)) : ofRuns file current (blocks ++ more) =
      ofRuns file current blocks ++ ofRuns file (lastSection current blocks) more := by
  induction blocks generalizing current with
  | nil => rfl
  | cons b blocks ih =>
    rw [List.cons_append, ofRuns, ih, ofRuns, List.append_assoc, lastSection_cons]

theorem mem_ofRuns_of_ne (h : current ≠ some b.sectionId) :
    ofSection file b ∈ ofRuns file current (b :: blocks) := by
  rw [ofRuns, if_neg h]
  exact List.mem_cons_self

/-- A block of another section than the one before it starts a run; else that run goes on. -/
theorem eq_or_slug_mem_ofRuns (hb : b ∈ blocks) :
    current = some b.sectionId ∨ b.sectionId ∈ (ofRuns file current blocks).map Heading.slug := by
  induction blocks generalizing current with
  | nil => cases hb
  | cons b' blocks ih =>
    rw [ofRuns, List.map_append, List.mem_append]
    have hfirst : current = some b'.sectionId ∨ b'.sectionId ∈
        (if current = some b'.sectionId then [] else [ofSection file b']).map Heading.slug := by
      by_cases hcurrent : current = some b'.sectionId
      · exact .inl hcurrent
      · rw [if_neg hcurrent]
        exact .inr List.mem_cons_self
    rcases List.mem_cons.mp hb with rfl | hb
    · exact hfirst.imp_right .inl
    · have hrest : some b'.sectionId = some b.sectionId ∨
          b.sectionId ∈ (ofRuns file (some b'.sectionId) blocks).map Heading.slug := ih hb
      rcases hrest with hrun | hmore
      -- the block goes on with a run, which the one before it started or went on with
      · rw [← Option.some.inj hrun]
        exact hfirst.imp_right .inl
      · exact .inr (.inr hmore)

theorem slug_mem_ofRuns (file : String) (hb : b ∈ blocks) :
    b.sectionId ∈ (ofRuns file none blocks).map Heading.slug :=
  (eq_or_slug_mem_ofRuns hb).resolve_left (Option.some_ne_none _).symm

theorem exists_of_mem_ofRuns (hh : h ∈ ofRuns file current blocks) :
    ∃ b ∈ blocks, h = ofSection file b := by
  induction blocks generalizing current with
  | nil => cases hh
  | cons b blocks ih =>
    rw [ofRuns, List.mem_append] at hh
    rcases hh with hh | hh
    · split at hh
      · cases hh
      · exact ⟨b, List.mem_cons_self, List.mem_singleton.mp hh⟩
    · obtain ⟨b', hb', heq⟩ := ih hh
      exact ⟨b', List.mem_cons_of_mem b hb', heq⟩

/-! Headings in texts. -/

def InText (h : Heading) (text : String) : Prop :=
  ∃ f ∈ found text.toList, h.level = f.level ∧ h.text = String.ofList f.text

theorem exists_of_mem_withSlugs {fs : List Found} (hh : h ∈ (withSlugs file a fs).1) :
    h.file = file ∧ ∃ f ∈ fs, h.level = f.level ∧ h.text = String.ofList f.text := by
  induction fs generalizing a with
  | nil => cases hh
  | cons f fs ih =>
    rcases List.mem_cons.mp hh with rfl | hh
    · exact ⟨rfl, f, List.mem_cons_self, rfl, rfl⟩
    · obtain ⟨hfile, f', hf', heq⟩ := ih hh
      exact ⟨hfile, f', List.mem_cons_of_mem f hf', heq⟩

theorem mem_ofBlocks (hh : h ∈ (ofBlocks file current a blocks).1) :
    h ∈ ofRuns file current blocks ∨ h.file = file ∧ ∃ b ∈ blocks, h.InText b.body := by
  induction blocks generalizing current a with
  | nil => cases hh
  | cons b blocks ih =>
    simp only [ofBlocks, List.mem_append] at hh
    rcases hh with (hown | htext) | hmore
    · exact .inl (List.mem_append_left _ hown)
    · obtain ⟨hfile, hin⟩ := exists_of_mem_withSlugs htext
      exact .inr ⟨hfile, b, List.mem_cons_self, hin⟩
    · rcases ih hmore with hruns | ⟨hfile, b', hb', hin⟩
      · exact .inl (List.mem_append_right _ hruns)
      · exact .inr ⟨hfile, b', List.mem_cons_of_mem b hb', hin⟩

theorem ofRuns_subset (file : String) (current : Option String) (a : Slug.Allocator)
    (blocks : List (Block String)) :
    ofRuns file current blocks ⊆ (ofBlocks file current a blocks).1 := by
  induction blocks generalizing current a with
  | nil => exact List.Subset.refl _
  | cons b blocks ih =>
    intro h hh
    simp only [ofBlocks, List.mem_append]
    rcases List.mem_append.mp hh with hown | hmore
    · exact .inl (.inl hown)
    · exact .inr (ih _ _ hmore)

/-! Files. -/

theorem mem_ofFiles {files : List (String × List (Block String))} (hh : h ∈ ofFiles a files) :
    ∃ e ∈ files, h ∈ ofRuns e.1 none e.2 ∨ h.file = e.1 ∧ ∃ b ∈ e.2, h.InText b.body := by
  induction files generalizing a with
  | nil => cases hh
  | cons e files ih =>
    rcases List.mem_append.mp hh with hh | hh
    · exact ⟨e, List.mem_cons_self, mem_ofBlocks hh⟩
    · obtain ⟨e', he', hin⟩ := ih hh
      exact ⟨e', List.mem_cons_of_mem e he', hin⟩

theorem ofRuns_subset_ofFiles {e : String × List (Block String)}
    {files : List (String × List (Block String))} (he : e ∈ files) :
    ofRuns e.1 none e.2 ⊆ ofFiles a files := by
  induction files generalizing a with
  | nil => cases he
  | cons e' files ih =>
    rcases List.mem_cons.mp he with rfl | he
    · exact fun h hh => List.mem_append_left _ (ofRuns_subset e.1 none a e.2 hh)
    · exact fun h hh => List.mem_append_right _ (ih he hh)

theorem ofRuns_subset_derive (hblocks : content.get? file = some blocks) :
    ofRuns file none blocks ⊆ derive content :=
  ofRuns_subset_ofFiles (OrderedMap.mem_of_get? hblocks)

/-! Records. -/

variable {v : Json} {r : Record.SectionRecord} {depth : Nat} {before after : List Visit}

/-- A record that has a text gives its id to a heading of its file, so that references to it are found,
and this heading has its title and level unless the block before it has the same id. If no block has
the id of a record, a heading with this slug can only be one that was found in a text. -/
theorem derive_covers_records (hcontent : content.get? file = some (Record.loadSection file v).value)
    (hwalk : walk 0 (topRecords v) = before ++ .record depth r :: after) (sources : List Source)
    (raw : String) :
    (r.content.elim [] SectionContent.texts ≠ [] →
      (∃ h ∈ derive content, h.slug = r.name ∧ h.file = file) ∧
      (Indices.build (derive content) sources).resolve (.reference r.name raw) =
        .reference r.name r.name ∧
      ((before.flatMap Visit.blocks).getLast?.map Block.sectionId ≠ some r.name →
        ⟨(Level.parse? (r.levelAt depth)).getD 1, r.title, r.name, file⟩ ∈ derive content)) ∧
    ((∀ e ∈ content.entries, ∀ b ∈ e.2, b.sectionId ≠ r.name) →
      ∀ h ∈ derive content, h.slug = r.name →
        ∃ e ∈ content.entries, h.file = e.1 ∧ ∃ b ∈ e.2, h.InText b.body) := by
  have hblocks : (Record.loadSection file v).value = before.flatMap Visit.blocks ++
      ((Visit.record depth r).blocks ++ after.flatMap Visit.blocks) := by
    rw [Record.value_loadSection, hwalk, List.flatMap_append, List.flatMap_cons]
  constructor
  · intro htexts
    obtain ⟨t, ts, hts⟩ := List.exists_cons_of_ne_nil htexts
    have hown : (Visit.record depth r).blocks =
        ⟨r.name, r.title, r.levelAt depth, t⟩ :: ts.map (⟨r.name, r.title, r.levelAt depth, ·⟩) := by
      rw [Visit.blocks, hts, List.map_cons]
    have hfirst : (⟨r.name, r.title, r.levelAt depth, t⟩ : Block String) ∈
        (Record.loadSection file v).value := by
      rw [hblocks, hown]
      exact List.mem_append_right _ List.mem_cons_self
    have hruns := ofRuns_subset_derive hcontent
    obtain ⟨h, hh, hname⟩ := List.mem_map.mp (slug_mem_ofRuns file hfirst)
    refine ⟨⟨h, hruns hh, hname, ?_⟩, ?_, ?_⟩
    · obtain ⟨b, -, rfl⟩ := exists_of_mem_ofRuns hh
      rfl
    · exact Indices.resolve_reference_of_mem (List.mem_map.mpr ⟨h, hruns hh, hname⟩) raw
    · intro hlast
      apply hruns
      rw [hblocks, hown, ofRuns_append, List.cons_append]
      exact List.mem_append_right _ (mem_ofRuns_of_ne (by simpa [lastSection] using hlast))
  · intro hno h hh hname
    obtain ⟨e, he, hruns | ⟨hfile, hin⟩⟩ := mem_ofFiles hh
    · obtain ⟨b, hb, rfl⟩ := exists_of_mem_ofRuns hruns
      exact absurd hname (hno e he b hb)
    · exact ⟨e, he, hfile, hin⟩

theorem derive_covers_records_nested :
    let child : Json := .object [("content", .string "# S"), ("level", .string "h3"),
      ("title", .string "Sub S")]
    let v : Json := .object [("content", .string "[ref:sub-s]"), ("subsections", .array [child]),
      ("title", .string "T")]
    let top : Record.SectionRecord := ⟨"T", none, none, some (.one "[ref:sub-s]"), [child]⟩
    let sub : Record.SectionRecord := ⟨"Sub S", none, some (.text "h3"), some (.one "# S"), []⟩
    let content : Content := .ofList [("f", (Record.loadSection "f" v).value)]
    content.get? "f" = some (Record.loadSection "f" v).value ∧
      walk 0 (topRecords v) = [.record 0 top] ++ .record 1 sub :: [] ∧ sub.name = "sub-s" ∧
      ⟨3, "Sub S", "sub-s", "f"⟩ ∈ derive content ∧
      (Indices.build (derive content) []).resolve (.reference "sub-s" "[ref:sub-s]") =
        .reference "sub-s" "sub-s" := by
  intro child v top sub content
  have hv : Record.accepted? v = some top :=
    Record.accepted?_eq_some_iff.mpr ⟨rfl, by decide +kernel⟩
  have hchild : Record.accepted? child = some sub :=
    Record.accepted?_eq_some_iff.mpr ⟨rfl, by decide +kernel⟩
  have hwalk : walk 0 (topRecords v) = [.record 0 top] ++ .record 1 sub :: [] := by
    simp only [v, topRecords]
    rw [Record.walk_cons_of_accepted hv, Record.walk_cons_of_accepted hchild]
    simp [walk, sub]
  have hcontent : content.get? "f" = some (Record.loadSection "f" v).value :=
    (OrderedMap.get?_ofList _ "f").trans (by simp)
  have hname : sub.name = "sub-s" := by decide +kernel
  have hlevel : (Level.parse? (sub.levelAt 1)).getD 1 = 3 := by decide +kernel
  obtain ⟨htexts, -⟩ := derive_covers_records hcontent hwalk [] "[ref:sub-s]"
  obtain ⟨-, hresolves, hown⟩ := htexts (by simp [sub, SectionContent.texts])
  rw [hname] at hresolves
  rw [hname, hlevel] at hown
  exact ⟨hcontent, hwalk, hname, hown (by decide +kernel), hresolves⟩

/-- A record with nothing but subsections leaves no block, so no heading has its id, and references to
it lead nowhere. -/
theorem exists_record_without_heading : ∃ (v : Json) (r : Record.SectionRecord),
    let content : Content := .ofList [("methods", (Record.loadSection "methods" v).value)]
    .record 0 r ∈ walk 0 (topRecords v) ∧ r.title = "Methods" ∧ r.name = "methods" ∧
      derive content = [⟨2, "Data", "data", "methods"⟩] ∧
      ∀ raw, (Indices.build (derive content) []).resolve (.reference "methods" raw) =
        .missingReference "methods" := by
  let child : Json := .object [("content", .string "See [ref:methods]."), ("id", .string "data"),
    ("title", .string "Data")]
  let v : Json := .object [("id", .string "methods"), ("subsections", .array [child]),
    ("title", .string "Methods")]
  have hv : Record.accepted? v = some ⟨"Methods", some "methods", none, none, [child]⟩ :=
    Record.accepted?_eq_some_iff.mpr ⟨rfl, by decide +kernel⟩
  have hderive : derive (.ofList [("methods", (Record.loadSection "methods" v).value)]) =
      [⟨2, "Data", "data", "methods"⟩] := by decide +kernel
  refine ⟨v, ⟨"Methods", some "methods", none, none, [child]⟩, ?_, rfl, by decide +kernel, hderive,
    ?_⟩
  · simp only [v, topRecords]
    rw [Record.walk_cons_of_accepted hv]
    exact List.mem_cons_self
  · intro raw
    apply Indices.resolve_reference_of_notMem
    rw [hderive]
    decide

end Manuscript.Heading
