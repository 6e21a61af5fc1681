import Manuscript.Proofs.Record.Items

/-! Records written back. What a loader gives, written as a record in the plain form, is loaded as it
is, for the loader trims and completes everything the first time. -/
namespace Manuscript

/-! Fields of an object stand in the order of their names. -/

def Heading.record (h : Heading) : Json := .object
  [("file", .string h.file), ("level", .ofNat h.level.toNat), ("slug", .string h.slug),
    ("text", .string h.text)]

def Source.record (s : Source) : Json := .object [("key", .string s.key), ("text", .string s.text)]

def Block.record (b : Block String) : Json := .object
  [("content", .string b.body), ("id", .string b.sectionId), ("level", .string b.level),
    ("title", .string b.sectionTitle)]

/-! Each record is read as what it was written of. -/
namespace Record

variable {h : Heading} {s : Source} {b : Block String}

theorem allBlank_of_strip {t : String} (hstrip : Text.strip t = t) (hne : t ≠ "") :
    Text.allBlank t.toList = false := by
  rw [← Bool.not_eq_true]
  intro hblank
  apply hne
  rw [← hstrip, Text.strip, Text.trim_eq_nil_iff.mpr hblank]

theorem read_record (hstrip : Text.strip h.slug = h.slug) (hne : h.slug ≠ "") :
    Entry.read h.record = .ok h := by
  have hwritten : Entry.Written ⟨h.text, some h.slug, h.file, some (.number h.level)⟩ h.record := by
    refine .object ?_ (.inr ?_) ?_ (.inr ?_) <;> simp [named, Json.ofOption, Level.json, Json.ofNat]
  refine Entry.read_eq_ok_iff.mpr ⟨_, hwritten, hne, ?_⟩
  simp [Entry.slugOr, allBlank_of_strip hstrip hne, hstrip, Level.value?]

def Trimmed (s : Source) : Prop :=
  Text.strip s.key = s.key ∧ s.key ≠ "" ∧ Text.strip s.text = s.text

theorem source?_record (hs : Trimmed s) : source? s.record = some s := by
  obtain ⟨hkey, hne, htext⟩ := hs
  refine source?_eq_some_iff.mpr ⟨_, s.key, s.text, rfl, rfl, rfl, allBlank_of_strip hkey hne, ?_⟩
  rw [hkey, htext]

theorem accepted?_record (hstrip : Text.strip b.sectionId = b.sectionId) (hne : b.sectionId ≠ "") :
    accepted? b.record = some
      ⟨b.sectionTitle, some b.sectionId, some (.text b.level), some (.one b.body), []⟩ := by
  refine accepted?_eq_some_iff.mpr ⟨rfl, ?_⟩
  simpa [SectionRecord.name, allBlank_of_strip hstrip hne, hstrip] using hne

/-! Lists of records. -/

theorem readEntries_record {headings : List Heading} (index : Nat)
    (hslugs : ∀ h ∈ headings, h.slug ≠ "" ∧ Text.strip h.slug = h.slug) :
    readEntries index (headings.map Heading.record) = (headings, []) := by
  induction headings generalizing index with
  | nil => rfl
  | cons h headings ih =>
    obtain ⟨⟨hne, hstrip⟩, hrest⟩ := List.forall_mem_cons.mp hslugs
    rw [List.map_cons, readEntries, ih (index + 1) hrest, read_record hstrip hne]

theorem readSources_record {sources : List Source} (index : Nat)
    (htrimmed : ∀ s ∈ sources, Trimmed s) :
    readSources index (sources.map Source.record) = (sources, []) := by
  induction sources generalizing index with
  | nil => rfl
  | cons s sources ih =>
    obtain ⟨hs, hrest⟩ := List.forall_mem_cons.mp htrimmed
    rw [List.map_cons, readSources, ih (index + 1) hrest, source?_record hs]

theorem readRecords_record {blocks : List (Block String)} (file : String) (depth : Nat)
    (hids : ∀ b ∈ blocks, b.sectionId ≠ "" ∧ Text.strip b.sectionId = b.sectionId) :
    readRecords file depth (blocks.map Block.record) = (blocks, []) := by
  induction blocks with
  | nil => simp [readRecords]
  | cons b blocks ih =>
    obtain ⟨⟨hne, hstrip⟩, hrest⟩ := List.forall_mem_cons.mp hids
    rw [List.map_cons, readRecords, ih hrest,
      readRecord_of_accepted file depth (accepted?_record hstrip hne)]
    simp [readRecords, Visit.blocks, Visit.findings, SectionContent.texts, contentTexts,
      SectionRecord.name, SectionRecord.levelAt, Level.shown, allBlank_of_strip hstrip hne, hstrip]

theorem loadContents_record {headings : List Heading}
    (hslugs : ∀ h ∈ headings, h.slug ≠ "" ∧ Text.strip h.slug = h.slug) :
    loadContents (.array (headings.map Heading.record)) =
      ⟨⟨headings, none⟩, (Contents.duplicateSlugs headings).map .slugRepeated⟩ := by
  rw [loadContents, ofEntries, readEntries_record 0 hslugs]
  rfl

theorem loadBibliography_record {sources : List Source} (htrimmed : ∀ s ∈ sources, Trimmed s) :
    loadBibliography (.array (sources.map Source.record)) = ⟨sources, []⟩ := by
  rw [loadBibliography, readSources_record 0 htrimmed]

theorem loadSection_record {blocks : List (Block String)} (file : String)
    (hids : ∀ b ∈ blocks, b.sectionId ≠ "" ∧ Text.strip b.sectionId = b.sectionId) :
    loadSection file (.array (blocks.map Block.record)) = ⟨blocks, []⟩ := by
  rw [loadSection, readRecords_record file 0 hids]

/-! What the loaders give is in this form. -/

theorem loadContents_cases (v : Json) : (∃ items about, loadContents v = ofEntries items about) ∨
    ∃ f, f.code = .contents ∧ loadContents v = ⟨⟨[], none⟩, [f]⟩ := by
  cases v with
  | array items => exact .inl ⟨items, none, rfl⟩
  | object fields =>
    rw [loadContents]
    split
    · next items paper _ => exact .inl ⟨items, some paper, rfl⟩
    · exact .inr ⟨_, rfl, rfl⟩
  | _ => exact .inr ⟨_, rfl, rfl⟩

theorem slug_of_mem_loadContents {v : Json} (hh : h ∈ (loadContents v).value.headings) :
    h.slug ≠ "" ∧ Text.strip h.slug = h.slug := by
  rcases loadContents_cases v with ⟨items, about, hl⟩ | ⟨f, -, hl⟩ <;> rw [hl] at hh
  · exact slug_of_mem_readEntries hh
  · cases hh

theorem IsSource.trimmed {v : Json} (h : IsSource v s) : Trimmed s := by
  obtain ⟨fields, key, text, -, -, -, hblank, rfl⟩ := h
  refine ⟨Text.strip_strip key, ?_, Text.strip_strip text⟩
  intro hempty
  have hnil : Text.trim key.toList = [] := String.ofList_eq_empty_iff.mp hempty
  rw [Text.trim_eq_nil_iff.mp hnil] at hblank
  cases hblank

theorem trimmed_of_mem_loadBibliography {v : Json} (hs : s ∈ (loadBibliography v).value) :
    Trimmed s := by
  cases v with
  | array items =>
    have hs : s ∈ (readSources 0 items).1 := hs
    rw [readSources_fst] at hs
    obtain ⟨v, -, hv⟩ := List.mem_filterMap.mp hs
    exact (source?_eq_some_iff.mp hv).trimmed
  | _ => cases hs

theorem sectionId_of_mem_loadSection {file : String} {v : Json}
    (hb : b ∈ (loadSection file v).value) :
    b.sectionId ≠ "" ∧ Text.strip b.sectionId = b.sectionId := by
  rw [value_loadSection] at hb
  exact sectionId_of_mem_blocks hb

/-! Loading again. -/

theorem code_of_mem_readEntries {index : Nat} {items : List Json} {f : Finding}
    (hf : f ∈ (readEntries index items).2) : f.diagnostic.code = some "P-1-2" := by
  have hsign : sign f.diagnostic ∈
      (readEntries index items).2.map fun f => sign f.diagnostic := List.mem_map_of_mem hf
  rw [sign_readEntries] at hsign
  obtain ⟨i, -, hi⟩ := List.mem_map.mp hsign
  exact (congrArg (fun p => p.2.1) hi).symm

theorem code_slugRepeated (slug : String) :
    (Finding.slugRepeated slug).diagnostic.code = some "P-1-3" := by
  rw [Finding.diagnostic_eq]
  rfl

theorem repeated_of_loadContents (v : Json) :
    ((loadContents v).diagnostics.filter fun g => g.code == some "P-1-3") =
      (Contents.duplicateSlugs (loadContents v).value.headings).map fun slug =>
        (Finding.slugRepeated slug).diagnostic := by
  rcases loadContents_cases v with ⟨items, about, hl⟩ | ⟨f, hf, hl⟩
  · have hentries : (((readEntries 0 items).2.map Finding.diagnostic).filter fun g =>
        g.code == some "P-1-3") = [] := by
      rw [List.filter_eq_nil_iff]
      intro g hg
      obtain ⟨f, hf, rfl⟩ := List.mem_map.mp hg
      rw [code_of_mem_readEntries hf]
      decide
    have hrepeated : (((Contents.duplicateSlugs (readEntries 0 items).1).map fun slug =>
        (Finding.slugRepeated slug).diagnostic).filter fun g => g.code == some "P-1-3") =
        (Contents.duplicateSlugs (readEntries 0 items).1).map fun slug =>
          (Finding.slugRepeated slug).diagnostic := by
      rw [List.filter_eq_self]
      intro g hg
      obtain ⟨slug, -, rfl⟩ := List.mem_map.mp hg
      rw [code_slugRepeated]
      decide
    rw [hl, diagnostics_ofEntries, List.filter_append, hentries, hrepeated, List.nil_append]
    rfl
  · rw [hl]
    simp [Loaded.diagnostics, Finding.diagnostic_eq, hf, Code.text, Contents.duplicateSlugs, gather]

/-- What each loader gives, written as records, is loaded as it is and without a finding, but for the
slugs that are still repeated. -/
theorem loaded_again (file : String) (v : Json) :
    let l := loadContents v
    let l' := loadContents (.array (l.value.headings.map Heading.record))
    let b := loadBibliography v
    let b' := loadBibliography (.array (b.value.map Source.record))
    let s := loadSection file v
    let s' := loadSection file (.array (s.value.map Block.record))
    (l'.value.headings = l.value.headings ∧
      l'.diagnostics = (l.diagnostics.filter fun g => g.code == some "P-1-3") ∧
      ∀ g ∈ l'.diagnostics, g.code ≠ some "P-1-1" ∧ g.code ≠ some "P-1-2") ∧
    (b'.value = b.value ∧ b'.diagnostics = []) ∧ s'.value = s.value ∧ s'.diagnostics = [] := by
  intro l l' b b' s s'
  have hl' : l' = ⟨⟨l.value.headings, none⟩,
      (Contents.duplicateSlugs l.value.headings).map .slugRepeated⟩ :=
    loadContents_record fun h hh => slug_of_mem_loadContents hh
  have hb' : b' = ⟨b.value, []⟩ :=
    loadBibliography_record fun s hs => trimmed_of_mem_loadBibliography hs
  have hs' : s' = ⟨s.value, []⟩ :=
    loadSection_record file fun b hb => sectionId_of_mem_loadSection hb
  have hdiagnostics : l'.diagnostics = l.diagnostics.filter fun g => g.code == some "P-1-3" := by
    rw [repeated_of_loadContents, hl', Loaded.diagnostics, List.map_map]
    rfl
  refine ⟨⟨by rw [hl'], hdiagnostics, ?_⟩, ⟨by rw [hb'], by rw [hb']; rfl⟩, by rw [hs'],
    by rw [hs']; rfl⟩
  intro g hg
  rw [hdiagnostics, List.mem_filter, beq_iff_eq] at hg
  rw [hg.2]
  decide

end Record
end Manuscript
