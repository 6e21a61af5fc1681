import Manuscript.Proofs.Finding
import Manuscript.Proofs.Paper.Load
import Manuscript.Proofs.Text.Bytes

/-! The record files of a folder. A table of contents that has neither of its two shapes is reported.
A bibliography that is no array is read as text if it is the bibliography section as well, and is
reported if it is not JSON; otherwise nothing comes of it, not even a finding. -/
namespace Manuscript

def Json.IsArray (v : Json) : Prop := ∃ items, v = .array items

/-- A list of entries, or an object that has one under `paper.sections`. -/
def Record.IsContents (v : Json) : Prop :=
  v.IsArray ∨ ∃ paper sections, v.field? "paper" = some paper ∧
    paper.field? "sections" = some sections ∧ sections.IsArray

def Disk.without (d : Disk) (path : String) : Disk :=
  { d with look := fun p => if p = path then .nothing .missing else d.look p }

def Loaded.Warns (l : Loaded α) (code : String) : Prop :=
  ∃ g ∈ l.diagnostics, g.severity = .warning ∧ g.code = some code

theorem Loaded.warns_of_code {l : Loaded α} {code : Code}
    (h : ∃ f ∈ l.findings, f.code = code) : l.Warns code.text := by
  obtain ⟨f, hf, rfl⟩ := h
  refine ⟨f.diagnostic, List.mem_map_of_mem hf, ?_⟩
  rw [Finding.diagnostic_eq]
  exact ⟨rfl, rfl⟩

theorem Record.exists_code_loadContents {v : Json} (h : ¬ IsContents v) :
    ∃ f ∈ (loadContents v).findings, f.code = .contents := by
  cases v with
  | array items => exact absurd (.inl ⟨items, rfl⟩) h
  | object fields =>
    have hnone : ((Json.object fields).field? "paper").bind unwrap? = none := by
      rw [Option.bind_eq_none_iff]
      intro paper hpaper
      unfold unwrap?
      split
      · rfl
      · next items hitems =>
        obtain ⟨sections, hsections, hitems⟩ := Option.bind_eq_some_iff.mp hitems
        refine absurd (.inr ⟨paper, sections, hpaper, hsections, ?_⟩) h
        cases sections with
        | array items => exact ⟨items, rfl⟩
        | _ => cases hitems
    exact ⟨.contentsUnwrapped, by simp [loadContents, hnone], rfl⟩
  | _ => exact ⟨_, List.mem_singleton_self _, rfl⟩

namespace Paper

variable {d : Disk} {folder path : String} {s : Settings} {bytes : List UInt8} {v : Json}

theorem ReadsContents.exists_code {c : Loaded Record.ContentsRecord}
    (h : ReadsContents d folder s c) (hlook : d.look (contentsPath folder s) = .file bytes)
    (hshape : ∀ v, Json.read bytes = .ok v → ¬ Record.IsContents v) :
    ∃ f ∈ c.findings, f.code = .contents := by
  cases h with
  | missing hmissing => cases hlook.symm.trans hmissing
  | notJson => exact ⟨_, List.mem_singleton_self _, rfl⟩
  | value hfile hread =>
    cases hlook.symm.trans hfile
    exact Record.exists_code_loadContents (hshape _ hread)

theorem ReadsRecord.eq_of_file {r : Loaded (Option Json)} {record : RecordFile}
    (h : ReadsRecord d record path r) (hlook : d.look path = .file bytes) :
    (∃ v, Json.read bytes = .ok v ∧ r = ⟨some v, []⟩) ∨
      ∃ e, Json.read bytes = .error e ∧ r = ⟨none, [.notJson record path e (Path.stem path)]⟩ := by
  cases h with
  | missing hmissing => cases hlook.symm.trans hmissing
  | notJson hfile hread =>
    cases hlook.symm.trans hfile
    exact .inr ⟨_, hread, rfl⟩
  | value hfile hread =>
    cases hlook.symm.trans hfile
    exact .inl ⟨_, hread, rfl⟩

theorem ReadsSources.used_or_code {b : Loaded (List Source)} (h : ReadsSources d folder s b)
    (hlook : d.look (bibliographyPath folder s) = .file bytes)
    (hshape : ∀ v, Json.read bytes = .ok v → ¬ v.IsArray)
    (hpath : Path.same (bibitemPath folder s) (bibliographyPath folder s) = true ∨
      ∀ v, Json.read bytes ≠ .ok v) :
    (∃ v, Json.read bytes = .ok v ∧ b.value = (bibitems s v).value) ∨
      ∃ f ∈ b.findings, f.code = .bibliography := by
  cases h with
  | array hfile hread =>
    cases hlook.symm.trans hfile
    exact absurd ⟨_, rfl⟩ (hshape _ hread)
  | own hrecord _ _ =>
    obtain ⟨v, hread, rfl⟩ | ⟨e, -, rfl⟩ := hrecord.eq_of_file hlook
    · exact .inl ⟨v, hread, rfl⟩
    · exact .inr ⟨_, List.mem_cons_self, rfl⟩
  | other hrecord _ hother _ =>
    obtain ⟨v, hread, rfl⟩ | ⟨e, -, rfl⟩ := hrecord.eq_of_file hlook
    · obtain hsame | hnot := hpath
      · rw [hother] at hsame
        cases hsame
      · exact absurd hread (hnot v)
    · exact .inr ⟨_, List.mem_cons_self, rfl⟩

theorem readSources_without (hlook : d.look (bibliographyPath folder s) = .file bytes)
    (hread : Json.read bytes = .ok v) (hshape : ¬ v.IsArray)
    (hother : Path.same (bibitemPath folder s) (bibliographyPath folder s) = false) :
    readSources (d.without (bibliographyPath folder s)) folder s = readSources d folder s := by
  have hne : bibitemPath folder s ≠ bibliographyPath folder s := by
    intro heq
    simp [heq, Path.same] at hother
  have hthere : readRecord d .bibliography (bibliographyPath folder s) = .ok ⟨some v, []⟩ := by
    simp only [readRecord, hlook, hread]
  have hgone : readRecord (d.without (bibliographyPath folder s)) .bibliography
      (bibliographyPath folder s) = .ok ⟨none, []⟩ := by
    simp [readRecord, Disk.without]
  have hsection : readRecord (d.without (bibliographyPath folder s)) .bibliography
      (bibitemPath folder s) = readRecord d .bibliography (bibitemPath folder s) := by
    simp [readRecord, Disk.without, hne]
  cases v with
  | array items => exact absurd ⟨items, rfl⟩ hshape
  | _ => simp only [readSources, hthere, hgone, hsection, hother, bind, Except.bind]; rfl

/-- A table of contents of another shape is reported. A bibliography of another shape gives its
entries as text or is reported, unless it is JSON and the bibliography section is another file; then
what is loaded is the bibliography that there is without the record. -/
theorem records_of_load {l : Loaded Paper} (h : load d folder s = .ok l) :
    (∀ bytes, d.look (contentsPath folder s) = .file bytes →
      (∀ v, Json.read bytes = .ok v → ¬ Record.IsContents v) → l.Warns "P-1-1") ∧
    ∀ bytes, d.look (bibliographyPath folder s) = .file bytes →
      (∀ v, Json.read bytes = .ok v → ¬ v.IsArray) →
        (Path.same (bibitemPath folder s) (bibliographyPath folder s) = true ∨
            (∀ v, Json.read bytes ≠ .ok v) →
          (∃ v, Json.read bytes = .ok v ∧ l.value.sources = (bibitems s v).value) ∨
            l.Warns "P-3-1") ∧
        (Path.same (bibitemPath folder s) (bibliographyPath folder s) = false →
            (∃ v, Json.read bytes = .ok v) →
          ∃ b, readSources (d.without (bibliographyPath folder s)) folder s = .ok b ∧
            l.value.sources = b.value ∧ b.findings <:+ l.findings) := by
  obtain ⟨files, contents, sources, -, hcontents, hsources, rfl⟩ := parts_of_load h
  refine ⟨?_, ?_⟩
  · intro bytes hlook hshape
    obtain ⟨f, hf, hcode⟩ := (readsContents hcontents).exists_code hlook hshape
    exact Loaded.warns_of_code ⟨f, by simp [hf], hcode⟩
  · intro bytes hlook hshape
    refine ⟨?_, ?_⟩
    · intro hpath
      obtain hused | ⟨f, hf, hcode⟩ := (readsSources hsources).used_or_code hlook hshape hpath
      · exact .inl hused
      · exact .inr (Loaded.warns_of_code ⟨f, by simp [hf], hcode⟩)
    · rintro hother ⟨v, hread⟩
      have hwithout := readSources_without hlook hread (hshape v hread) hother
      exact ⟨sources, hwithout.trans hsources, rfl, List.suffix_append _ _⟩

def unusable : Disk where
  look path :=
    if path = "p/toc.json" then .file [53]
    else if path = "p/bibliography.json" then .file [123]
    else .nothing .missing
  names path := if path = "p" then .ok ["bibliography.json", "toc.json"] else .error .missing

theorem records_of_load_both_unusable :
    ∃ l, load unusable "p" {} = .ok l ∧ l.Warns "P-1-1" ∧ l.Warns "P-3-1" := by
  obtain ⟨l, hl⟩ := exists_of_isOk (r := load unusable "p" {}) <| by
    rw [load, sectionFiles_of_sorted rfl (by decide)]
    decide +kernel
  obtain ⟨hcontents, hsources⟩ := records_of_load hl
  have hnumber : (Json.read [53]).toOption.map Json.kind = some .number := by decide +kernel
  have hcut : (Json.read [123]).isOk = false := by decide +kernel
  have hnot : ∀ v, Json.read [123] ≠ .ok v := by
    intro v hv
    rw [hv] at hcut
    cases hcut
  refine ⟨l, hl, hcontents [53] (by decide +kernel) ?_, ?_⟩
  · intro v hv hshape
    rw [hv] at hnumber
    obtain ⟨items, rfl⟩ | ⟨paper, sections, hpaper, -⟩ := hshape
    · cases hnumber
    · cases v with
      | object fields => cases hnumber
      | _ => cases hpaper
  · obtain ⟨hreported, -⟩ := hsources [123] (by decide +kernel)
      fun v hv => absurd hv (hnot v)
    obtain ⟨v, hv, -⟩ | hwarns := hreported (.inr hnot)
    · exact absurd hv (hnot v)
    · exact hwarns

def references : List UInt8 := Text.bytes <| String.toList <|
  "\x7b\"title\": \"References\", \"id\": \"references\", " ++
    "\"content\": \"\\\\bibitem\x7bk\x7d K.\"\x7d"

def renamed : Disk where
  look path := if path = "content/refs.json" then .file references else .nothing .missing
  names path := if path = "content" then .ok ["refs.json"] else .error .missing

theorem exists_bibliography_passed_over :
    let s : Settings := { bibliography := "refs.json" }
    ∃ l bytes, load renamed "content" s = .ok l ∧
      renamed.look (bibliographyPath "content" s) = .file bytes ∧
      (∀ v, Json.read bytes = .ok v → ¬ v.IsArray) ∧
      ¬ ((∃ v, Json.read bytes = .ok v ∧ l.value.sources = (bibitems s v).value) ∨
        l.Warns "P-3-1") := by
  intro s
  have hload : (load renamed "content" s).toOption.map
      (fun l => (l.value.sources, l.findings.length)) = some ([], 0) := by decide +kernel
  have hread : (Json.read references).toOption.map
      (fun v => (v.kind, (bibitems s v).value)) = some (.object, [⟨"k", "K."⟩]) := by
    decide +kernel
  have hvalue : ∀ v, Json.read references = .ok v →
      v.kind = .object ∧ (bibitems s v).value = [⟨"k", "K."⟩] := by
    intro v hv
    simpa [hv, Except.toOption] using hread
  obtain ⟨l, hl, hload⟩ := exists_of_toOption_map hload
  obtain ⟨hsources, hfindings⟩ : l.value.sources = [] ∧ l.findings = [] := by
    simpa using hload
  refine ⟨l, references, hl, by decide +kernel, ?_, ?_⟩
  · rintro v hv ⟨items, rfl⟩
    obtain ⟨hkind, -⟩ := hvalue _ hv
    cases hkind
  · rintro (⟨v, hv, hused⟩ | ⟨g, hg, -⟩)
    · rw [hsources, (hvalue v hv).2] at hused
      cases hused
    · rw [Loaded.diagnostics, hfindings] at hg
      cases hg

end Paper
end Manuscript
