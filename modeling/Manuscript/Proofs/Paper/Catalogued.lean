import Manuscript.Document.Report
import Manuscript.Proofs.Paper.Findings
import Manuscript.Proofs.Text.Bytes

/-! What the diagnostics of a paper have in common. Whatever is reported, by a loader of records, while a
folder is loaded or for a token of a document, is a warning that the catalogue has, with a problem and a
place in one of the files at hand. -/
namespace Manuscript

variable {files : List String}

theorem Code.ofText?_text (c : Code) : ofText? c.text = some c := by
  cases c <;> rfl

/-- A warning about one of these files that says what is wrong, under a code of the catalogue and its
title. -/
structure Diagnostic.Catalogued (files : List String) (g : Diagnostic) : Prop where
  severity : g.severity = .warning
  problem : ∃ m, g.problem = some m ∧ m.text ≠ ""
  location : ∃ l, g.location = some l ∧ l.file ∈ files
  entry : ∃ text c, g.code = some text ∧ Code.ofText? text = some c ∧ c.title = g.title ∧
    g.docs? = some c.docs

theorem Finding.problem_ne_empty (f : Finding) : f.problem ≠ "" := by
  intro h
  have hlist : f.problem.toList = [] := by rw [h]; rfl
  cases f <;> delta problem at hlist <;> simp at hlist

theorem Finding.catalogued {f : Finding} (h : f.location.file ∈ files) :
    f.diagnostic.Catalogued files := by
  rw [diagnostic_eq]
  refine ⟨rfl, ⟨_, rfl, f.problem_ne_empty⟩, ⟨_, rfl, h⟩, f.code.text, f.code, rfl,
    f.code.ofText?_text, rfl, ?_⟩
  simp [Diagnostic.docs?, Code.ofText?_text]

theorem Loaded.catalogued {α : Type} {l : Loaded α} (h : ∀ f ∈ l.findings, f.location.file ∈ files) :
    ∀ g ∈ l.diagnostics, g.Catalogued files := by
  intro g hg
  obtain ⟨f, hf, rfl⟩ := List.mem_map.mp hg
  exact Finding.catalogued (h f hf)

theorem Loaded.catalogued_of_place {α : Type} {l : Loaded α} {origin : Finding.Origin}
    {file : String} (h : ∀ {f}, f ∈ l.findings → f.place = (origin, file)) :
    ∀ g ∈ l.diagnostics, g.Catalogued [file] := by
  apply Loaded.catalogued
  intro f hf
  rw [List.mem_singleton]
  exact congrArg Prod.snd (h hf)

theorem Document.file_of_mem_unresolved {d : Document} {u : Unresolved} (h : u ∈ d.unresolved) :
    u.file ∈ d.files := by
  obtain ⟨s, hs, hu⟩ := List.mem_flatMap.mp h
  obtain ⟨b, -, hu⟩ := List.mem_flatMap.mp hu
  obtain ⟨span, -, hu⟩ := List.mem_filterMap.mp hu
  have hfile : u.file = s.file := by
    cases span with
    | missingCitation key => cases hu; rfl
    | missingReference target => cases hu; rfl
    | _ => cases hu
  exact List.mem_map.mpr ⟨s, hs, hfile.symm⟩

theorem Document.catalogued (d : Document) :
    ∀ g ∈ d.findings.map Finding.diagnostic, g.Catalogued d.files := by
  intro g hg
  obtain ⟨f, hf, rfl⟩ := List.mem_map.mp hg
  obtain ⟨u, hu, rfl⟩ := List.mem_map.mp hf
  apply Finding.catalogued
  have hfile : u.finding.location.file = u.file := by
    obtain ⟨file, sectionId, kind, identifier⟩ := u
    cases kind <;> rfl
  rw [hfile]
  exact file_of_mem_unresolved hu

namespace Paper

variable {d : Disk} {folder : String} {s : Settings} {l : Loaded Paper}

def filesAbout (folder : String) (s : Settings) (found : List File) : List String :=
  (found.flatMap sectionPlaces ++ contentsPlaces folder s ++ sourcesPlaces folder s).map Prod.snd

theorem file_of_mem_findings (h : load d folder s = .ok l) : ∃ found,
    sectionFiles d folder s = .ok found ∧
      ∀ f ∈ l.findings, f.location.file ∈ filesAbout folder s found := by
  obtain ⟨found, contents, sources, hfound, hcontents, hsources, rfl⟩ := parts_of_load h
  refine ⟨found, hfound, ?_⟩
  intro f hf
  have hplace : f.place ∈
      found.flatMap sectionPlaces ++ contentsPlaces folder s ++ sourcesPlaces folder s := by
    simp only [List.mem_append] at hf ⊢
    obtain ((hf | hf) | hf) | hf := hf
    · exact .inl (.inl (place_of_mem_readSections hf))
    · exact .inl (.inr ((readsContents hcontents).place_mem hf))
    · rw [place_of_mem_orDerived hf]
      exact .inl (.inr List.mem_cons_self)
    · exact .inr ((readsSources hsources).place_mem hf)
  exact List.mem_map_of_mem hplace

end Paper

/-- Every diagnostic is a warning that the catalogue has: those of a table of contents, a section file
or a bibliography, those of a whole folder, and those of any document. -/
theorem diagnostics_catalogued :
    (∀ v, ∀ g ∈ (Record.loadContents v).diagnostics, g.Catalogued ["toc"]) ∧
    (∀ file v, ∀ g ∈ (Record.loadSection file v).diagnostics, g.Catalogued [file]) ∧
    (∀ v, ∀ g ∈ (Record.loadBibliography v).diagnostics, g.Catalogued ["bibliography"]) ∧
    (∀ d folder s l, Paper.load d folder s = .ok l → ∃ found,
      Paper.sectionFiles d folder s = .ok found ∧
        ∀ g ∈ l.diagnostics, g.Catalogued (Paper.filesAbout folder s found)) ∧
    ∀ d : Document, ∀ g ∈ d.findings.map Finding.diagnostic, g.Catalogued d.files := by
  refine ⟨?_, ?_, ?_, ?_, Document.catalogued⟩
  · intro v
    exact Loaded.catalogued_of_place Record.place_of_mem_loadContents
  · intro file v
    exact Loaded.catalogued_of_place Record.place_of_mem_loadSection
  · intro v
    exact Loaded.catalogued_of_place Record.place_of_mem_loadBibliography
  · intro d folder s l hl
    obtain ⟨found, hfound, hfile⟩ := Paper.file_of_mem_findings hl
    exact ⟨found, hfound, Loaded.catalogued hfile⟩

def draft : Disk where
  look path :=
    if path = "p/a.json" then .file <| Text.bytes <| String.toList <|
      "\x7b\"id\": \"s\", \"content\": [\"[cite:k]\", null]\x7d"
    else .nothing .missing
  names path := if path = "p" then .ok ["a.json"] else .error .missing

theorem diagnostics_catalogued_draft :
    (Finding.contentsNotArray .null).diagnostic.Catalogued ["toc"] ∧
    (Finding.fileNotRecord "a" .null).diagnostic.Catalogued ["a"] ∧
    (Finding.bibliographyNotArray .null).diagnostic.Catalogued ["bibliography"] ∧
    ∃ l found, Paper.load draft "p" {} = .ok l ∧ Paper.sectionFiles draft "p" {} = .ok found ∧
      l.diagnostics.map Diagnostic.code = [some "P-2-1", some "P-1-4"] ∧
      (∀ g ∈ l.diagnostics, g.Catalogued (Paper.filesAbout "p" {} found)) ∧
      (l.value.document.findings.map Finding.diagnostic).map Diagnostic.code = [some "P-4-1"] ∧
      ∀ g ∈ l.value.document.findings.map Finding.diagnostic,
        g.Catalogued l.value.document.files := by
  obtain ⟨hcontents, hsection, hsources, hload, hdocument⟩ := diagnostics_catalogued
  have hcodes : (Paper.load draft "p" {}).toOption.map (fun l => (l.diagnostics.map Diagnostic.code,
      (l.value.document.findings.map Finding.diagnostic).map Diagnostic.code)) =
        some ([some "P-2-1", some "P-1-4"], [some "P-4-1"]) := by decide +kernel
  obtain ⟨l, hl, hcodes⟩ := Paper.exists_of_toOption_map hcodes
  obtain ⟨found, hfound, hfolder⟩ := hload draft "p" {} l hl
  rw [Prod.mk.injEq] at hcodes
  refine ⟨hcontents .null _ (List.mem_singleton_self _),
    hsection "a" .null _ (List.mem_singleton_self _), hsources .null _ (List.mem_singleton_self _),
    l, found, hl, hfound, hcodes.1, hfolder, hcodes.2, hdocument l.value.document⟩

end Manuscript
