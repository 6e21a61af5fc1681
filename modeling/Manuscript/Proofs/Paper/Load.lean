import Manuscript.Paper

/-! Papers that were loaded. A record file is missing, is not JSON or holds a value; the table of
contents comes of one record and the bibliography of one or two, so there are few cases of each. -/
namespace Manuscript.Paper

open Record.SectionRecord (bind_eq_ok)

variable {d : Disk} {folder path : String} {s : Settings} {record : RecordFile}

inductive ReadsRecord (d : Disk) (record : RecordFile) (path : String) :
    Loaded (Option Json) → Prop
  | missing {why : Fault} : d.look path = .nothing why → ReadsRecord d record path ⟨none, []⟩
  | notJson {bytes : List UInt8} {e : Json.SyntaxError} : d.look path = .file bytes →
      Json.read bytes = .error e →
      ReadsRecord d record path ⟨none, [.notJson record path e (Path.stem path)]⟩
  | value {bytes : List UInt8} {v : Json} : d.look path = .file bytes →
      Json.read bytes = .ok v → ReadsRecord d record path ⟨some v, []⟩

theorem readsRecord {r : Loaded (Option Json)} (h : readRecord d record path = .ok r) :
    ReadsRecord d record path r := by
  unfold readRecord at h
  split at h
  · next why hlook =>
    cases h
    exact .missing hlook
  · cases h
  · cases h
  · next bytes hlook =>
    split at h
    · next e hread =>
      cases h
      exact .notJson hlook hread
    · next v hread =>
      cases h
      exact .value hlook hread

inductive ReadsContents (d : Disk) (folder : String) (s : Settings) :
    Loaded Record.ContentsRecord → Prop
  | missing {why : Fault} : d.look (contentsPath folder s) = .nothing why →
      ReadsContents d folder s ⟨⟨[], none⟩, if s.deriveContents then [] else
        [.contentsMissing s.contents (Path.stem (contentsPath folder s))]⟩
  | notJson {bytes : List UInt8} {e : Json.SyntaxError} :
      d.look (contentsPath folder s) = .file bytes → Json.read bytes = .error e →
      ReadsContents d folder s ⟨⟨[], none⟩,
        [.notJson .contents (contentsPath folder s) e (Path.stem (contentsPath folder s))]⟩
  | value {bytes : List UInt8} {v : Json} : d.look (contentsPath folder s) = .file bytes →
      Json.read bytes = .ok v → ReadsContents d folder s (Record.loadContents v)

theorem readsContents {c : Loaded Record.ContentsRecord} (h : readContents d folder s = .ok c) :
    ReadsContents d folder s c := by
  obtain ⟨r, hr, h⟩ := bind_eq_ok h
  cases readsRecord hr with
  | missing hlook =>
    cases h
    have hhas : d.has (contentsPath folder s) = false := by simp [Disk.has, hlook]
    have hcase := ReadsContents.missing (s := s) hlook
    cases hderive : s.deriveContents <;> simpa [hhas, hderive] using hcase
  | notJson hlook hread =>
    cases h
    have hhas : d.has (contentsPath folder s) = true := by simp [Disk.has, hlook]
    simpa [hhas] using ReadsContents.notJson (s := s) hlook hread
  | value hlook hread =>
    cases h
    exact .value hlook hread

def sectionSources (s : Settings) : Option Json → Loaded (List Source)
  | none => ⟨[], []⟩
  | some v => bibitems s v

inductive ReadsSources (d : Disk) (folder : String) (s : Settings) : Loaded (List Source) → Prop
  | array {bytes : List UInt8} {items : List Json} :
      d.look (bibliographyPath folder s) = .file bytes → Json.read bytes = .ok (.array items) →
      ReadsSources d folder s (Record.loadBibliography (.array items))
  | own {r : Loaded (Option Json)} : ReadsRecord d .bibliography (bibliographyPath folder s) r →
      (∀ items, r.value ≠ some (.array items)) →
      Path.same (bibitemPath folder s) (bibliographyPath folder s) = true →
      ReadsSources d folder s
        ⟨(sectionSources s r.value).value, r.findings ++ (sectionSources s r.value).findings⟩
  | other {r r' : Loaded (Option Json)} :
      ReadsRecord d .bibliography (bibliographyPath folder s) r →
      (∀ items, r.value ≠ some (.array items)) →
      Path.same (bibitemPath folder s) (bibliographyPath folder s) = false →
      ReadsRecord d .bibliography (bibitemPath folder s) r' →
      ReadsSources d folder s ⟨(sectionSources s r'.value).value,
        r.findings ++ r'.findings ++ (sectionSources s r'.value).findings⟩

theorem readsSources {b : Loaded (List Source)} (h : readSources d folder s = .ok b) :
    ReadsSources d folder s b := by
  obtain ⟨⟨value, findings⟩, hr, h⟩ := bind_eq_ok h
  have hrecord := readsRecord hr
  dsimp only at h
  split at h
  · next items =>
    cases hrecord with
    | value hlook hread =>
      cases h
      exact .array hlook hread
  · next hno =>
    have hnone : ∀ items, value ≠ some (.array items) := fun items hv => hno items hv
    split at h
    · next hsame =>
      have hcase := ReadsSources.own hrecord hnone hsame
      cases value <;> cases h <;> simpa [sectionSources] using hcase
    · next hsame =>
      obtain ⟨⟨value', findings'⟩, hr', h⟩ := bind_eq_ok h
      have hcase := ReadsSources.other hrecord hnone (by simpa using hsame) (readsRecord hr')
      cases value' <;> cases h <;> simpa [sectionSources] using hcase

theorem parts_of_load {l : Loaded Paper} (h : load d folder s = .ok l) :
    ∃ files contents sources, sectionFiles d folder s = .ok files ∧
      readContents d folder s = .ok contents ∧ readSources d folder s = .ok sources ∧
      let content := readSections files
      let headings := orDerived folder s content.value contents.value.headings
      l = ⟨⟨headings.value.1, headings.value.2, contents.value.paper, sources.value,
          content.value⟩,
        content.findings ++ contents.findings ++ headings.findings ++ sources.findings⟩ := by
  obtain ⟨files, hfiles, h⟩ := bind_eq_ok h
  obtain ⟨contents, hcontents, h⟩ := bind_eq_ok h
  obtain ⟨sources, hsources, h⟩ := bind_eq_ok h
  cases h
  exact ⟨files, contents, sources, hfiles, hcontents, hsources, rfl⟩

theorem sectionFiles_of_sorted {names : List FileName} (hnames : d.names folder = .ok names)
    (hsorted : names.Pairwise fun a b => (!decide (b.bytes < a.bytes)) = true) :
    sectionFiles d folder s =
      ((names.filter (isSection folder s)).mapM (readFile d folder)).map (·.filterMap id) := by
  simp only [sectionFiles, hnames, List.mergeSort_of_pairwise hsorted]
  rfl

theorem exists_of_toOption_map {r : Except ε α} {part : α → β} {b : β}
    (h : r.toOption.map part = some b) : ∃ a, r = .ok a ∧ part a = b := by
  cases r with
  | error e => cases h
  | ok a => exact ⟨a, rfl, Option.some.inj h⟩

theorem exists_of_isOk {r : Except ε α} (h : r.isOk = true) : ∃ a, r = .ok a := by
  cases r with
  | error e => exact absurd h Bool.false_ne_true
  | ok a => exact ⟨a, rfl⟩

end Manuscript.Paper
