import Manuscript.Proofs.Paper.Load
import Manuscript.Proofs.Record.Findings

/-! Findings of a loaded paper. What reports them and which files they are about, for its sections, its
table of contents and its bibliography. -/
namespace Manuscript.Paper

open Finding (Origin)

variable {d : Disk} {folder path : String} {s : Settings} {record : RecordFile} {g : Finding}

def sectionPlaces (f : File) : List (Origin × String) :=
  [(.bytes .sectionRecord, f.stem), (.sections, f.stem)]

def contentsPlaces (folder : String) (s : Settings) : List (Origin × String) :=
  let file := Path.stem (contentsPath folder s)
  [(.folder, file), (.bytes .contents, file), (.contents, "toc")]

def sourcesPlaces (folder : String) (s : Settings) : List (Origin × String) :=
  [(.bytes .bibliography, Path.stem (bibliographyPath folder s)),
    (.bytes .bibliography, Path.stem (bibitemPath folder s)), (.sources, "bibliography"),
    (.sections, s.bibliographySection), (.folder, s.bibliographySection)]

theorem place_of_mem_readSection {f : File} (hg : g ∈ (readSection f).findings) :
    g.place ∈ sectionPlaces f := by
  simp only [readSection] at hg
  split at hg
  · rw [List.mem_singleton.mp hg]
    simp [sectionPlaces, Finding.place, Finding.origin, Finding.location]
  · rw [Record.place_of_mem_loadSection hg]
    simp [sectionPlaces]

theorem place_of_mem_readSections {found : List File} (hg : g ∈ (readSections found).findings) :
    g.place ∈ found.flatMap sectionPlaces := by
  obtain ⟨read, hread, hg⟩ := List.mem_flatMap.mp hg
  obtain ⟨file, hfile, rfl⟩ := List.mem_map.mp hread
  exact List.mem_flatMap.mpr ⟨file, hfile, place_of_mem_readSection hg⟩

theorem ReadsRecord.place_eq {r : Loaded (Option Json)} (h : ReadsRecord d record path r)
    (hg : g ∈ r.findings) : g.place = (.bytes record, Path.stem path) := by
  cases h with
  | missing => cases hg
  | value => cases hg
  | notJson =>
    rw [List.mem_singleton.mp hg]
    rfl

theorem ReadsContents.place_mem {c : Loaded Record.ContentsRecord} (h : ReadsContents d folder s c)
    (hg : g ∈ c.findings) : g.place ∈ contentsPlaces folder s := by
  cases h with
  | missing =>
    dsimp only at hg
    split at hg
    · cases hg
    · rw [List.mem_singleton.mp hg]
      simp [contentsPlaces, Finding.place, Finding.origin, Finding.location]
  | notJson =>
    rw [List.mem_singleton.mp hg]
    simp [contentsPlaces, Finding.place, Finding.origin, Finding.location]
  | value =>
    rw [Record.place_of_mem_loadContents hg]
    simp [contentsPlaces]

theorem place_of_mem_orDerived {content : Content} {headings : List Heading}
    (hg : g ∈ (orDerived folder s content headings).findings) :
    g.place = (.folder, Path.stem (contentsPath folder s)) := by
  unfold orDerived at hg
  split at hg
  · rw [List.mem_singleton.mp hg]
    rfl
  · cases hg

theorem place_of_mem_sectionSources {v : Option Json} (hg : g ∈ (sectionSources s v).findings) :
    g.place ∈ sourcesPlaces folder s := by
  cases v with
  | none => cases hg
  | some v =>
    rcases List.mem_append.mp hg with hg | hg
    · rw [Record.place_of_mem_loadSection hg]
      simp [sourcesPlaces]
    · split at hg
      · rw [List.mem_singleton.mp hg]
        simp [sourcesPlaces, Finding.place, Finding.origin, Finding.location]
      · cases hg

theorem ReadsSources.place_mem {b : Loaded (List Source)} (h : ReadsSources d folder s b)
    (hg : g ∈ b.findings) : g.place ∈ sourcesPlaces folder s := by
  cases h with
  | array =>
    rw [Record.place_of_mem_loadBibliography hg]
    simp [sourcesPlaces]
  | own hr =>
    rcases List.mem_append.mp hg with hg | hg
    · rw [hr.place_eq hg]
      simp [sourcesPlaces]
    · exact place_of_mem_sectionSources hg
  | other hr _ _ hr' =>
    rcases List.mem_append.mp hg with hg | hg
    · rcases List.mem_append.mp hg with hg | hg
      · rw [hr.place_eq hg]
        simp [sourcesPlaces]
      · rw [hr'.place_eq hg]
        simp [sourcesPlaces]
    · exact place_of_mem_sectionSources hg

theorem countP_eq_zero {tells : Finding → Bool} {findings : List Finding}
    (h : ∀ g ∈ findings, tells g = false) : findings.countP tells = 0 := by
  rw [List.countP_eq_zero]
  intro g hg
  rw [h g hg]
  exact Bool.false_ne_true

theorem countP_diagnostics {α : Type} (l : Loaded α) {tells : Finding → Bool}
    {said : Diagnostic → Prop} [DecidablePred said]
    (h : ∀ g, tells g = true ↔ said g.diagnostic) :
    l.diagnostics.countP (fun g => said g) = l.findings.countP tells := by
  rw [Loaded.diagnostics, List.countP_map]
  apply List.countP_congr
  intro g _
  rw [Function.comp_apply, decide_eq_true_eq, h]

end Manuscript.Paper
